import Mathlib.Logic.Function.Basic
/-!
# Mutexes — who has which lock

`owner` is the lock table of a system, `holds` what can be read off the places its frames are at: a frame is an
activation on some stack, so that one thread may have several.  A mutex is not reentrant, whoever asks.  `Consistent`
says that the two agree; locking a free mutex and unlocking one's own keep it.
-/
namespace Xrtc
namespace Mutexes

variable {M F : Type} {owner : M → Option F} {holds holds' : F → M → Prop} {m : M} {f : F}

def Consistent (owner : M → Option F) (holds : F → M → Prop) : Prop := ∀ m f, owner m = some f ↔ holds f m

theorem Consistent.free_iff (h : Consistent owner holds) : owner m = none ↔ ∀ f, ¬holds f m := by
  constructor
  · intro hfree f hf
    rw [(h m f).2 hf] at hfree
    cases hfree
  · intro hno
    cases ho : owner m with
    | none => rfl
    | some f => exact absurd ((h m f).1 ho) (hno f)

/-- **Mutual exclusion.** -/
theorem Consistent.exclusive (h : Consistent owner holds) {f' : F} (hf : holds f m) (hf' : holds f' m) : f = f' := by
  have ho := (h m f).2 hf
  rw [(h m f').2 hf', Option.some.injEq] at ho
  exact ho.symm

theorem Consistent.congr (h : Consistent owner holds) (hsame : ∀ f m, holds' f m ↔ holds f m) : Consistent owner holds' :=
  fun m f => (h m f).trans (hsame f m).symm

variable [DecidableEq M]

theorem Consistent.lock (h : Consistent owner holds) (hfree : owner m = none)
    (hnew : ∀ f' m', holds' f' m' ↔ holds f' m' ∨ (f' = f ∧ m' = m)) :
    Consistent (Function.update owner m (some f)) holds' := by
  intro m' f'
  rw [hnew]
  by_cases hm : m' = m
  · subst hm
    have hno := h.free_iff.1 hfree f'
    rw [Function.update_self, Option.some.injEq]
    exact ⟨fun he => .inr ⟨he.symm, rfl⟩, fun hor => (hor.resolve_left hno).1.symm⟩
  · rw [Function.update_of_ne hm, h m' f']
    exact ⟨.inl, fun hor => hor.resolve_right (fun he => hm he.2)⟩

theorem Consistent.unlock (h : Consistent owner holds) (hf : holds f m)
    (hnew : ∀ f' m', holds' f' m' ↔ holds f' m' ∧ ¬(f' = f ∧ m' = m)) :
    Consistent (Function.update owner m none) holds' := by
  intro m' f'
  rw [hnew]
  by_cases hm : m' = m
  · subst hm
    rw [Function.update_self]
    refine ⟨fun he => (nomatch he), fun ⟨hf', hne⟩ => absurd ⟨h.exclusive hf' hf, rfl⟩ hne⟩
  · rw [Function.update_of_ne hm, h m' f']
    exact ⟨fun hf' => ⟨hf', fun he => hm he.2⟩, fun hf' => hf'.1⟩

end Mutexes
end Xrtc
