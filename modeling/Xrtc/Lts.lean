import Mathlib.Data.List.Induction
/-!
# Lts — systems given by a partial step function

A system is a step function `S → L → Option S`: the label says which thread moves and what its environment answers,
`none` says the step is not enabled.  `run` executes a list of labels; `Via ok` collects the states reached by steps
that all satisfy `ok`; `Reachable` is `Via` without a condition.  Every invariant of the development is proved through
`Via.invariant`.
-/
namespace Xrtc
namespace Lts

universe u v

variable {S : Type u} {L : Type v}

/-- Execute the labels in order; `none` when one of them is not enabled. -/
def run (step : S → L → Option S) : S → List L → Option S
  | s, [] => some s
  | s, l :: ls => (step s l).bind (fun s' => run step s' ls)

/-- The states reached from `s₀` by steps that all satisfy `ok` in the state they start from. -/
inductive Via (step : S → L → Option S) (ok : S → L → Prop) (s₀ : S) : S → Prop
  | start : Via step ok s₀ s₀
  | next {s s' : S} {l : L} : Via step ok s₀ s → ok s l → step s l = some s' → Via step ok s₀ s'

def Reachable (step : S → L → Option S) (s₀ : S) : S → Prop := Via step (fun _ _ => True) s₀

/-- **The invariant rule**: what holds at the start and is kept by every admitted step holds in every state reached. -/
theorem Via.invariant {step : S → L → Option S} {ok : S → L → Prop} {s₀ s : S} {I : S → Prop} (h0 : I s₀)
    (hstep : ∀ s l s', I s → ok s l → step s l = some s' → I s') (h : Via step ok s₀ s) : I s := by
  induction h with
  | start => exact h0
  | next _ hok hs ih => exact hstep _ _ _ ih hok hs

theorem Reachable.invariant {step : S → L → Option S} {s₀ s : S} {I : S → Prop} (h0 : I s₀)
    (hstep : ∀ s l s', I s → step s l = some s' → I s') (h : Reachable step s₀ s) : I s :=
  Via.invariant h0 (fun s l s' hi _ => hstep s l s' hi) h

theorem run_append (step : S → L → Option S) : ∀ (s : S) (ls ms : List L),
    run step s (ls ++ ms) = (run step s ls).bind (fun s' => run step s' ms)
  | s, [], ms => rfl
  | s, l :: ls, ms => by
    rw [List.cons_append, run, run, Option.bind_assoc]
    congr 1
    funext s'
    exact run_append step s' ls ms

/-- **The run rule**: an invariant that may also speak of the labels executed so far. -/
theorem run_invariant {step : S → L → Option S} {s₀ : S} {I : List L → S → Prop} (h0 : I [] s₀)
    (hstep : ∀ ls s l s', I ls s → step s l = some s' → I (ls ++ [l]) s') :
    ∀ (ls : List L) (s : S), run step s₀ ls = some s → I ls s := by
  intro ls
  induction ls using List.reverseRecOn with
  | nil =>
    intro s h
    simp only [run, Option.some.injEq] at h
    exact h ▸ h0
  | append_singleton ls l ih =>
    intro s h
    rw [run_append] at h
    obtain ⟨s₁, h1, h2⟩ := Option.bind_eq_some_iff.1 h
    obtain ⟨s₂, h3, h4⟩ := Option.bind_eq_some_iff.1 h2
    simp only [run, Option.some.injEq] at h4
    exact h4 ▸ hstep ls s₁ l s₂ (ih s₁ h1) h3

/-- The system held to the condition: a step that does not satisfy it is not enabled. -/
def guarded (ok : S → L → Prop) [∀ s l, Decidable (ok s l)] (step : S → L → Option S) (s : S) (l : L) : Option S :=
  if ok s l then step s l else none

/-- A state an explicit run under the condition ends in is reached. -/
theorem Via.of_run {step : S → L → Option S} {ok : S → L → Prop} [∀ s l, Decidable (ok s l)] {s₀ : S} :
    ∀ {ls : List L} {s s' : S}, Via step ok s₀ s → run (guarded ok step) s ls = some s' → Via step ok s₀ s'
  | [], s, s', h, hr => by
    simp only [run, Option.some.injEq] at hr
    exact hr ▸ h
  | l :: ls, s, s', h, hr => by
    obtain ⟨s₁, h1, h2⟩ := Option.bind_eq_some_iff.1 hr
    unfold guarded at h1
    split at h1
    · rename_i hok
      exact Via.of_run (.next h hok h1) h2
    · cases h1

theorem run_congr {step step' : S → L → Option S} (h : ∀ s l, step s l = step' s l) (s : S) (ls : List L) :
    run step s ls = run step' s ls := by
  have hfun : step = step' := by
    funext s l
    exact h s l
  rw [hfun]

theorem guarded_true (step : S → L → Option S) (s : S) (l : L) : guarded (fun _ _ => True) step s l = step s l :=
  if_pos trivial

/-- A state an explicit run ends in is reachable. -/
theorem Reachable.of_run {step : S → L → Option S} {s₀ s : S} {ls : List L} (h : run step s₀ ls = some s) :
    Reachable step s₀ s := by
  have hrun : run (guarded (fun _ _ => True) step) s₀ ls = some s := by
    rw [run_congr (fun s l => guarded_true step s l) s₀ ls]
    exact h
  exact Via.of_run .start hrun

/-- A run from a reachable state stays among them. -/
theorem Reachable.run {step : S → L → Option S} {s₀ : S} : ∀ {ls : List L} {s s' : S}, Reachable step s₀ s →
    Lts.run step s ls = some s' → Reachable step s₀ s'
  | [], s, s', h, hr => by
    simp only [Lts.run, Option.some.injEq] at hr
    exact hr ▸ h
  | l :: ls, s, s', h, hr => by
    obtain ⟨s₁, h1, h2⟩ := Option.bind_eq_some_iff.1 hr
    exact Reachable.run (Via.next h trivial h1) h2

end Lts
end Xrtc
