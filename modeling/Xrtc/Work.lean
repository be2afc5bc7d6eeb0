import Xrtc.Lts
import Mathlib.Algebra.BigOperators.Group.List.Basic
import Mathlib.Algebra.GroupWithZero.Nat
/-!
# Work — systems whose own steps use up what there is to do

The labels of a system are its own moves and its inputs.  Where every own move does one unit of work and every input
adds its price (`Ledger`), a run of own moves is as long as the work it does, whatever the scheduler chooses, and comes
to a point where no move is left.
-/
namespace Xrtc
namespace Lts

universe u v

variable {S : Type u} {L : Type v}

/-- No own move is enabled. -/
def Settled (step : S → L → Option S) (own : L → Bool) (s : S) : Prop := ∀ l, own l = true → step s l = none

/-- The books of a system in the states of `I`: one unit for each own move, a price for each label. -/
structure Ledger (step : S → L → Option S) (I : S → Prop) (own : L → Bool) (price : L → Nat) (work : S → Nat) : Prop where
  keeps : ∀ s l s', I s → step s l = some s' → I s'
  pays : ∀ s l s', I s → step s l = some s' → (if own l then 1 else 0) + work s' = work s + price l
  free : ∀ l, own l = true → price l = 0

namespace Ledger

variable {step : S → L → Option S} {I : S → Prop} {own : L → Bool} {price : L → Nat} {work : S → Nat}

/-- **The books of a run**: moves made and work left are the work at the start and the prices of the inputs. -/
theorem run (b : Ledger step I own price work) : ∀ (ls : List L) (s s' : S), I s → Lts.run step s ls = some s' →
    I s' ∧ ls.countP own + work s' = work s + (ls.map price).sum
  | [], s, s', hi, h => by
    simp only [Lts.run, Option.some.injEq] at h
    subst h
    exact ⟨hi, by simp⟩
  | l :: ls, s, s', hi, h => by
    obtain ⟨s₁, h1, h2⟩ := Option.bind_eq_some_iff.1 h
    obtain ⟨hi', hrest⟩ := b.run ls s₁ s' (b.keeps s l s₁ hi h1) h2
    have hone := b.pays s l s₁ hi h1
    refine ⟨hi', ?_⟩
    rw [List.countP_cons, List.map_cons, List.sum_cons]
    omega

theorem price_own (b : Ledger step I own price work) : ∀ {ls : List L}, (∀ l ∈ ls, own l = true) →
    (ls.map price).sum = 0
  | [], _ => rfl
  | l :: ls, h => by
    rw [List.map_cons, List.sum_cons, b.free l (h l List.mem_cons_self),
      b.price_own (fun l' hl => h l' (List.mem_cons_of_mem _ hl))]

/-- **A run of own moves is as long as the work it does.** -/
theorem run_own (b : Ledger step I own price work) {ls : List L} {s s' : S} (hi : I s) (hown : ∀ l ∈ ls, own l = true)
    (h : Lts.run step s ls = some s') : I s' ∧ ls.length + work s' = work s := by
  obtain ⟨hi', hsum⟩ := b.run ls s s' hi h
  rw [b.price_own hown, List.countP_eq_length.2 hown] at hsum
  exact ⟨hi', hsum⟩

/-- Where no work is left no move is. -/
theorem settled_of_zero (b : Ledger step I own price work) {s : S} (hi : I s) (hw : work s = 0) : Settled step own s := by
  intro l hl
  cases hs : step s l with
  | none => rfl
  | some s' =>
    have hone := b.pays s l s' hi hs
    rw [if_pos hl, b.free l hl, hw] at hone
    omega

/-- **Whatever is chosen at each move, the moves come to an end.** -/
theorem exists_run (b : Ledger step I own price work) : ∀ (k : Nat) (s : S), I s → work s = k →
    ∃ ls s', (∀ l ∈ ls, own l = true) ∧ Lts.run step s ls = some s' ∧ Settled step own s'
  | 0, s, hi, hk => ⟨[], s, List.forall_mem_nil _, rfl, b.settled_of_zero hi hk⟩
  | k + 1, s, hi, hk => by
    by_cases hset : Settled step own s
    · exact ⟨[], s, List.forall_mem_nil _, rfl, hset⟩
    · have hmove : ∃ l, own l = true ∧ step s l ≠ none := by
        by_contra hnone
        refine hset (fun l hl => ?_)
        by_contra hne
        exact hnone ⟨l, hl, hne⟩
      obtain ⟨l, hl, hne⟩ := hmove
      obtain ⟨s₁, hs⟩ := Option.ne_none_iff_exists'.1 hne
      have hone := b.pays s l s₁ hi hs
      rw [if_pos hl, b.free l hl] at hone
      obtain ⟨ls, s', hown, hrun, hset'⟩ := b.exists_run k s₁ (b.keeps s l s₁ hi hs) (by omega)
      refine ⟨l :: ls, s', List.forall_mem_cons.2 ⟨hl, hown⟩, ?_, hset'⟩
      rw [Lts.run, hs, Option.bind_some, hrun]

end Ledger
end Lts
end Xrtc
