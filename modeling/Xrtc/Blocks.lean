import Mathlib.Algebra.GroupWithZero.Nat
import Mathlib.Data.List.Nodup
import Mathlib.Data.List.Perm.Basic
import Mathlib.Logic.Function.Basic
/-!
# Blocks — allocated blocks with owners that may go away

A block is numbered when it is allocated and joins the back of its owner's queue.  An owner releases blocks from the
front of its queue, or goes away and leaves what it had allocated, nobody's.  `Kept` is what the books say at any time:
every block is in one place, once, and no queue is out of order.
-/
namespace Xrtc
namespace Blocks

variable {O : Type}

inductive Op (O : Type) where
  | alloc (o : O)
  | release (o : O) (k : Nat)
  | abandon (o : O)
  deriving DecidableEq

inductive Place (O : Type) where
  | owned (o : O)
  | freed
  | lost
  deriving DecidableEq

/-- Where the blocks numbered below `made` are. -/
structure Books (O : Type) where
  made : Nat
  held : Place O → List Nat

def empty : Books O := ⟨0, fun _ => []⟩

section Ops
variable [DecidableEq O]

/-- The first `k` blocks of `p` go to the back of `q`. -/
def Books.move (b : Books O) (p q : Place O) (k : Nat) : Books O :=
  { b with held := Function.update (Function.update b.held p ((b.held p).drop k)) q (b.held q ++ (b.held p).take k) }

def Books.alloc (b : Books O) (o : O) : Books O :=
  { made := b.made + 1, held := Function.update b.held (.owned o) (b.held (.owned o) ++ [b.made]) }

def Books.apply (b : Books O) : Op O → Books O
  | .alloc o => b.alloc o
  | .release o k => b.move (.owned o) .freed k
  | .abandon o => b.move (.owned o) .lost (b.held (.owned o)).length

def Books.applyAll (b : Books O) (ops : List (Op O)) : Books O := ops.foldl Books.apply b

@[simp] theorem Books.applyAll_nil (b : Books O) : b.applyAll [] = b := rfl

@[simp] theorem Books.applyAll_cons (b : Books O) (op : Op O) (ops : List (Op O)) :
    b.applyAll (op :: ops) = (b.apply op).applyAll ops := rfl

theorem Books.applyAll_append (b : Books O) (ops ops' : List (Op O)) :
    b.applyAll (ops ++ ops') = (b.applyAll ops).applyAll ops' := List.foldl_append

end Ops

structure Kept (b : Books O) : Prop where
  here : ∀ m, m < b.made ↔ ∃ p, m ∈ b.held p
  one : ∀ p q m, m ∈ b.held p → m ∈ b.held q → p = q
  nodup : ∀ p, (b.held p).Nodup
  order : ∀ o, (b.held (.owned o)).Pairwise (· < ·)

theorem kept_empty : Kept (empty : Books O) :=
  ⟨fun m => ⟨fun h => absurd h (Nat.not_lt_zero m), fun ⟨_, h⟩ => absurd h List.not_mem_nil⟩,
    fun _ _ _ h => absurd h List.not_mem_nil, fun _ => List.nodup_nil, fun _ => List.Pairwise.nil⟩

section Rules
variable [DecidableEq O] {b : Books O}

theorem held_alloc_self (o : O) : (b.alloc o).held (.owned o) = b.held (.owned o) ++ [b.made] :=
  Function.update_self _ _ _

theorem held_alloc_of_ne {o : O} {x : Place O} (hx : x ≠ .owned o) : (b.alloc o).held x = b.held x :=
  Function.update_of_ne hx _ _

theorem held_move_target (p q : Place O) (k : Nat) : (b.move p q k).held q = b.held q ++ (b.held p).take k :=
  Function.update_self _ _ _

theorem held_move_source {p q : Place O} (hpq : p ≠ q) (k : Nat) : (b.move p q k).held p = (b.held p).drop k := by
  unfold Books.move
  simp only [Function.update_of_ne hpq, Function.update_self]

theorem held_move_of_ne {p q x : Place O} (hp : x ≠ p) (hq : x ≠ q) (k : Nat) : (b.move p q k).held x = b.held x := by
  unfold Books.move
  simp only [Function.update_of_ne hq, Function.update_of_ne hp]

theorem mem_held_alloc (o : O) (x : Place O) (m : Nat) :
    m ∈ (b.alloc o).held x ↔ m ∈ b.held x ∨ (x = .owned o ∧ m = b.made) := by
  by_cases hx : x = .owned o
  · subst hx
    simp [held_alloc_self]
  · simp [held_alloc_of_ne hx, hx]

/-- **The entry rule**: the number is new. -/
theorem Kept.alloc (h : Kept b) (o : O) : Kept (b.alloc o) := by
  have hnew : ∀ p, b.made ∉ b.held p := fun p hp => Nat.lt_irrefl _ ((h.here _).2 ⟨p, hp⟩)
  refine ⟨fun m => ?_, fun p q m hp hq => ?_, fun p => ?_, fun a => ?_⟩
  · simp only [mem_held_alloc]
    constructor
    · intro hm
      rcases Nat.lt_succ_iff_lt_or_eq.1 hm with hm | hm
      · obtain ⟨p, hp⟩ := (h.here m).1 hm
        exact ⟨p, .inl hp⟩
      · exact ⟨.owned o, .inr ⟨rfl, hm⟩⟩
    · rintro ⟨p, hp | ⟨-, rfl⟩⟩
      · exact Nat.lt_succ_of_lt ((h.here m).2 ⟨p, hp⟩)
      · exact Nat.lt_succ_self _
  · rcases (mem_held_alloc o p m).1 hp with hbp | ⟨hpo, hm⟩ <;>
      rcases (mem_held_alloc o q m).1 hq with hbq | ⟨hqo, hm'⟩
    · exact h.one p q m hbp hbq
    · exact absurd (hm' ▸ hbp) (hnew p)
    · exact absurd (hm ▸ hbq) (hnew q)
    · exact hpo.trans hqo.symm
  · by_cases hp : p = .owned o
    · subst hp
      rw [held_alloc_self, List.nodup_append]
      refine ⟨h.nodup _, List.nodup_singleton _, fun x hx y hy => ?_⟩
      rintro rfl
      exact hnew _ (List.mem_singleton.1 hy ▸ hx)
    · rw [held_alloc_of_ne hp]
      exact h.nodup p
  · by_cases ha : a = o
    · subst ha
      rw [held_alloc_self, List.pairwise_append]
      refine ⟨h.order a, List.pairwise_singleton _ _, fun x hx y hy => ?_⟩
      rw [List.mem_singleton.1 hy]
      exact (h.here x).2 ⟨_, hx⟩
    · rw [held_alloc_of_ne (by simpa using ha)]
      exact h.order a

theorem mem_held_move {p q : Place O} (hpq : p ≠ q) (k : Nat) (hnd : (b.held p).Nodup) (x : Place O) (m : Nat) :
    m ∈ (b.move p q k).held x ↔
      (m ∈ b.held x ∧ (x = p → m ∉ (b.held p).take k)) ∨ (x = q ∧ m ∈ (b.held p).take k) := by
  by_cases hxq : x = q
  · subst hxq
    simp [held_move_target, Ne.symm hpq]
  · by_cases hxp : x = p
    · subst hxp
      rw [held_move_source hxq]
      have hsplit := List.take_append_drop k (b.held x)
      have hdisj : ∀ y ∈ (b.held x).take k, y ∉ (b.held x).drop k := by
        rw [← hsplit, List.nodup_append] at hnd
        intro y hy hy'
        exact hnd.2.2 y hy y hy' rfl
      simp only [hxq, false_and, or_false, forall_const]
      constructor
      · exact fun hm => ⟨List.mem_of_mem_drop hm, fun ht => hdisj m ht hm⟩
      · rintro ⟨hm, ht⟩
        rw [← hsplit] at hm
        exact (List.mem_append.1 hm).resolve_left ht
    · simp [held_move_of_ne hxp hxq, hxp, hxq]

/-- **The hop rule**: what moves is taken from the front, and nobody is left with it. -/
theorem Kept.move (h : Kept b) {p q : Place O} (hpq : p ≠ q) (hq : ∀ o, q ≠ .owned o) (k : Nat) : Kept (b.move p q k) := by
  have hmem := fun x m => mem_held_move hpq k (h.nodup p) x m
  refine ⟨fun m => ?_, fun x y m hx hy => ?_, fun x => ?_, fun o => ?_⟩
  · rw [show (b.move p q k).made = b.made from rfl, h.here]
    simp only [hmem]
    constructor
    · rintro ⟨x, hx⟩
      by_cases ht : m ∈ (b.held p).take k
      · exact ⟨q, .inr ⟨rfl, ht⟩⟩
      · exact ⟨x, .inl ⟨hx, fun _ => ht⟩⟩
    · rintro ⟨x, ⟨hx, -⟩ | ⟨-, ht⟩⟩
      · exact ⟨x, hx⟩
      · exact ⟨p, List.mem_of_mem_take ht⟩
  · rcases (hmem x m).1 hx with ⟨hbx, hxp⟩ | ⟨hxq, ht⟩ <;> rcases (hmem y m).1 hy with ⟨hby, hyp⟩ | ⟨hyq, ht'⟩
    · exact h.one x y m hbx hby
    · exact absurd ht' (hxp (h.one x p m hbx (List.mem_of_mem_take ht')))
    · exact absurd ht (hyp (h.one y p m hby (List.mem_of_mem_take ht)))
    · exact hxq.trans hyq.symm
  · by_cases hxq : x = q
    · subst hxq
      rw [held_move_target, List.nodup_append]
      refine ⟨h.nodup x, (h.nodup p).sublist (List.take_sublist _ _), fun m hm m' hm' => ?_⟩
      rintro rfl
      exact hpq (h.one p x m (List.mem_of_mem_take hm') hm)
    · by_cases hxp : x = p
      · subst hxp
        rw [held_move_source hxq]
        exact (h.nodup x).sublist (List.drop_sublist _ _)
      · rw [held_move_of_ne hxp hxq]
        exact h.nodup x
  · have hoq : .owned o ≠ q := Ne.symm (hq o)
    by_cases hop : .owned o = p
    · subst hop
      rw [held_move_source hpq]
      exact (h.order o).sublist (List.drop_sublist _ _)
    · rw [held_move_of_ne hop hoq]
      exact h.order o

theorem Kept.apply (h : Kept b) (op : Op O) : Kept (b.apply op) := by
  cases op with
  | alloc o => exact h.alloc o
  | release o k => exact h.move (by simp) (by simp) k
  | abandon o => exact h.move (by simp) (by simp) _

theorem Kept.applyAll : ∀ (ops : List (Op O)) {b : Books O}, Kept b → Kept (b.applyAll ops)
  | [], _, h => h
  | op :: ops, _, h => Kept.applyAll ops (h.apply op)

end Rules

section Results
variable {b : Books O}

theorem Kept.exists_unique (h : Kept b) {m : Nat} (hm : m < b.made) : ∃! p, m ∈ b.held p := by
  obtain ⟨p, hp⟩ := (h.here m).1 hm
  exact ⟨p, hp, fun q hq => h.one q p m hq hp⟩

/-- **What becomes of a block**: it stays where it is, or its owner releases it, or its owner goes away. -/
theorem Kept.later [DecidableEq O] : ∀ (ops : List (Op O)) {b : Books O}, Kept b → ∀ {p : Place O} {m : Nat},
    m ∈ b.held p → m ∈ (b.applyAll ops).held p ∨ (∃ o, p = .owned o ∧ m ∈ (b.applyAll ops).held .freed) ∨
      ∃ o, p = .owned o ∧ Op.abandon o ∈ ops ∧ m ∈ (b.applyAll ops).held .lost
  | [], _, _, _, _, hm => .inl hm
  | op :: ops, b, h, p, m, hm => by
    have hnext : m ∈ (b.apply op).held p ∨ (∃ o, p = .owned o ∧ m ∈ (b.apply op).held .freed) ∨
        ∃ o, p = .owned o ∧ op = .abandon o ∧ m ∈ (b.apply op).held .lost := by
      cases op with
      | alloc o => exact .inl ((mem_held_alloc o p m).2 (.inl hm))
      | release o k =>
        have hmove := fun x => mem_held_move (q := .freed) (by simp) k (h.nodup (.owned o)) x m
        by_cases hout : p = .owned o ∧ m ∈ (b.held (.owned o)).take k
        · exact .inr (.inl ⟨o, hout.1, (hmove .freed).2 (.inr ⟨rfl, hout.2⟩)⟩)
        · exact .inl ((hmove p).2 (.inl ⟨hm, fun hp ht => hout ⟨hp, ht⟩⟩))
      | abandon o =>
        have hmove := fun x => mem_held_move (q := .lost) (by simp) (b.held (.owned o)).length (h.nodup (.owned o)) x m
        by_cases hout : p = .owned o ∧ m ∈ (b.held (.owned o)).take (b.held (.owned o)).length
        · exact .inr (.inr ⟨o, hout.1, rfl, (hmove .lost).2 (.inr ⟨rfl, hout.2⟩)⟩)
        · exact .inl ((hmove p).2 (.inl ⟨hm, fun hp ht => hout ⟨hp, ht⟩⟩))
    have hkept := h.apply op
    rcases hnext with hm' | ⟨o, hp, hm'⟩ | ⟨o, hp, rfl, hm'⟩
    · rcases Kept.later ops hkept hm' with hl | hl | ⟨o, hp, ho, hl⟩
      · exact .inl hl
      · exact .inr (.inl hl)
      · exact .inr (.inr ⟨o, hp, List.mem_cons_of_mem _ ho, hl⟩)
    · rcases Kept.later ops hkept hm' with hl | ⟨o', ho', -⟩ | ⟨o', ho', -⟩
      · exact .inr (.inl ⟨o, hp, hl⟩)
      · cases ho'
      · cases ho'
    · rcases Kept.later ops hkept hm' with hl | ⟨o', ho', -⟩ | ⟨o', ho', -⟩
      · exact .inr (.inr ⟨o, hp, List.mem_cons_self, hl⟩)
      · cases ho'
      · cases ho'

/-- Nothing ever leaves the lost. -/
theorem lost_grows [DecidableEq O] : ∀ (ops : List (Op O)) (b : Books O), b.held .lost <+: (b.applyAll ops).held .lost
  | [], _ => List.prefix_rfl
  | op :: ops, b => by
    refine List.IsPrefix.trans ?_ (lost_grows ops (b.apply op))
    cases op with
    | alloc o => exact (held_alloc_of_ne (b := b) (o := o) (x := .lost) (by simp)) ▸ List.prefix_rfl
    | release o k =>
      have hsame : (b.move (.owned o) .freed k).held .lost = b.held .lost := held_move_of_ne (by simp) (by simp) k
      exact hsame ▸ List.prefix_rfl
    | abandon o => exact (held_move_target (b := b) (.owned o) .lost _) ▸ List.prefix_append _ _

/-- Owners that have nothing, and get nothing, leave nothing behind. -/
theorem lost_eq [DecidableEq O] : ∀ (ops : List (Op O)) (b : Books O),
    (∀ o, Op.abandon o ∈ ops → b.held (.owned o) = [] ∧ Op.alloc o ∉ ops) →
    (b.applyAll ops).held .lost = b.held .lost
  | [], _, _ => rfl
  | op :: ops, b, h => by
    have hrest : ∀ o, Op.abandon o ∈ ops → (b.apply op).held (.owned o) = [] ∧ Op.alloc o ∉ ops := by
      intro o ho
      obtain ⟨hnil, hno⟩ := h o (List.mem_cons_of_mem _ ho)
      refine ⟨?_, fun hmem => hno (List.mem_cons_of_mem _ hmem)⟩
      cases op with
      | alloc o' =>
        have hne : (Place.owned o : Place O) ≠ .owned o' := by
          rintro ⟨rfl⟩
          exact hno List.mem_cons_self
        exact (held_alloc_of_ne hne).trans hnil
      | release o' k =>
        by_cases ho' : (Place.owned o : Place O) = .owned o'
        · rw [ho', Books.apply, held_move_source (by simp), ← ho', hnil, List.drop_nil]
        · rw [Books.apply, held_move_of_ne ho' (by simp), hnil]
      | abandon o' =>
        by_cases ho' : (Place.owned o : Place O) = .owned o'
        · rw [ho', Books.apply, held_move_source (by simp), ← ho', hnil, List.drop_nil]
        · rw [Books.apply, held_move_of_ne ho' (by simp), hnil]
    rw [Books.applyAll_cons, lost_eq ops _ hrest]
    cases op with
    | alloc o => exact held_alloc_of_ne (by simp)
    | release o k => exact held_move_of_ne (by simp) (by simp) k
    | abandon o =>
      rw [Books.apply, held_move_target, (h o List.mem_cons_self).1]
      simp

/-- **The books balance**: the places that hold anything hold as many as were made. -/
theorem Kept.made_eq (h : Kept b) {places : List (Place O)} (hnd : places.Nodup)
    (hall : ∀ p, b.held p ≠ [] → p ∈ places) : b.made = (places.map (fun p => (b.held p).length)).sum := by
  have hflat : (places.flatMap b.held).Nodup := by
    rw [List.nodup_flatMap]
    refine ⟨fun p _ => h.nodup p, hnd.imp (fun {p q} hpq => ?_)⟩
    exact fun m hp hq => hpq (h.one p q m hp hq)
  have hperm : (places.flatMap b.held).Perm (List.range b.made) := by
    refine (List.perm_ext_iff_of_nodup hflat List.nodup_range).2 (fun m => ?_)
    rw [List.mem_flatMap, List.mem_range, h.here]
    constructor
    · rintro ⟨p, -, hp⟩
      exact ⟨p, hp⟩
    · rintro ⟨p, hp⟩
      exact ⟨p, hall p (List.ne_nil_of_mem hp), hp⟩
  have hlen := hperm.length_eq
  rw [List.length_flatMap, List.length_range] at hlen
  exact hlen.symm

end Results

end Blocks
end Xrtc
