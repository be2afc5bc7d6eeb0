import Mathlib.Algebra.Group.Nat.Defs
import Xrtc.LockFree
/-!
# LockFreeRun — `LockFreeQueue` is a FIFO queue

The nodes from `head_` on are cut by `divider_` and `tail_` (`Layout`): consumed nodes waiting for `delete`, then the
divider's node and the values not yet consumed, then a node linked but not yet reached by `tail_`.  `inv_prodStep`
and `inv_consStep` show that each statement moves the cuts and nothing else; `queue_is_fifo` reads the queue's promises off the
invariant.
-/
namespace Xrtc
namespace LockFree

open NextChain

variable {T : Type}

/-- The chain of nodes, cut at `divider_` and at `tail_`; `taken` holds the values of the nodes up to the divider. -/
structure Layout (T : Type) where
  old : List (Cell T)
  mid : List (Cell T)
  last : Cell T
  new : List (Cell T)
  taken : List T

def Layout.cells (L : Layout T) : List (Cell T) := L.old ++ L.mid ++ L.last :: L.new

/-- The values behind the divider, up to the node of `tail_`. -/
def Layout.ready (L : Layout T) : List T := (L.mid ++ [L.last]).tail.map (fun c => c.data)

/-- The heap holds the chain and the three pointers stand at its cuts. -/
structure Rep (s : St T) (L : Layout T) : Prop where
  linked : Linked s.heap L.cells none
  nodup : (addrs L.cells).Nodup
  head : first (L.old ++ L.mid) (some L.last.ptr) = some s.head
  divider : first L.mid (some L.last.ptr) = some s.divider
  tail : L.last.ptr = s.tail

/-- What the producer knows at each of its statements. -/
def ProdOk (s : St T) (L : Layout T) : Prop :=
  match s.prod with
  | .advance => ∃ c, L.new = [c]
  | .save => L.new = [] ∧ L.old ≠ []
  | .unlink tmp => L.new = [] ∧ L.old ≠ [] ∧ tmp = s.head
  | .delete tmp => L.new = [] ∧ (∃ n, load s.heap tmp = some n) ∧ tmp.addr ∉ addrs L.cells
  | _ => L.new = []

/-- What the consumer knows at each of its statements. -/
def ConsOk (s : St T) (L : Layout T) : Prop :=
  match s.cons with
  | .copy => L.mid ≠ []
  | .advance v => L.ready.head? = some v
  | _ => True

/-- The value copied out whose node the divider has not reached. -/
def pendingOut : ConsPc T → List T
  | .advance v => [v]
  | _ => []

/-- Values linked and not counted, copied out and not counted. -/
def uncountedIn : ProdPc → Nat
  | .advance => 1
  | .count => 1
  | _ => 0

def uncountedOut : ConsPc T → Nat
  | .advance _ => 1
  | .count => 1
  | _ => 0

/-- `size_` is what was counted in minus what was counted out, as a 32-bit word. -/
def SizeOk (s : St T) : Prop := ∃ ups downs : Nat, ups + uncountedIn s.prod = s.produced.length ∧
  downs + uncountedOut s.cons = s.consumed.length ∧ s.size = BitVec.ofNat 32 ups - BitVec.ofNat 32 downs

structure Inv (s : St T) (L : Layout T) : Prop where
  rep : Rep s L
  prod : ProdOk s L
  cons : ConsOk s L
  published : s.published = L.taken ++ L.ready
  produced : s.produced = s.published ++ L.new.map (fun c => c.data)
  consumed : s.consumed = L.taken ++ pendingOut s.cons
  size : SizeOk s
  fault : s.fault = false

/-! ## What the cuts say -/

section Cuts
variable {s s' : St T} {L : Layout T}

theorem Rep.same (h : Rep s L) (hheap : s'.heap = s.heap) (hhead : s'.head = s.head) (hdivider : s'.divider = s.divider)
    (htail : s'.tail = s.tail) : Rep s' L := by
  refine ⟨?_, h.nodup, ?_, ?_, ?_⟩
  · rw [hheap]
    exact h.linked
  · rw [hhead]
    exact h.head
  · rw [hdivider]
    exact h.divider
  · rw [htail]
    exact h.tail

/-- A statement that leaves `size_` alone, and makes or copies a value only if it leaves it to be counted. -/
theorem SizeOk.same (h : SizeOk s) (hsize : s'.size = s.size)
    (hin : s'.produced.length + uncountedIn s.prod = s.produced.length + uncountedIn s'.prod)
    (hout : s'.consumed.length + uncountedOut s.cons = s.consumed.length + uncountedOut s'.cons) : SizeOk s' := by
  obtain ⟨ups, downs, h1, h2, h3⟩ := h
  exact ⟨ups, downs, by omega, by omega, by rw [hsize, h3]⟩

theorem Rep.linked_tail (h : Rep s L) : load s.heap s.tail = some ⟨s.tail.serial, L.last.data, first L.new none⟩ := by
  have hl := h.linked
  unfold Layout.cells at hl
  rw [linked_append] at hl
  have h1 := hl.2.1
  rw [h.tail] at h1
  exact h1

/-- The divider's node, when `divider_` is not at `tail_`. -/
theorem Rep.linked_divider (h : Rep s L) {d : Cell T} {mid : List (Cell T)} (hm : L.mid = d :: mid) :
    d.ptr = s.divider ∧ load s.heap s.divider = some ⟨s.divider.serial, d.data, first mid (some s.tail)⟩ := by
  have hd := h.divider
  rw [hm, first, Option.some.injEq] at hd
  refine ⟨hd, ?_⟩
  have hl := h.linked
  unfold Layout.cells at hl
  rw [List.append_assoc, linked_append, hm, List.cons_append, Linked] at hl
  obtain ⟨-, h1, -⟩ := hl
  rw [first_append, first_cons, h.tail, hd] at h1
  exact h1

theorem Rep.linked_head (h : Rep s L) {c : Cell T} {old : List (Cell T)} (ho : L.old = c :: old) :
    c.ptr = s.head ∧ load s.heap s.head =
      some ⟨s.head.serial, c.data, first (old ++ L.mid) (some s.tail)⟩ := by
  have hd := h.head
  rw [ho, List.cons_append, first, Option.some.injEq] at hd
  refine ⟨hd, ?_⟩
  have hl := h.linked
  unfold Layout.cells at hl
  rw [ho, List.append_assoc, List.cons_append, Linked, ← List.append_assoc, first_append, first_cons, h.tail, hd] at hl
  exact hl.1

/-- `divider_ != tail_` tells whether a value is ready. -/
theorem Rep.divider_ne_tail (h : Rep s L) : s.divider.addr ≠ s.tail.addr ↔ L.mid ≠ [] := by
  constructor
  · intro hne hm
    have hd := h.divider
    rw [hm, first, Option.some.injEq, h.tail] at hd
    rw [hd] at hne
    exact hne rfl
  · intro hm heq
    obtain ⟨d, mid, hm⟩ := List.exists_cons_of_ne_nil hm
    have hnd := h.nodup
    unfold addrs Layout.cells at hnd
    rw [List.append_assoc, List.map_append, List.nodup_append, hm] at hnd
    have hnd' := hnd.2.1
    rw [List.cons_append, List.map_cons, List.nodup_cons] at hnd'
    refine hnd'.1 ?_
    rw [(h.linked_divider hm).1, heq, ← h.tail]
    simp

/-- `head_ != divider_` tells whether a consumed node waits for `delete`. -/
theorem Rep.head_ne_divider (h : Rep s L) : s.head.addr ≠ s.divider.addr ↔ L.old ≠ [] := by
  constructor
  · intro hne ho
    have hd := h.head
    rw [ho, List.nil_append, h.divider, Option.some.injEq] at hd
    rw [hd] at hne
    exact hne rfl
  · intro ho heq
    obtain ⟨c, old, ho⟩ := List.exists_cons_of_ne_nil ho
    have hnd := h.nodup
    unfold addrs Layout.cells at hnd
    rw [ho, List.append_assoc, List.cons_append, List.map_cons, List.nodup_cons] at hnd
    refine hnd.1 ?_
    rw [(h.linked_head ho).1, heq]
    have hd := h.divider
    cases hm : L.mid with
    | nil =>
      rw [hm, first, Option.some.injEq] at hd
      simp [← hd]
    | cons d mid =>
      rw [hm, first, Option.some.injEq] at hd
      simp [← hd]

end Cuts

/-! ## The producer's statements -/

section Producer
variable {s : St T} {L : Layout T}

theorem inv_link (h : Inv s L) (hi : s.prod = .idle) (t : T) {a : Nat} (ha : s.heap a = none) :
    Inv (link s t a) { L with new := [⟨⟨a, s.serial⟩, t⟩] } := by
  have hnew : L.new = [] := by simpa only [ProdOk, hi] using h.prod
  have hcells : L.cells = (L.old ++ L.mid) ++ [L.last] := by rw [Layout.cells, hnew]
  have hl := h.rep.linked
  have hnd := h.rep.nodup
  have hfree := not_mem_addrs_of_free hl ha
  rw [hcells] at hl hnd hfree
  have hlink : link s t a = { s with
      heap := Function.update (Function.update s.heap L.last.ptr.addr
        (some ⟨L.last.ptr.serial, L.last.data, some ⟨a, s.serial⟩⟩)) a (some ⟨s.serial, t, none⟩)
      serial := s.serial + 1, prod := .advance, produced := s.produced ++ [t] } := by
    unfold link
    rw [h.rep.linked_tail, h.rep.tail]
  rw [hlink]
  refine ⟨⟨?_, ?_, h.rep.head, h.rep.divider, h.rep.tail⟩, ⟨_, rfl⟩, h.cons, h.published, ?_, h.consumed, ?_, h.fault⟩
  · exact linked_snoc (p := ⟨a, s.serial⟩) t hl hnd ha
  · have hsnoc : ∀ c : Cell T, ({ L with new := [c] } : Layout T).cells = (L.old ++ L.mid ++ [L.last]) ++ [c] := by
      intro c
      simp [Layout.cells]
    rw [hsnoc, addrs, List.map_append]
    exact List.Nodup.append hnd (List.nodup_singleton _) (by
      intro x hx hx'
      have hxa : x = a := by simpa using hx'
      exact hfree (hxa ▸ hx))
  · simp [h.produced, hnew]
  · exact h.size.same rfl (by simp [hi, uncountedIn]) rfl

theorem inv_advance (h : Inv s L) {c : Cell T} (hp : s.prod = .advance) (hc : L.new = [c]) :
    next s.heap s.tail = some c.ptr ∧
      Inv { s with tail := c.ptr, prod := .count, published := s.produced }
        { L with mid := L.mid ++ [L.last], last := c, new := [] } := by
  have hcells : ({ L with mid := L.mid ++ [L.last], last := c, new := [] } : Layout T).cells = L.cells := by
    simp [Layout.cells, hc]
  have hready : ({ L with mid := L.mid ++ [L.last], last := c, new := [] } : Layout T).ready = L.ready ++ [c.data] := by
    simp only [Layout.ready]
    rw [List.tail_append_of_ne_nil (by simp), List.map_append]
    rfl
  refine ⟨?_, ⟨?_, ?_, ?_, ?_, rfl⟩, rfl, ?_, ?_, ?_, h.consumed, ?_, h.fault⟩
  · unfold next
    rw [h.rep.linked_tail, hc]
    rfl
  · rw [hcells]
    exact h.rep.linked
  · rw [hcells]
    exact h.rep.nodup
  · have hd := h.rep.head
    simp only [← List.append_assoc]
    rw [first_append]
    exact hd
  · have hd := h.rep.divider
    simp only
    rw [first_append]
    exact hd
  · have hcons := h.cons
    unfold ConsOk at hcons ⊢
    rw [hready]
    revert hcons
    cases s.cons with
    | copy => simp
    | advance v =>
      intro hv
      rw [List.head?_append, hv]
      rfl
    | idle => exact id
    | count => exact id
  · rw [hready]
    simp [h.produced, h.published, hc]
  · simp
  · exact h.size.same rfl (by rw [hp]; rfl) rfl

theorem inv_countIn (h : Inv s L) (hp : s.prod = .count) : Inv { s with size := s.size + 1, prod := .test } L := by
  have hprod := h.prod
  unfold ProdOk at hprod
  rw [hp] at hprod
  obtain ⟨ups, downs, h1, h2, h3⟩ := h.size
  rw [hp] at h1
  refine ⟨h.rep.same rfl rfl rfl rfl, hprod, h.cons, h.published, h.produced, h.consumed,
    ⟨ups + 1, downs, h1, h2, ?_⟩, h.fault⟩
  show s.size + 1 = BitVec.ofNat 32 (ups + 1) - BitVec.ofNat 32 downs
  rw [h3]
  bv_omega

theorem inv_test (h : Inv s L) (hp : s.prod = .test) :
    Inv { s with prod := if s.head.addr ≠ s.divider.addr then .save else .idle } L := by
  have hprod := h.prod
  unfold ProdOk at hprod
  rw [hp] at hprod
  by_cases hne : s.head.addr ≠ s.divider.addr
  · rw [if_pos hne]
    exact ⟨h.rep.same rfl rfl rfl rfl, ⟨hprod, h.rep.head_ne_divider.1 hne⟩, h.cons, h.published, h.produced,
      h.consumed, h.size.same rfl (by rw [hp]; rfl) rfl, h.fault⟩
  · rw [if_neg hne]
    exact ⟨h.rep.same rfl rfl rfl rfl, hprod, h.cons, h.published, h.produced, h.consumed,
      h.size.same rfl (by rw [hp]; rfl) rfl, h.fault⟩

theorem inv_save (h : Inv s L) (hp : s.prod = .save) : Inv { s with prod := .unlink s.head } L := by
  have hprod := h.prod
  unfold ProdOk at hprod
  rw [hp] at hprod
  exact ⟨h.rep.same rfl rfl rfl rfl, ⟨hprod.1, hprod.2, rfl⟩, h.cons, h.published, h.produced, h.consumed,
    h.size.same rfl (by rw [hp]; rfl) rfl, h.fault⟩

/-- `head_=head_->next` takes the first consumed node off the chain; it stays allocated until `delete tmp`. -/
theorem inv_unlink (h : Inv s L) {tmp : Ptr} (hp : s.prod = .unlink tmp) {c : Cell T} {old : List (Cell T)}
    (ho : L.old = c :: old) : ∃ p, next s.heap s.head = some p ∧
      Inv { s with head := p, prod := .delete tmp } { L with old := old } := by
  have hprod := h.prod
  unfold ProdOk at hprod
  rw [hp] at hprod
  obtain ⟨hnew, -, htmp⟩ := hprod
  obtain ⟨hptr, hload⟩ := h.rep.linked_head ho
  have hsome : ∃ p, first (old ++ L.mid) (some s.tail) = some p := by
    cases old ++ L.mid with
    | nil => exact ⟨_, rfl⟩
    | cons x xs => exact ⟨_, rfl⟩
  obtain ⟨p, hpf⟩ := hsome
  have hcells : L.cells = c :: ({ L with old := old } : Layout T).cells := by
    simp [Layout.cells, ho]
  have hl := h.rep.linked
  have hnd := h.rep.nodup
  rw [hcells] at hl hnd
  unfold addrs at hnd
  rw [List.map_cons, List.nodup_cons] at hnd
  refine ⟨p, ?_, ⟨hl.2, hnd.2, ?_, h.rep.divider, h.rep.tail⟩, ⟨hnew, ⟨_, htmp ▸ hload⟩, ?_⟩, h.cons, h.published,
    h.produced, h.consumed, h.size.same rfl (by rw [hp]; rfl) rfl, h.fault⟩
  · unfold next
    rw [hload, hpf]
    rfl
  · rw [h.rep.tail]
    exact hpf
  · rw [htmp, ← hptr]
    exact hnd.1

theorem inv_delete (h : Inv s L) {tmp : Ptr} (hp : s.prod = .delete tmp) :
    ∃ n, load s.heap tmp = some n ∧
      Inv { s with heap := Function.update s.heap tmp.addr none, prod := .test } L := by
  have hprod := h.prod
  unfold ProdOk at hprod
  rw [hp] at hprod
  obtain ⟨hnew, ⟨n, hn⟩, hout⟩ := hprod
  exact ⟨n, hn, ⟨linked_update _ hout h.rep.linked, h.rep.nodup, h.rep.head, h.rep.divider, h.rep.tail⟩, hnew, h.cons,
    h.published, h.produced, h.consumed, h.size.same rfl (by rw [hp]; rfl) rfl, h.fault⟩

/-- **Every statement of `produce` keeps the invariant.** -/
theorem inv_prodStep {s' : St T} (h : Inv s L) (hs : prodStep s = some s') : ∃ L', Inv s' L' := by
  unfold prodStep at hs
  have hprod := h.prod
  unfold ProdOk at hprod
  cases hp : s.prod with
  | idle =>
    rw [hp] at hs
    cases hs
  | advance =>
    rw [hp] at hs hprod
    obtain ⟨c, hc⟩ := hprod
    obtain ⟨hnext, hinv⟩ := inv_advance h hp hc
    simp only [hnext, Option.some.injEq] at hs
    exact ⟨_, hs ▸ hinv⟩
  | count =>
    rw [hp] at hs
    simp only [Option.some.injEq] at hs
    exact ⟨L, hs ▸ inv_countIn h hp⟩
  | test =>
    rw [hp] at hs
    simp only [Option.some.injEq] at hs
    exact ⟨L, hs ▸ inv_test h hp⟩
  | save =>
    rw [hp] at hs
    simp only [Option.some.injEq] at hs
    exact ⟨L, hs ▸ inv_save h hp⟩
  | unlink tmp =>
    rw [hp] at hs hprod
    obtain ⟨c, old, ho⟩ := List.exists_cons_of_ne_nil hprod.2.1
    obtain ⟨p, hnext, hinv⟩ := inv_unlink h hp ho
    simp only [hnext, Option.some.injEq] at hs
    exact ⟨_, hs ▸ hinv⟩
  | delete tmp =>
    rw [hp] at hs
    obtain ⟨n, hn, hinv⟩ := inv_delete h hp
    simp only [hn, Option.some.injEq] at hs
    exact ⟨L, hs ▸ hinv⟩

end Producer

/-! ## The consumer's statements -/

section Consumer
variable {s : St T} {L : Layout T}

/-- The test finds `divider_` at `tail_` only when every published value is consumed. -/
theorem inv_idle (h : Inv s L) (hc : s.cons = .idle) : Inv (consStep s) L ∧
    ((consStep s).ret = some false → s.consumed = s.published) := by
  have hconsumed := h.consumed
  rw [hc] at hconsumed
  unfold consStep
  rw [hc]
  simp only
  by_cases hne : s.divider.addr ≠ s.tail.addr
  · rw [if_pos hne]
    exact ⟨⟨h.rep.same rfl rfl rfl rfl, h.prod, h.rep.divider_ne_tail.1 hne, h.published, h.produced, hconsumed,
      h.size.same rfl rfl (by rw [hc]; rfl), h.fault⟩, fun hr => by cases hr⟩
  · rw [if_neg hne]
    have hm : L.mid = [] := by
      by_contra hm
      exact hne (h.rep.divider_ne_tail.2 hm)
    refine ⟨⟨h.rep.same rfl rfl rfl rfl, h.prod, trivial, h.published, h.produced, hconsumed,
      h.size.same rfl rfl (by rw [hc]), h.fault⟩, fun _ => ?_⟩
    rw [hconsumed, h.published]
    simp [pendingOut, Layout.ready, hm]

theorem load_behind_divider (h : Inv s L) {d : Cell T} {mid : List (Cell T)} (hm : L.mid = d :: mid) :
    ∃ p n, next s.heap s.divider = some p ∧ first mid (some s.tail) = some p ∧ load s.heap p = some n ∧
      L.ready.head? = some n.data := by
  obtain ⟨-, hload⟩ := h.rep.linked_divider hm
  have hnext : next s.heap s.divider = first mid (some s.tail) := by
    unfold next
    rw [hload]
    rfl
  cases hmid : mid with
  | nil =>
    refine ⟨s.tail, _, by rw [hnext, hmid]; rfl, rfl, h.rep.linked_tail, ?_⟩
    simp [Layout.ready, hm, hmid]
  | cons e es =>
    have he : e ∈ L.cells := by simp [Layout.cells, hm, hmid]
    obtain ⟨n, hn, hdata⟩ := load_of_mem h.rep.linked he
    refine ⟨e.ptr, n, by rw [hnext, hmid]; rfl, rfl, hn, ?_⟩
    simp [Layout.ready, hm, hmid, hdata]

theorem inv_copy (h : Inv s L) (hc : s.cons = .copy) : Inv (consStep s) L := by
  have hcons := h.cons
  have hconsumed := h.consumed
  unfold ConsOk at hcons
  rw [hc] at hcons hconsumed
  obtain ⟨d, mid, hm⟩ := List.exists_cons_of_ne_nil hcons
  obtain ⟨p, n, hnext, -, hload, hready⟩ := load_behind_divider h hm
  unfold consStep
  rw [hc]
  simp only [hnext, Option.bind_some, hload]
  refine ⟨h.rep.same rfl rfl rfl rfl, h.prod, hready, h.published, h.produced, ?_, ?_, h.fault⟩
  · rw [hconsumed]
    simp [pendingOut]
  · exact h.size.same rfl rfl (by simp [hc, uncountedOut])

/-- `divider_=divider_->next` moves the divider's node over to the consumed ones. -/
theorem inv_advanceOut (h : Inv s L) {v : T} (hc : s.cons = .advance v) : ∃ L', Inv (consStep s) L' := by
  have hcons := h.cons
  have hconsumed := h.consumed
  unfold ConsOk at hcons
  rw [hc] at hcons hconsumed
  have hm : L.mid ≠ [] := by
    intro hm
    simp [Layout.ready, hm] at hcons
  obtain ⟨d, mid, hm⟩ := List.exists_cons_of_ne_nil hm
  obtain ⟨p, n, hnext, hfirst, -, -⟩ := load_behind_divider h hm
  have hcells : ({ L with old := L.old ++ [d], mid := mid, taken := L.taken ++ [v] } : Layout T).cells = L.cells := by
    simp [Layout.cells, hm]
  have hready : L.ready = v :: ({ L with old := L.old ++ [d], mid := mid, taken := L.taken ++ [v] } : Layout T).ready := by
    unfold Layout.ready at hcons ⊢
    rw [hm] at hcons ⊢
    simp only [List.cons_append, List.tail_cons] at hcons ⊢
    rw [List.map_tail]
    exact (List.cons_head?_tail hcons).symm
  refine ⟨{ L with old := L.old ++ [d], mid := mid, taken := L.taken ++ [v] }, ?_⟩
  unfold consStep
  rw [hc]
  simp only [hnext]
  refine ⟨⟨?_, ?_, ?_, ?_, h.rep.tail⟩, ?_, trivial, ?_, h.produced, ?_, h.size.same rfl rfl (by rw [hc]; rfl), h.fault⟩
  · rw [hcells]
    exact h.rep.linked
  · rw [hcells]
    exact h.rep.nodup
  · have hd := h.rep.head
    rw [hm] at hd
    simpa using hd
  · simp only
    rw [h.rep.tail]
    exact hfirst
  · have hprod := h.prod
    unfold ProdOk at hprod ⊢
    rw [hcells]
    revert hprod
    cases s.prod with
    | save => exact fun hp => ⟨hp.1, by simp⟩
    | unlink tmp => exact fun hp => ⟨hp.1, by simp, hp.2.2⟩
    | idle => exact id
    | advance => exact id
    | count => exact id
    | test => exact id
    | delete tmp => exact id
  · rw [h.published, hready]
    simp
  · rw [hconsumed]
    simp [pendingOut]

theorem inv_countOut (h : Inv s L) (hc : s.cons = .count) : Inv (consStep s) L := by
  have hconsumed := h.consumed
  obtain ⟨ups, downs, h1, h2, h3⟩ := h.size
  rw [hc] at hconsumed h2
  unfold consStep
  rw [hc]
  refine ⟨h.rep.same rfl rfl rfl rfl, h.prod, trivial, h.published, h.produced, hconsumed,
    ⟨ups, downs + 1, h1, h2, ?_⟩, h.fault⟩
  show s.size - 1 = BitVec.ofNat 32 ups - BitVec.ofNat 32 (downs + 1)
  rw [h3]
  bv_omega

/-- **Every statement of `consume` keeps the invariant.** -/
theorem inv_consStep (h : Inv s L) : ∃ L', Inv (consStep s) L' := by
  cases hc : s.cons with
  | idle => exact ⟨L, (inv_idle h hc).1⟩
  | copy => exact ⟨L, inv_copy h hc⟩
  | advance v => exact inv_advanceOut h hc
  | count => exact ⟨L, inv_countOut h hc⟩

end Consumer

/-! ## Whole runs -/

theorem inv_init [Inhabited T] (a : Nat) : Inv (init (T := T) a) ⟨[], [], ⟨⟨a, 0⟩, default⟩, [], []⟩ := by
  refine ⟨⟨⟨?_, trivial⟩, ?_, rfl, rfl, rfl⟩, rfl, trivial, rfl, rfl, rfl, ⟨0, 0, rfl, rfl, rfl⟩, rfl⟩
  · exact load_update_self _ ⟨a, 0⟩ default none
  · simp [Layout.cells, addrs]

theorem inv_step {s s' : St T} {L : Layout T} {l : Label T} (h : Inv s L) (hs : step s l = some s') :
    ∃ L', Inv s' L' := by
  cases l with
  | produce t a =>
    simp only [step] at hs
    split at hs
    · rename_i hi
      simp only [Option.some.injEq] at hs
      exact ⟨_, hs ▸ inv_link h hi.1 t (Option.isNone_iff_eq_none.1 hi.2)⟩
    · cases hs
  | prod => exact inv_prodStep h hs
  | cons =>
    simp only [step, Option.some.injEq] at hs
    exact hs ▸ inv_consStep h

/-- **In every state the two threads can reach, the queue is laid out.** -/
theorem reachable_inv [Inhabited T] {a : Nat} {s : St T} (h : Lts.Reachable step (init a) s) : ∃ L, Inv s L := by
  refine Lts.Reachable.invariant (I := fun s => ∃ L, Inv s L) ⟨_, inv_init a⟩ ?_ h
  rintro s l s' ⟨L, hL⟩ hs
  exact inv_step hL hs

/-! ## The abstract queue -/

/-- The contents of the queue: published and not yet copied out. -/
def contents (s : St T) : List T := s.published.drop s.consumed.length

section Contents
variable {s s' : St T} {L : Layout T}

theorem prodStep_frame (hs : prodStep s = some s') :
    s'.consumed = s.consumed ∧ (s.prod ≠ .advance → s'.published = s.published) := by
  unfold prodStep at hs
  cases hp : s.prod with
  | idle =>
    rw [hp] at hs
    cases hs
  | advance =>
    rw [hp] at hs
    simp only at hs
    split at hs <;> cases hs <;> exact ⟨rfl, fun h0 => absurd rfl h0⟩
  | count =>
    rw [hp] at hs
    cases hs
    exact ⟨rfl, fun _ => rfl⟩
  | test =>
    rw [hp] at hs
    cases hs
    exact ⟨rfl, fun _ => rfl⟩
  | save =>
    rw [hp] at hs
    cases hs
    exact ⟨rfl, fun _ => rfl⟩
  | unlink tmp =>
    rw [hp] at hs
    simp only at hs
    split at hs <;> cases hs <;> exact ⟨rfl, fun _ => rfl⟩
  | delete tmp =>
    rw [hp] at hs
    simp only at hs
    split at hs <;> cases hs <;> exact ⟨rfl, fun _ => rfl⟩

theorem consStep_frame (s : St T) :
    (consStep s).published = s.published ∧ (s.cons ≠ .copy → (consStep s).consumed = s.consumed) := by
  unfold consStep
  cases hc : s.cons with
  | idle =>
    simp only
    split <;> exact ⟨rfl, fun _ => rfl⟩
  | copy =>
    simp only
    split <;> exact ⟨rfl, fun h0 => absurd rfl h0⟩
  | advance v =>
    simp only
    split <;> exact ⟨rfl, fun _ => rfl⟩
  | count => exact ⟨rfl, fun _ => rfl⟩

theorem consumed_prefix_published (h : Inv s L) : s.consumed <+: s.published := by
  have hc := h.cons
  rw [h.consumed, h.published, List.prefix_append_right_inj]
  unfold ConsOk at hc
  cases hp : s.cons with
  | advance v =>
    rw [hp] at hc
    obtain ⟨r, hr⟩ := List.head?_eq_some_iff.1 hc
    rw [hr]
    exact ⟨r, rfl⟩
  | idle => exact List.nil_prefix
  | copy => exact List.nil_prefix
  | count => exact List.nil_prefix

theorem contents_copy (h : Inv s L) (hc : s.cons = .copy) : ∃ v, contents s = v :: contents (consStep s) := by
  have hcons := h.cons
  have hconsumed := h.consumed
  unfold ConsOk at hcons
  rw [hc] at hcons hconsumed
  obtain ⟨d, mid, hm⟩ := List.exists_cons_of_ne_nil hcons
  obtain ⟨p, n, hnext, -, hload, hready⟩ := load_behind_divider h hm
  obtain ⟨r, hr⟩ := List.head?_eq_some_iff.1 hready
  have hstep : (consStep s).published = s.published ∧ (consStep s).consumed = s.consumed ++ [n.data] := by
    unfold consStep
    rw [hc]
    simp only [hnext, Option.bind_some, hload]
    exact ⟨trivial, trivial⟩
  refine ⟨n.data, ?_⟩
  simp only [pendingOut, List.append_nil] at hconsumed
  rw [contents, contents, hstep.1, hstep.2, h.published, hr, hconsumed, List.drop_left, List.length_append,
    ← List.drop_drop, List.drop_left]
  rfl

/-- **Each statement is one FIFO operation or none**: `tail_=tail_->next` appends a value, the copy in `consume` takes
the first one, every other statement leaves the contents alone. -/
theorem step_contents {l : Label T} (h : Inv s L) (hs : step s l = some s') :
    contents s' = contents s ∨ (∃ v, contents s' = contents s ++ [v]) ∨ (∃ v, contents s = v :: contents s') := by
  have hframe : s'.published = s.published → s'.consumed = s.consumed → contents s' = contents s := by
    intro h1 h2
    rw [contents, h1, h2, contents]
  cases l with
  | produce t a =>
    simp only [step] at hs
    split at hs
    · simp only [Option.some.injEq] at hs
      subst hs
      refine .inl (hframe ?_ ?_) <;> (unfold link; split <;> rfl)
    · cases hs
  | prod =>
    obtain ⟨hcons, hpub⟩ := prodStep_frame hs
    by_cases hp : s.prod = .advance
    · have hprod := h.prod
      unfold ProdOk at hprod
      rw [hp] at hprod
      obtain ⟨c, hc⟩ := hprod
      have hle := (consumed_prefix_published h).length_le
      simp only [step, prodStep, hp, (inv_advance h hp hc).1, Option.some.injEq] at hs
      subst hs
      refine .inr (.inl ⟨c.data, ?_⟩)
      simp only [contents]
      rw [h.produced, hc, List.drop_append_of_le_length hle]
      rfl
    · exact .inl (hframe (hpub hp) hcons)
  | cons =>
    simp only [step, Option.some.injEq] at hs
    subst hs
    by_cases hc : s.cons = .copy
    · exact .inr (.inr (contents_copy h hc))
    · exact .inl (hframe (consStep_frame s).1 ((consStep_frame s).2 hc))

end Contents

/-- `size_` between operations, as a word and as the `int` it is while fewer than `2^31` values are queued. -/
theorem size_between {s : St T} {L : Layout T} (h : Inv s L) (hp : s.prod = .idle) (hc : s.cons = .idle) :
    s.size = BitVec.ofNat 32 s.produced.length - BitVec.ofNat 32 s.consumed.length ∧
      (s.produced.length < s.consumed.length + 2 ^ 31 →
        s.size.toInt = (s.produced.length : Int) - s.consumed.length) := by
  obtain ⟨ups, downs, h1, h2, h3⟩ := h.size
  rw [hp] at h1
  rw [hc] at h2
  have hu : ups = s.produced.length := h1
  have hd : downs = s.consumed.length := h2
  rw [hu, hd] at h3
  refine ⟨h3, fun hlt => ?_⟩
  have hle : s.consumed.length ≤ s.produced.length := by
    have hpre := (consumed_prefix_published h).length_le
    rw [h.produced, List.length_append]
    omega
  obtain ⟨k, hk⟩ := Nat.exists_eq_add_of_le hle
  have hword : s.size = BitVec.ofNat 32 k := by
    rw [h3, hk]
    bv_omega
  rw [hword, BitVec.toInt_eq_toNat_of_lt (by rw [BitVec.toNat_ofNat]; omega), BitVec.toNat_ofNat]
  omega

/-- **`LockFreeQueue` is a FIFO queue for one producer and one consumer.**  In every state they can reach: the next
statement is one FIFO operation on the contents or none; what was consumed is a prefix of what was produced; `consume`
answers `false` only when everything published is consumed; no pointer to a deleted node has been followed or freed; the
nodes from `head_` through `divider_` to `tail_` are one chain without repetition; and between operations `size_` counts
what is queued. -/
theorem queue_is_fifo [Inhabited T] (a : Nat) (s : St T) (h : Lts.Reachable step (init a) s) :
    (∀ l s', step s l = some s' → contents s' = contents s ∨ (∃ v, contents s' = contents s ++ [v]) ∨
      (∃ v, contents s = v :: contents s')) ∧
    s.consumed <+: s.produced ∧
    (s.cons = .idle → (consStep s).ret = some false → s.consumed = s.published) ∧
    s.fault = false ∧
    (∃ L : Layout T, Rep s L) ∧
    (s.prod = .idle → s.cons = .idle →
      s.size = BitVec.ofNat 32 s.produced.length - BitVec.ofNat 32 s.consumed.length ∧
      (s.produced.length < s.consumed.length + 2 ^ 31 →
        s.size.toInt = (s.produced.length : Int) - s.consumed.length)) := by
  obtain ⟨L, hL⟩ := reachable_inv h
  refine ⟨fun _ _ => step_contents hL, ?_, fun hc => (inv_idle hL hc).2, hL.fault, ⟨L, hL.rep⟩, size_between hL⟩
  rw [hL.produced]
  exact (consumed_prefix_published hL).trans (List.prefix_append _ _)

/-- Two values produced, the first consumed and its node deleted by the next `produce`, at whose address the allocator
puts a new node. -/
def reuse : List (Label Nat) :=
  [.produce 10 2, .prod, .prod, .prod, .cons, .cons, .cons, .cons, .produce 11 3, .prod, .prod, .prod, .prod, .prod,
    .prod, .prod, .produce 12 1, .cons]

theorem queue_is_fifo_reuse : ∃ s : St Nat, Lts.run step (init 1) reuse = some s ∧ s.consumed = [10] ∧
    s.produced = [10, 11, 12] ∧ s.published = [10, 11] ∧ s.head = ⟨2, 1⟩ ∧ s.fault = false ∧
    s.consumed <+: s.produced := by
  have hsome : (Lts.run step (init 1) reuse).isSome = true := by decide
  obtain ⟨s, hs⟩ := Option.isSome_iff_exists.1 hsome
  have hend : (Lts.run step (init 1) reuse).map (fun s => (s.consumed, s.produced, s.published, s.head)) =
      some ([10], [10, 11, 12], [10, 11], ⟨2, 1⟩) := by decide
  rw [hs, Option.map_some, Option.some.injEq, Prod.mk.injEq, Prod.mk.injEq, Prod.mk.injEq] at hend
  have hfifo := queue_is_fifo 1 s (Lts.Reachable.of_run hs)
  exact ⟨s, hs, hend.1, hend.2.1, hend.2.2.1, hend.2.2.2, hfifo.2.2.2.1, hfifo.2.1⟩

end LockFree
end Xrtc
