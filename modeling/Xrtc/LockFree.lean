import Xrtc.Lts
import Xrtc.NextChain
/-!
# LockFree — `LockFreeQueue`, one statement at a time

`base/Lock_Free_Queue.hpp` with one producer thread and one consumer thread.  Every statement of `produce` and
`consume` is one step, the two program counters move independently.  The allocator answers `new Node` with any address
that is not live (`Label.produce`); reading or freeing through a pointer whose node is gone, and following a null
`next`, raise `fault`.  `size_` is a `std::atomic<int>`: a 32-bit word.
-/
namespace Xrtc
namespace LockFree

open NextChain (Ptr Node Heap load)

variable {T : Type}

/-- The statement of `produce` the producer is about to execute, behind `tail_->next=new Node(t)`. -/
inductive ProdPc where
  | idle
  | advance
  | count
  | test
  | save
  | unlink (tmp : Ptr)
  | delete (tmp : Ptr)
  deriving DecidableEq

/-- The statement of `consume` the consumer is about to execute, behind the test; `result` is what it copied. -/
inductive ConsPc (T : Type) where
  | idle
  | copy
  | advance (result : T)
  | count
  deriving DecidableEq

/-- The queue and its two threads.  `ret` is what the last finished `consume` returned.  The last three fields are the
history: the values passed to `produce`, those whose `tail_` update is done, the values copied out by `consume`. -/
structure St (T : Type) where
  heap : Heap T
  serial : Nat
  head : Ptr
  divider : Ptr
  tail : Ptr
  size : BitVec 32
  prod : ProdPc
  cons : ConsPc T
  ret : Option Bool
  fault : Bool
  produced : List T
  published : List T
  consumed : List T

/-- `produce` starts a call, with the value and the address `new` returns; `prod` and `cons` are the threads' next
statements, `cons` starting a `consume` call when none is running. -/
inductive Label (T : Type) where
  | produce (t : T) (a : Nat)
  | prod
  | cons
  deriving DecidableEq

/-- The constructor: one node that holds no value of the queue. -/
def init [Inhabited T] (a : Nat) : St T :=
  { heap := Function.update (fun _ => none) a (some ⟨0, default, none⟩)
    serial := 1
    head := ⟨a, 0⟩
    divider := ⟨a, 0⟩
    tail := ⟨a, 0⟩
    size := 0
    prod := .idle
    cons := .idle
    ret := none
    fault := false
    produced := []
    published := []
    consumed := [] }

/-- `p->next` as a pointer that is used: `none` when `p` dangles or `next` is null. -/
def next (h : Heap T) (p : Ptr) : Option Ptr := (load h p).bind (fun n => n.next)

def faulted (s : St T) : St T := { s with fault := true }

/-- `tail_->next=new Node(t)`. -/
def link (s : St T) (t : T) (a : Nat) : St T :=
  match load s.heap s.tail with
  | none => faulted s
  | some n => { s with
      heap := Function.update (Function.update s.heap s.tail.addr (some { n with next := some ⟨a, s.serial⟩ })) a
        (some ⟨s.serial, t, none⟩)
      serial := s.serial + 1
      prod := .advance
      produced := s.produced ++ [t] }

/-- The rest of `produce`. -/
def prodStep (s : St T) : Option (St T) :=
  match s.prod with
  | .idle => none
  | .advance => match next s.heap s.tail with
    | none => some (faulted s)
    | some p => some { s with tail := p, prod := .count, published := s.produced }
  | .count => some { s with size := s.size + 1, prod := .test }
  | .test => some { s with prod := if s.head.addr ≠ s.divider.addr then .save else .idle }
  | .save => some { s with prod := .unlink s.head }
  | .unlink tmp => match next s.heap s.head with
    | none => some (faulted s)
    | some p => some { s with head := p, prod := .delete tmp }
  | .delete tmp => match load s.heap tmp with
    | none => some (faulted s)
    | some _ => some { s with heap := Function.update s.heap tmp.addr none, prod := .test }

def consStep (s : St T) : St T :=
  match s.cons with
  | .idle =>
    if s.divider.addr ≠ s.tail.addr then { s with cons := .copy, ret := none } else { s with ret := some false }
  | .copy => match (next s.heap s.divider).bind (load s.heap) with
    | none => faulted s
    | some n => { s with cons := .advance n.data, consumed := s.consumed ++ [n.data] }
  | .advance _ => match next s.heap s.divider with
    | none => faulted s
    | some p => { s with divider := p, cons := .count }
  | .count => { s with size := s.size - 1, cons := .idle, ret := some true }

def step (s : St T) : Label T → Option (St T)
  | .produce t a => if s.prod = .idle ∧ (s.heap a).isNone then some (link s t a) else none
  | .prod => prodStep s
  | .cons => some (consStep s)

end LockFree
end Xrtc
