import Mathlib.Data.List.Nodup
import Mathlib.Logic.Function.Basic
/-!
# NextChain — singly linked nodes in a heap that frees and reuses addresses

A pointer is an address together with the serial number of the allocation it came from, so that a pointer to a freed
node stays recognisable when its address has been handed out again: `load` finds a node only through a pointer of the
same allocation.  `Linked h cs e` says that the cells `cs` lie in the heap one after the other, each one's `next` the
cell behind it and the last one's `next` equal to `e`.
-/
namespace Xrtc
namespace NextChain

variable {T : Type}

structure Ptr where
  addr : Nat
  serial : Nat
  deriving DecidableEq

structure Node (T : Type) where
  serial : Nat
  data : T
  next : Option Ptr

abbrev Heap (T : Type) := Nat → Option (Node T)

/-- The node a pointer still points to, if its allocation has not been freed. -/
def load (h : Heap T) (p : Ptr) : Option (Node T) := (h p.addr).filter (fun n => n.serial == p.serial)

/-- A node of the chain as its neighbours know it. -/
structure Cell (T : Type) where
  ptr : Ptr
  data : T

/-- Where a chain starts: its first cell, or where it leads to when it has none. -/
def first : List (Cell T) → Option Ptr → Option Ptr
  | [], e => e
  | c :: _, _ => some c.ptr

def Linked (h : Heap T) : List (Cell T) → Option Ptr → Prop
  | [], _ => True
  | c :: cs, e => load h c.ptr = some ⟨c.ptr.serial, c.data, first cs e⟩ ∧ Linked h cs e

/-- The addresses a chain occupies. -/
def addrs (cs : List (Cell T)) : List Nat := cs.map (fun c => c.ptr.addr)

theorem load_update_of_ne {h : Heap T} {p : Ptr} {a : Nat} (v : Option (Node T)) (hp : p.addr ≠ a) :
    load (Function.update h a v) p = load h p := by
  unfold load
  rw [Function.update_of_ne hp]

theorem load_update_self (h : Heap T) (p : Ptr) (v : T) (e : Option Ptr) :
    load (Function.update h p.addr (some ⟨p.serial, v, e⟩)) p = some ⟨p.serial, v, e⟩ := by
  unfold load
  rw [Function.update_self]
  simp

theorem ne_none_of_load {h : Heap T} {p : Ptr} {n : Node T} (hl : load h p = some n) : h p.addr ≠ none := by
  intro h0
  unfold load at hl
  rw [h0] at hl
  cases hl

theorem first_cons (c : Cell T) (cs : List (Cell T)) (e : Option Ptr) : first (c :: cs) e = some c.ptr := rfl

theorem first_append : ∀ (as bs : List (Cell T)) (e : Option Ptr), first (as ++ bs) e = first as (first bs e)
  | [], _, _ => rfl
  | _ :: _, _, _ => rfl

/-- **A chain splits anywhere**: the front part leads to where the back part starts. -/
theorem linked_append (h : Heap T) : ∀ (as bs : List (Cell T)) (e : Option Ptr),
    Linked h (as ++ bs) e ↔ Linked h as (first bs e) ∧ Linked h bs e
  | [], bs, e => by simp [Linked]
  | a :: as, bs, e => by
    rw [List.cons_append, Linked, Linked, linked_append h as bs e, first_append, and_assoc]

/-- **Frame rule**: a write elsewhere leaves the chain alone. -/
theorem linked_update {h : Heap T} {a : Nat} (v : Option (Node T)) : ∀ {cs : List (Cell T)} {e : Option Ptr},
    a ∉ addrs cs → Linked h cs e → Linked (Function.update h a v) cs e
  | [], _, _, _ => trivial
  | c :: cs, e, ha, hl => by
    simp only [addrs, List.map_cons, List.mem_cons, not_or] at ha
    refine ⟨?_, linked_update v ha.2 hl.2⟩
    rw [load_update_of_ne v (Ne.symm ha.1)]
    exact hl.1

theorem load_of_mem {h : Heap T} : ∀ {cs : List (Cell T)} {e : Option Ptr} {c : Cell T}, Linked h cs e → c ∈ cs →
    ∃ n, load h c.ptr = some n ∧ n.data = c.data
  | _ :: _, _, _, hl, .head _ => ⟨_, hl.1, rfl⟩
  | _ :: _, _, _, hl, .tail _ hc => load_of_mem hl.2 hc

/-- An address the allocator may hand out is not on any chain. -/
theorem not_mem_addrs_of_free {h : Heap T} {cs : List (Cell T)} {e : Option Ptr} {a : Nat} (hl : Linked h cs e)
    (ha : h a = none) : a ∉ addrs cs := by
  intro hmem
  obtain ⟨c, hc, rfl⟩ := List.mem_map.1 hmem
  obtain ⟨n, hn, -⟩ := load_of_mem hl hc
  exact ne_none_of_load hn ha

/-- **Linking a new node behind the last one.** -/
theorem linked_snoc {h : Heap T} {cs : List (Cell T)} {t : Cell T} {p : Ptr} (v : T)
    (hl : Linked h (cs ++ [t]) none) (hnd : (addrs (cs ++ [t])).Nodup) (hp : h p.addr = none) :
    Linked (Function.update (Function.update h t.ptr.addr (some ⟨t.ptr.serial, t.data, some p⟩)) p.addr
      (some ⟨p.serial, v, none⟩)) (cs ++ [t, ⟨p, v⟩]) none := by
  have hfree := not_mem_addrs_of_free hl hp
  obtain ⟨hfront, -⟩ := (linked_append h cs [t] none).1 hl
  unfold addrs at hnd hfree
  rw [List.map_append, List.nodup_append] at hnd
  rw [List.map_append, List.mem_append, not_or] at hfree
  have htne : p.addr ≠ t.ptr.addr := fun he => hfree.2 (by simp [he])
  have ht : t.ptr.addr ∉ addrs cs := fun hmem => hnd.2.2 _ hmem t.ptr.addr (by simp) rfl
  rw [linked_append]
  refine ⟨linked_update _ hfree.1 (linked_update _ ht hfront), ?_, ?_, trivial⟩
  · rw [load_update_of_ne _ (Ne.symm htne), load_update_self]
    rfl
  · exact load_update_self _ p v none

end NextChain
end Xrtc
