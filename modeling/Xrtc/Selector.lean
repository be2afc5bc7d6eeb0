import Mathlib.Data.Int.CardIntervalMod
import Xrtc.GoText
import Xrtc.Lts
/-!
# Selector — the round-robin server selector under concurrent calls

`RoundRobinSelector` of `xrpc/selector.go`.  `SetServer` resolves its list and installs it in one locked region;
`PickServer` takes an index in one locked region and reads the address in another.  The address resolver
(`net.ResolveTCPAddr`) is a parameter.  In the concurrent system each locked region is one step; a call exists from its
first region on, in the order of these regions.
-/
namespace Xrtc

structure RoundRobinSelector (A : Type) where
  addrs : List A
  curIndex : Nat
  deriving DecidableEq

/-- What a `PickServer` call does: it returns an address or an error, or it panics. -/
inductive Pick (A : Type) where
  | addr (a : A)
  | error (text : String)
  | panicked
  deriving DecidableEq

namespace RoundRobinSelector

variable {A : Type}

def new : RoundRobinSelector A := ⟨[], 0⟩

/-- The loop of `SetServer`: the addresses in order, or the first error. -/
def resolveAll (resolve : GoString → Except String A) : List GoString → Except String (List A)
  | [] => .ok []
  | server :: servers => match resolve server with
    | .error e => .error e
    | .ok a => match resolveAll resolve servers with
      | .error e => .error e
      | .ok as => .ok (a :: as)

/-- `SetServer`: the error it returns and the selector it leaves. -/
def setServer (resolve : GoString → Except String A) (rrs : RoundRobinSelector A) (servers : List GoString) :
    Option String × RoundRobinSelector A :=
  if servers.length = 0 then (some "No server available to set", rrs)
  else match resolveAll resolve servers with
    | .error e => (some e, rrs)
    | .ok addrs => (none, { rrs with addrs := addrs })

/-- The first locked region of `PickServer`. -/
def takeIndex (rrs : RoundRobinSelector A) : Nat × RoundRobinSelector A :=
  let index := rrs.curIndex
  let curIndex := rrs.curIndex + 1
  (index, { rrs with curIndex := if curIndex ≥ rrs.addrs.length then 0 else curIndex })

/-- The second locked region of `PickServer`. -/
def readAddr (rrs : RoundRobinSelector A) (index : Nat) : Pick A :=
  if rrs.addrs.length = 0 then .error "No server available to pick"
  else match rrs.addrs[index]? with
    | some a => .addr a
    | none => .panicked

/-- `PickServer` with nobody else at the selector. -/
def pickServer (rrs : RoundRobinSelector A) : Pick A × RoundRobinSelector A :=
  let (index, rrs) := rrs.takeIndex
  (rrs.readAddr index, rrs)

theorem length_resolveAll {resolve : GoString → Except String A} : ∀ {servers : List GoString} {addrs : List A},
    resolveAll resolve servers = .ok addrs → addrs.length = servers.length
  | [], addrs, h => by
    cases h
    rfl
  | server :: servers, addrs, h => by
    rw [resolveAll] at h
    split at h
    · cases h
    · split at h
      · cases h
      · rename_i as hrest
        cases h
        rw [List.length_cons, List.length_cons, length_resolveAll hrest]

/-- **What `SetServer` installs**: when it returns nil, the resolved list, which is not empty. -/
theorem setServer_none {resolve : GoString → Except String A} {rrs rrs' : RoundRobinSelector A}
    {servers : List GoString} (h : setServer resolve rrs servers = (none, rrs')) :
    resolveAll resolve servers = .ok rrs'.addrs ∧ rrs'.addrs.length = servers.length ∧ 0 < servers.length ∧
      rrs'.curIndex = rrs.curIndex := by
  unfold setServer at h
  split at h
  · cases h
  · rename_i hlen
    split at h
    · cases h
    · rename_i addrs haddrs
      cases h
      exact ⟨haddrs, length_resolveAll haddrs, by omega, rfl⟩

theorem setServer_some {resolve : GoString → Except String A} {rrs rrs' : RoundRobinSelector A}
    {servers : List GoString} {e : String} (h : setServer resolve rrs servers = (some e, rrs')) : rrs' = rrs := by
  unfold setServer at h
  split at h
  · cases h
    rfl
  · split at h
    · cases h
      rfl
    · cases h

theorem takeIndex_curIndex_lt (rrs : RoundRobinSelector A) :
    rrs.takeIndex.2.curIndex < max 1 rrs.addrs.length := by
  simp only [takeIndex]
  split <;> omega

theorem readAddr_of_lt {rrs : RoundRobinSelector A} {index : Nat} (h : index < rrs.addrs.length) :
    rrs.readAddr index = .addr (rrs.addrs.get ⟨index, h⟩) := by
  have hne : rrs.addrs.length ≠ 0 := by omega
  rw [readAddr, if_neg hne, List.getElem?_eq_getElem h]
  rfl

theorem readAddr_of_ge {rrs : RoundRobinSelector A} {index : Nat} (h0 : rrs.addrs.length ≠ 0)
    (h : rrs.addrs.length ≤ index) : rrs.readAddr index = .panicked := by
  rw [readAddr, if_neg h0, List.getElem?_eq_none h]

end RoundRobinSelector

namespace Selector

open RoundRobinSelector (setServer setServer_none setServer_some takeIndex_curIndex_lt readAddr_of_lt readAddr_of_ge)

variable {A : Type}

/-- One `PickServer` call: between its two regions, or returned.  `past` is what had been installed by its second. -/
inductive Call (A : Type) where
  | taken (index : Nat)
  | returned (index : Nat) (past : List (List A)) (pick : Pick A)
  deriving DecidableEq

/-- The selector, the lists installed so far, and the calls in the order of their first regions. -/
structure St (A : Type) where
  rrs : RoundRobinSelector A
  past : List (List A)
  calls : List (Call A)
  deriving DecidableEq

inductive Act where
  | set (servers : List GoString)
  | take
  | read (c : Nat)
  deriving DecidableEq

def init : St A := ⟨.new, [], []⟩

def step (resolve : GoString → Except String A) (s : St A) : Act → Option (St A)
  | .set servers => match setServer resolve s.rrs servers with
    | (none, rrs) => some { s with rrs := rrs, past := s.past ++ [rrs.addrs] }
    | (some _, rrs) => some { s with rrs := rrs }
  | .take =>
    let (index, rrs) := s.rrs.takeIndex
    some { s with rrs := rrs, calls := s.calls ++ [.taken index] }
  | .read c => match s.calls[c]? with
    | some (.taken index) =>
      some { s with calls := s.calls.set c (.returned index s.past (s.rrs.readAddr index)) }
    | _ => none

/-- **What a call must come to**: an address of the list installed last before its second region, or the error when
none had been. -/
def Call.Fine : Call A → Prop
  | .taken _ => True
  | .returned _ past pick => match past.getLast? with
    | none => pick = .error "No server available to pick"
    | some addrs => ∃ a ∈ addrs, pick = .addr a

def Call.Panicked : Call A → Prop
  | .taken _ => False
  | .returned _ _ pick => pick = .panicked

def Call.Below (n : Nat) : Call A → Prop
  | .taken index => index < n
  | .returned _ _ _ => True

instance (n : Nat) : ∀ call : Call A, Decidable (call.Below n)
  | .taken index => inferInstanceAs (Decidable (index < n))
  | .returned _ _ _ => .isTrue trivial

/-- A list of `n` servers reaches beyond `curIndex` and beyond every index taken and not yet used. -/
def Covers (s : St A) (n : Nat) : Prop := s.rrs.curIndex < n ∧ ∀ call ∈ s.calls, call.Below n

instance (s : St A) (n : Nat) : Decidable (Covers s n) :=
  inferInstanceAs (Decidable (s.rrs.curIndex < n ∧ ∀ call ∈ s.calls, call.Below n))

/-- The condition on a step: a `SetServer` call that installs its list covers the indices in use. -/
def Fits (resolve : GoString → Except String A) (s : St A) : Act → Prop
  | .set servers => (setServer resolve s.rrs servers).1 = none → Covers s servers.length
  | _ => True

instance (resolve : GoString → Except String A) (s : St A) : ∀ act : Act, Decidable (Fits resolve s act)
  | .set servers => inferInstanceAs
      (Decidable ((setServer resolve s.rrs servers).1 = none → Covers s servers.length))
  | .take => .isTrue trivial
  | .read _ => .isTrue trivial

/-! ## No pick out of range -/

/-- The current list is the one installed last; the indices in use are within it, or 0 while there is none. -/
structure Inv (s : St A) : Prop where
  latest : (s.past = [] ∧ s.rrs.addrs = []) ∨ (s.past.getLast? = some s.rrs.addrs ∧ s.rrs.addrs ≠ [])
  cur : s.rrs.curIndex < max 1 s.rrs.addrs.length
  below : ∀ call ∈ s.calls, call.Below (max 1 s.rrs.addrs.length)
  fine : ∀ call ∈ s.calls, call.Fine

theorem inv_init : Inv (init : St A) := by
  refine ⟨.inl ⟨rfl, rfl⟩, ?_, ?_, ?_⟩
  · exact Nat.lt_of_lt_of_le Nat.zero_lt_one (Nat.le_max_left 1 _)
  · intro call hcall
    cases hcall
  · intro call hcall
    cases hcall

/-- A call whose index is within the current list, or made before there is one, comes out as it must. -/
theorem Inv.read_fine {s : St A} {index : Nat} (hi : Inv s) (hlt : index < max 1 s.rrs.addrs.length) :
    (Call.returned index s.past (s.rrs.readAddr index)).Fine := by
  rcases hi.latest with ⟨hpast, haddrs⟩ | ⟨hpast, haddrs⟩
  · simp only [Call.Fine, hpast, List.getLast?_nil, RoundRobinSelector.readAddr, haddrs, List.length_nil, if_true]
  · have hpos : 0 < s.rrs.addrs.length := List.length_pos_iff.2 haddrs
    have hindex : index < s.rrs.addrs.length := by omega
    simp only [Call.Fine, hpast]
    exact ⟨_, List.get_mem _ ⟨index, hindex⟩, readAddr_of_lt hindex⟩

theorem inv_step {resolve : GoString → Except String A} {s s' : St A} {act : Act} (hi : Inv s)
    (hfits : Fits resolve s act) (h : step resolve s act = some s') : Inv s' := by
  cases act with
  | set servers =>
    simp only [step] at h
    split at h
    · rename_i rrs hset
      cases h
      obtain ⟨-, hlen, hpos, hcur⟩ := setServer_none hset
      obtain ⟨hcovers, hbelow⟩ := hfits (by rw [hset])
      have hmax : max 1 rrs.addrs.length = servers.length := by omega
      have hne : rrs.addrs ≠ [] := List.length_pos_iff.1 (by omega)
      refine ⟨.inr ⟨by simp, hne⟩, ?_, ?_, hi.fine⟩
      · rw [hmax, hcur]
        exact hcovers
      · rw [hmax]
        exact hbelow
    · rename_i hset
      cases h
      rw [setServer_some hset]
      exact hi
  | take =>
    cases h
    refine ⟨hi.latest, takeIndex_curIndex_lt s.rrs, ?_, ?_⟩
    · intro call hcall
      rcases List.mem_append.1 hcall with hcall | hcall
      · exact hi.below call hcall
      · rw [List.mem_singleton.1 hcall]
        exact hi.cur
    · intro call hcall
      rcases List.mem_append.1 hcall with hcall | hcall
      · exact hi.fine call hcall
      · rw [List.mem_singleton.1 hcall]
        trivial
  | read c =>
    simp only [step] at h
    split at h
    · rename_i index hc
      cases h
      have hlt := hi.below _ (List.mem_of_getElem? hc)
      refine ⟨hi.latest, hi.cur, ?_, ?_⟩
      · intro call hcall
        rcases List.mem_or_eq_of_mem_set hcall with hcall | rfl
        · exact hi.below call hcall
        · trivial
      · intro call hcall
        rcases List.mem_or_eq_of_mem_set hcall with hcall | rfl
        · exact hi.fine call hcall
        · exact hi.read_fine hlt
    · cases h

theorem panic_of_read {resolve : GoString → Except String A} {s : St A} {c index : Nat}
    (hc : s.calls[c]? = some (.taken index)) (hne : s.rrs.addrs.length ≠ 0) (hge : s.rrs.addrs.length ≤ index) :
    ∃ s', step resolve s (.read c) = some s' ∧ ∃ call ∈ s'.calls, call.Panicked := by
  obtain ⟨hlt, -⟩ := List.getElem?_eq_some_iff.1 hc
  refine ⟨{ s with calls := s.calls.set c (.returned index s.past (s.rrs.readAddr index)) }, ?_, ?_⟩
  · simp only [step, hc]
  · exact ⟨_, List.mem_set hlt _, readAddr_of_ge hne hge⟩

/-- A list that covers too little makes some call panic within two steps. -/
theorem panic_of_not_covers {resolve : GoString → Except String A} {s s' : St A} {servers : List GoString}
    (hset : (setServer resolve s.rrs servers).1 = none) (hc : ¬Covers s servers.length)
    (h : step resolve s (.set servers) = some s') :
    ∃ acts s'', Lts.run (step resolve) s' acts = some s'' ∧ ∃ call ∈ s''.calls, call.Panicked := by
  simp only [step] at h
  split at h
  swap
  · rename_i hset'
    rw [hset'] at hset
    cases hset
  rename_i rrs hset'
  cases h
  obtain ⟨-, hlen, hpos, hcur⟩ := setServer_none hset'
  have hne : rrs.addrs.length ≠ 0 := by omega
  by_cases hcovers : s.rrs.curIndex < servers.length
  · -- an index taken before is used after
    obtain ⟨call, hcall, hbelow⟩ : ∃ call ∈ s.calls, ¬call.Below servers.length := by
      by_contra hno
      refine hc ⟨hcovers, fun call hcall => ?_⟩
      by_contra hb
      exact hno ⟨call, hcall, hb⟩
    cases call with
    | returned index past pick => exact absurd trivial hbelow
    | taken index =>
      have hge : rrs.addrs.length ≤ index := by
        simp only [Call.Below] at hbelow
        omega
      obtain ⟨c, hc'⟩ := List.getElem?_of_mem hcall
      obtain ⟨s'', hread, hpanic⟩ := @panic_of_read A resolve ⟨rrs, s.past ++ [rrs.addrs], s.calls⟩ c index hc' hne hge
      refine ⟨[.read c], s'', ?_, hpanic⟩
      simp only [Lts.run, hread, Option.bind_some]
  · -- `curIndex` itself is out of range: the next call takes it
    have hge : rrs.addrs.length ≤ rrs.curIndex := by omega
    have htaken : (s.calls ++ [Call.taken rrs.curIndex])[s.calls.length]? = some (.taken rrs.curIndex) :=
      List.getElem?_concat_length
    obtain ⟨s'', hread, hpanic⟩ := @panic_of_read A resolve
      ⟨rrs.takeIndex.2, s.past ++ [rrs.addrs], s.calls ++ [.taken rrs.curIndex]⟩ _ _ htaken hne hge
    refine ⟨[.take, .read s.calls.length], s'', ?_, hpanic⟩
    simp only [Lts.run, step, RoundRobinSelector.takeIndex, Option.bind_some] at hread ⊢
    rw [hread, Option.bind_some]

/-- **No pick is out of range as long as every new list covers the indices in use**: each call then returns an address
of the list installed last before its second region, or the error when there was none.  A list that covers too little
can be followed by a call that panics. -/
theorem pick_in_range (resolve : GoString → Except String A) :
    (∀ s, Lts.Via (step resolve) (Fits resolve) init s → ∀ call ∈ s.calls, call.Fine) ∧
    ∀ s s' servers, Lts.Via (step resolve) (Fits resolve) init s → ¬Fits resolve s (.set servers) →
      step resolve s (.set servers) = some s' →
      ∃ acts s'', Lts.run (step resolve) s' acts = some s'' ∧ ∃ call ∈ s''.calls, call.Panicked := by
  constructor
  · intro s h
    exact (Lts.Via.invariant (I := Inv) inv_init (fun _ _ _ hi hfits hs => inv_step hi hfits hs) h).fine
  · intro s s' servers _ hfits h
    obtain ⟨hset, hc⟩ := Classical.not_imp.1 hfits
    exact panic_of_not_covers hset hc h

def hostA : GoString := [97, 58, 49]

def hostB : GoString := [98, 58, 49]

/-- One host, then two, with a call across the change and one after it. -/
def growing : List Act :=
  [.set [hostA], .take, .set [hostA, hostB], .read 0, .take, .take, .read 2]

theorem pick_in_range_growing : ∃ s : St GoString,
    Lts.run (Lts.guarded (Fits .ok) (step .ok)) init growing = some s ∧
    s.calls = [.returned 0 [[hostA], [hostA, hostB]] (.addr hostA), .taken 0,
      .returned 1 [[hostA], [hostA, hostB]] (.addr hostB)] ∧ ∀ call ∈ s.calls, call.Fine := by
  have hend : (Lts.run (Lts.guarded (Fits .ok) (step .ok)) (init : St GoString) growing).map (fun s => s.calls) =
      some [.returned 0 [[hostA], [hostA, hostB]] (.addr hostA), .taken 0,
        .returned 1 [[hostA], [hostA, hostB]] (.addr hostB)] := by decide
  obtain ⟨s, hs, hcalls⟩ := Option.map_eq_some_iff.1 hend
  exact ⟨s, hs, hcalls, (pick_in_range .ok).1 s (Lts.Via.of_run .start hs)⟩

/-- Two hosts, one whole call, then a list of one host and another whole call. -/
def shrinking : List Act :=
  [.set [hostA, hostB], .take, .read 0, .set [hostA], .take, .read 1]

theorem pick_panics_after_shrinking :
    ¬ ∀ s : St GoString, Lts.Reachable (step .ok) init s → ∀ call ∈ s.calls, call.Fine := by
  intro hall
  have hend : (Lts.run (step .ok) (init : St GoString) shrinking).map (fun s => s.calls) =
      some [.returned 0 [[hostA, hostB]] (.addr hostA), .returned 1 [[hostA, hostB], [hostA]] .panicked] := by decide
  obtain ⟨s, hs, hcalls⟩ := Option.map_eq_some_iff.1 hend
  have hfine := hall s (Lts.Reachable.of_run hs) (.returned 1 [[hostA, hostB], [hostA]] .panicked) (by simp [hcalls])
  obtain ⟨a, -, ha⟩ := hfine
  cases ha

/-! ## Fairness with a list set once -/

def Call.index : Call A → Nat
  | .taken index => index
  | .returned index _ _ => index

def Call.isReturned : Call A → Bool
  | .taken _ => false
  | .returned _ _ _ => true

/-- How many of the calls have returned with the server at a position. -/
def picks (s : St A) (i : Nat) : Nat := s.calls.countP (fun call => call.isReturned && call.index == i)

/-- The selector after the one `SetServer` call, before any pick. -/
def ready (rrs : RoundRobinSelector A) : St A := ⟨rrs, [rrs.addrs], []⟩

theorem succ_mod_wrap {k n : Nat} (hn : 0 < n) : (if k % n + 1 ≥ n then 0 else k % n + 1) = (k + 1) % n := by
  have hlt := Nat.mod_lt k hn
  rw [← Nat.mod_add_mod]
  by_cases hwrap : k % n + 1 = n
  · rw [if_pos (Nat.le_of_eq hwrap.symm), hwrap, Nat.mod_self]
  · have hnot : ¬k % n + 1 ≥ n := by omega
    have hmod : (k % n + 1) % n = k % n + 1 := Nat.mod_eq_of_lt (by omega)
    rw [if_neg hnot, hmod]

/-- The residues of `0, …, k - 1` modulo `n` are spread evenly. -/
theorem count_residues (k : Nat) {n i : Nat} (hi : i < n) :
    ((List.range k).map (· % n)).count i = k / n + if i < k % n then 1 else 0 := by
  have hcount := Nat.count_modEq_card k (Nat.zero_lt_of_lt hi) i
  rw [Nat.mod_eq_of_lt hi] at hcount
  rw [← hcount, List.count_eq_countP, List.countP_map, Nat.count]
  refine List.countP_congr (fun x _ => ?_)
  simp [Nat.ModEq, Nat.mod_eq_of_lt hi]

/-- What picks alone keep: the list, `curIndex`, the indices in order, and the address of each returned call. -/
structure RoundRobin (addrs : List A) (k : Nat) (s : St A) : Prop where
  addrs_eq : s.rrs.addrs = addrs
  cur : s.rrs.curIndex = k % addrs.length
  indices : s.calls.map Call.index = (List.range k).map (· % addrs.length)
  returned : ∀ index past pick, .returned index past pick ∈ s.calls → ∃ a, addrs[index]? = some a ∧ pick = .addr a

theorem RoundRobin.take {addrs : List A} {k : Nat} {s : St A} (h : RoundRobin addrs k s) (hn : 0 < addrs.length) :
    RoundRobin addrs (k + 1)
      { s with rrs := s.rrs.takeIndex.2, calls := s.calls ++ [.taken s.rrs.takeIndex.1] } := by
  refine ⟨h.addrs_eq, ?_, ?_, ?_⟩
  · simp only [RoundRobinSelector.takeIndex, h.addrs_eq, h.cur]
    exact succ_mod_wrap hn
  · simp only [List.map_append, h.indices, List.range_succ, List.map_cons, List.map_nil, Call.index,
      RoundRobinSelector.takeIndex, h.cur]
  · intro index past pick hmem
    rcases List.mem_append.1 hmem with hmem | hmem
    · exact h.returned index past pick hmem
    · cases List.mem_singleton.1 hmem

theorem RoundRobin.index_lt {addrs : List A} {k : Nat} {s : St A} (h : RoundRobin addrs k s) (hn : 0 < addrs.length)
    {call : Call A} (hcall : call ∈ s.calls) : call.index < addrs.length := by
  have hmem : call.index ∈ s.calls.map Call.index := List.mem_map_of_mem hcall
  rw [h.indices] at hmem
  obtain ⟨x, -, hx⟩ := List.mem_map.1 hmem
  rw [← hx]
  exact Nat.mod_lt x hn

theorem RoundRobin.read {addrs : List A} {k c index : Nat} {s : St A} (h : RoundRobin addrs k s)
    (hn : 0 < addrs.length) (hc : s.calls[c]? = some (.taken index)) :
    RoundRobin addrs k { s with calls := s.calls.set c (.returned index s.past (s.rrs.readAddr index)) } := by
  obtain ⟨hlt, hget⟩ := List.getElem?_eq_some_iff.1 hc
  refine ⟨h.addrs_eq, h.cur, ?_, ?_⟩
  · -- the call keeps its index when it returns
    have hself : s.calls.set c (.taken index) = s.calls := by
      rw [← hget]
      exact List.set_getElem_self hlt
    calc (s.calls.set c (.returned index s.past (s.rrs.readAddr index))).map Call.index
      _ = (s.calls.set c (.taken index)).map Call.index := by simp only [List.map_set, Call.index]
      _ = s.calls.map Call.index := by rw [hself]
      _ = (List.range k).map (· % addrs.length) := h.indices
  · intro i past pick hmem
    rcases List.mem_or_eq_of_mem_set hmem with hmem | heq
    · exact h.returned i past pick hmem
    · cases heq
      have hindex : index < addrs.length := h.index_lt hn (List.mem_of_getElem? hc)
      refine ⟨addrs.get ⟨index, hindex⟩, List.getElem?_eq_getElem hindex, ?_⟩
      have hlt' : index < s.rrs.addrs.length := by rw [h.addrs_eq]; exact hindex
      rw [readAddr_of_lt hlt']
      simp [h.addrs_eq]

theorem roundRobin_run {resolve : GoString → Except String A} {rrs : RoundRobinSelector A} (hn : 0 < rrs.addrs.length)
    (h0 : rrs.curIndex = 0) : ∀ (acts : List Act) (s : St A), Lts.run (step resolve) (ready rrs) acts = some s →
      (∀ servers, .set servers ∉ acts) → RoundRobin rrs.addrs (acts.count .take) s := by
  refine Lts.run_invariant
    (I := fun (acts : List Act) s => (∀ servers, .set servers ∉ acts) → RoundRobin rrs.addrs (acts.count .take) s)
    ?_ ?_
  · intro _
    refine ⟨rfl, by simpa [ready] using h0, rfl, ?_⟩
    intro index past pick hmem
    cases hmem
  · intro acts s act s' ih h hno
    have hpre := ih (fun servers hmem => hno servers (List.mem_append_left _ hmem))
    cases act with
    | set servers => exact absurd (List.mem_append_right acts List.mem_cons_self) (hno servers)
    | take =>
      cases h
      rw [List.count_append, List.count_singleton_self]
      exact hpre.take hn
    | read c =>
      simp only [step] at h
      split at h
      · rename_i index hc
        cases h
        simpa using hpre.read hn hc
      · cases h

theorem picks_eq {s : St A} (hall : ∀ call ∈ s.calls, call.isReturned = true) (i : Nat) :
    picks s i = (s.calls.map Call.index).count i := by
  rw [picks, List.count_eq_countP, List.countP_map]
  refine List.countP_congr (fun call hcall => ?_)
  simp [hall call hcall]

/-- **Round robin is fair under every interleaving**: with a list set once, the indices taken are `0, 1, 2, …` modulo its
length in the order of the first regions, each call that has returned gave the server at its index, and once all have
returned any two positions were picked equally often, up to one. -/
theorem round_robin_fair (resolve : GoString → Except String A) (servers : List GoString) (rrs : RoundRobinSelector A)
    (hset : setServer resolve .new servers = (none, rrs)) (acts : List Act) (hpicks : ∀ list, .set list ∉ acts)
    (s : St A) (h : Lts.run (step resolve) (ready rrs) acts = some s) :
    (∀ index past pick, .returned index past pick ∈ s.calls → ∃ a, rrs.addrs[index]? = some a ∧ pick = .addr a) ∧
    s.calls.map Call.index = (List.range (acts.count .take)).map (· % servers.length) ∧
    ((∀ call ∈ s.calls, call.isReturned = true) →
      ∀ i j, i < servers.length → j < servers.length → picks s i ≤ picks s j + 1) := by
  obtain ⟨-, hlen, hpos, hcur⟩ := setServer_none hset
  have hrr := roundRobin_run (by omega) hcur acts s h hpicks
  have hindices := hrr.indices
  rw [hlen] at hindices
  refine ⟨hrr.returned, hindices, ?_⟩
  intro hall i j hi hj
  rw [picks_eq hall, picks_eq hall, hindices, count_residues _ hi, count_residues _ hj]
  split <;> split <;> omega

/-- Three calls of two servers, returning in another order than they took their indices. -/
def overlapping : List Act := [.take, .take, .read 1, .take, .read 2, .read 0]

theorem round_robin_fair_overlapping : ∃ s : St GoString,
    Lts.run (step .ok) (ready ⟨[hostA, hostB], 0⟩) overlapping = some s ∧
    s.calls.map Call.index = [0, 1, 0] ∧ picks s 0 ≤ picks s 1 + 1 ∧ picks s 1 ≤ picks s 0 + 1 := by
  have hsome : (Lts.run (step .ok) (ready ⟨[hostA, hostB], 0⟩) overlapping).isSome = true := by decide
  obtain ⟨s, hs⟩ := Option.isSome_iff_exists.1 hsome
  have hreturned : (Lts.run (step .ok) (ready ⟨[hostA, hostB], 0⟩) overlapping).map
      (fun s => s.calls.all Call.isReturned) = some true := by decide
  rw [hs, Option.map_some, Option.some.injEq] at hreturned
  have hno : ∀ list, .set list ∉ overlapping := by simp [overlapping]
  obtain ⟨-, hindices, hfair⟩ := round_robin_fair .ok [hostA, hostB] ⟨[hostA, hostB], 0⟩ rfl overlapping hno s hs
  have hall := hfair (List.all_eq_true.1 hreturned)
  exact ⟨s, hs, hindices, hall 0 1 (by decide) (by decide), hall 1 0 (by decide) (by decide)⟩

end Selector
end Xrtc
