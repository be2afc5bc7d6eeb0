import Xrtc.PipelineBalance
/-!
# Accepts — what the pipeline promises about accepted descriptors

The way of a descriptor (`seats`): the accept thread's hand before and after `dispatch_conn` has picked a worker, that
worker's `q_conn_`, its hand, and its `new_conn` calls.  The descriptor accepted as number `k` has its path fixed by
`k mod ns`, because `next_worker_` counts dispatches modulo the number of workers (`NextOk`).
-/
namespace Xrtc
namespace Pipeline

open Xrtc.Flow (Flows)

variable {ns : Nat} {n : WorkerNum}

inductive Seat (ns : Nat) where
  | acceptHand
  | dispatchHand (i : Fin ns)
  | connQueue (i : Fin ns)
  | connHand (i : Fin ns)
  | newConns (i : Fin ns)
  deriving DecidableEq

def AcceptPc.fresh : AcceptPc ns → List Accepted
  | .dispatch d => [d]
  | _ => []

def AcceptPc.bound (i : Fin ns) : AcceptPc ns → List Accepted
  | .produce i' d => if i' = i then [d] else []
  | _ => []

def SigPc.descriptor : SigPc → List Accepted
  | .newConn d => [d]
  | _ => []

def seats (s : St ns n) : Seat ns → List Accepted
  | .acceptHand => s.accept.fresh
  | .dispatchHand i => s.accept.bound i
  | .connQueue i => s.connQueue i
  | .connHand i => (s.sig i).descriptor
  | .newConns i => s.newConns i

def seatHops (i : Fin ns) : List (Seat ns) := [.newConns i, .connHand i, .connQueue i, .dispatchHand i, .acceptHand]

/-- The worker whose turn it is at the `k`-th accepted descriptor. -/
def turn (hns : 0 < ns) (k : Nat) : Fin ns := ⟨k % ns, Nat.mod_lt k hns⟩

def seatPath (hns : 0 < ns) (d : Accepted) : List (Seat ns) := seatHops (turn hns d.seq)

/-- A worker's own seats are on the paths of its turns only. -/
theorem eq_of_mem_seatHops {i k : Fin ns} {p : Seat ns} (hm : p ∈ seatHops k)
    (hp : p = .newConns i ∨ p = .connHand i ∨ p = .connQueue i ∨ p = .dispatchHand i) : i = k := by
  unfold seatHops at hm
  rcases hp with rfl | rfl | rfl | rfl <;> simpa using hm

theorem nodup_seatHops (i : Fin ns) : (seatHops i).Nodup := by simp [seatHops]

/-- `next_worker_` is the turn of the next descriptor to be dispatched. -/
def NextOk (s : St ns n) : Prop :=
  match s.accept with
  | .dispatch d => s.nextWorker = d.seq % ns ∧ d.seq + 1 = s.accepted.length
  | .crashed => False
  | _ => s.nextWorker = s.accepted.length % ns

structure ConnInv (hns : 0 < ns) (s : St ns n) : Prop where
  flows : Flows (seatPath hns) (seats s) s.accepted
  numbered : s.accepted.map (fun d => d.seq) = List.range s.accepted.length
  next : NextOk s

/-! ## What a step does to the descriptors -/

section Effects
variable {s : St ns n}

theorem seats_accept (h : s.accept = .idle) (d : Accepted) (accepted : List Accepted) :
    seats { s with accept := .dispatch d, accepted := accepted } = Flow.put (seats s) .acceptHand d := by
  funext x
  cases x <;> simp [seats, Flow.put, h, AcceptPc.fresh, AcceptPc.bound]

theorem seats_dispatch {i : Fin ns} {d : Accepted} (h : s.accept = .dispatch d) (next : Nat) :
    seats { s with nextWorker := next, accept := .produce i d } =
      Flow.hop (seats s) .acceptHand (.dispatchHand i) d [] := by
  funext x
  cases x <;> simp only [seats, Flow.hop, h, Function.update_apply, reduceCtorEq, if_false, if_true, AcceptPc.fresh,
    AcceptPc.bound, Seat.dispatchHand.injEq, List.nil_append]
  simp only [eq_comm]

theorem seats_produce {i : Fin ns} {d : Accepted} (h : s.accept = .produce i d) :
    seats { s with connQueue := Function.update s.connQueue i (s.connQueue i ++ [d]), accept := .notify i } =
      Flow.hop (seats s) (.dispatchHand i) (.connQueue i) d [] := by
  funext x
  cases x <;> simp only [seats, Flow.hop, h, Function.update_apply, reduceCtorEq, if_false, AcceptPc.fresh,
    AcceptPc.bound, Seat.dispatchHand.injEq, Seat.connQueue.injEq]
  split
  · rfl
  · rename_i hne
    rw [if_neg (fun he => hne he.symm)]

theorem seats_takeConn {i : Fin ns} {d : Accepted} {rest : List Accepted} (h : (s.sig i).descriptor = []) :
    seats (setSig { s with connQueue := Function.update s.connQueue i rest } i (.newConn d)) =
      Flow.hop (seats s) (.connQueue i) (.connHand i) d rest := by
  funext x
  cases x <;> simp only [seats, Flow.hop, setSig, Function.update_apply, reduceCtorEq, if_false,
    Seat.connQueue.injEq, Seat.connHand.injEq]
  split
  · rw [h]
    rfl
  · rfl

theorem seats_newConn {i : Fin ns} {d : Accepted} :
    seats (setSig { s with newConns := Function.update s.newConns i (s.newConns i ++ [d]) } i .idle) =
      Flow.hop (seats s) (.connHand i) (.newConns i) d [] := by
  funext x
  cases x <;> simp only [seats, Flow.hop, setSig, Function.update_apply, reduceCtorEq, if_false,
    Seat.connHand.injEq, Seat.newConns.injEq]
  split <;> rfl

end Effects

/-! ## The law is kept -/

section Kept
variable {hns : 0 < ns} {s s' : St ns n}

/-- A step that moves no descriptor. -/
theorem ConnInv.stutter (h : ConnInv hns s) (hseats : seats s' = seats s) (hacc : s'.accepted = s.accepted)
    (haccept : s'.accept = s.accept) (hnext : s'.nextWorker = s.nextWorker) : ConnInv hns s' := by
  refine ⟨?_, ?_, ?_⟩
  · rw [hseats, hacc]
    exact h.flows
  · rw [hacc]
    exact h.numbered
  · unfold NextOk
    rw [haccept, hnext, hacc]
    exact h.next

/-- A signaling worker's step that leaves `q_conn_` alone and holds no descriptor before and after. -/
theorem ConnInv.sig_stutter (h : ConnInv hns s) {i : Fin ns} {pc : SigPc}
    (hsig : s'.sig = Function.update s.sig i pc) (hpc : pc.descriptor = (s.sig i).descriptor)
    (hqueue : s'.connQueue = s.connQueue) (hnew : s'.newConns = s.newConns) (hacc : s'.accepted = s.accepted)
    (haccept : s'.accept = s.accept) (hnext : s'.nextWorker = s.nextWorker) : ConnInv hns s' := by
  refine h.stutter ?_ hacc haccept hnext
  funext x
  cases x <;> simp only [seats, hsig, hqueue, hnew, haccept, Flow.apply_update_eq hpc]

/-- Where a descriptor is says whose turn it was. -/
theorem ConnInv.turn_eq (h : ConnInv hns s) {p : Seat ns} {d : Accepted} (hd : d ∈ seats s p) :
    p ∈ seatHops (turn hns d.seq) := h.flows.onPath p d hd

theorem conn_takeConn (h : ConnInv hns s) {i : Fin ns} {d : Accepted} {rest : List Accepted} (hi : s.sig i = .takeConn)
    (hq : s.connQueue i = d :: rest) :
    ConnInv hns (setSig { s with connQueue := Function.update s.connQueue i rest } i (.newConn d)) := by
  have hat : seats s (.connQueue i) = d :: rest := hq
  have hturn : i = turn hns d.seq :=
    eq_of_mem_seatHops (h.turn_eq (hat ▸ List.mem_cons_self)) (.inr (.inr (.inl rfl)))
  have hsplit : seatPath hns d = [Seat.newConns i] ++ Seat.connHand i :: .connQueue i :: [.dispatchHand i, .acceptHand] := by
    rw [hturn]
    rfl
  refine ⟨?_, h.numbered, h.next⟩
  rw [seats_takeConn (by rw [hi]; rfl)]
  exact h.flows.hop hsplit (nodup_seatHops _) hat

theorem conn_newConn (h : ConnInv hns s) {i : Fin ns} {d : Accepted} (hi : s.sig i = .newConn d) :
    ConnInv hns (setSig { s with newConns := Function.update s.newConns i (s.newConns i ++ [d]) } i .idle) := by
  have hat : seats s (.connHand i) = [d] := by simp [seats, hi, SigPc.descriptor]
  have hturn : i = turn hns d.seq :=
    eq_of_mem_seatHops (h.turn_eq (hat ▸ List.mem_singleton.2 rfl)) (.inr (.inl rfl))
  have hsplit : seatPath hns d = [] ++ Seat.newConns i :: .connHand i :: [.connQueue i, .dispatchHand i, .acceptHand] := by
    rw [hturn]
    rfl
  refine ⟨?_, h.numbered, h.next⟩
  rw [seats_newConn]
  exact h.flows.hop hsplit (nodup_seatHops _) hat

theorem conn_sigMove (h : ConnInv hns s) {i : Fin ns} (hm : SigMove s i s') : ConnInv hns s' := by
  cases hm with
  | readConn hpc hp => exact h.sig_stutter rfl (by rw [hpc]; rfl) rfl rfl rfl rfl rfl
  | readMsg hpc hp => exact h.sig_stutter rfl (by rw [hpc]; rfl) rfl rfl rfl rfl rfl
  | send hpc => exact h.sig_stutter rfl (by rw [hpc]; rfl) rfl rfl rfl rfl rfl
  | notifyServer hpc => exact h.sig_stutter rfl (by rw [hpc]; rfl) rfl rfl rfl rfl rfl
  | popNone hpc hq => exact h.sig_stutter rfl (by rw [hpc]; rfl) rfl rfl rfl rfl rfl
  | pop hpc hq => exact h.sig_stutter rfl (by rw [hpc]; rfl) rfl rfl rfl rfl rfl
  | answer hpc hcmd => exact h.sig_stutter rfl (by rw [hpc]; rfl) rfl rfl rfl rfl rfl
  | unknown hpc hcmd => exact h.sig_stutter rfl (by rw [hpc]; rfl) rfl rfl rfl rfl rfl
  | takeNone hpc hq => exact h.sig_stutter rfl (by rw [hpc]; rfl) rfl rfl rfl rfl rfl
  | take hpc hq => exact conn_takeConn h hpc hq
  | newConn hpc => exact conn_newConn h hpc

/-- The RTC server and its workers hold no descriptor. -/
theorem conn_serverMove (h : ConnInv hns s) (hm : ServerMove s s') : ConnInv hns s' := by
  cases hm <;> exact h.stutter (by funext x; cases x <;> rfl) rfl rfl rfl

theorem conn_workerMove (h : ConnInv hns s) {j : Fin n.val} (hm : WorkerMove s j s') : ConnInv hns s' := by
  cases hm <;> exact h.stutter (by funext x; cases x <;> rfl) rfl rfl rfl

theorem succ_turn (k : Nat) (hns : 0 < ns) : (if ns ≤ k % ns + 1 then 0 else k % ns + 1) = (k + 1) % ns := by
  have hlt := Nat.mod_lt k hns
  have hmod : (k + 1) % ns = (k % ns + 1) % ns := (Nat.mod_add_mod k ns 1).symm
  rw [hmod]
  split
  · have he : k % ns + 1 = ns := by omega
    rw [he, Nat.mod_self]
  · exact (Nat.mod_eq_of_lt (by omega)).symm

theorem conn_dispatchMove (h : ConnInv hns s) (hm : DispatchMove s s') : ConnInv hns s' := by
  have hnext := h.next
  unfold NextOk at hnext
  cases hm with
  | @choose d hpc hlt =>
    rw [hpc] at hnext
    obtain ⟨hn, hlen⟩ := hnext
    have hidx : (⟨s.nextWorker, hlt⟩ : Fin ns) = turn hns d.seq := Fin.ext hn
    have hat : seats s .acceptHand = [d] := by simp [seats, hpc, AcceptPc.fresh]
    have hsplit : seatPath hns d = [Seat.newConns (turn hns d.seq), .connHand (turn hns d.seq),
        .connQueue (turn hns d.seq)] ++ Seat.dispatchHand (turn hns d.seq) :: .acceptHand :: [] := rfl
    refine ⟨?_, h.numbered, ?_⟩
    · rw [seats_dispatch hpc, hidx]
      exact h.flows.hop hsplit (nodup_seatHops _) hat
    · show (if ns ≤ s.nextWorker + 1 then 0 else s.nextWorker + 1) = s.accepted.length % ns
      rw [hn, succ_turn d.seq hns, hlen]
  | crash hpc hlt =>
    rw [hpc] at hnext
    exact absurd (hnext.1 ▸ Nat.mod_lt _ hns) hlt
  | @produce i d hpc =>
    rw [hpc] at hnext
    have hat : seats s (.dispatchHand i) = [d] := by simp [seats, hpc, AcceptPc.bound]
    have hturn : i = turn hns d.seq :=
      eq_of_mem_seatHops (h.turn_eq (hat ▸ List.mem_singleton.2 rfl)) (.inr (.inr (.inr rfl)))
    have hsplit : seatPath hns d = [Seat.newConns i, .connHand i] ++ Seat.connQueue i :: .dispatchHand i :: [.acceptHand] := by
      rw [hturn]
      rfl
    refine ⟨?_, h.numbered, hnext⟩
    rw [seats_produce hpc]
    exact h.flows.hop hsplit (nodup_seatHops _) hat
  | @notify i hpc =>
    rw [hpc] at hnext
    refine ⟨?_, h.numbered, hnext⟩
    have hseats : seats { s with
        sigPipe := Function.update s.sigPipe i (s.sigPipe i ++ [.newConn]), accept := .idle } = seats s := by
      funext x
      cases x <;> simp [seats, hpc, AcceptPc.fresh, AcceptPc.bound]
    rw [hseats]
    exact h.flows

theorem conn_accept (h : ConnInv hns s) (hi : s.accept = .idle) (fd : Int) :
    ConnInv hns { s with
      accept := .dispatch ⟨s.accepted.length, fd⟩, accepted := s.accepted ++ [⟨s.accepted.length, fd⟩] } := by
  have hnext := h.next
  unfold NextOk at hnext
  rw [hi] at hnext
  have hsplit : seatPath hns ⟨s.accepted.length, fd⟩ = [Seat.newConns (turn hns s.accepted.length),
      .connHand (turn hns s.accepted.length), .connQueue (turn hns s.accepted.length),
      .dispatchHand (turn hns s.accepted.length)] ++ [Seat.acceptHand] := rfl
  refine ⟨?_, ?_, hnext, ?_⟩
  · rw [seats_accept hi]
    exact h.flows.put hsplit (nodup_seatHops _)
  · rw [List.map_append, h.numbered, List.length_append, List.length_singleton, List.range_succ]
    rfl
  · simp

/-- **Every step of every thread keeps the law of the descriptors.** -/
theorem conn_step {l : Label ns n} (h : ConnInv hns s) (hs : step s l = some s') : ConnInv hns s' := by
  cases step_move hs with
  | pushRequest r hi => exact h.sig_stutter rfl (by rw [hi]; rfl) rfl rfl rfl rfl rfl
  | sig hm => exact conn_sigMove h hm
  | server hm => exact conn_serverMove h hm
  | worker hm => exact conn_workerMove h hm
  | acceptFailed hi => exact h
  | accept hi => exact conn_accept h hi _
  | dispatch hm => exact conn_dispatchMove h hm

end Kept

theorem conn_init (hns : 0 < ns) : ConnInv hns (init : St ns n) := by
  have hseats : seats (init : St ns n) = fun _ => [] := by
    funext x
    cases x <;> rfl
  refine ⟨?_, rfl, (Nat.zero_mod ns).symm⟩
  rw [hseats]
  exact Flow.flows_empty _

theorem reachable_connInv (hns : 0 < ns) {s : St ns n} (h : Lts.Reachable step init s) : ConnInv hns s :=
  h.invariant (conn_init hns) (fun _ _ _ hi hs => conn_step hi hs)

/-! ## The promises -/

section Promises
variable {hns : 0 < ns} {s : St ns n}

theorem ConnInv.nodup_accepted (h : ConnInv hns s) : s.accepted.Nodup := by
  apply List.Nodup.of_map (fun d => d.seq)
  rw [h.numbered]
  exact List.nodup_range

theorem seatPath_eq_iff (d : Accepted) (i : Fin ns) : seatPath hns d = seatHops i ↔ d.seq % ns = i.val := by
  constructor
  · intro he
    unfold seatPath seatHops at he
    have hi := (List.cons.inj he).1
    rw [Seat.newConns.injEq] at hi
    rw [← hi]
    rfl
  · intro he
    unfold seatPath
    have hi : turn hns d.seq = i := Fin.ext he
    rw [hi]

/-- What a worker has taken are the first descriptors of its turn, in order. -/
theorem ConnInv.newConns_prefix (h : ConnInv hns s) (i : Fin ns) :
    s.newConns i <+: s.accepted.filter (fun d => d.seq % ns = i.val) := by
  have hfront := h.flows.front_prefix [.newConns i] [.connHand i, .connQueue i, .dispatchHand i, .acceptHand]
  have hsel : ∀ d : Accepted, decide (seatPath hns d = [.newConns i] ++ [.connHand i, .connQueue i, .dispatchHand i,
      .acceptHand]) = decide (d.seq % ns = i.val) := by
    intro d
    rw [decide_eq_decide]
    exact seatPath_eq_iff d i
  have hall : (s.newConns i).filter (fun d => d.seq % ns = i.val) = s.newConns i := by
    rw [List.filter_eq_self]
    intro d hd
    have hturn := eq_of_mem_seatHops (i := i) (h.turn_eq (p := .newConns i) hd) (.inl rfl)
    rw [decide_eq_true_eq, hturn]
    rfl
  simp only [Flow.along, List.flatMap_cons, List.flatMap_nil, List.append_nil, hsel] at hfront
  rwa [show seats s (.newConns i) = s.newConns i from rfl, hall] at hfront

end Promises

/-- No `NEW_CONN` token is unread or being processed. -/
structure NoneUnderway (s : St ns n) : Prop where
  accept : s.accept = .idle
  pipe : ∀ i, (s.sigPipe i).count .newConn = 0
  sig : ∀ i, s.sig i ≠ .takeConn ∧ ∀ d, s.sig i ≠ .newConn d

theorem seats_none {s : St ns n} (hb : Balance s) (hnone : NoneUnderway s) {p : Seat ns} {d : Accepted}
    (hd : d ∈ seats s p) : ∃ i, p = .newConns i := by
  cases p with
  | newConns i => exact ⟨i, rfl⟩
  | acceptHand =>
    rw [seats, hnone.accept] at hd
    cases hd
  | dispatchHand i =>
    rw [seats, hnone.accept] at hd
    cases hd
  | connQueue i =>
    have hbal := hb.conn i
    have hdue : (s.sig i).dueConn = 0 := by
      have hne := (hnone.sig i).1
      cases hpc : s.sig i <;> first | rfl | exact absurd hpc hne
    rw [hnone.accept, hnone.pipe, hdue] at hbal
    rw [seats, List.length_eq_zero_iff.1 hbal] at hd
    cases hd
  | connHand i =>
    have hne := (hnone.sig i).2
    rw [seats] at hd
    cases hpc : s.sig i <;> rw [hpc] at hd <;> first | exact absurd hpc (hne _) | cases hd

/-- **Accepted descriptors are handed over exactly once.**  In every reachable state: the `k`-th accepted descriptor
carries the number `k`; what a worker has passed to `new_conn` are the first accepted descriptors whose number is its
own modulo `ns`, in order, and no descriptor is passed twice; a `NEW_CONN` token that was read finds a descriptor;
between dispatches `q_conn_` is as long as the pipe has `NEW_CONN` tokens, plus one for a token just read; and when
nothing is under way every accepted descriptor has been passed to `new_conn` exactly once. -/
theorem descriptor_handed_once (hns : 0 < ns) (s : St ns n) (h : Lts.Reachable step init s) :
    s.accepted.map (fun d => d.seq) = List.range s.accepted.length ∧
    (∀ i, s.newConns i <+: s.accepted.filter (fun d => d.seq % ns = i.val)) ∧
    (∀ i d, d ∈ s.newConns i → d.seq % ns = i.val ∧ (s.newConns i).count d = 1 ∧ ∀ i', d ∈ s.newConns i' → i' = i) ∧
    (∀ i, s.sig i = .takeConn → s.connQueue i ≠ []) ∧
    (s.accept = .idle → ∀ i, (s.connQueue i).length =
      (s.sigPipe i).count .newConn + if s.sig i = .takeConn then 1 else 0) ∧
    (NoneUnderway s → ∀ d ∈ s.accepted, ∃ i, d.seq % ns = i.val ∧ (s.newConns i).count d = 1 ∧
      ∀ i', d ∈ s.newConns i' → i' = i) := by
  have hc := reachable_connInv hns h
  have hb := reachable_balance h
  have honce : ∀ i d, d ∈ s.newConns i →
      d.seq % ns = i.val ∧ (s.newConns i).count d = 1 ∧ ∀ i', d ∈ s.newConns i' → i' = i := by
    intro i d hd
    have hmem := hc.newConns_prefix i
    refine ⟨?_, ?_, fun i' hd' => ?_⟩
    · simpa using (List.mem_filter.1 (hmem.subset hd)).2
    · exact List.count_eq_one_of_mem (hmem.sublist.nodup (hc.nodup_accepted.filter _)) hd
    · have h1 := (List.mem_filter.1 (hmem.subset hd)).2
      have h2 := (List.mem_filter.1 ((hc.newConns_prefix i').subset hd')).2
      rw [decide_eq_true_eq] at h1 h2
      exact Fin.ext (h2.symm.trans h1)
  refine ⟨hc.numbered, hc.newConns_prefix, honce, fun i hpc hq => ?_, fun hi i => ?_, fun hnone d hd => ?_⟩
  · have hbal := hb.conn i
    rw [hpc, hq] at hbal
    simp [SigPc.dueConn] at hbal
  · have hbal := hb.conn i
    rw [hi] at hbal
    rw [hbal]
    cases hpc : s.sig i <;> simp [AcceptPc.owes, SigPc.dueConn]
  · obtain ⟨p, -, hdp⟩ := hc.flows.exists_station hd
    obtain ⟨i, rfl⟩ := seats_none hb hnone hdp
    exact ⟨i, honce i d hdp⟩

/-- Three descriptors for two workers; a message's token shares the first worker's pipe. -/
def threeAccepts : List (Label 2 .one) :=
  [.accept (some 8), .dispatch, .dispatch, .dispatch, .pushRequest 0 ⟨7, [], 1, 1, 9, 3, 5⟩, .sig 0, .sig 0, .server,
    .server, .server, .server, .worker 0, .worker 0, .worker 0, .worker 0, .accept none, .accept (some 9), .dispatch,
    .dispatch, .dispatch, .accept (some 6), .dispatch, .dispatch, .sig 0, .sig 0, .sig 0, .dispatch, .sig 0, .sig 0,
    .sig 0, .sig 0, .sig 0, .sig 0, .sig 1, .sig 1, .sig 1]

theorem descriptor_handed_once_threeAccepts : ∃ s : St 2 .one, Lts.run step init threeAccepts = some s ∧
    s.newConns 0 = [⟨0, 8⟩, ⟨2, 6⟩] ∧ s.newConns 1 = [⟨1, 9⟩] ∧ s.answered 0 = [0] ∧
    s.newConns 0 <+: s.accepted.filter (fun d => d.seq % 2 = 0) := by
  have hsome : (Lts.run step (init : St 2 .one) threeAccepts).isSome = true := by decide
  obtain ⟨s, hs⟩ := Option.isSome_iff_exists.1 hsome
  have hend : (Lts.run step (init : St 2 .one) threeAccepts).map
      (fun s => (s.newConns 0, s.newConns 1, s.answered 0)) = some ([⟨0, 8⟩, ⟨2, 6⟩], [⟨1, 9⟩], [0]) := by decide
  rw [hs, Option.map_some, Option.some.injEq, Prod.mk.injEq, Prod.mk.injEq] at hend
  have hall := descriptor_handed_once (by decide) s (Lts.Reachable.of_run hs)
  exact ⟨s, hs, hend.1, hend.2.1, hend.2.2, hall.2.1 0⟩

end Pipeline
end Xrtc
