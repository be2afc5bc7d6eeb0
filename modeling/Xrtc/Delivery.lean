import Xrtc.PipelineBalance
import Xrtc.PipelineFlow
/-!
# Delivery — what the pipeline promises about messages

Nothing is lost or doubled (`message_in_one_place`), and a stream's messages stay with one RTC worker and in order
(`stream_order`).  Both read the promises off the law of the messages (`MsgInv`) and the balance of queues and pipes.
-/
namespace Xrtc
namespace Pipeline

variable {ns : Nat} {n : WorkerNum}

/-- No message is being sent or received. -/
def SigPc.AtRest : SigPc → Prop
  | .idle => True
  | .takeConn => True
  | .newConn _ => True
  | _ => False

structure Quiet (s : St ns n) : Prop where
  sig : ∀ i, (s.sig i).AtRest
  server : s.server = .idle
  worker : ∀ j, s.worker j = .idle

/-- No `RTC_MSG` token is unread. -/
structure Drained (s : St ns n) : Prop where
  server : s.serverPipe = 0
  worker : ∀ j, s.workerPipe j = 0
  sig : ∀ i, (s.sigPipe i).count .rtcMsg = 0

/-! ## Queues and tokens -/

section Tokens
variable {s : St ns n}

theorem SigPc.AtRest.owes {pc : SigPc} (h : pc.AtRest) : pc.owesServer = 0 ∧ pc.dueMsg = 0 := by
  cases pc <;> first | exact ⟨rfl, rfl⟩ | cases h

theorem SigPc.AtRest.hands {pc : SigPc} (h : pc.AtRest) : pc.outgoing = [] ∧ pc.incoming = [] := by
  cases pc <;> first | exact ⟨rfl, rfl⟩ | cases h

/-- A token that was read has a message behind it. -/
theorem Balance.nonempty (h : Balance s) :
    (s.server = .popMsg → s.serverQueue ≠ []) ∧ (∀ j, s.worker j = .popMsg → s.workerQueue j ≠ []) ∧
      (∀ i, s.sig i = .popMsg → s.sigQueue i ≠ []) := by
  refine ⟨fun hpc hq => ?_, fun j hpc hq => ?_, fun i hpc hq => ?_⟩
  · have hb := h.server
    rw [hpc, hq] at hb
    simp [ServerPc.due] at hb
  · have hb := h.worker j
    rw [hpc, hq] at hb
    simp [WorkerPc.due] at hb
  · have hb := h.sig i
    rw [hpc, hq] at hb
    simp [SigPc.dueMsg] at hb

/-- Between sends and receives every queue is as long as its pipe has tokens. -/
theorem Balance.quiet (h : Balance s) (hq : Quiet s) :
    s.serverQueue.length = s.serverPipe ∧ (∀ j, (s.workerQueue j).length = s.workerPipe j) ∧
      (∀ i, (s.sigQueue i).length = (s.sigPipe i).count .rtcMsg) := by
  have hsig : ∑ i, (s.sig i).owesServer = 0 := Finset.sum_eq_zero (fun i _ => (hq.sig i).owes.1)
  have hworker : ∀ i, ∑ j, (s.worker j).owes i = 0 := fun i =>
    Finset.sum_eq_zero (fun j _ => by rw [hq.worker j]; rfl)
  refine ⟨?_, fun j => ?_, fun i => ?_⟩
  · have hb := h.server
    rw [hsig, hq.server] at hb
    exact hb
  · have hb := h.worker j
    rw [hq.worker j, hq.server] at hb
    exact hb
  · have hb := h.sig i
    rw [hworker, (hq.sig i).owes.2] at hb
    exact hb

end Tokens

/-! ## Places -/

section Places
variable {s : St ns n}

theorem MsgInv.nodup_sent (h : MsgInv s) : s.sent.Nodup := by
  rw [h.numbered]
  exact List.nodup_range

theorem MsgInv.unique_place (h : MsgInv s) {m : Nat} (hm : m ∈ s.sent) : ∃! p, m ∈ places s p := by
  obtain ⟨p, -, hp⟩ := h.flows.exists_station hm
  exact ⟨p, hp, fun q hq => h.flows.unique h.nodup_sent hq hp⟩

/-- A message comes back to its sender and is answered there. -/
theorem MsgInv.sender (h : MsgInv s) {i : Fin ns} {m : Nat} {p : Place ns n}
    (hp : p = .sigHand i ∨ p = .sigQueue i ∨ p = .replyHand i ∨ p = .answered i) (hm : m ∈ places s p) :
    (s.msgs m).worker = some i := by
  obtain ⟨i', j, -, hi, -, -, hmem, -⟩ := h.path_eq hm
  rcases hp with rfl | rfl | rfl | rfl <;> (simp only [hops, List.mem_cons, reduceCtorEq, false_or, or_false,
    List.not_mem_nil, Place.sigHand.injEq, Place.sigQueue.injEq, Place.replyHand.injEq, Place.answered.injEq] at hmem
                                            rw [hi, hmem])

/-- When nothing is under way and no token is unread, every place but `answered` is empty. -/
theorem places_drained (hb : Balance s) (hq : Quiet s) (hd : Drained s) {p : Place ns n} {m : Nat}
    (hm : m ∈ places s p) : ∃ i, p = .answered i := by
  obtain ⟨b1, b2, b3⟩ := hb.quiet hq
  rw [hd.server] at b1
  cases p with
  | answered i => exact ⟨i, rfl⟩
  | sigHand i =>
    rw [places, (hq.sig i).hands.1] at hm
    cases hm
  | replyHand i =>
    rw [places, (hq.sig i).hands.2] at hm
    cases hm
  | serverQueue =>
    rw [places, List.length_eq_zero_iff.1 b1] at hm
    cases hm
  | serverHand =>
    rw [places, hq.server] at hm
    cases hm
  | workerQueue j =>
    have hj := b2 j
    rw [hd.worker j] at hj
    rw [places, List.length_eq_zero_iff.1 hj] at hm
    cases hm
  | workerHand j =>
    rw [places, hq.worker j] at hm
    cases hm
  | sigQueue i =>
    have hi := b3 i
    rw [hd.sig i] at hi
    rw [places, List.length_eq_zero_iff.1 hi] at hm
    cases hm

end Places

/-- **No message is lost or doubled.**  In every reachable state: every message sent is in exactly one place, once, and
nothing else is anywhere; in a signaling worker's queue or answered it is with the worker it names; a token that was
read finds a message; between sends and receives every queue is as long as its pipe has tokens, and if none of these
is unread, every message sent has been answered exactly once, by the worker it names. -/
theorem message_in_one_place (s : St ns n) (h : Lts.Reachable step init s) :
    (∀ m ∈ s.sent, ∃! p, m ∈ places s p) ∧
    (∀ p, (places s p).Nodup ∧ ∀ m ∈ places s p, m ∈ s.sent) ∧
    (∀ i m, m ∈ s.sigQueue i ∨ m ∈ s.answered i → (s.msgs m).worker = some i) ∧
    ((s.server = .popMsg → s.serverQueue ≠ []) ∧ (∀ j, s.worker j = .popMsg → s.workerQueue j ≠ []) ∧
      (∀ i, s.sig i = .popMsg → s.sigQueue i ≠ [])) ∧
    (Quiet s → (s.serverQueue.length = s.serverPipe ∧ (∀ j, (s.workerQueue j).length = s.workerPipe j) ∧
        (∀ i, (s.sigQueue i).length = (s.sigPipe i).count .rtcMsg)) ∧
      (Drained s → ∀ m ∈ s.sent, ∃ i, (s.msgs m).worker = some i ∧ (s.answered i).count m = 1 ∧
        ∀ i', i' ≠ i → m ∉ s.answered i')) := by
  have hm := reachable_msgInv h
  have hb := reachable_balance h
  refine ⟨fun m => hm.unique_place, fun p => ⟨hm.flows.nodup_station hm.nodup_sent p, fun m => hm.flows.mem_entered⟩,
    ?_, hb.nonempty, fun hq => ⟨hb.quiet hq, fun hd m hs => ?_⟩⟩
  · rintro i m (hi | hi)
    · exact hm.sender (p := .sigQueue i) (.inr (.inl rfl)) hi
    · exact hm.sender (p := .answered i) (.inr (.inr (.inr rfl))) hi
  · obtain ⟨p, hp, huniq⟩ := hm.unique_place hs
    obtain ⟨i, rfl⟩ := places_drained hb hq hd hp
    refine ⟨i, hm.sender (.inr (.inr (.inr rfl))) hp, ?_, fun i' hne hi' => ?_⟩
    · exact List.count_eq_one_of_mem (hm.flows.nodup_station hm.nodup_sent (.answered i)) hp
    · have he := huniq (.answered i') hi'
      exact hne (by simpa using he)

/-- A request for the stream `"a"` on signaling worker 0 of two, through the three RTC workers' first. -/
def pushA : PushReq := ⟨7, [97], 1, 1, 9, 3, 5⟩

def threeWorkers : WorkerNum := ⟨3, by decide⟩

def firstWorker : Fin threeWorkers.val := ⟨0, by decide⟩

def firstSignaling : Fin 2 := ⟨0, Nat.zero_lt_two⟩

def roundTrip : List (Label 2 threeWorkers) :=
  [.pushRequest firstSignaling pushA, .sig firstSignaling, .sig firstSignaling, .server, .server, .server, .server,
    .worker firstWorker, .worker firstWorker, .worker firstWorker, .worker firstWorker, .sig firstSignaling,
    .sig firstSignaling, .sig firstSignaling]

theorem message_in_one_place_roundTrip : ∃ s : St 2 threeWorkers,
    Lts.run step init roundTrip = some s ∧ s.sent = [0] ∧ s.answered firstSignaling = [0] ∧ (∃! p, 0 ∈ places s p) := by
  have hsome : (Lts.run step (init : St 2 threeWorkers) roundTrip).isSome = true := by decide
  obtain ⟨s, hs⟩ := Option.isSome_iff_exists.1 hsome
  have hend : (Lts.run step (init : St 2 threeWorkers) roundTrip).map (fun s => (s.sent, s.answered firstSignaling)) =
      some ([0], [0]) := by decide
  rw [hs, Option.map_some, Option.some.injEq, Prod.mk.injEq] at hend
  exact ⟨s, hs, hend.1, hend.2, (message_in_one_place s (Lts.Reachable.of_run hs)).1 0 (by rw [hend.1]; decide)⟩

/-! ## Streams -/

section Streams
variable {s : St ns n}

theorem filter_of_imp {α : Type} {p q : α → Bool} {l : List α} (h : ∀ a ∈ l, q a = true → p a = true) :
    (l.filter p).filter q = l.filter q := by
  rw [List.filter_filter]
  apply List.filter_congr
  intro a ha
  cases hq : q a with
  | false => rfl
  | true => rw [h a ha hq]; rfl

/-- What RTC worker `j` has processed of a stream is what was pushed of it first. -/
theorem MsgInv.processed_prefix (h : MsgInv s) {streamName : List UInt8} {j : Fin n.val}
    (hj : route n streamName = some j) :
    (s.processed j).filter (fun m => (s.msgs m).streamName = streamName) <+:
      s.pushed.filter (fun m => (s.msgs m).streamName = streamName) := by
  have hfront := (h.staged.front_prefix [.processed j] [.workerQueue j, .serverHand, .serverQueue]).filter
    (fun m => (s.msgs m).streamName = streamName)
  have hsel : ∀ m, decide ((s.msgs m).streamName = streamName) = true →
      decide (stagePath n s.msgs m = [.processed j] ++ [.workerQueue j, .serverHand, .serverQueue]) = true := by
    intro m hm
    rw [decide_eq_true_eq] at hm ⊢
    unfold stagePath
    rw [hm, hj]
    rfl
  rw [filter_of_imp (fun m _ => hsel m)] at hfront
  simp only [Flow.along, List.flatMap_cons, List.flatMap_nil, List.append_nil] at hfront
  rw [filter_of_imp (fun m _ => hsel m)] at hfront
  exact hfront

/-- What signaling worker `i` has popped of a stream's replies is what it sent of that stream first. -/
theorem MsgInv.popped_prefix (h : MsgInv s) (streamName : List UInt8) (i : Fin ns) :
    (s.popped i).filter (fun m => (s.msgs m).streamName = streamName) <+:
      s.sent.filter (fun m => (s.msgs m).worker = some i ∧ (s.msgs m).streamName = streamName) := by
  obtain ⟨j, hj, -⟩ := route_eq n streamName
  have hfront := (h.flows.front_prefix [.answered i, .replyHand i]
    [.sigQueue i, .workerHand j, .workerQueue j, .serverHand, .serverQueue, .sigHand i]).filter
    (fun m => (s.msgs m).worker = some i ∧ (s.msgs m).streamName = streamName)
  have hsel : ∀ m, decide ((s.msgs m).worker = some i ∧ (s.msgs m).streamName = streamName) = true →
      decide (path n s.msgs m = [.answered i, .replyHand i] ++
        [.sigQueue i, .workerHand j, .workerQueue j, .serverHand, .serverQueue, .sigHand i]) = true := by
    intro m hm
    rw [decide_eq_true_eq] at hm ⊢
    unfold path
    rw [hm.1, hm.2, hj]
    rfl
  have hmine : ∀ m ∈ s.popped i, (s.msgs m).worker = some i := by
    intro m hm
    rw [h.popped i] at hm
    rcases List.mem_append.1 hm with hm | hm
    · exact h.sender (p := .answered i) (.inr (.inr (.inr rfl))) hm
    · exact h.sender (p := .replyHand i) (.inr (.inr (.inl rfl))) hm
  rw [filter_of_imp (fun m _ => hsel m)] at hfront
  simp only [Flow.along, List.flatMap_cons, List.flatMap_nil, List.append_nil, places] at hfront
  rw [← List.filter_append, ← h.popped i, filter_of_imp (fun m _ => hsel m)] at hfront
  have hsame : (s.popped i).filter (fun m => (s.msgs m).worker = some i ∧ (s.msgs m).streamName = streamName) =
      (s.popped i).filter (fun m => (s.msgs m).streamName = streamName) := by
    apply List.filter_congr
    intro m hm
    rw [decide_eq_decide]
    exact ⟨fun hp => hp.2, fun hp => ⟨hmine m hm, hp⟩⟩
  rwa [hsame] at hfront

end Streams

/-- **Streams keep their worker and their order.**  `get_worker` indexes inside the vector that a successful `Init`
leaves.  In every reachable state the messages of one stream are processed by one RTC worker, in the order they were
pushed onto the RTC server's queue; and of the messages one signaling worker sent for one stream, the replies are
popped from its queue in the order it sent them. -/
theorem stream_order (s : St ns n) (h : Lts.Reachable step init s) :
    (∀ created ws, initWorkers created n.val = some ws → ∀ streamName, workerIndex n.val streamName < ws.length ∧
      getWorker ws n.val streamName = some (workerIndex n.val streamName)) ∧
    (∀ streamName, ∃ j : Fin n.val, j.val = workerIndex n.val streamName ∧
      (∀ j' m, m ∈ s.processed j' → (s.msgs m).streamName = streamName → j' = j) ∧
      (s.processed j).filter (fun m => (s.msgs m).streamName = streamName) <+:
        s.pushed.filter (fun m => (s.msgs m).streamName = streamName)) ∧
    (∀ streamName i, (s.popped i).filter (fun m => (s.msgs m).streamName = streamName) <+:
      s.sent.filter (fun m => (s.msgs m).worker = some i ∧ (s.msgs m).streamName = streamName)) := by
  have hm := reachable_msgInv h
  refine ⟨fun created ws hws streamName => ?_, fun streamName => ?_, hm.popped_prefix⟩
  · have hrange := initWorkers_eq hws
    rw [Int.toNat_natCast] at hrange
    obtain ⟨hlt, hget⟩ := getWorker_eq n (hrange ▸ List.length_range) streamName
    refine ⟨hlt, ?_⟩
    subst hrange
    rw [hget, List.getElem?_range (workerIndex_lt n streamName)]
  · obtain ⟨j, hj, hidx⟩ := route_eq n streamName
    refine ⟨j, hidx, fun j' m hmem hstream => ?_, hm.processed_prefix hj⟩
    have hon := hm.staged.onPath (.processed j') m hmem
    unfold stagePath at hon
    rw [hstream, hj] at hon
    simpa [stageHops] using hon

theorem stream_order_roundTrip : ∃ s : St 2 threeWorkers, Lts.run step init roundTrip = some s ∧
    s.processed firstWorker = [0] ∧ s.popped firstSignaling = [0] ∧ s.pushed = [0] ∧
    (s.processed firstWorker).filter (fun m => (s.msgs m).streamName = [97]) <+:
      s.pushed.filter (fun m => (s.msgs m).streamName = [97]) := by
  have hsome : (Lts.run step (init : St 2 threeWorkers) roundTrip).isSome = true := by decide
  obtain ⟨s, hs⟩ := Option.isSome_iff_exists.1 hsome
  have hend : (Lts.run step (init : St 2 threeWorkers) roundTrip).map
      (fun s => (s.processed firstWorker, s.popped firstSignaling, s.pushed)) = some ([0], [0], [0]) := by decide
  rw [hs, Option.map_some, Option.some.injEq, Prod.mk.injEq, Prod.mk.injEq] at hend
  obtain ⟨j, hj, -, hpre⟩ := (stream_order s (Lts.Reachable.of_run hs)).2.1 [97]
  have hj2 : j = firstWorker := by
    apply Fin.ext
    rw [hj]
    decide
  rw [hj2] at hpre
  exact ⟨s, hs, hend.1, hend.2.1, hend.2.2, hpre⟩

end Pipeline
end Xrtc
