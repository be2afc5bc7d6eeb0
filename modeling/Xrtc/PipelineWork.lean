import Xrtc.Accepts
import Xrtc.Delivery
import Xrtc.Selector
import Xrtc.Work
/-!
# PipelineWork — the pipeline answers everything

A push request is thirteen thread moves away from its answer, an accepted descriptor six away from `new_conn`: seven
moves of the message and six of its three tokens, three moves of the descriptor and its token's write and read, and the
choice of the worker.  `work` counts the moves left.  In a reachable state no move is idle, since a token that was read
finds its item (`Balance`); so the threads stop only when everything sent has been answered, after as many moves as
there was work, whichever thread moves when.
-/
namespace Xrtc
namespace Pipeline

variable {ns : Nat} {n : WorkerNum}

def SigPc.work : SigPc → Nat
  | .send _ => 13
  | .notifyServer => 2
  | .answer _ => 1
  | .newConn _ => 1
  | _ => 0

def ServerPc.work : ServerPc n → Nat
  | .route _ => 9
  | .notify _ => 2
  | _ => 0

def WorkerPc.work : WorkerPc ns → Nat
  | .process _ => 5
  | .notify _ => 2
  | _ => 0

def AcceptPc.work : AcceptPc ns → Nat
  | .dispatch _ => 6
  | .produce _ _ => 5
  | .notify _ => 2
  | _ => 0

/-- The thread moves left: of the threads' hands, of the queued items, and one for each unread token. -/
def work (s : St ns n) : Nat :=
  ∑ i, (s.sig i).work + s.server.work + ∑ j, (s.worker j).work + s.accept.work +
    (10 * s.serverQueue.length + 6 * ∑ j, (s.workerQueue j).length + 2 * ∑ i, (s.sigQueue i).length +
      2 * ∑ i, (s.connQueue i).length) +
    (s.serverPipe + ∑ j, s.workerPipe j + ∑ i, (s.sigPipe i).length)

/-- The labels that are thread moves; the others are inputs. -/
def own : Label ns n → Bool
  | .pushRequest _ _ => false
  | .accept _ => false
  | _ => true

def price : Label ns n → Nat
  | .pushRequest _ _ => 13
  | .accept (some _) => 6
  | _ => 0

/-! ## Every move does one unit -/

section Moves
variable {s s' : St ns n}

/-- The work in the threads' hands when one of them changes what it does. -/
theorem sum_work_update {I A : Type} [Fintype I] [DecidableEq I] (f : A → Nat) (g : I → A) (i : I) (v : A) (a b : Nat)
    (ha : f (g i) = a) (hb : f v = b) : ∑ x, f (Function.update g i v x) + a = ∑ x, f (g x) + b := by
  rw [← ha, ← hb]
  exact Flow.sum_update_add f g i v

theorem sum_length_update {I A : Type} [Fintype I] [DecidableEq I] (g : I → List A) (i : I) (l : List A) :
    ∑ x, (Function.update g i l x).length + (g i).length = ∑ x, (g x).length + l.length :=
  Flow.sum_update_add List.length g i l

theorem work_sigMove (hb : Balance s) (hmsg : MsgInv s) {i : Fin ns} (hm : SigMove s i s') :
    1 + work s' = work s := by
  have hand := sum_work_update SigPc.work s.sig i
  cases hm with
  | @readConn notes hpc hp =>
    have h1 := hand .takeConn 0 0 (by rw [hpc]; rfl) rfl
    have h2 := sum_length_update s.sigPipe i notes
    simp only [hp, List.length_cons] at h2
    simp only [work, setSig]
    omega
  | @readMsg notes hpc hp =>
    have h1 := hand .popMsg 0 0 (by rw [hpc]; rfl) rfl
    have h2 := sum_length_update s.sigPipe i notes
    simp only [hp, List.length_cons] at h2
    simp only [work, setSig]
    omega
  | send hpc =>
    have h1 := hand .notifyServer 13 2 (by rw [hpc]; rfl) rfl
    simp only [work, setSig, List.length_append, List.length_singleton]
    omega
  | notifyServer hpc =>
    have h1 := hand .idle 2 0 (by rw [hpc]; rfl) rfl
    simp only [work, setSig]
    omega
  | popNone hpc hq => exact absurd hq (hb.nonempty.2.2 i hpc)
  | @pop m rest hpc hq =>
    have h1 := hand (.answer m) 0 1 (by rw [hpc]; rfl) rfl
    have h2 := sum_length_update s.sigQueue i rest
    simp only [hq, List.length_cons] at h2
    simp only [work, setSig]
    omega
  | answer hpc hcmd =>
    have h1 := hand .idle 1 0 (by rw [hpc]; rfl) rfl
    simp only [work, setSig]
    omega
  | @unknown m hpc hcmd =>
    -- every message is a push
    have hheld : m ∈ places s (.replyHand i) := by simp [places, hpc, SigPc.incoming]
    obtain ⟨-, -, hpush, -⟩ := hmsg.path_eq hheld
    exact absurd hpush hcmd
  | takeNone hpc hq =>
    have hk := hb.conn i
    rw [hq, hpc] at hk
    simp [SigPc.dueConn] at hk
  | @take d rest hpc hq =>
    have h1 := hand (.newConn d) 0 1 (by rw [hpc]; rfl) rfl
    have h2 := sum_length_update s.connQueue i rest
    simp only [hq, List.length_cons] at h2
    simp only [work, setSig]
    omega
  | newConn hpc =>
    have h1 := hand .idle 1 0 (by rw [hpc]; rfl) rfl
    simp only [work, setSig]
    omega

theorem work_serverMove (hb : Balance s) (hm : ServerMove s s') : 1 + work s' = work s := by
  cases hm with
  | read hpc hp =>
    simp only [work, hpc, ServerPc.work]
    omega
  | popNone hpc hq => exact absurd hq (hb.nonempty.1 hpc)
  | pop hpc hq =>
    simp only [work, hpc, hq, ServerPc.work, List.length_cons]
    omega
  | @noWorker m hpc hr =>
    obtain ⟨j, hj, -⟩ := route_eq n (s.msgs m).streamName
    rw [hr] at hj
    cases hj
  | @route m j hpc hr =>
    have h1 := sum_length_update s.workerQueue j (s.workerQueue j ++ [m])
    simp only [List.length_append, List.length_singleton] at h1
    simp only [work, hpc, ServerPc.work]
    omega
  | @notify j hpc =>
    have h1 := Flow.sum_update_add id s.workerPipe j (s.workerPipe j + 1)
    simp only [id] at h1
    simp only [work, hpc, ServerPc.work]
    omega

theorem work_workerMove (hb : Balance s) (hmsg : MsgInv s) {j : Fin n.val} (hm : WorkerMove s j s') :
    1 + work s' = work s := by
  have hand := sum_work_update WorkerPc.work s.worker j
  have hheld : ∀ m, s.worker j = .process m → m ∈ places s (.workerHand j) := fun m hpc => by
    simp [places, hpc, WorkerPc.held]
  cases hm with
  | read hpc hp =>
    have h1 := hand .popMsg 0 0 (by rw [hpc]; rfl) rfl
    have h2 := Flow.sum_update_add id s.workerPipe j (s.workerPipe j - 1)
    simp only [id] at h2
    simp only [work, setWorker]
    omega
  | popNone hpc hq => exact absurd hq (hb.nonempty.2.1 j hpc)
  | @pop m rest hpc hq =>
    have h1 := hand (.process m) 0 5 (by rw [hpc]; rfl) rfl
    have h2 := sum_length_update s.workerQueue j rest
    simp only [hq, List.length_cons] at h2
    simp only [work, setWorker]
    omega
  | @process m i hpc hcmd hi =>
    have h1 := hand (.notify i) 5 2 (by rw [hpc]; rfl) rfl
    have h2 := sum_length_update s.sigQueue i (s.sigQueue i ++ [m])
    simp only [List.length_append, List.length_singleton] at h2
    simp only [work, setWorker]
    omega
  | @noSender m hpc hcmd hi =>
    obtain ⟨i, -, -, hi', -⟩ := hmsg.path_eq (hheld m hpc)
    rw [hi] at hi'
    cases hi'
  | @unknown m hpc hcmd =>
    obtain ⟨-, -, hpush, -⟩ := hmsg.path_eq (hheld m hpc)
    exact absurd hpush hcmd
  | @notify i hpc =>
    have h1 := hand .idle 2 0 (by rw [hpc]; rfl) rfl
    have h2 := sum_length_update s.sigPipe i (s.sigPipe i ++ [Note.rtcMsg])
    simp only [List.length_append, List.length_singleton] at h2
    simp only [work, setWorker]
    omega

theorem work_dispatchMove {hns : 0 < ns} (hc : ConnInv hns s) (hm : DispatchMove s s') : 1 + work s' = work s := by
  cases hm with
  | choose hpc hlt =>
    simp only [work, hpc, AcceptPc.work]
    omega
  | crash hpc hlt =>
    have hnext := hc.next
    simp only [NextOk, hpc] at hnext
    exact absurd (hnext.1 ▸ Nat.mod_lt _ hns) hlt
  | @produce i d hpc =>
    have h1 := sum_length_update s.connQueue i (s.connQueue i ++ [d])
    simp only [List.length_append, List.length_singleton] at h1
    simp only [work, hpc, AcceptPc.work]
    omega
  | @notify i hpc =>
    have h1 := sum_length_update s.sigPipe i (s.sigPipe i ++ [Note.newConn])
    simp only [List.length_append, List.length_singleton] at h1
    simp only [work, hpc, AcceptPc.work]
    omega

/-- What is known of every reachable state. -/
structure Sound (hns : 0 < ns) (s : St ns n) : Prop where
  balance : Balance s
  msgs : MsgInv s
  conns : ConnInv hns s

theorem work_step {hns : 0 < ns} (h : Sound hns s) {l : Label ns n} (hs : step s l = some s') :
    (if own l then 1 else 0) + work s' = work s + price l := by
  cases step_move hs with
  | @pushRequest i r hi =>
    have h1 := sum_work_update SigPc.work s.sig i (.send s.sent.length) 0 13 (by rw [hi]; rfl) rfl
    simp only [own, price, work, pushRequest, setSig]
    simp
    omega
  | sig hm => simpa [own, price] using work_sigMove h.balance h.msgs hm
  | server hm => simpa [own, price] using work_serverMove h.balance hm
  | worker hm => simpa [own, price] using work_workerMove h.balance h.msgs hm
  | acceptFailed hi => simp [own, price]
  | accept hi =>
    simp only [own, price, work, hi, AcceptPc.work]
    simp
    omega
  | dispatch hm => simpa [own, price] using work_dispatchMove h.conns hm

end Moves

/-! ## Nothing left to do -/

section Rest
variable {s s' : St ns n}

/-- Outside its event loop a thread always moves. -/
theorem sigStep_none {i : Fin ns} (h : sigStep s i = none) : s.sig i = .idle ∧ s.sigPipe i = [] := by
  unfold sigStep at h
  cases hpc : s.sig i with
  | idle =>
    rw [hpc] at h
    refine ⟨rfl, ?_⟩
    cases hp : s.sigPipe i with
    | nil => rfl
    | cons note notes => cases note <;> simp [hp] at h
  | popMsg => cases hq : s.sigQueue i <;> simp [hpc, hq] at h
  | takeConn => cases hq : s.connQueue i <;> simp [hpc, hq] at h
  | answer m => by_cases hcmd : (s.msgs m).cmdno = cmdnoPush <;> simp [hpc, hcmd] at h
  | _ => simp [hpc] at h

theorem serverStep_none (h : serverStep s = none) : s.server = .idle ∧ s.serverPipe = 0 := by
  unfold serverStep at h
  cases hpc : s.server with
  | idle => exact ⟨rfl, by simpa [hpc] using h⟩
  | popMsg => cases hq : s.serverQueue <;> simp [hpc, hq] at h
  | route m => cases hr : route n (s.msgs m).streamName <;> simp [hpc, hr] at h
  | notify j => simp [hpc] at h

theorem workerStep_none {j : Fin n.val} (h : workerStep s j = none) : s.worker j = .idle ∧ s.workerPipe j = 0 := by
  unfold workerStep at h
  cases hpc : s.worker j with
  | idle => exact ⟨rfl, by simpa [hpc] using h⟩
  | popMsg => cases hq : s.workerQueue j <;> simp [hpc, hq] at h
  | process m =>
    by_cases hcmd : (s.msgs m).cmdno = cmdnoPush
    · cases hw : (fillOffer (s.msgs m)).worker <;> simp [hpc, hcmd, hw] at h
    · simp [hpc, hcmd] at h
  | notify i => simp [hpc] at h

theorem dispatchStep_none (h : dispatchStep s = none) : s.accept = .idle ∨ s.accept = .crashed := by
  unfold dispatchStep at h
  cases hpc : s.accept with
  | idle => exact .inl rfl
  | crashed => exact .inr rfl
  | dispatch d => by_cases hlt : s.nextWorker < ns <;> simp [hpc, hlt] at h
  | _ => simp [hpc] at h

/-- Where no thread can move, every thread waits at its empty pipe. -/
theorem waiting_of_settled (h : Lts.Settled step own s) :
    (∀ i, s.sig i = .idle ∧ s.sigPipe i = []) ∧ (s.server = .idle ∧ s.serverPipe = 0) ∧
      (∀ j, s.worker j = .idle ∧ s.workerPipe j = 0) ∧ (s.accept = .idle ∨ s.accept = .crashed) :=
  ⟨fun i => sigStep_none (h (.sig i) rfl), serverStep_none (h .server rfl), fun j => workerStep_none (h (.worker j) rfl),
    dispatchStep_none (h .dispatch rfl)⟩

theorem Sound.not_crashed {hns : 0 < ns} (h : Sound hns s) : s.accept ≠ .crashed := by
  intro hc
  have hnext := h.conns.next
  simp [NextOk, hc] at hnext

/-- The threads at rest: no message and no descriptor is under way. -/
theorem rest_of_settled {hns : 0 < ns} (hsound : Sound hns s) (h : Lts.Settled step own s) :
    Quiet s ∧ Drained s ∧ NoneUnderway s := by
  obtain ⟨hsig, hserver, hworker, haccept⟩ := waiting_of_settled h
  refine ⟨⟨fun i => ?_, hserver.1, fun j => (hworker j).1⟩, ⟨hserver.2, fun j => (hworker j).2, fun i => ?_⟩,
    ⟨haccept.resolve_right hsound.not_crashed, fun i => ?_, fun i => ?_⟩⟩
  · rw [(hsig i).1]
    trivial
  · rw [(hsig i).2]
    rfl
  · rw [(hsig i).2]
    rfl
  · rw [(hsig i).1]
    simp

theorem work_of_settled {hns : 0 < ns} (hsound : Sound hns s) (h : Lts.Settled step own s) : work s = 0 := by
  obtain ⟨hsig, hserver, hworker, haccept⟩ := waiting_of_settled h
  obtain ⟨hquiet, -, hnone⟩ := rest_of_settled hsound h
  obtain ⟨b1, b2, b3⟩ := hsound.balance.quiet hquiet
  have hconn : ∀ i, (s.connQueue i).length = 0 := by
    intro i
    rw [hsound.balance.conn i, hnone.accept, (hsig i).1, (hsig i).2]
    rfl
  have hq : ∀ i, (s.sigQueue i).length = 0 := by
    intro i
    rw [b3 i, (hsig i).2]
    rfl
  have hw : ∀ j, (s.workerQueue j).length = 0 := by
    intro j
    rw [b2 j, (hworker j).2]
  unfold work
  simp only [hconn, hq, hw, b1, hserver.1, hserver.2, hnone.accept, (hsig _).1, (hsig _).2, (hworker _).1, (hworker _).2]
  simp [SigPc.work, ServerPc.work, WorkerPc.work, AcceptPc.work]

/-- **The pipeline keeps books.** -/
theorem ledger (hns : 0 < ns) : Lts.Ledger (step : St ns n → Label ns n → Option (St ns n)) (Sound hns) own price work where
  keeps _ _ _ h hs := ⟨balance_step h.balance hs, msgInv_step h.msgs hs, conn_step h.conns hs⟩
  pays _ _ _ h hs := work_step h hs
  free l hl := by cases l <;> first | rfl | cases hl

theorem sound_init (hns : 0 < ns) : Sound hns (init : St ns n) := ⟨balance_init, msgInv_init, conn_init hns⟩

theorem work_init : work (init : St ns n) = 0 := by
  simp [work, init, SigPc.work, ServerPc.work, WorkerPc.work, AcceptPc.work]

theorem worker_fillOffer (msgs : Nat → RtcMsg (Fin ns)) (m k : Nat) :
    (Function.update msgs m (fillOffer (msgs m)) k).worker = (msgs k).worker :=
  Flow.apply_update_eq (f := RtcMsg.worker) (g := msgs) (i := m) (v := fillOffer (msgs m)) rfl k

/-- A thread move sends nothing, accepts nothing and leaves every message with its sender. -/
theorem own_keeps {l : Label ns n} (hl : own l = true) (hs : step s l = some s') :
    s'.sent = s.sent ∧ s'.accepted = s.accepted ∧ ∀ m, (s'.msgs m).worker = (s.msgs m).worker := by
  cases step_move hs with
  | pushRequest r hi => cases hl
  | sig hm => cases hm <;> exact ⟨rfl, rfl, fun _ => rfl⟩
  | server hm => cases hm <;> exact ⟨rfl, rfl, fun _ => rfl⟩
  | worker hm =>
    cases hm with
    | process hpc hcmd hi => exact ⟨rfl, rfl, worker_fillOffer s.msgs _⟩
    | noSender hpc hcmd hi => exact ⟨rfl, rfl, worker_fillOffer s.msgs _⟩
    | _ => exact ⟨rfl, rfl, fun _ => rfl⟩
  | acceptFailed hi => cases hl
  | accept hi => cases hl
  | dispatch hm => cases hm <;> exact ⟨rfl, rfl, fun _ => rfl⟩

theorem own_run_keeps : ∀ (ms : List (Label ns n)) (s s' : St ns n), (∀ l ∈ ms, own l = true) →
    Lts.run step s ms = some s' →
    s'.sent = s.sent ∧ s'.accepted = s.accepted ∧ ∀ m, (s'.msgs m).worker = (s.msgs m).worker
  | [], s, s', _, h => by
    simp only [Lts.run, Option.some.injEq] at h
    subst h
    exact ⟨rfl, rfl, fun _ => rfl⟩
  | l :: ms, s, s', hown, h => by
    obtain ⟨s₁, h1, h2⟩ := Option.bind_eq_some_iff.1 h
    obtain ⟨a1, a2, a3⟩ := own_keeps (hown l List.mem_cons_self) h1
    obtain ⟨b1, b2, b3⟩ := own_run_keeps ms s₁ s' (fun l' hl => hown l' (List.mem_cons_of_mem _ hl)) h2
    exact ⟨b1.trans a1, b2.trans a2, fun m => (b3 m).trans (a3 m)⟩

/-- An input pays for what it sends or accepts. -/
theorem price_step {l : Label ns n} (hs : step s l = some s') :
    13 * s'.sent.length + 6 * s'.accepted.length = 13 * s.sent.length + 6 * s.accepted.length + price l := by
  cases step_move hs with
  | pushRequest r hidle =>
    simp only [pushRequest, setSig, price, List.length_append, List.length_singleton]
    omega
  | sig hm => cases hm <;> rfl
  | server hm => cases hm <;> rfl
  | worker hm => cases hm <;> rfl
  | acceptFailed hidle => rfl
  | accept hidle =>
    simp only [price, List.length_append, List.length_singleton]
    omega
  | dispatch hm => cases hm <;> rfl

theorem price_run : ∀ (ls : List (Label ns n)) (s : St ns n), Lts.run step init ls = some s →
    (ls.map price).sum = 13 * s.sent.length + 6 * s.accepted.length := by
  apply Lts.run_invariant
  · rfl
  · intro ls s l s' hi hs
    rw [List.map_append, List.sum_append, hi, price_step hs, List.map_singleton, List.sum_singleton]

/-- At rest every message has been answered, once, by its sender. -/
theorem answered_at_rest {hns : 0 < ns} (h : Sound hns s) (hset : Lts.Settled step own s) {m : Nat} (hm : m ∈ s.sent) :
    ∃ i, (s.msgs m).worker = some i ∧ (s.answered i).count m = 1 ∧ ∀ i', m ∈ s.answered i' → i' = i := by
  obtain ⟨hquiet, hdrained, -⟩ := rest_of_settled h hset
  obtain ⟨p, hp, huniq⟩ := h.msgs.unique_place hm
  obtain ⟨i, rfl⟩ := places_drained h.balance hquiet hdrained hp
  refine ⟨i, h.msgs.sender (.inr (.inr (.inr rfl))) hp, ?_, fun i' hi' => ?_⟩
  · exact List.count_eq_one_of_mem (h.msgs.flows.nodup_station h.msgs.nodup_sent (.answered i)) hp
  · have he := huniq (.answered i') hi'
    simpa using he

/-- At rest every accepted descriptor has been passed to `new_conn`, once, by the worker whose turn it was. -/
theorem taken_at_rest {hns : 0 < ns} (h : Sound hns s) (hset : Lts.Settled step own s) {d : Accepted}
    (hd : d ∈ s.accepted) : (s.newConns (turn hns d.seq)).count d = 1 := by
  obtain ⟨-, -, hnone⟩ := rest_of_settled h hset
  obtain ⟨p, -, hdp⟩ := h.conns.flows.exists_station hd
  obtain ⟨i, rfl⟩ := seats_none h.balance hnone hdp
  have hi := eq_of_mem_seatHops (h.conns.turn_eq hdp) (.inl rfl)
  subst hi
  have hnodup := (h.conns.newConns_prefix (turn hns d.seq)).sublist.nodup (h.conns.nodup_accepted.filter _)
  exact List.count_eq_one_of_mem hnodup hdp

end Rest

/-- The descriptors dispatched so far: all but the one the accept thread may hold. -/
def dispatched (s : St ns n) : Nat := s.accepted.length - s.accept.fresh.length

/-- What worker `i` was given: in the accept thread's hand, in `q_conn_`, in its own hand, and passed to `new_conn`. -/
def share (s : St ns n) (i : Fin ns) : Nat :=
  (s.newConns i).length + (s.sig i).descriptor.length + (s.connQueue i).length + (s.accept.bound i).length

section Shares
variable {hns : 0 < ns} {s : St ns n}

/-- A worker's own seats hold descriptors of its turns only. -/
theorem filter_seat (h : ConnInv hns s) {i : Fin ns} {p : Seat ns}
    (hp : p = .newConns i ∨ p = .connHand i ∨ p = .connQueue i ∨ p = .dispatchHand i) :
    (seats s p).filter (fun d => seatPath hns d = seatHops i) = seats s p := by
  rw [List.filter_eq_self]
  intro d hd
  have hi := eq_of_mem_seatHops (h.turn_eq hd) hp
  rw [decide_eq_true_eq, seatPath_eq_iff, hi]
  rfl

/-- A share and the descriptor not yet dispatched are the turns among the accepted ones. -/
theorem share_add_fresh (h : ConnInv hns s) (i : Fin ns) :
    share s i + (s.accept.fresh.filter (fun d => d.seq % ns = i.val)).length =
      ((List.range s.accepted.length).map (· % ns)).count i.val := by
  have hsel : ∀ d : Accepted, decide (seatPath hns d = seatHops i) = decide (d.seq % ns = i.val) := fun d => by
    rw [decide_eq_decide]
    exact seatPath_eq_iff d i
  have horder := h.flows.inOrder (seatHops i)
  have hlen := congrArg List.length horder
  have hturns : (s.accepted.filter (fun d => seatPath hns d = seatHops i)).length =
      ((List.range s.accepted.length).map (· % ns)).count i.val := by
    rw [← h.numbered, List.map_map, List.count_eq_countP, List.countP_map, ← List.countP_eq_length_filter]
    refine List.countP_congr (fun d _ => ?_)
    simp [hsel d]
  rw [hturns] at hlen
  have hfresh : (seats s .acceptHand).filter (fun d => seatPath hns d = seatHops i) =
      s.accept.fresh.filter (fun d => d.seq % ns = i.val) := by
    refine List.filter_congr (fun d _ => ?_)
    exact hsel d
  simp only [Flow.along, seatHops, List.flatMap_cons, List.flatMap_nil, List.append_nil, List.length_append] at hlen
  rw [← hlen]
  have e1 := filter_seat h (i := i) (p := .newConns i) (.inl rfl)
  have e2 := filter_seat h (i := i) (p := .connHand i) (.inr (.inl rfl))
  have e3 := filter_seat h (i := i) (p := .connQueue i) (.inr (.inr (.inl rfl)))
  have e4 := filter_seat h (i := i) (p := .dispatchHand i) (.inr (.inr (.inr rfl)))
  simp only [seatHops] at e1 e2 e3 e4 hfresh
  rw [e1, e2, e3, e4, hfresh]
  simp only [share, seats]
  omega

end Shares

/-- **Connections are spread evenly over the signaling workers.**  In every reachable state, after `k` dispatches each
worker has been given `k / ns` descriptors, and those with a number below `k % ns` one more; so no worker is ever more
than one connection ahead of another. -/
theorem dispatch_even (hns : 0 < ns) (s : St ns n) (h : Lts.Reachable step init s) :
    (∀ i, share s i = dispatched s / ns + if i.val < dispatched s % ns then 1 else 0) ∧
    ∀ i i', share s i ≤ share s i' + 1 := by
  have hc := reachable_connInv hns h
  have hshare : ∀ i, share s i = dispatched s / ns + if i.val < dispatched s % ns then 1 else 0 := by
    intro i
    rw [← Selector.count_residues (dispatched s) i.isLt]
    have hadd := share_add_fresh hc i
    have hnext := hc.next
    cases hacc : s.accept with
    | dispatch d =>
      -- the descriptor in hand is the last one accepted
      simp only [NextOk, hacc] at hnext
      obtain ⟨-, hlast⟩ := hnext
      have hd : dispatched s = d.seq := by
        simp only [dispatched, hacc, AcceptPc.fresh, List.length_singleton]
        omega
      rw [hacc, ← hlast, List.range_succ, List.map_append, List.count_append] at hadd
      rw [hd]
      simp only [AcceptPc.fresh, List.filter_cons, List.filter_nil, List.map_cons, List.map_nil] at hadd
      by_cases hturn : d.seq % ns = i.val
      · simp only [hturn, decide_true, if_true, List.length_singleton, List.count_singleton_self] at hadd
        omega
      · simp only [hturn, decide_false, List.count_singleton] at hadd
        simpa [hturn] using hadd
    | _ =>
      rw [hacc] at hadd
      have hd : dispatched s = s.accepted.length := by simp [dispatched, hacc, AcceptPc.fresh]
      rw [hd, ← hadd]
      rfl
  refine ⟨hshare, fun i i' => ?_⟩
  rw [hshare i, hshare i']
  split <;> split <;> omega

theorem dispatch_even_threeAccepts : ∃ s : St 2 .one, Lts.run step init threeAccepts = some s ∧
    dispatched s = 3 ∧ share s 0 = 2 ∧ share s 1 = 1 ∧ share s 0 ≤ share s 1 + 1 := by
  have hsome : (Lts.run step (init : St 2 .one) threeAccepts).isSome = true := by decide
  obtain ⟨s, hs⟩ := Option.isSome_iff_exists.1 hsome
  have hend : (Lts.run step (init : St 2 .one) threeAccepts).map (fun s => (dispatched s, share s 0, share s 1)) =
      some (3, 2, 1) := by decide
  rw [hs, Option.map_some, Option.some.injEq, Prod.mk.injEq, Prod.mk.injEq] at hend
  have hall := dispatch_even (by decide) s (Lts.Reachable.of_run hs)
  exact ⟨s, hs, hend.1, hend.2.1, hend.2.2, hall.2 0 1⟩

end Pipeline
end Xrtc
