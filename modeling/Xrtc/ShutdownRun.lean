import Xrtc.ShutdownMoves
/-!
# ShutdownRun — writes to closed descriptors

`RtcServer::_stop` alone stops and joins the RTC workers it alone writes to, so `RtcWorker::notify` is never late, and
neither is the accept thread (`Order`).  The other two writers have nobody to wait for them: a signaling worker between
`push_msg` and `notify` when the RTC server closes its pipe, and an RTC worker that answers a signaling worker that is
gone (`closed_writes_reached`).  `Orderly` is what a shutdown would have to wait for (`no_closed_write`).
-/
namespace Xrtc
namespace Shutdown

open Pipeline (MsgInv pushA)

variable {ns : Nat} {n : WorkerNum}

/-! ## The order in which the servers stop their workers -/

/-- The worker's turn in the loop of `_stop` has come. -/
def StopPc.Reached : StopPc → Nat → Prop
  | .running, _ => False
  | .stop k, i => i < k
  | .join k, i => i ≤ k
  | .exited, _ => True

structure Order (s : St ns n) : Prop where
  signal : s.signal ≠ .done → s.serverQuit = none ∧ s.serverStop = .running
  server : s.serverStop ≠ .running → s.base.server = .idle
  accept : s.acceptStop ≠ .running → s.base.accept = .idle
  sig : ∀ i, s.sigQuit i ≠ none ∨ s.sigPhase i ≠ .running → s.acceptStop.Reached i
  worker : ∀ j, s.workerQuit j ≠ none ∨ s.workerExited j = true → s.serverStop.Reached j

section Ordered
variable {s s' : St ns n}

/-- A server goes on in its `_stop`. -/
theorem Order.acceptStop_next (h : Order s) (hne : s.acceptStop ≠ .running) {pc : StopPc}
    (hpc : ∀ k, s.acceptStop.Reached k → pc.Reached k) : Order { s with acceptStop := pc } :=
  ⟨h.signal, h.server, fun _ => h.accept hne, fun i hi => hpc i (h.sig i hi), h.worker⟩

theorem Order.serverStop_next (h : Order s) (hne : s.serverStop ≠ .running) {pc : StopPc}
    (hpc : ∀ k, s.serverStop.Reached k → pc.Reached k) : Order { s with serverStop := pc } :=
  ⟨fun hd => absurd (h.signal hd).2 hne, fun _ => h.server hne, h.accept, h.sig, fun j hj => hpc j (h.worker j hj)⟩

theorem order_thread {l : Pipeline.Label ns n} (h : Order s) (hm : ThreadMove s l s') : Order s' := by
  refine ⟨fun hne => ?_, fun hne => ?_, fun hne => ?_, fun i hi => ?_, fun j hj => ?_⟩
  · rw [hm.signal] at hne
    rw [hm.serverQuit, hm.serverStop]
    exact h.signal hne
  · -- a server that has left its loop takes no step of the pipeline
    rw [hm.serverStop] at hne
    have hl : l ≠ .server := by
      rintro rfl
      exact hne hm.ready.1
    rw [server_kept hm.base hl]
    exact h.server hne
  · rw [hm.acceptStop] at hne
    have hl : ∀ fd, l ≠ .accept fd := by
      rintro fd rfl
      exact hne hm.ready
    have hd : l ≠ .dispatch := by
      rintro rfl
      exact hne hm.ready
    rw [accept_kept hm.base hl hd]
    exact h.accept hne
  · rw [hm.acceptStop]
    rw [ne_eq, hm.sigQuit, hm.sigPhase] at hi
    exact h.sig i hi
  · rw [hm.serverStop]
    rw [ne_eq, hm.workerQuit, hm.workerExited] at hj
    exact h.worker j hj

theorem order_stopSig (h : Order s) {k : Nat} (hpc : s.acceptStop = .stop k) (hk : k < ns) :
    Order { write s (.sig ⟨k, hk⟩) with
      sigQuit := Function.update s.sigQuit ⟨k, hk⟩ (some (s.base.sigPipe ⟨k, hk⟩).length), acceptStop := .join k } := by
  obtain ⟨late, hw⟩ := write_eq s (.sig ⟨k, hk⟩)
  rw [hw]
  refine ⟨h.signal, h.server, fun _ => h.accept (by rw [hpc]; simp), fun i hi => ?_, h.worker⟩
  by_cases he : i = ⟨k, hk⟩
  · rw [he]
    exact Nat.le_refl k
  · simp only [Function.update_of_ne he] at hi
    have hr := h.sig i hi
    rw [hpc] at hr
    exact Nat.le_of_lt hr

theorem order_stopWorker (h : Order s) {k : Nat} (hpc : s.serverStop = .stop k) (hk : k < n.val) :
    Order { write s (.worker ⟨k, hk⟩) with
      workerQuit := Function.update s.workerQuit ⟨k, hk⟩ (some (s.base.workerPipe ⟨k, hk⟩)), serverStop := .join k } := by
  obtain ⟨late, hw⟩ := write_eq s (.worker ⟨k, hk⟩)
  rw [hw]
  have hne : s.serverStop ≠ .running := by
    rw [hpc]
    simp
  refine ⟨fun hd => absurd (h.signal hd).2 hne, fun _ => h.server hne, h.accept, h.sig, fun j hj => ?_⟩
  by_cases he : j = ⟨k, hk⟩
  · rw [he]
    exact Nat.le_refl k
  · simp only [Function.update_of_ne he] at hj
    have hr := h.worker j hj
    rw [hpc] at hr
    exact Nat.le_of_lt hr

/-- **Every step keeps the order.** -/
theorem order_step {l : Label ns n} (h : Order s) (hs : step s l = some s') : Order s' := by
  cases step_move hs with
  | thread hm => exact order_thread h hm
  | signalStart hpc => exact ⟨fun _ => h.signal (by rw [hpc]; simp), h.server, h.accept, h.sig, h.worker⟩
  | signalRtc hpc =>
    obtain ⟨late, hw⟩ := write_eq s .server
    rw [hw]
    exact ⟨fun hne => absurd rfl hne, h.server, h.accept, h.sig, h.worker⟩
  | quitAccept hr hpc =>
    refine ⟨h.signal, h.server, fun _ => hpc, fun i hi => ?_, h.worker⟩
    have hreach := h.sig i hi
    rw [hr] at hreach
    exact hreach.elim
  | stopSig hpc hk => exact order_stopSig h hpc hk
  | stopSigEnd hpc => exact h.acceptStop_next (by rw [hpc]; simp) (fun _ _ => trivial)
  | joinSig hpc =>
    refine h.acceptStop_next (by rw [hpc]; simp) (fun i hi => ?_)
    rw [hpc] at hi
    exact Nat.lt_succ_of_le hi
  | quitServer hr hpc hq =>
    refine ⟨fun hne => ?_, fun _ => hpc, h.accept, h.sig, fun j hj => ?_⟩
    · have hnone := (h.signal hne).1
      rw [hq] at hnone
      cases hnone
    · have hreach := h.worker j hj
      rw [hr] at hreach
      exact hreach.elim
  | stopWorker hpc hk => exact order_stopWorker h hpc hk
  | stopWorkersEnd hpc => exact h.serverStop_next (by rw [hpc]; simp) (fun _ _ => trivial)
  | joinWorker hpc =>
    refine h.serverStop_next (by rw [hpc]; simp) (fun j hj => ?_)
    rw [hpc] at hj
    exact Nat.lt_succ_of_le hj
  | @quitSig i hr hpc hq =>
    refine ⟨h.signal, h.server, h.accept, fun k hk => ?_, h.worker⟩
    by_cases he : k = i
    · rw [he]
      exact h.sig i (.inl (by rw [hq]; simp))
    · simp only [Function.update_of_ne he] at hk
      exact h.sig k hk
  | @leave i hr =>
    refine ⟨h.signal, h.server, h.accept, fun k hk => ?_, h.worker⟩
    by_cases he : k = i
    · rw [he]
      exact h.sig i (.inr (by rw [hr]; simp))
    · simp only [Function.update_of_ne he] at hk
      exact h.sig k hk
  | @quitWorker j hq =>
    refine ⟨h.signal, h.server, h.accept, h.sig, fun k hk => ?_⟩
    by_cases he : k = j
    · rw [he]
      exact h.worker j (.inl (by rw [hq]; simp))
    · simp only [Function.update_of_ne he] at hk
      exact h.worker k hk

theorem order_init : Order (init : St ns n) := by
  refine ⟨fun _ => ⟨rfl, rfl⟩, fun _ => rfl, fun _ => rfl, fun i hi => ?_, fun j hj => ?_⟩
  · simp [init] at hi
  · simp [init] at hj

/-- The two ways a write can come too late. -/
inductive Late (s : St ns n) : Label ns n → SendFd ns n → Prop
  | server {i : Fin ns} (hpc : s.base.sig i = .notifyServer) (hc : s.serverStop ≠ .running) :
      Late s (.thread (.sig i)) .server
  | sig {i : Fin ns} {j : Fin n.val} (hpc : s.base.worker j = .notify i) (hj : s.workerExited j = false)
      (hc : s.sigPhase i ≠ .running) : Late s (.thread (.worker j)) (.sig i)

theorem late_thread {l : Pipeline.Label ns n} {o : SendFd ns n} (h : Order s) (hready : Ready s l)
    (ht : target s.base l = some o) (hc : Closed s o) : Late s (.thread l) o := by
  cases l with
  | sig i =>
    simp only [target] at ht
    split at ht
    · rename_i hpc
      cases ht
      exact .server hpc hc
    · cases ht
  | server =>
    simp only [target] at ht
    split at ht
    · rename_i j hpc
      cases ht
      -- only the RTC server stops its workers, and it is still in its loop
      have hreach := h.worker j (.inr hc)
      rw [hready.1] at hreach
      exact hreach.elim
    · cases ht
  | worker j =>
    simp only [target] at ht
    split at ht
    · rename_i i hpc
      cases ht
      exact .sig hpc hready.1 hc
    · cases ht
  | dispatch =>
    simp only [target] at ht
    split at ht
    · rename_i i hpc
      cases ht
      have hreach := h.sig i (.inr hc)
      rw [show s.acceptStop = .running from hready] at hreach
      exact hreach.elim
    · cases ht
  | pushRequest i r | accept fd => cases ht

/-- **Who writes late**: a signaling worker to the RTC server or an RTC worker to a signaling worker, nobody else. -/
theorem late_step {l : Label ns n} (h : Order s) (hs : step s l = some s') :
    ∀ o ∈ s'.closedWrites, o ∈ s.closedWrites ∨ Late s l o := by
  intro o ho
  cases step_move hs with
  | thread hm =>
    rcases hm.late o ho with ho | ⟨ht, hc⟩
    · exact .inl ho
    · exact .inr (late_thread h hm.ready ht hc)
  | signalRtc hpc =>
    rcases mem_write ho with ho | ⟨-, hc⟩
    · exact .inl ho
    · exact absurd (h.signal (by rw [hpc]; simp)).2 hc
  | @stopSig k hpc hk =>
    rcases mem_write ho with ho | ⟨-, hc⟩
    · exact .inl ho
    · have hreach := h.sig ⟨k, hk⟩ (.inr hc)
      rw [hpc] at hreach
      exact absurd hreach (Nat.lt_irrefl k)
  | @stopWorker k hpc hk =>
    rcases mem_write ho with ho | ⟨-, hc⟩
    · exact .inl ho
    · have hreach := h.worker ⟨k, hk⟩ (.inr hc)
      rw [hpc] at hreach
      exact absurd hreach (Nat.lt_irrefl k)
  | signalStart _ | quitAccept _ _ | stopSigEnd _ | joinSig _ | quitServer _ _ _ | stopWorkersEnd _ | joinWorker _
  | quitSig _ _ _ | leave _ | quitWorker _ => exact .inl ho

/-- **`RtcWorker::notify` is never late**, in any shutdown. -/
theorem worker_notify_in_time (h : Lts.Reachable step init s) (j : Fin n.val) : .worker j ∉ s.closedWrites := by
  have hinv : Order s ∧ ∀ j, SendFd.worker j ∉ s.closedWrites := by
    refine Lts.Reachable.invariant (I := fun s => Order s ∧ ∀ j, SendFd.worker j ∉ s.closedWrites)
      ⟨order_init, fun j hj => by cases hj⟩ ?_ h
    intro s l s' hi hs
    refine ⟨order_step hi.1 hs, fun j hj => ?_⟩
    rcases late_step hi.1 hs _ hj with hj | hj
    · exact hi.2 j hj
    · cases hj
  exact hinv.2 j

end Ordered

/-! ## An orderly shutdown -/

/-- No reply to signaling worker `i` can still come. -/
def Answered (s : St ns n) (i : Fin ns) : Prop :=
  Clear (s.serverStop = .running) (fun j => s.workerExited j = false) s.base i

/-- An orderly shutdown: push requests are taken up only by a signaling worker that has not handled `QUIT`, and while
the RTC server has not either; the RTC server handles `QUIT` only while no signaling worker is sending, a signaling
worker only when no reply to it can come. -/
def Orderly (s : St ns n) : Label ns n → Prop
  | .thread (.pushRequest i _) => s.serverStop = .running ∧ s.sigPhase i = .running
  | .quitServer => ∀ i, ¬ Sending (s.base.sig i)
  | .quitSig i => Answered s i
  | _ => True

instance (s : St ns n) (i : Fin ns) : Decidable (Answered s i) :=
  inferInstanceAs (Decidable (Clear _ _ _ _))

instance (s : St ns n) : ∀ l, Decidable (Orderly s l)
  | .thread (.pushRequest i _) => inferInstanceAs (Decidable (s.serverStop = .running ∧ s.sigPhase i = .running))
  | .thread (.sig _) => .isTrue trivial
  | .thread .server => .isTrue trivial
  | .thread (.worker _) => .isTrue trivial
  | .thread (.accept _) => .isTrue trivial
  | .thread .dispatch => .isTrue trivial
  | .signal => .isTrue trivial
  | .quitAccept => .isTrue trivial
  | .stopSig => .isTrue trivial
  | .quitServer => inferInstanceAs (Decidable (∀ i, ¬ Sending (s.base.sig i)))
  | .stopWorkers => .isTrue trivial
  | .quitSig i => inferInstanceAs (Decidable (Answered s i))
  | .leave _ => .isTrue trivial
  | .quitWorker _ => .isTrue trivial

structure Safe (s : St ns n) : Prop where
  order : Order s
  msgs : MsgInv s.base
  inTime : s.closedWrites = []
  sending : s.serverStop ≠ .running → ∀ i, ¬ Sending (s.base.sig i)
  answered : ∀ i, s.sigPhase i ≠ .running → ¬ Sending (s.base.sig i) ∧ Answered s i

section Orderly
variable {s s' : St ns n}

theorem Safe.inTime_step {l : Label ns n} (h : Safe s) (hs : step s l = some s') : s'.closedWrites = [] := by
  apply List.eq_nil_iff_forall_not_mem.2
  intro o ho
  rcases late_step h.order hs o ho with ho | ho
  · rw [h.inTime] at ho
    cases ho
  · cases ho with
    | @server i hpc hc =>
      have hnot := h.sending hc i
      rw [hpc] at hnot
      exact hnot trivial
    | sig hpc hj hc => exact (h.answered _ hc).2.reply _ hj hpc

/-- What the pipeline's own steps keep. -/
theorem Safe.thread {l : Pipeline.Label ns n} (h : Safe s) (hok : Orderly s (.thread l)) (hm : ThreadMove s l s') :
    (s'.serverStop ≠ .running → ∀ i, ¬ Sending (s'.base.sig i)) ∧
      ∀ i, s'.sigPhase i ≠ .running → ¬ Sending (s'.base.sig i) ∧ Answered s' i := by
  refine ⟨fun hne i hi => ?_, fun i hne => ⟨fun hi => ?_, ?_⟩⟩
  · rw [hm.serverStop] at hne
    rcases sending_step hm.base hi with hi | ⟨r, rfl⟩
    · exact h.sending hne i hi
    · exact hne hok.1
  · rw [hm.sigPhase] at hne
    rcases sending_step hm.base hi with hi | ⟨r, rfl⟩
    · exact (h.answered i hne).1 hi
    · exact hne hok.2
  · rw [hm.sigPhase] at hne
    unfold Answered
    rw [hm.serverStop, hm.workerExited]
    refine (h.answered i hne).2.step h.msgs (h.answered i hne).1 hm.base ?_
    rintro rfl
    exact hm.ready.1

/-- A step of the shutdown that leaves the pipeline alone. -/
theorem Safe.answered_mono (h : Safe s) (hbase : s'.base = s.base)
    (h1 : s'.serverStop = .running → s.serverStop = .running)
    (h2 : ∀ j, s'.workerExited j = false → s.workerExited j = false) {i : Fin ns} (hi : s.sigPhase i ≠ .running) :
    ¬ Sending (s'.base.sig i) ∧ Answered s' i := by
  unfold Answered
  rw [hbase]
  exact ⟨(h.answered i hi).1, (h.answered i hi).2.mono h1 h2⟩

/-- The signaling workers that have handled `QUIT` are the ones before. -/
theorem Safe.stopping (h : Safe s) (hbase : s'.base = s.base) (hphase : s'.sigPhase = s.sigPhase)
    (h1 : s'.serverStop = .running → s.serverStop = .running)
    (h2 : ∀ j, s'.workerExited j = false → s.workerExited j = false) (i : Fin ns) (hi : s'.sigPhase i ≠ .running) :
    ¬ Sending (s'.base.sig i) ∧ Answered s' i := by
  rw [hphase] at hi
  exact h.answered_mono hbase h1 h2 hi

/-- **Every step of an orderly shutdown keeps it safe.** -/
theorem safe_step {l : Label ns n} (h : Safe s) (hok : Orderly s l) (hs : step s l = some s') : Safe s' := by
  have horder := order_step h.order hs
  have hin := h.inTime_step hs
  cases step_move hs with
  | thread hm =>
    obtain ⟨h1, h2⟩ := h.thread hok hm
    exact ⟨horder, Pipeline.msgInv_step h.msgs hm.base, hin, h1, h2⟩
  | signalStart hpc => exact ⟨horder, h.msgs, hin, h.sending, h.stopping rfl rfl id (fun _ => id)⟩
  | signalRtc hpc =>
    obtain ⟨late, hw⟩ := write_eq s .server
    rw [hw] at horder hin ⊢
    exact ⟨horder, h.msgs, hin, h.sending, h.stopping rfl rfl id (fun _ => id)⟩
  | quitAccept hr hpc => exact ⟨horder, h.msgs, hin, h.sending, h.stopping rfl rfl id (fun _ => id)⟩
  | @stopSig k hpc hk =>
    obtain ⟨late, hw⟩ := write_eq s (.sig ⟨k, hk⟩)
    rw [hw] at horder hin ⊢
    exact ⟨horder, h.msgs, hin, h.sending, h.stopping rfl rfl id (fun _ => id)⟩
  | stopSigEnd hpc => exact ⟨horder, h.msgs, hin, h.sending, h.stopping rfl rfl id (fun _ => id)⟩
  | joinSig hpc => exact ⟨horder, h.msgs, hin, h.sending, h.stopping rfl rfl id (fun _ => id)⟩
  | quitServer hr hpc hq =>
    exact ⟨horder, h.msgs, hin, fun _ => hok, h.stopping rfl rfl (fun hr => by cases hr) (fun _ => id)⟩
  | @stopWorker k hpc hk =>
    obtain ⟨late, hw⟩ := write_eq s (.worker ⟨k, hk⟩)
    rw [hw] at horder hin ⊢
    exact ⟨horder, h.msgs, hin, fun _ => h.sending (by rw [hpc]; simp),
      h.stopping rfl rfl (fun hr => by cases hr) (fun _ => id)⟩
  | stopWorkersEnd hpc =>
    exact ⟨horder, h.msgs, hin, fun _ => h.sending (by rw [hpc]; simp),
      h.stopping rfl rfl (fun hr => by cases hr) (fun _ => id)⟩
  | joinWorker hpc =>
    exact ⟨horder, h.msgs, hin, fun _ => h.sending (by rw [hpc]; simp),
      h.stopping rfl rfl (fun hr => by cases hr) (fun _ => id)⟩
  | @quitSig i hr hpc hq =>
    refine ⟨horder, h.msgs, hin, h.sending, fun k hk => ?_⟩
    by_cases he : k = i
    · subst he
      refine ⟨?_, hok⟩
      show ¬ Sending (s.base.sig k)
      rw [hpc]
      exact id
    · simp only [Function.update_of_ne he] at hk
      exact h.answered_mono rfl id (fun _ => id) hk
  | @leave i hr =>
    refine ⟨horder, h.msgs, hin, h.sending, fun k hk => ?_⟩
    by_cases he : k = i
    · subst he
      exact h.answered_mono rfl id (fun _ => id) (by rw [hr]; simp)
    · simp only [Function.update_of_ne he] at hk
      exact h.answered_mono rfl id (fun _ => id) hk
  | @quitWorker j hq =>
    refine ⟨horder, h.msgs, hin, h.sending, h.stopping rfl rfl id (fun k hk => ?_)⟩
    by_cases he : k = j
    · subst he
      simp at hk
    · simpa [Function.update_of_ne he] using hk

theorem safe_init : Safe (init : St ns n) :=
  ⟨order_init, Pipeline.msgInv_init, rfl, fun hne => absurd rfl hne, fun _ hne => absurd rfl hne⟩

end Orderly

/-- **An orderly shutdown never writes to a closed descriptor**, whatever is under way when it starts and in whatever
order the threads take their steps. -/
theorem no_closed_write (s : St ns n) (h : Lts.Via step Orderly init s) : s.closedWrites = [] :=
  (Lts.Via.invariant (I := Safe) safe_init (fun _ _ _ hi hok hs => safe_step hi hok hs) h).inTime

def sig0 : Fin 1 := ⟨0, Nat.zero_lt_one⟩

def rtc0 : Fin WorkerNum.one.val := ⟨0, Nat.zero_lt_one⟩

def pushLabel : Label 1 WorkerNum.one := .thread (.pushRequest sig0 pushA)

def sigLabel : Label 1 WorkerNum.one := .thread (.sig sig0)

def rtcLabel : Label 1 WorkerNum.one := .thread (.worker rtc0)

/-- A request is answered, then both servers stop their workers and end. -/
def answeredThenQuit : List (Label 1 WorkerNum.one) :=
  [pushLabel, sigLabel, sigLabel, .thread .server, .thread .server, .thread .server, .thread .server, rtcLabel,
    rtcLabel, rtcLabel, rtcLabel, sigLabel, sigLabel, sigLabel, .signal, .signal, .quitServer, .stopWorkers, .quitWorker rtc0,
    .stopWorkers, .stopWorkers, .quitAccept, .stopSig, .quitSig sig0, .leave sig0, .stopSig, .stopSig]

theorem no_closed_write_answeredThenQuit : ∃ s : St 1 WorkerNum.one,
    Lts.run (Lts.guarded Orderly step) init answeredThenQuit = some s ∧ s.base.answered sig0 = [0] ∧
    s.acceptStop = .exited ∧ s.serverStop = .exited ∧ s.closedWrites = [] := by
  have hsome : (Lts.run (Lts.guarded Orderly step) (init : St 1 WorkerNum.one) answeredThenQuit).isSome = true := by
    decide
  obtain ⟨s, hs⟩ := Option.isSome_iff_exists.1 hsome
  have hend : (Lts.run (Lts.guarded Orderly step) (init : St 1 WorkerNum.one) answeredThenQuit).map
      (fun s => (s.base.answered sig0, s.acceptStop, s.serverStop)) = some ([0], .exited, .exited) := by decide
  rw [hs, Option.map_some, Option.some.injEq, Prod.mk.injEq, Prod.mk.injEq] at hend
  exact ⟨s, hs, hend.1, hend.2.1, hend.2.2, no_closed_write s (Lts.Via.of_run .start hs)⟩

/-- The RTC server handles `QUIT` between a signaling worker's `push_msg` and its `notify`. -/
def quitWhileSending : List (Label 1 WorkerNum.one) :=
  [pushLabel, sigLabel, .signal, .signal, .quitServer, sigLabel]

/-- A signaling worker handles `QUIT` while its message is with the RTC worker. -/
def quitBeforeReply : List (Label 1 WorkerNum.one) :=
  [pushLabel, sigLabel, sigLabel, .thread .server, .thread .server, .thread .server, .thread .server, .signal,
    .quitAccept, .stopSig, .quitSig sig0, rtcLabel, rtcLabel, rtcLabel, rtcLabel]

theorem closed_writes_reached : ¬ (∀ (ns : Nat) (n : WorkerNum) (s : St ns n), Lts.Reachable step init s →
    .server ∉ s.closedWrites) ∧ ¬ (∀ (ns : Nat) (n : WorkerNum) (s : St ns n), Lts.Reachable step init s →
    ∀ i, .sig i ∉ s.closedWrites) := by
  have hlate : ∀ (ls : List (Label 1 WorkerNum.one)) (o : SendFd 1 WorkerNum.one),
      (Lts.run step init ls).map (fun s => s.closedWrites) = some [o] →
      ∃ s : St 1 WorkerNum.one, Lts.Reachable step init s ∧ o ∈ s.closedWrites := by
    intro ls o hend
    obtain ⟨s, hs, hw⟩ := Option.map_eq_some_iff.1 hend
    refine ⟨s, Lts.Reachable.of_run hs, ?_⟩
    rw [hw]
    exact List.mem_singleton.2 rfl
  constructor
  · intro hall
    obtain ⟨s, hs, ho⟩ := hlate quitWhileSending .server (by decide)
    exact hall 1 WorkerNum.one s hs ho
  · intro hall
    obtain ⟨s, hs, ho⟩ := hlate quitBeforeReply (.sig sig0) (by decide)
    exact hall 1 WorkerNum.one s hs sig0 ho

end Shutdown
end Xrtc
