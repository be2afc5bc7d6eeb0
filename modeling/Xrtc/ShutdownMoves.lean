import Xrtc.Delivery
import Xrtc.Shutdown
/-!
# ShutdownMoves — what a step of the shutdown can be

First the pipeline: whose message is where, and who is sending (`Clear`, `Sending`).  A message stays its sender's, and
it moves on only through the hands of threads that still run (`Clear.step`).  Then the steps of the shutdown, one
constructor for each (`Move`).
-/
namespace Xrtc
namespace Shutdown

open Pipeline (SigPc MsgInv places)

variable {ns : Nat} {n : WorkerNum}

/-- Inside `RtcServer::send_rtc_msg`. -/
def Sending : SigPc → Prop
  | .send _ => True
  | .notifyServer => True
  | _ => False

instance : ∀ pc, Decidable (Sending pc)
  | .send _ => .isTrue trivial
  | .notifyServer => .isTrue trivial
  | .idle => .isFalse id
  | .popMsg => .isFalse id
  | .answer _ => .isFalse id
  | .takeConn => .isFalse id
  | .newConn _ => .isFalse id

/-- No message of signaling worker `i` is with a thread that can still pass it on: `serving` says whether the RTC
server can, `working` which RTC workers can. -/
structure Clear (serving : Prop) (working : Fin n.val → Prop) (b : Pipeline.St ns n) (i : Fin ns) : Prop where
  server : serving → ∀ m ∈ b.serverQueue ++ b.server.held, (b.msgs m).worker ≠ some i
  worker : ∀ j, working j → ∀ m ∈ b.workerQueue j ++ (b.worker j).held, (b.msgs m).worker ≠ some i
  reply : ∀ j, working j → b.worker j ≠ .notify i

instance (serving : Prop) (working : Fin n.val → Prop) (b : Pipeline.St ns n) (i : Fin ns) [Decidable serving]
    [DecidablePred working] : Decidable (Clear serving working b i) :=
  decidable_of_iff ((serving → ∀ m ∈ b.serverQueue ++ b.server.held, (b.msgs m).worker ≠ some i) ∧
      (∀ j, working j → ∀ m ∈ b.workerQueue j ++ (b.worker j).held, (b.msgs m).worker ≠ some i) ∧
      ∀ j, working j → b.worker j ≠ .notify i)
    ⟨fun h => ⟨h.1, h.2.1, h.2.2⟩, fun h => ⟨h.server, h.worker, h.reply⟩⟩

/-! ## Messages stay their sender's -/

section Clear
variable {b b' : Pipeline.St ns n} {l : Pipeline.Label ns n} {serving : Prop} {working : Fin n.val → Prop} {i : Fin ns}

/-- No step changes whose message it is. -/
theorem worker_kept (h : MsgInv b) (hs : Pipeline.step b l = some b') {m : Nat} (hm : m ∈ b.sent) :
    (b'.msgs m).worker = (b.msgs m).worker := by
  cases Pipeline.step_move hs with
  | pushRequest r hi =>
    have hne : m ≠ b.sent.length := by
      rw [h.numbered] at hm
      exact Nat.ne_of_lt (List.mem_range.1 hm)
    simp only [Pipeline.pushRequest, Pipeline.setSig, Function.update_of_ne hne]
  | sig hm => cases hm <;> rfl
  | server hm => cases hm <;> rfl
  | worker hw =>
    cases hw with
    | @process m' i hpc hcmd hi =>
      simp only [Pipeline.setWorker, Function.update_apply]
      split
      · rename_i he
        rw [he]
        rfl
      · rfl
    | @noSender m' hpc hcmd hi =>
      simp only [Pipeline.setWorker, Function.update_apply]
      split
      · rename_i he
        rw [he]
        rfl
      · rfl
    | read _ _ | popNone _ _ | pop _ _ | unknown _ _ | notify _ => rfl
  | acceptFailed hi => rfl
  | accept hi => rfl
  | dispatch hm => cases hm <;> rfl

/-- Messages come to the RTC server from a signaling worker's hand. -/
theorem mem_server (hs : Pipeline.step b l = some b') {m : Nat} (hm : m ∈ b'.serverQueue ++ b'.server.held) :
    m ∈ b.serverQueue ++ b.server.held ∨ ∃ k, b.sig k = .send m := by
  cases Pipeline.step_move hs with
  | pushRequest r hi => exact .inl hm
  | @sig k _ hmove =>
    cases hmove with
    | @send m' hpc =>
      rcases List.mem_append.1 hm with hm | hm
      · rcases List.mem_append.1 hm with hm | hm
        · exact .inl (List.mem_append_left _ hm)
        · rw [List.mem_singleton.1 hm]
          exact .inr ⟨k, hpc⟩
      · exact .inl (List.mem_append_right _ hm)
    | readConn _ _ | readMsg _ _ | notifyServer _ | popNone _ _ | pop _ _ | answer _ _ | unknown _ _ | takeNone _ _
    | take _ _ | newConn _ => exact .inl hm
  | server hmove =>
    left
    cases hmove with
    | pop hpc hq =>
      rw [hq, hpc]
      simpa [Pipeline.ServerPc.held, or_comm] using hm
    | read _ _ | popNone _ _ | noWorker _ _ | route _ _ | notify _ =>
      simp only [Pipeline.ServerPc.held, List.append_nil] at hm
      exact List.mem_append_left _ hm
  | worker hmove => cases hmove <;> exact .inl hm
  | acceptFailed hi => exact .inl hm
  | accept hi => exact .inl hm
  | dispatch hmove => cases hmove <;> exact .inl hm

/-- Messages come to an RTC worker from the RTC server's hand. -/
theorem mem_worker (hs : Pipeline.step b l = some b') {j : Fin n.val} {m : Nat}
    (hm : m ∈ b'.workerQueue j ++ (b'.worker j).held) :
    m ∈ b.workerQueue j ++ (b.worker j).held ∨ (l = .server ∧ m ∈ b.server.held) := by
  cases Pipeline.step_move hs with
  | pushRequest r hi => exact .inl hm
  | sig hmove => cases hmove <;> exact .inl hm
  | server hmove =>
    cases hmove with
    | @route m' k hpc hr =>
      rcases List.mem_append.1 hm with hm | hm
      · by_cases hk : j = k
        · subst hk
          simp only [Function.update_self, List.mem_append, List.mem_singleton] at hm
          rcases hm with hm | hm
          · exact .inl (List.mem_append_left _ hm)
          · rw [hpc, hm]
            exact .inr ⟨rfl, List.mem_singleton.2 rfl⟩
        · simp only [Function.update_of_ne hk] at hm
          exact .inl (List.mem_append_left _ hm)
      · exact .inl (List.mem_append_right _ hm)
    | read _ _ | popNone _ _ | pop _ _ | noWorker _ _ | notify _ => exact .inl hm
  | @worker k _ hmove =>
    left
    by_cases hk : j = k
    · subst hk
      cases hmove with
      | pop hpc hq =>
        rw [hq, hpc]
        simpa [Pipeline.setWorker, Pipeline.WorkerPc.held, or_comm] using hm
      | read _ _ | popNone _ _ | process _ _ _ | noSender _ _ _ | unknown _ _ | notify _ =>
        simp only [Pipeline.setWorker, Function.update_self, Pipeline.WorkerPc.held, List.append_nil] at hm
        exact List.mem_append_left _ hm
    · cases hmove <;> simpa [Pipeline.setWorker, Function.update_of_ne hk] using hm
  | acceptFailed hi => exact .inl hm
  | accept hi => exact .inl hm
  | dispatch hmove => cases hmove <;> exact .inl hm

/-- An RTC worker comes to a `notify` with the message of that signaling worker in its hand. -/
theorem notify_reply (hs : Pipeline.step b l = some b') {j : Fin n.val} (hj : b'.worker j = .notify i) :
    b.worker j = .notify i ∨ ∃ m ∈ (b.worker j).held, (b.msgs m).worker = some i := by
  cases Pipeline.step_move hs with
  | pushRequest r hi => exact .inl hj
  | sig hmove => cases hmove <;> exact .inl hj
  | server hmove => cases hmove <;> exact .inl hj
  | @worker k _ hmove =>
    by_cases hk : j = k
    · subst hk
      cases hmove with
      | @process m i' hpc hcmd hi =>
        simp only [Pipeline.setWorker, Function.update_self, Pipeline.WorkerPc.notify.injEq] at hj
        rw [hj] at hi
        rw [hpc]
        exact .inr ⟨m, List.mem_singleton.2 rfl, hi⟩
      | read _ _ | popNone _ _ | pop _ _ | noSender _ _ _ | unknown _ _ | notify _ =>
        simp only [Pipeline.setWorker, Function.update_self, reduceCtorEq] at hj
    · left
      cases hmove <;> simpa [Pipeline.setWorker, Function.update_of_ne hk] using hj
  | acceptFailed hi => exact .inl hj
  | accept hi => exact .inl hj
  | dispatch hmove => cases hmove <;> exact .inl hj

/-- **No step brings a message of a signaling worker that is not sending back on its way.** -/
theorem Clear.step (h : Clear serving working b i) (hb : MsgInv b) (hi : ¬ Sending (b.sig i))
    (hs : Pipeline.step b l = some b') (hserver : l = .server → serving) : Clear serving working b' i := by
  have hsent : ∀ (p : Pipeline.Place ns n) (m : Nat), m ∈ places b p → (b'.msgs m).worker = (b.msgs m).worker :=
    fun p m hm => worker_kept hb hs (hb.flows.mem_entered hm)
  have hqueue : ∀ m ∈ b.serverQueue ++ b.server.held, (b'.msgs m).worker = (b.msgs m).worker := by
    intro m hm
    rcases List.mem_append.1 hm with hm | hm
    · exact hsent .serverQueue m hm
    · exact hsent .serverHand m hm
  refine ⟨fun hr m hm => ?_, fun j hj m hm => ?_, fun j hj he => ?_⟩
  · rcases mem_server hs hm with hm | ⟨k, hk⟩
    · rw [hqueue m hm]
      exact h.server hr m hm
    · -- the sender of a message in a hand is the worker whose hand it is
      have hat : m ∈ places b (.sigHand k) := by simp [places, hk, SigPc.outgoing]
      rw [hsent _ m hat, hb.sender (.inl rfl) hat]
      rintro ⟨⟩
      rw [hk] at hi
      exact hi trivial
  · rcases mem_worker hs hm with hm | ⟨hl, hm⟩
    · have hkept : (b'.msgs m).worker = (b.msgs m).worker := by
        rcases List.mem_append.1 hm with hm | hm
        · exact hsent (.workerQueue j) m hm
        · exact hsent (.workerHand j) m hm
      rw [hkept]
      exact h.worker j hj m hm
    · rw [hsent .serverHand m hm]
      exact h.server (hserver hl) m (List.mem_append_right _ hm)
  · rcases notify_reply hs he with he | ⟨m, hm, hw⟩
    · exact h.reply j hj he
    · exact h.worker j hj m (List.mem_append_right _ hm) hw

theorem Clear.mono {serving' : Prop} {working' : Fin n.val → Prop} (h : Clear serving working b i)
    (h1 : serving' → serving) (h2 : ∀ j, working' j → working j) : Clear serving' working' b i :=
  ⟨fun hr => h.server (h1 hr), fun j hj => h.worker j (h2 j hj), fun j hj => h.reply j (h2 j hj)⟩

/-! ## What one thread leaves of the others -/

theorem server_kept (hs : Pipeline.step b l = some b') (hl : l ≠ .server) : b'.server = b.server := by
  cases Pipeline.step_move hs with
  | server _ => exact absurd rfl hl
  | pushRequest _ _ | acceptFailed _ | accept _ => rfl
  | sig hm => cases hm <;> rfl
  | worker hm => cases hm <;> rfl
  | dispatch hm => cases hm <;> rfl

theorem accept_kept (hs : Pipeline.step b l = some b') (hl : ∀ fd, l ≠ .accept fd) (hd : l ≠ .dispatch) :
    b'.accept = b.accept := by
  cases Pipeline.step_move hs with
  | acceptFailed _ => rfl
  | accept _ => exact absurd rfl (hl _)
  | dispatch _ => exact absurd rfl hd
  | pushRequest _ _ => rfl
  | sig hm => cases hm <;> rfl
  | server hm => cases hm <;> rfl
  | worker hm => cases hm <;> rfl

/-- A signaling worker begins to send with a push request. -/
theorem sending_step (hs : Pipeline.step b l = some b') (h : Sending (b'.sig i)) :
    Sending (b.sig i) ∨ ∃ r, l = .pushRequest i r := by
  cases Pipeline.step_move hs with
  | @pushRequest k r hk =>
    by_cases he : i = k
    · subst he
      exact .inr ⟨r, rfl⟩
    · left
      simpa [Pipeline.pushRequest, Pipeline.setSig, Function.update_of_ne he] using h
  | @sig k _ hm =>
    left
    by_cases he : i = k
    · subst he
      cases hm with
      | send hpc =>
        rw [hpc]
        trivial
      | readConn _ _ | readMsg _ _ | notifyServer _ | popNone _ _ | pop _ _ | answer _ _ | unknown _ _ | takeNone _ _
      | take _ _ | newConn _ =>
        simp only [Pipeline.setSig, Function.update_self, Sending] at h
    · cases hm <;> simpa [Pipeline.setSig, Function.update_of_ne he] using h
  | server hm => cases hm <;> exact .inl h
  | worker hm => cases hm <;> exact .inl h
  | acceptFailed _ => exact .inl h
  | accept _ => exact .inl h
  | dispatch hm => cases hm <;> exact .inl h

end Clear

/-! ## What a step leaves behind -/

section Steps
variable {s s' : St ns n}

theorem mem_write {o o' : SendFd ns n} (h : o' ∈ (write s o).closedWrites) :
    o' ∈ s.closedWrites ∨ (o' = o ∧ Closed s o) := by
  unfold write at h
  split at h
  · rename_i hc
    rcases List.mem_append.1 h with h | h
    · exact .inl h
    · exact .inr ⟨List.mem_singleton.1 h, hc⟩
  · exact .inl h

/-- A write changes nothing but the record of late writes. -/
theorem write_eq (s : St ns n) (o : SendFd ns n) :
    ∃ late, write s o = { s with closedWrites := late } := by
  unfold write
  split
  · exact ⟨_, rfl⟩
  · exact ⟨s.closedWrites, rfl⟩

structure ThreadMove (s : St ns n) (l : Pipeline.Label ns n) (s' : St ns n) : Prop where
  ready : Ready s l
  base : Pipeline.step s.base l = some s'.base
  signal : s'.signal = s.signal
  acceptStop : s'.acceptStop = s.acceptStop
  serverStop : s'.serverStop = s.serverStop
  sigPhase : s'.sigPhase = s.sigPhase
  workerExited : s'.workerExited = s.workerExited
  serverQuit : s'.serverQuit = none ↔ s.serverQuit = none
  sigQuit : ∀ i, s'.sigQuit i = none ↔ s.sigQuit i = none
  workerQuit : ∀ j, s'.workerQuit j = none ↔ s.workerQuit j = none
  late : ∀ o ∈ s'.closedWrites, o ∈ s.closedWrites ∨ (target s.base l = some o ∧ Closed s o)

theorem map_update_none {I : Type} [DecidableEq I] (g : I → Option Nat) (i k : I) :
    Function.update g i ((g i).map Nat.pred) k = none ↔ g k = none := by
  rw [Function.update_apply]
  split
  · rename_i he
    rw [he, Option.map_eq_none_iff]
  · rfl

theorem writeTarget_eq (s : St ns n) (l : Pipeline.Label ns n) :
    ∃ late, writeTarget s l = { s with closedWrites := late } ∧
      ∀ o ∈ late, o ∈ s.closedWrites ∨ (target s.base l = some o ∧ Closed s o) := by
  unfold writeTarget
  cases target s.base l with
  | none => exact ⟨s.closedWrites, rfl, fun o ho => .inl ho⟩
  | some o =>
    obtain ⟨late, hw⟩ := write_eq s o
    refine ⟨late, hw, fun o' ho => ?_⟩
    have hmem : o' ∈ (write s o).closedWrites := by
      rw [hw]
      exact ho
    rcases mem_write hmem with h | ⟨rfl, hc⟩
    · exact .inl h
    · exact .inr ⟨rfl, hc⟩

theorem threadStep_move {l : Pipeline.Label ns n} (hs : threadStep s l = some s') : ThreadMove s l s' := by
  unfold threadStep at hs
  split at hs
  · rename_i hready
    obtain ⟨b, hb, rfl⟩ := Option.map_eq_some_iff.1 hs
    obtain ⟨late, heq, hlate⟩ := writeTarget_eq s l
    rw [heq]
    cases l with
    | pushRequest i r | accept fd | dispatch =>
      exact ⟨hready, hb, rfl, rfl, rfl, rfl, rfl, Iff.rfl, fun _ => Iff.rfl, fun _ => Iff.rfl, hlate⟩
    | sig i =>
      simp only [tokenRead]
      split
      · exact ⟨hready, hb, rfl, rfl, rfl, rfl, rfl, Iff.rfl, map_update_none _ _, fun _ => Iff.rfl, hlate⟩
      · exact ⟨hready, hb, rfl, rfl, rfl, rfl, rfl, Iff.rfl, fun _ => Iff.rfl, fun _ => Iff.rfl, hlate⟩
    | server =>
      simp only [tokenRead]
      split
      · exact ⟨hready, hb, rfl, rfl, rfl, rfl, rfl, Option.map_eq_none_iff, fun _ => Iff.rfl, fun _ => Iff.rfl, hlate⟩
      · exact ⟨hready, hb, rfl, rfl, rfl, rfl, rfl, Iff.rfl, fun _ => Iff.rfl, fun _ => Iff.rfl, hlate⟩
    | worker j =>
      simp only [tokenRead]
      split
      · exact ⟨hready, hb, rfl, rfl, rfl, rfl, rfl, Iff.rfl, fun _ => Iff.rfl, map_update_none _ _, hlate⟩
      · exact ⟨hready, hb, rfl, rfl, rfl, rfl, rfl, Iff.rfl, fun _ => Iff.rfl, fun _ => Iff.rfl, hlate⟩
  · cases hs

inductive Move (s : St ns n) : Label ns n → St ns n → Prop
  | thread {l : Pipeline.Label ns n} {s' : St ns n} (hm : ThreadMove s l s') : Move s (.thread l) s'
  | signalStart (hpc : s.signal = .start) : Move s .signal { s with signal := .stopRtc, acceptQuit := true }
  | signalRtc (hpc : s.signal = .stopRtc) :
      Move s .signal { write s .server with signal := .done, serverQuit := some s.base.serverPipe }
  | quitAccept (hr : s.acceptStop = .running) (hpc : s.base.accept = .idle) :
      Move s .quitAccept { s with acceptQuit := false, acceptStop := .stop 0 }
  | stopSig {k : Nat} (hpc : s.acceptStop = .stop k) (hk : k < ns) :
      Move s .stopSig { write s (.sig ⟨k, hk⟩) with
        sigQuit := Function.update s.sigQuit ⟨k, hk⟩ (some (s.base.sigPipe ⟨k, hk⟩).length), acceptStop := .join k }
  | stopSigEnd {k : Nat} (hpc : s.acceptStop = .stop k) : Move s .stopSig { s with acceptStop := .exited }
  | joinSig {k : Nat} (hpc : s.acceptStop = .join k) : Move s .stopSig { s with acceptStop := .stop (k + 1) }
  | quitServer (hr : s.serverStop = .running) (hpc : s.base.server = .idle) (hq : s.serverQuit = some 0) :
      Move s .quitServer { s with serverQuit := none, serverStop := .stop 0 }
  | stopWorker {k : Nat} (hpc : s.serverStop = .stop k) (hk : k < n.val) :
      Move s .stopWorkers { write s (.worker ⟨k, hk⟩) with
        workerQuit := Function.update s.workerQuit ⟨k, hk⟩ (some (s.base.workerPipe ⟨k, hk⟩)), serverStop := .join k }
  | stopWorkersEnd {k : Nat} (hpc : s.serverStop = .stop k) : Move s .stopWorkers { s with serverStop := .exited }
  | joinWorker {k : Nat} (hpc : s.serverStop = .join k) : Move s .stopWorkers { s with serverStop := .stop (k + 1) }
  | quitSig {i : Fin ns} (hr : s.sigPhase i = .running) (hpc : s.base.sig i = .idle) (hq : s.sigQuit i = some 0) :
      Move s (.quitSig i) { s with
        sigQuit := Function.update s.sigQuit i none, sigPhase := Function.update s.sigPhase i .breaking }
  | leave {i : Fin ns} (hr : s.sigPhase i = .breaking) :
      Move s (.leave i) { s with sigPhase := Function.update s.sigPhase i .exited }
  | quitWorker {j : Fin n.val} (hq : s.workerQuit j = some 0) :
      Move s (.quitWorker j) { s with
        workerQuit := Function.update s.workerQuit j none, workerExited := Function.update s.workerExited j true }

theorem stopSig_move (hs : stopSig s = some s') : Move s .stopSig s' := by
  unfold stopSig at hs
  cases hpc : s.acceptStop with
  | stop k =>
    simp only [hpc] at hs
    split at hs
    · rename_i hk
      cases hs
      exact .stopSig hpc hk
    · cases hs
      exact .stopSigEnd hpc
  | join k =>
    simp only [hpc] at hs
    split at hs
    · split at hs
      · cases hs
        exact .joinSig hpc
      · cases hs
    · cases hs
  | running | exited =>
    simp only [hpc] at hs
    cases hs

theorem stopWorkers_move (hs : stopWorkers s = some s') : Move s .stopWorkers s' := by
  unfold stopWorkers at hs
  cases hpc : s.serverStop with
  | stop k =>
    simp only [hpc] at hs
    split at hs
    · rename_i hk
      cases hs
      exact .stopWorker hpc hk
    · cases hs
      exact .stopWorkersEnd hpc
  | join k =>
    simp only [hpc] at hs
    split at hs
    · split at hs
      · cases hs
        exact .joinWorker hpc
      · cases hs
    · cases hs
  | running | exited =>
    simp only [hpc] at hs
    cases hs

theorem processSignal_move (hs : processSignal s = some s') : Move s .signal s' := by
  unfold processSignal at hs
  cases hpc : s.signal with
  | start =>
    simp only [hpc] at hs
    cases hs
    exact .signalStart hpc
  | stopRtc =>
    simp only [hpc] at hs
    cases hs
    exact .signalRtc hpc
  | done =>
    simp only [hpc] at hs
    cases hs

/-- **Every step is a move.** -/
theorem step_move {l : Label ns n} (hs : step s l = some s') : Move s l s' := by
  cases l with
  | thread l => exact .thread (threadStep_move hs)
  | signal => exact processSignal_move hs
  | quitAccept =>
    simp only [step] at hs
    split at hs
    · rename_i h
      cases hs
      exact .quitAccept h.1 h.2.1
    · cases hs
  | stopSig => exact stopSig_move hs
  | quitServer =>
    simp only [step] at hs
    split at hs
    · rename_i h
      cases hs
      exact .quitServer h.1 h.2.1 h.2.2
    · cases hs
  | stopWorkers => exact stopWorkers_move hs
  | quitSig i =>
    simp only [step] at hs
    split at hs
    · rename_i h
      cases hs
      exact .quitSig h.1 h.2.1 h.2.2
    · cases hs
  | leave i =>
    simp only [step] at hs
    split at hs
    · rename_i h
      cases hs
      exact .leave h.1
    · cases hs
  | quitWorker j =>
    simp only [step] at hs
    split at hs
    · rename_i h
      cases hs
      exact .quitWorker h.2.2
    · cases hs

end Steps

end Shutdown
end Xrtc
