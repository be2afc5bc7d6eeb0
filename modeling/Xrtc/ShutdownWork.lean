import Xrtc.PipelineWork
import Xrtc.ShutdownRun
/-!
# ShutdownWork — `_stop` and `join` always return

A server that has written `QUIT` to a worker waits in `join` until the worker has left its event loop.  The worker gets
there: its `QUIT` stands behind finitely many tokens, each read is one token less, and no thread that still runs is ever
stuck outside its loop (`Ends`, `stopped_of_settled`).  `work` counts the moves of threads and shutdown together, so the
whole of it takes a bounded number of them, whatever is under way and whoever moves when.
-/
namespace Xrtc
namespace Shutdown

open Pipeline (Sound Note)

variable {ns : Nat} {n : WorkerNum}

/-! ## The moves left -/

def SignalPc.left : SignalPc → Nat
  | .start => 2
  | .stopRtc => 1
  | .done => 0

/-- Two moves for each of the `total` workers, one to leave the loop over them, one for `QUIT` itself. -/
def StopPc.left (total : Nat) : StopPc → Nat
  | .running => 2 * total + 2
  | .stop k => 2 * (total - k) + 1
  | .join k => 2 * (total - k)
  | .exited => 0

def LoopPhase.left : LoopPhase → Nat
  | .running => 2
  | .breaking => 1
  | .exited => 0

def work (s : St ns n) : Nat :=
  Pipeline.work s.base + s.signal.left + s.acceptStop.left ns + s.serverStop.left n.val +
    ∑ i, (s.sigPhase i).left + ∑ j, (s.workerExited j).not.toNat

/-- The labels that are moves of a thread; requests and connections are inputs. -/
def own : Label ns n → Bool
  | .thread l => Pipeline.own l
  | _ => true

def price : Label ns n → Nat
  | .thread l => Pipeline.price l
  | _ => 0

/-! ## What the moves of `Move` leave out -/

section Guards
variable {s s' : St ns n}

theorem stopSig_exited {k : Nat} (hpc : s.acceptStop = .stop k) (hs : stopSig s = some s')
    (he : s'.acceptStop = .exited) : ns ≤ k := by
  simp only [stopSig, hpc] at hs
  split at hs
  · cases hs
    cases he
  · omega

theorem stopSig_joined {k : Nat} (hpc : s.acceptStop = .join k) (hs : stopSig s = some s') :
    ∃ hk : k < ns, s.sigPhase ⟨k, hk⟩ = .exited := by
  simp only [stopSig, hpc] at hs
  split at hs
  · rename_i hk
    split at hs
    · rename_i he
      exact ⟨hk, he⟩
    · cases hs
  · cases hs

theorem stopWorkers_exited {k : Nat} (hpc : s.serverStop = .stop k) (hs : stopWorkers s = some s')
    (he : s'.serverStop = .exited) : n.val ≤ k := by
  simp only [stopWorkers, hpc] at hs
  split at hs
  · cases hs
    cases he
  · omega

theorem stopWorkers_joined {k : Nat} (hpc : s.serverStop = .join k) (hs : stopWorkers s = some s') :
    ∃ hk : k < n.val, s.workerExited ⟨k, hk⟩ = true := by
  simp only [stopWorkers, hpc] at hs
  split at hs
  · rename_i hk
    split at hs
    · rename_i he
      exact ⟨hk, he⟩
    · cases hs
  · cases hs

theorem quitWorker_running {j : Fin n.val} (hs : step s (.quitWorker j) = some s') : s.workerExited j = false := by
  simp only [step] at hs
  split at hs
  · rename_i h
    exact h.1
  · cases hs

end Guards

/-! ## Every move does one unit -/

section Moves
variable {s s' : St ns n} {hns : 0 < ns}

theorem work_thread {l : Pipeline.Label ns n} (h : Sound hns s.base) (hm : ThreadMove s l s') :
    (if Pipeline.own l then 1 else 0) + work s' = work s + Pipeline.price l := by
  have hbase := Pipeline.work_step h hm.base
  simp only [work, hm.signal, hm.acceptStop, hm.serverStop, hm.sigPhase, hm.workerExited]
  omega

theorem work_step {l : Label ns n} (h : Sound hns s.base) (hs : step s l = some s') :
    (if own l then 1 else 0) + work s' = work s + price l := by
  cases step_move hs with
  | thread hm => exact work_thread h hm
  | signalStart hpc =>
    simp only [own, price, work, hpc, SignalPc.left, if_true]
    omega
  | signalRtc hpc =>
    obtain ⟨late, hw⟩ := write_eq s .server
    simp only [own, price, work, hw, hpc, SignalPc.left, if_true]
    omega
  | quitAccept hr hpc =>
    simp only [own, price, work, hr, StopPc.left, if_true]
    omega
  | @stopSig k hpc hk =>
    obtain ⟨late, hw⟩ := write_eq s (.sig ⟨k, hk⟩)
    simp only [own, price, work, hw, hpc, StopPc.left, if_true]
    omega
  | @stopSigEnd k hpc =>
    have hend := stopSig_exited hpc hs rfl
    simp only [own, price, work, hpc, StopPc.left, if_true]
    omega
  | @joinSig k hpc =>
    obtain ⟨hk, -⟩ := stopSig_joined hpc hs
    simp only [own, price, work, hpc, StopPc.left, if_true]
    omega
  | quitServer hr hpc hq =>
    simp only [own, price, work, hr, StopPc.left, if_true]
    omega
  | @stopWorker k hpc hk =>
    obtain ⟨late, hw⟩ := write_eq s (.worker ⟨k, hk⟩)
    simp only [own, price, work, hw, hpc, StopPc.left, if_true]
    omega
  | @stopWorkersEnd k hpc =>
    have hend := stopWorkers_exited hpc hs rfl
    simp only [own, price, work, hpc, StopPc.left, if_true]
    omega
  | @joinWorker k hpc =>
    obtain ⟨hk, -⟩ := stopWorkers_joined hpc hs
    simp only [own, price, work, hpc, StopPc.left, if_true]
    omega
  | @quitSig i hr hpc hq =>
    have hsum := Pipeline.sum_work_update LoopPhase.left s.sigPhase i .breaking 2 1 (by rw [hr]; rfl) rfl
    simp only [own, price, work, if_true]
    omega
  | @leave i hr =>
    have hsum := Pipeline.sum_work_update LoopPhase.left s.sigPhase i .exited 1 0 (by rw [hr]; rfl) rfl
    simp only [own, price, work, if_true]
    omega
  | @quitWorker j hq =>
    have hrun := quitWorker_running hs
    have hsum := Pipeline.sum_work_update (fun e => e.not.toNat) s.workerExited j true 1 0 (by rw [hrun]; rfl) rfl
    simp only [own, price, work, if_true]
    omega

end Moves

/-! ## `QUIT` arrives -/

/-- `QUIT` stands in a pipe of `tokens` tokens. -/
def Behind (quit : Option Nat) (tokens : Nat) : Prop := ∃ k ≤ tokens, quit = some k

/-- A read takes a token from the pipe and from in front of `QUIT`; otherwise the pipe only grows. -/
theorem Behind.step {quit quit' : Option Nat} {tokens tokens' : Nat} (h : Behind quit tokens) {reads : Prop}
    [Decidable reads] (hq : quit' = if reads then quit.map Nat.pred else quit)
    (ht : if reads then tokens' + 1 = tokens else tokens ≤ tokens') : Behind quit' tokens' := by
  obtain ⟨k, hk, rfl⟩ := h
  by_cases hr : reads
  · rw [if_pos hr] at hq ht
    refine ⟨k.pred, ?_, hq⟩
    rw [Nat.pred_eq_sub_one]
    omega
  · rw [if_neg hr] at hq ht
    exact ⟨k, hk.trans ht, hq⟩

section Tokens
variable {b b' : Pipeline.St ns n} {l : Pipeline.Label ns n}

theorem serverPipe_step (hs : Pipeline.step b l = some b') :
    if l = .server ∧ b.server = .idle then b'.serverPipe + 1 = b.serverPipe else b.serverPipe ≤ b'.serverPipe := by
  cases Pipeline.step_move hs with
  | server hm =>
    cases hm with
    | read hpc hp =>
      rw [if_pos ⟨rfl, hpc⟩]
      exact Nat.sub_add_cancel (Nat.pos_of_ne_zero hp)
    | popNone hpc _ | pop hpc _ | noWorker hpc _ | route hpc _ | notify hpc => simp [hpc]
  | sig hm => cases hm <;> simp [Pipeline.setSig]
  | worker hm => cases hm <;> simp [Pipeline.setWorker]
  | pushRequest r _ => simp [Pipeline.pushRequest, Pipeline.setSig]
  | acceptFailed _ | accept _ => simp
  | dispatch hm => cases hm <;> simp

theorem workerPipe_step (hs : Pipeline.step b l = some b') (j : Fin n.val) :
    if l = .worker j ∧ b.worker j = .idle then b'.workerPipe j + 1 = b.workerPipe j
    else b.workerPipe j ≤ b'.workerPipe j := by
  cases Pipeline.step_move hs with
  | @worker k _ hm =>
    by_cases hk : k = j
    · subst hk
      cases hm with
      | read hpc hp =>
        rw [if_pos ⟨rfl, hpc⟩]
        simp only [Pipeline.setWorker, Function.update_self]
        exact Nat.sub_add_cancel (Nat.pos_of_ne_zero hp)
      | popNone hpc _ | pop hpc _ | process hpc _ _ | noSender hpc _ _ | unknown hpc _ | notify hpc =>
        simp [hpc, Pipeline.setWorker]
    · rw [if_neg (fun h => hk (Pipeline.Label.worker.inj h.1))]
      cases hm <;> simp [Pipeline.setWorker, Function.update_of_ne (Ne.symm hk)]
  | server hm =>
    rw [if_neg (fun h => by cases h.1)]
    cases hm with
    | @notify k hpc =>
      by_cases hk : j = k
      · subst hk
        simp
      · simp [Function.update_of_ne hk]
    | read _ _ | popNone _ _ | pop _ _ | noWorker _ _ | route _ _ => exact Nat.le_refl _
  | sig hm => cases hm <;> simp [Pipeline.setSig]
  | pushRequest r _ => simp [Pipeline.pushRequest, Pipeline.setSig]
  | acceptFailed _ | accept _ => simp
  | dispatch hm => cases hm <;> simp

/-- Writing to a signaling worker's pipe. -/
theorem length_append_update (g : Fin ns → List Note) (k i : Fin ns) (note : Note) :
    (g i).length ≤ (Function.update g k (g k ++ [note]) i).length := by
  by_cases hk : i = k
  · subst hk
    simp
  · simp [Function.update_of_ne hk]

theorem sigPipe_step (hs : Pipeline.step b l = some b') (i : Fin ns) :
    if l = .sig i ∧ b.sig i = .idle then (b'.sigPipe i).length + 1 = (b.sigPipe i).length
    else (b.sigPipe i).length ≤ (b'.sigPipe i).length := by
  cases Pipeline.step_move hs with
  | @sig k _ hm =>
    by_cases hk : k = i
    · subst hk
      cases hm with
      | readConn hpc hp | readMsg hpc hp =>
        rw [if_pos ⟨rfl, hpc⟩]
        simp [Pipeline.setSig, hp]
      | send hpc | notifyServer hpc | popNone hpc _ | pop hpc _ | answer hpc _ | unknown hpc _ | takeNone hpc _
      | take hpc _ | newConn hpc => simp [hpc, Pipeline.setSig]
    · rw [if_neg (fun h => hk (Pipeline.Label.sig.inj h.1))]
      cases hm <;> simp [Pipeline.setSig, Function.update_of_ne (Ne.symm hk)]
  | worker hm =>
    rw [if_neg (fun h => by cases h.1)]
    cases hm with
    | notify hpc => exact length_append_update _ _ _ _
    | read _ _ | popNone _ _ | pop _ _ | process _ _ _ | noSender _ _ _ | unknown _ _ => exact Nat.le_refl _
  | dispatch hm =>
    rw [if_neg (fun h => by cases h.1)]
    cases hm with
    | notify hpc => exact length_append_update _ _ _ _
    | choose _ _ | crash _ _ | produce _ => exact Nat.le_refl _
  | server hm => cases hm <;> simp
  | pushRequest r _ => simp [Pipeline.pushRequest, Pipeline.setSig]
  | acceptFailed _ | accept _ => simp

end Tokens

section Quits
variable {s s' : St ns n} {l : Pipeline.Label ns n}

theorem serverQuit_thread (hs : threadStep s l = some s') :
    s'.serverQuit = if l = .server ∧ s.base.server = .idle then s.serverQuit.map Nat.pred else s.serverQuit := by
  unfold threadStep at hs
  split at hs
  · obtain ⟨b, -, rfl⟩ := Option.map_eq_some_iff.1 hs
    obtain ⟨late, heq, -⟩ := writeTarget_eq s l
    rw [heq]
    cases l with
    | server => by_cases hpc : s.base.server = .idle <;> simp [tokenRead, hpc]
    | sig i => by_cases hpc : s.base.sig i = .idle <;> simp [tokenRead, hpc]
    | worker j => by_cases hpc : s.base.worker j = .idle <;> simp [tokenRead, hpc]
    | pushRequest i r | accept fd | dispatch => simp [tokenRead]
  · cases hs

theorem sigQuit_thread (hs : threadStep s l = some s') (i : Fin ns) :
    s'.sigQuit i = if l = .sig i ∧ s.base.sig i = .idle then (s.sigQuit i).map Nat.pred else s.sigQuit i := by
  unfold threadStep at hs
  split at hs
  · obtain ⟨b, -, rfl⟩ := Option.map_eq_some_iff.1 hs
    obtain ⟨late, heq, -⟩ := writeTarget_eq s l
    rw [heq]
    cases l with
    | sig k =>
      by_cases hk : k = i
      · subst hk
        by_cases hpc : s.base.sig k = .idle <;> simp [tokenRead, hpc]
      · rw [if_neg (fun h => hk (Pipeline.Label.sig.inj h.1))]
        by_cases hpc : s.base.sig k = .idle <;> simp [tokenRead, hpc, Function.update_of_ne (Ne.symm hk)]
    | server => by_cases hpc : s.base.server = .idle <;> simp [tokenRead, hpc]
    | worker j => by_cases hpc : s.base.worker j = .idle <;> simp [tokenRead, hpc]
    | pushRequest i r | accept fd | dispatch => simp [tokenRead]
  · cases hs

theorem workerQuit_thread (hs : threadStep s l = some s') (j : Fin n.val) :
    s'.workerQuit j =
      if l = .worker j ∧ s.base.worker j = .idle then (s.workerQuit j).map Nat.pred else s.workerQuit j := by
  unfold threadStep at hs
  split at hs
  · obtain ⟨b, -, rfl⟩ := Option.map_eq_some_iff.1 hs
    obtain ⟨late, heq, -⟩ := writeTarget_eq s l
    rw [heq]
    cases l with
    | worker k =>
      by_cases hk : k = j
      · subst hk
        by_cases hpc : s.base.worker k = .idle <;> simp [tokenRead, hpc]
      · rw [if_neg (fun h => hk (Pipeline.Label.worker.inj h.1))]
        by_cases hpc : s.base.worker k = .idle <;> simp [tokenRead, hpc, Function.update_of_ne (Ne.symm hk)]
    | server => by_cases hpc : s.base.server = .idle <;> simp [tokenRead, hpc]
    | sig i => by_cases hpc : s.base.sig i = .idle <;> simp [tokenRead, hpc]
    | pushRequest i r | accept fd | dispatch => simp [tokenRead]
  · cases hs

theorem acceptQuit_thread (hs : threadStep s l = some s') : s'.acceptQuit = s.acceptQuit := by
  unfold threadStep at hs
  split at hs
  · obtain ⟨b, -, rfl⟩ := Option.map_eq_some_iff.1 hs
    obtain ⟨late, heq, -⟩ := writeTarget_eq s l
    rw [heq]
    cases l with
    | server => by_cases hpc : s.base.server = .idle <;> simp [tokenRead, hpc]
    | sig i => by_cases hpc : s.base.sig i = .idle <;> simp [tokenRead, hpc]
    | worker j => by_cases hpc : s.base.worker j = .idle <;> simp [tokenRead, hpc]
    | pushRequest i r | accept fd | dispatch => rfl
  · cases hs

end Quits

/-- The loop of `_stop` is past this worker. -/
def StopPc.Passed : StopPc → Nat → Prop
  | .running, _ => False
  | .stop k, i => i < k
  | .join k, i => i < k
  | .exited, _ => True

/-- Whoever is waited for has been told, and whoever was waited for is gone. -/
structure Ends (s : St ns n) : Prop where
  accept : s.signal ≠ .start → s.acceptStop = .running → s.acceptQuit = true
  server : s.signal = .done → s.serverStop = .running → Behind s.serverQuit s.base.serverPipe
  joinSig : ∀ k, s.acceptStop = .join k → ∃ hk : k < ns,
    s.sigPhase ⟨k, hk⟩ = .running → Behind (s.sigQuit ⟨k, hk⟩) (s.base.sigPipe ⟨k, hk⟩).length
  joinWorker : ∀ k, s.serverStop = .join k → ∃ hk : k < n.val,
    s.workerExited ⟨k, hk⟩ = false → Behind (s.workerQuit ⟨k, hk⟩) (s.base.workerPipe ⟨k, hk⟩)
  sigGone : ∀ i : Fin ns, s.acceptStop.Passed i → s.sigPhase i = .exited
  workerGone : ∀ j : Fin n.val, s.serverStop.Passed j → s.workerExited j = true

section Arrival
variable {s s' : St ns n}

theorem ends_thread {l : Pipeline.Label ns n} (h : Ends s) (hs : threadStep s l = some s') : Ends s' := by
  have hm := threadStep_move hs
  refine ⟨fun h1 h2 => ?_, fun h1 h2 => ?_, fun k hk => ?_, fun k hk => ?_, fun i hi => ?_, fun j hj => ?_⟩
  · rw [acceptQuit_thread hs]
    exact h.accept (hm.signal ▸ h1) (hm.acceptStop ▸ h2)
  · exact (h.server (hm.signal ▸ h1) (hm.serverStop ▸ h2)).step (serverQuit_thread hs) (serverPipe_step hm.base)
  · obtain ⟨hlt, hq⟩ := h.joinSig k (hm.acceptStop ▸ hk)
    refine ⟨hlt, fun hr => ?_⟩
    exact (hq (hm.sigPhase ▸ hr)).step (sigQuit_thread hs ⟨k, hlt⟩) (sigPipe_step hm.base ⟨k, hlt⟩)
  · obtain ⟨hlt, hq⟩ := h.joinWorker k (hm.serverStop ▸ hk)
    refine ⟨hlt, fun hr => ?_⟩
    exact (hq (hm.workerExited ▸ hr)).step (workerQuit_thread hs ⟨k, hlt⟩) (workerPipe_step hm.base ⟨k, hlt⟩)
  · rw [hm.sigPhase]
    exact h.sigGone i (hm.acceptStop ▸ hi)
  · rw [hm.workerExited]
    exact h.workerGone j (hm.serverStop ▸ hj)

/-- `SignalingServer::_stop` goes on, the rest stays. -/
theorem Ends.accept_next (h : Ends s) {pc : StopPc} (hrun : pc ≠ .running) {acceptQuit : Bool}
    {sigQuit : Fin ns → Option Nat} {late : List (SendFd ns n)}
    (hjoin : ∀ k, pc = .join k → ∃ hk : k < ns,
      s.sigPhase ⟨k, hk⟩ = .running → Behind (sigQuit ⟨k, hk⟩) (s.base.sigPipe ⟨k, hk⟩).length)
    (hgone : ∀ i : Fin ns, pc.Passed i → s.acceptStop.Passed i ∨ s.sigPhase i = .exited) :
    Ends { s with closedWrites := late, acceptQuit := acceptQuit, sigQuit := sigQuit, acceptStop := pc } :=
  ⟨fun _ h2 => absurd h2 hrun, h.server, hjoin, h.joinWorker, fun i hi => (hgone i hi).elim (h.sigGone i) id,
    h.workerGone⟩

/-- `RtcServer::_stop` goes on, the rest stays. -/
theorem Ends.server_next (h : Ends s) {pc : StopPc} (hrun : pc ≠ .running) {serverQuit : Option Nat}
    {workerQuit : Fin n.val → Option Nat} {late : List (SendFd ns n)}
    (hjoin : ∀ k, pc = .join k → ∃ hk : k < n.val,
      s.workerExited ⟨k, hk⟩ = false → Behind (workerQuit ⟨k, hk⟩) (s.base.workerPipe ⟨k, hk⟩))
    (hgone : ∀ j : Fin n.val, pc.Passed j → s.serverStop.Passed j ∨ s.workerExited j = true) :
    Ends { s with closedWrites := late, serverQuit := serverQuit, workerQuit := workerQuit, serverStop := pc } :=
  ⟨h.accept, fun _ h2 => absurd h2 hrun, h.joinSig, hjoin, h.sigGone, fun j hj => (hgone j hj).elim (h.workerGone j) id⟩

/-- A signaling worker goes on to its next phase. -/
theorem Ends.phase_next (h : Ends s) {i : Fin ns} {phase : LoopPhase} (hphase : phase ≠ .running)
    (hleft : s.sigPhase i ≠ .exited) {sigQuit : Fin ns → Option Nat} (hquit : ∀ k, k ≠ i → sigQuit k = s.sigQuit k) :
    Ends { s with sigQuit := sigQuit, sigPhase := Function.update s.sigPhase i phase } := by
  refine ⟨h.accept, h.server, fun k hk => ?_, h.joinWorker, fun k hk => ?_, h.workerGone⟩
  · obtain ⟨hlt, hq⟩ := h.joinSig k hk
    refine ⟨hlt, fun hr => ?_⟩
    by_cases he : (⟨k, hlt⟩ : Fin ns) = i
    · simp only [he, Function.update_self] at hr
      exact absurd hr hphase
    · simp only [Function.update_of_ne he] at hr
      simp only [hquit _ he]
      exact hq hr
  · have hne : k ≠ i := by
      rintro rfl
      exact hleft (h.sigGone k hk)
    simp only [Function.update_of_ne hne]
    exact h.sigGone k hk

/-- **Every step keeps it.** -/
theorem ends_step {l : Label ns n} (h : Ends s) (hs : step s l = some s') : Ends s' := by
  cases step_move hs with
  | thread hm => exact ends_thread h hs
  | signalStart hpc =>
    exact ⟨fun _ _ => rfl, fun h1 _ => (nomatch h1), h.joinSig, h.joinWorker, h.sigGone, h.workerGone⟩
  | signalRtc hpc =>
    obtain ⟨late, hw⟩ := write_eq s .server
    rw [hw]
    exact ⟨fun _ h2 => h.accept (by rw [hpc]; simp) h2, fun _ _ => ⟨_, Nat.le_refl _, rfl⟩, h.joinSig, h.joinWorker,
      h.sigGone, h.workerGone⟩
  | quitAccept hr hpc =>
    exact h.accept_next (by simp) (fun k hk => nomatch hk) (fun i hi => absurd hi (Nat.not_lt_zero _))
  | @stopSig k hpc hk =>
    obtain ⟨late, hw⟩ := write_eq s (.sig ⟨k, hk⟩)
    rw [hw]
    refine h.accept_next (by simp) (fun k' hk' => ?_) (fun i hi => .inl ?_)
    · cases hk'
      refine ⟨hk, fun _ => ⟨_, Nat.le_refl _, ?_⟩⟩
      rw [Function.update_self]
    · rw [hpc]
      exact hi
  | @stopSigEnd k hpc =>
    have hend := stopSig_exited hpc hs rfl
    refine h.accept_next (by simp) (fun k' hk' => nomatch hk') (fun i _ => .inl ?_)
    rw [hpc]
    exact i.isLt.trans_le hend
  | @joinSig k hpc =>
    obtain ⟨hk, hgone⟩ := stopSig_joined hpc hs
    refine h.accept_next (by simp) (fun k' hk' => nomatch hk') (fun i hi => ?_)
    rcases Nat.lt_succ_iff_lt_or_eq.1 hi with hlt | he
    · left
      rw [hpc]
      exact hlt
    · right
      rwa [show i = ⟨k, hk⟩ from Fin.ext he]
  | quitServer hr hpc hq =>
    exact h.server_next (by simp) (fun k hk => nomatch hk) (fun j hj => absurd hj (Nat.not_lt_zero _))
  | @stopWorker k hpc hk =>
    obtain ⟨late, hw⟩ := write_eq s (.worker ⟨k, hk⟩)
    rw [hw]
    refine h.server_next (by simp) (fun k' hk' => ?_) (fun j hj => .inl ?_)
    · cases hk'
      refine ⟨hk, fun _ => ⟨_, Nat.le_refl _, ?_⟩⟩
      rw [Function.update_self]
    · rw [hpc]
      exact hj
  | @stopWorkersEnd k hpc =>
    have hend := stopWorkers_exited hpc hs rfl
    refine h.server_next (by simp) (fun k' hk' => nomatch hk') (fun j _ => .inl ?_)
    rw [hpc]
    exact j.isLt.trans_le hend
  | @joinWorker k hpc =>
    obtain ⟨hk, hgone⟩ := stopWorkers_joined hpc hs
    refine h.server_next (by simp) (fun k' hk' => nomatch hk') (fun j hj => ?_)
    rcases Nat.lt_succ_iff_lt_or_eq.1 hj with hlt | he
    · left
      rw [hpc]
      exact hlt
    · right
      rwa [show j = ⟨k, hk⟩ from Fin.ext he]
  | @quitSig i hr hpc hq =>
    exact h.phase_next (by simp) (by rw [hr]; simp) (fun k hk => Function.update_of_ne hk _ _)
  | @leave i hr => exact h.phase_next (by simp) (by rw [hr]; simp) (fun k hk => rfl)
  | @quitWorker j hq =>
    refine ⟨h.accept, h.server, h.joinSig, fun k hk => ?_, h.sigGone, fun k hk => ?_⟩
    · obtain ⟨hlt, hb⟩ := h.joinWorker k hk
      refine ⟨hlt, fun hr => ?_⟩
      by_cases he : (⟨k, hlt⟩ : Fin n.val) = j
      · simp only [he, Function.update_self] at hr
        cases hr
      · simp only [Function.update_of_ne he] at hr ⊢
        exact hb hr
    · by_cases he : k = j
      · subst he
        exact Function.update_self _ _ _
      · simp only [Function.update_of_ne he]
        exact h.workerGone k hk

theorem ends_init : Ends (init : St ns n) :=
  ⟨fun h => absurd rfl h, fun h => (nomatch h), fun _ hk => (nomatch hk), fun _ hk => (nomatch hk), fun _ hi => hi.elim,
    fun _ hj => hj.elim⟩

end Arrival

/-! ## Nothing left to do -/

/-- Everything is over: both servers have left `_stop`, their workers' loops have ended. -/
structure Stopped (s : St ns n) : Prop where
  signal : s.signal = .done
  accept : s.acceptStop = .exited
  server : s.serverStop = .exited
  sig : ∀ i, s.sigPhase i = .exited
  worker : ∀ j, s.workerExited j = true

section Rest
variable {s : St ns n}

/-- A thread that is ready and cannot move is stuck in the pipeline. -/
theorem threadStep_none {l : Pipeline.Label ns n} (hset : threadStep s l = none) (hr : Ready s l) :
    Pipeline.step s.base l = none := by
  unfold threadStep at hset
  rwa [if_pos hr, Option.map_eq_none_iff] at hset

/-- A signaling worker that cannot move has left its loop, or no `QUIT` is on its way to it. -/
theorem sig_settled (hset : Lts.Settled step own s) {i : Fin ns}
    (hq : s.sigPhase i = .running → Behind (s.sigQuit i) (s.base.sigPipe i).length) : s.sigPhase i = .exited := by
  have hthread : Ready s (.sig i) → s.base.sig i = .idle ∧ s.base.sigPipe i = [] := fun hr =>
    Pipeline.sigStep_none (threadStep_none (hset (.thread (.sig i)) rfl) hr)
  by_contra hne
  -- outside its loop it would move
  have hidle : s.base.sig i = .idle := by
    by_contra hbusy
    exact hbusy (hthread ⟨hne, fun hi => absurd hi hbusy⟩).1
  cases hphase : s.sigPhase i with
  | exited => exact hne hphase
  | breaking =>
    have hleave := hset (.leave i) rfl
    simp [step, hphase, hidle] at hleave
  | running =>
    obtain ⟨k, hk, hquit⟩ := hq hphase
    by_cases hzero : k = 0
    · have hread := hset (.quitSig i) rfl
      simp [step, hphase, hidle, hquit, hzero] at hread
    · have hready : Ready s (.sig i) := ⟨hne, fun _ => ⟨hphase, by simpa [hquit] using hzero⟩⟩
      rw [(hthread hready).2] at hk
      exact hzero (Nat.le_zero.1 hk)

theorem worker_settled (hset : Lts.Settled step own s) {j : Fin n.val}
    (hq : s.workerExited j = false → Behind (s.workerQuit j) (s.base.workerPipe j)) : s.workerExited j = true := by
  have hthread : Ready s (.worker j) → s.base.worker j = .idle ∧ s.base.workerPipe j = 0 := fun hr =>
    Pipeline.workerStep_none (threadStep_none (hset (.thread (.worker j)) rfl) hr)
  by_contra hne
  have hrun : s.workerExited j = false := Bool.eq_false_iff.2 hne
  have hidle : s.base.worker j = .idle := by
    by_contra hbusy
    exact hbusy (hthread ⟨hrun, fun hi => absurd hi hbusy⟩).1
  obtain ⟨k, hk, hquit⟩ := hq hrun
  by_cases hzero : k = 0
  · have hread := hset (.quitWorker j) rfl
    simp [step, hrun, hidle, hquit, hzero] at hread
  · have hready : Ready s (.worker j) := ⟨hrun, fun _ => by simpa [hquit] using hzero⟩
    rw [(hthread hready).2] at hk
    exact hzero (Nat.le_zero.1 hk)

theorem signal_settled (hset : Lts.Settled step own s) : s.signal = .done := by
  have hnone := hset .signal rfl
  cases hpc : s.signal <;> simp [step, processSignal, hpc] at hnone ⊢

theorem accept_settled {hns : 0 < ns} (hset : Lts.Settled step own s) (h : Ends s) (hsound : Sound hns s.base) :
    s.acceptStop = .exited := by
  have hnone := hset .stopSig rfl
  cases hpc : s.acceptStop with
  | exited => rfl
  | stop k => by_cases hk : k < ns <;> simp [step, stopSig, hpc, hk] at hnone
  | join k =>
    -- the worker waited for is gone
    obtain ⟨hk, hq⟩ := h.joinSig k hpc
    have hgone := sig_settled hset hq
    simp [step, stopSig, hpc, hk, hgone] at hnone
  | running =>
    have hquit := h.accept (by rw [signal_settled hset]; simp) hpc
    have hidle : s.base.accept = .idle :=
      (Pipeline.dispatchStep_none (threadStep_none (hset (.thread .dispatch) rfl) hpc)).resolve_right hsound.not_crashed
    have hread := hset .quitAccept rfl
    simp [step, hpc, hidle, hquit] at hread

theorem server_settled (hset : Lts.Settled step own s) (h : Ends s) : s.serverStop = .exited := by
  have hnone := hset .stopWorkers rfl
  cases hpc : s.serverStop with
  | exited => rfl
  | stop k => by_cases hk : k < n.val <;> simp [step, stopWorkers, hpc, hk] at hnone
  | join k =>
    obtain ⟨hk, hq⟩ := h.joinWorker k hpc
    have hgone := worker_settled hset hq
    simp [step, stopWorkers, hpc, hk, hgone] at hnone
  | running =>
    have hthread : Ready s .server → s.base.server = .idle ∧ s.base.serverPipe = 0 := fun hr =>
      Pipeline.serverStep_none (threadStep_none (hset (.thread .server) rfl) hr)
    have hidle : s.base.server = .idle := by
      by_contra hbusy
      exact hbusy (hthread ⟨hpc, fun hi => absurd hi hbusy⟩).1
    obtain ⟨k, hk, hquit⟩ := h.server (signal_settled hset) hpc
    by_cases hzero : k = 0
    · have hread := hset .quitServer rfl
      simp [step, hpc, hidle, hquit, hzero] at hread
    · have hready : Ready s .server := ⟨hpc, fun _ => by simpa [hquit] using hzero⟩
      rw [(hthread hready).2] at hk
      exact absurd (Nat.le_zero.1 hk) hzero

/-- **No deadlock**: where nothing can move, everything is over. -/
theorem stopped_of_settled {hns : 0 < ns} (hset : Lts.Settled step own s) (h : Ends s) (hsound : Sound hns s.base) :
    Stopped s := by
  have haccept := accept_settled hset h hsound
  have hserver := server_settled hset h
  refine ⟨signal_settled hset, haccept, hserver, fun i => h.sigGone i ?_, fun j => h.workerGone j ?_⟩
  · rw [haccept]
    trivial
  · rw [hserver]
    trivial

theorem settled_of_stopped (h : Stopped s) : Lts.Settled step own s := by
  intro l hl
  cases l with
  | thread l =>
    have hready : ¬ Ready s l := by
      cases l with
      | sig i => exact fun hr => hr.1 (h.sig i)
      | server => exact fun hr => by simp [Ready, h.server] at hr
      | worker j => exact fun hr => by simp [Ready, h.worker j] at hr
      | dispatch => exact fun hr => by simp [Ready, h.accept] at hr
      | pushRequest i r | accept fd => cases hl
    exact if_neg hready
  | signal => simp [step, processSignal, h.signal]
  | quitAccept => simp [step, h.accept]
  | stopSig => simp [step, stopSig, h.accept]
  | quitServer => simp [step, h.server]
  | stopWorkers => simp [step, stopWorkers, h.server]
  | quitSig i => simp [step, h.sig i]
  | leave i => simp [step, h.sig i]
  | quitWorker j => simp [step, h.worker j]

end Rest

/-! ## The whole shutdown -/

structure Known (hns : 0 < ns) (s : St ns n) : Prop where
  sound : Sound hns s.base
  ends : Ends s

/-- **The shutdown keeps books**, the pipeline's and its own. -/
theorem ledger (hns : 0 < ns) : Lts.Ledger (step : St ns n → Label ns n → Option (St ns n)) (Known hns) own price work where
  keeps s l s' h hs := by
    refine ⟨?_, ends_step h.ends hs⟩
    have hb := Pipeline.ledger (n := n) hns
    cases step_move hs with
    | thread hm => exact hb.keeps _ _ _ h.sound hm.base
    | signalRtc hpc =>
      obtain ⟨late, hw⟩ := write_eq s .server
      rw [hw]
      exact h.sound
    | @stopSig k hpc hk =>
      obtain ⟨late, hw⟩ := write_eq s (.sig ⟨k, hk⟩)
      rw [hw]
      exact h.sound
    | @stopWorker k hpc hk =>
      obtain ⟨late, hw⟩ := write_eq s (.worker ⟨k, hk⟩)
      rw [hw]
      exact h.sound
    | signalStart _ | quitAccept _ _ | stopSigEnd _ | joinSig _ | quitServer _ _ _ | stopWorkersEnd _ | joinWorker _
    | quitSig _ _ _ | leave _ | quitWorker _ => exact h.sound
  pays _ _ _ h hs := work_step h.sound hs
  free l hl := by
    cases l with
    | thread l => exact (Pipeline.ledger (n := n) hns).free l hl
    | _ => rfl

theorem work_init : work (init : St ns n) = 4 * ns + 3 * n.val + 6 := by
  have hbase : Pipeline.work (Pipeline.init : Pipeline.St ns n) = 0 := Pipeline.work_init
  simp only [work, init, hbase, SignalPc.left, StopPc.left, LoopPhase.left, Bool.not_false, Bool.toNat_true]
  simp
  omega

theorem price_step {s s' : St ns n} {l : Label ns n} (hs : step s l = some s') :
    13 * s'.base.sent.length + 6 * s'.base.accepted.length =
      13 * s.base.sent.length + 6 * s.base.accepted.length + price l := by
  cases step_move hs with
  | thread hm => exact Pipeline.price_step hm.base
  | signalRtc hpc =>
    obtain ⟨late, hw⟩ := write_eq s .server
    rw [hw]
    rfl
  | @stopSig k hpc hk =>
    obtain ⟨late, hw⟩ := write_eq s (.sig ⟨k, hk⟩)
    rw [hw]
    rfl
  | @stopWorker k hpc hk =>
    obtain ⟨late, hw⟩ := write_eq s (.worker ⟨k, hk⟩)
    rw [hw]
    rfl
  | signalStart _ | quitAccept _ _ | stopSigEnd _ | joinSig _ | quitServer _ _ _ | stopWorkersEnd _ | joinWorker _
  | quitSig _ _ _ | leave _ | quitWorker _ => rfl

theorem price_run : ∀ (ls : List (Label ns n)) (s : St ns n), Lts.run step init ls = some s →
    (ls.map price).sum = 13 * s.base.sent.length + 6 * s.base.accepted.length := by
  apply Lts.run_invariant
  · rfl
  · intro ls s l s' hi hs
    rw [List.map_append, List.sum_append, hi, price_step hs, List.map_singleton, List.sum_singleton]

end Shutdown
end Xrtc
