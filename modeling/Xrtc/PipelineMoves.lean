import Xrtc.Pipeline
/-!
# PipelineMoves — what a step of each thread can be

One constructor for each way through `sigStep`, `serverStep`, `workerStep` and `dispatchStep`, with what was tested on
that way and the state it leads to.  `step_move` is the one case analysis of the step functions; the laws of messages,
tokens and descriptors are proved over moves.
-/
namespace Xrtc
namespace Pipeline

variable {ns : Nat} {n : WorkerNum}

inductive SigMove (s : St ns n) (i : Fin ns) : St ns n → Prop
  | readConn {notes : List Note} (hpc : s.sig i = .idle) (hp : s.sigPipe i = .newConn :: notes) :
      SigMove s i (setSig { s with sigPipe := Function.update s.sigPipe i notes } i .takeConn)
  | readMsg {notes : List Note} (hpc : s.sig i = .idle) (hp : s.sigPipe i = .rtcMsg :: notes) :
      SigMove s i (setSig { s with sigPipe := Function.update s.sigPipe i notes } i .popMsg)
  | send {m : Nat} (hpc : s.sig i = .send m) :
      SigMove s i (setSig { s with serverQueue := s.serverQueue ++ [m], pushed := s.pushed ++ [m] } i .notifyServer)
  | notifyServer (hpc : s.sig i = .notifyServer) :
      SigMove s i (setSig { s with serverPipe := s.serverPipe + 1 } i .idle)
  | popNone (hpc : s.sig i = .popMsg) (hq : s.sigQueue i = []) : SigMove s i (setSig s i .idle)
  | pop {m : Nat} {rest : List Nat} (hpc : s.sig i = .popMsg) (hq : s.sigQueue i = m :: rest) :
      SigMove s i (setSig { s with
        sigQueue := Function.update s.sigQueue i rest
        popped := Function.update s.popped i (s.popped i ++ [m]) } i (.answer m))
  | answer {m : Nat} (hpc : s.sig i = .answer m) (hcmd : (s.msgs m).cmdno = cmdnoPush) :
      SigMove s i (setSig { s with answered := Function.update s.answered i (s.answered i ++ [m]) } i .idle)
  | unknown {m : Nat} (hpc : s.sig i = .answer m) (hcmd : (s.msgs m).cmdno ≠ cmdnoPush) :
      SigMove s i (setSig s i .idle)
  | takeNone (hpc : s.sig i = .takeConn) (hq : s.connQueue i = []) : SigMove s i (setSig s i .idle)
  | take {d : Accepted} {rest : List Accepted} (hpc : s.sig i = .takeConn) (hq : s.connQueue i = d :: rest) :
      SigMove s i (setSig { s with connQueue := Function.update s.connQueue i rest } i (.newConn d))
  | newConn {d : Accepted} (hpc : s.sig i = .newConn d) :
      SigMove s i (setSig { s with newConns := Function.update s.newConns i (s.newConns i ++ [d]) } i .idle)

inductive ServerMove (s : St ns n) : St ns n → Prop
  | read (hpc : s.server = .idle) (hp : s.serverPipe ≠ 0) :
      ServerMove s { s with serverPipe := s.serverPipe - 1, server := .popMsg }
  | popNone (hpc : s.server = .popMsg) (hq : s.serverQueue = []) : ServerMove s { s with server := .idle }
  | pop {m : Nat} {rest : List Nat} (hpc : s.server = .popMsg) (hq : s.serverQueue = m :: rest) :
      ServerMove s { s with serverQueue := rest, server := .route m }
  | noWorker {m : Nat} (hpc : s.server = .route m) (hr : route n (s.msgs m).streamName = none) :
      ServerMove s { s with server := .idle }
  | route {m : Nat} {j : Fin n.val} (hpc : s.server = .route m) (hr : route n (s.msgs m).streamName = some j) :
      ServerMove s { s with
        workerQueue := Function.update s.workerQueue j (s.workerQueue j ++ [m]), server := .notify j }
  | notify {j : Fin n.val} (hpc : s.server = .notify j) :
      ServerMove s { s with workerPipe := Function.update s.workerPipe j (s.workerPipe j + 1), server := .idle }

inductive WorkerMove (s : St ns n) (j : Fin n.val) : St ns n → Prop
  | read (hpc : s.worker j = .idle) (hp : s.workerPipe j ≠ 0) :
      WorkerMove s j (setWorker { s with workerPipe := Function.update s.workerPipe j (s.workerPipe j - 1) } j .popMsg)
  | popNone (hpc : s.worker j = .popMsg) (hq : s.workerQueue j = []) : WorkerMove s j (setWorker s j .idle)
  | pop {m : Nat} {rest : List Nat} (hpc : s.worker j = .popMsg) (hq : s.workerQueue j = m :: rest) :
      WorkerMove s j (setWorker { s with
        workerQueue := Function.update s.workerQueue j rest
        processed := Function.update s.processed j (s.processed j ++ [m]) } j (.process m))
  | process {m : Nat} {i : Fin ns} (hpc : s.worker j = .process m) (hcmd : (s.msgs m).cmdno = cmdnoPush)
      (hi : (s.msgs m).worker = some i) :
      WorkerMove s j (setWorker { s with
        msgs := Function.update s.msgs m (fillOffer (s.msgs m))
        sigQueue := Function.update s.sigQueue i (s.sigQueue i ++ [m]) } j (.notify i))
  | noSender {m : Nat} (hpc : s.worker j = .process m) (hcmd : (s.msgs m).cmdno = cmdnoPush)
      (hi : (s.msgs m).worker = none) :
      WorkerMove s j (setWorker { s with msgs := Function.update s.msgs m (fillOffer (s.msgs m)) } j .idle)
  | unknown {m : Nat} (hpc : s.worker j = .process m) (hcmd : (s.msgs m).cmdno ≠ cmdnoPush) :
      WorkerMove s j (setWorker s j .idle)
  | notify {i : Fin ns} (hpc : s.worker j = .notify i) :
      WorkerMove s j (setWorker { s with sigPipe := Function.update s.sigPipe i (s.sigPipe i ++ [.rtcMsg]) } j .idle)

inductive DispatchMove (s : St ns n) : St ns n → Prop
  | choose {d : Accepted} (hpc : s.accept = .dispatch d) (h : s.nextWorker < ns) :
      DispatchMove s { s with
        nextWorker := if ns ≤ s.nextWorker + 1 then 0 else s.nextWorker + 1, accept := .produce ⟨s.nextWorker, h⟩ d }
  | crash {d : Accepted} (hpc : s.accept = .dispatch d) (h : ¬ s.nextWorker < ns) :
      DispatchMove s { s with
        nextWorker := if ns ≤ s.nextWorker + 1 then 0 else s.nextWorker + 1, accept := .crashed }
  | produce {i : Fin ns} {d : Accepted} (hpc : s.accept = .produce i d) :
      DispatchMove s { s with
        connQueue := Function.update s.connQueue i (s.connQueue i ++ [d]), accept := .notify i }
  | notify {i : Fin ns} (hpc : s.accept = .notify i) :
      DispatchMove s { s with
        sigPipe := Function.update s.sigPipe i (s.sigPipe i ++ [.newConn]), accept := .idle }

inductive Move (s : St ns n) : Label ns n → St ns n → Prop
  | pushRequest {i : Fin ns} (r : PushReq) (hi : s.sig i = .idle) : Move s (.pushRequest i r) (pushRequest s i r)
  | sig {i : Fin ns} {s' : St ns n} (hm : SigMove s i s') : Move s (.sig i) s'
  | server {s' : St ns n} (hm : ServerMove s s') : Move s .server s'
  | worker {j : Fin n.val} {s' : St ns n} (hm : WorkerMove s j s') : Move s (.worker j) s'
  | acceptFailed (hi : s.accept = .idle) : Move s (.accept none) s
  | accept {fd : Int} (hi : s.accept = .idle) : Move s (.accept (some fd)) { s with
      accept := .dispatch ⟨s.accepted.length, fd⟩, accepted := s.accepted ++ [⟨s.accepted.length, fd⟩] }
  | dispatch {s' : St ns n} (hm : DispatchMove s s') : Move s .dispatch s'

/-! ## Every step is a move -/

section Inversion
variable {s s' : St ns n}

theorem sigStep_move {i : Fin ns} (hs : sigStep s i = some s') : SigMove s i s' := by
  unfold sigStep at hs
  cases hpc : s.sig i with
  | idle =>
    simp only [hpc] at hs
    split at hs
    · cases hs
    · rename_i notes hp
      cases hs
      exact .readConn hpc hp
    · rename_i notes hp
      cases hs
      exact .readMsg hpc hp
  | send m =>
    simp only [hpc] at hs
    cases hs
    exact .send hpc
  | notifyServer =>
    simp only [hpc] at hs
    cases hs
    exact .notifyServer hpc
  | popMsg =>
    simp only [hpc] at hs
    split at hs
    · rename_i hq
      cases hs
      exact .popNone hpc hq
    · rename_i m rest hq
      cases hs
      exact .pop hpc hq
  | answer m =>
    simp only [hpc] at hs
    by_cases hcmd : (s.msgs m).cmdno = cmdnoPush
    · rw [if_pos hcmd] at hs
      cases hs
      exact .answer hpc hcmd
    · rw [if_neg hcmd] at hs
      cases hs
      exact .unknown hpc hcmd
  | takeConn =>
    simp only [hpc] at hs
    split at hs
    · rename_i hq
      cases hs
      exact .takeNone hpc hq
    · rename_i d rest hq
      cases hs
      exact .take hpc hq
  | newConn d =>
    simp only [hpc] at hs
    cases hs
    exact .newConn hpc

theorem serverStep_move (hs : serverStep s = some s') : ServerMove s s' := by
  unfold serverStep at hs
  cases hpc : s.server with
  | idle =>
    simp only [hpc] at hs
    by_cases hp : s.serverPipe = 0
    · rw [if_pos hp] at hs
      cases hs
    · rw [if_neg hp] at hs
      cases hs
      exact .read hpc hp
  | popMsg =>
    simp only [hpc] at hs
    split at hs
    · rename_i hq
      cases hs
      exact .popNone hpc hq
    · rename_i m rest hq
      cases hs
      exact .pop hpc hq
  | route m =>
    simp only [hpc] at hs
    split at hs
    · rename_i hr
      cases hs
      exact .noWorker hpc hr
    · rename_i j hr
      cases hs
      exact .route hpc hr
  | notify j =>
    simp only [hpc] at hs
    cases hs
    exact .notify hpc

theorem workerStep_move {j : Fin n.val} (hs : workerStep s j = some s') : WorkerMove s j s' := by
  unfold workerStep at hs
  cases hpc : s.worker j with
  | idle =>
    simp only [hpc] at hs
    by_cases hp : s.workerPipe j = 0
    · rw [if_pos hp] at hs
      cases hs
    · rw [if_neg hp] at hs
      cases hs
      exact .read hpc hp
  | popMsg =>
    simp only [hpc] at hs
    split at hs
    · rename_i hq
      cases hs
      exact .popNone hpc hq
    · rename_i m rest hq
      cases hs
      exact .pop hpc hq
  | process m =>
    simp only [hpc] at hs
    by_cases hcmd : (s.msgs m).cmdno = cmdnoPush
    · simp only [if_pos hcmd, Function.update_self] at hs
      split at hs
      · rename_i hi
        cases hs
        exact .noSender hpc hcmd hi
      · rename_i i hi
        cases hs
        exact .process hpc hcmd hi
    · rw [if_neg hcmd] at hs
      cases hs
      exact .unknown hpc hcmd
  | notify i =>
    simp only [hpc] at hs
    cases hs
    exact .notify hpc

theorem dispatchStep_move (hs : dispatchStep s = some s') : DispatchMove s s' := by
  unfold dispatchStep at hs
  cases hpc : s.accept with
  | idle =>
    rw [hpc] at hs
    cases hs
  | dispatch d =>
    simp only [hpc] at hs
    by_cases h : s.nextWorker < ns
    · rw [dif_pos h] at hs
      cases hs
      exact .choose hpc h
    · rw [dif_neg h] at hs
      cases hs
      exact .crash hpc h
  | produce i d =>
    simp only [hpc] at hs
    cases hs
    exact .produce hpc
  | notify i =>
    simp only [hpc] at hs
    cases hs
    exact .notify hpc
  | crashed =>
    rw [hpc] at hs
    cases hs

/-- **Every step is a move.** -/
theorem step_move {l : Label ns n} (hs : step s l = some s') : Move s l s' := by
  cases l with
  | pushRequest i r =>
    simp only [step] at hs
    split at hs
    · rename_i hi
      cases hs
      exact .pushRequest r hi
    · cases hs
  | sig i => exact .sig (sigStep_move hs)
  | server => exact .server (serverStep_move hs)
  | worker j => exact .worker (workerStep_move hs)
  | accept fd =>
    cases fd with
    | none =>
      simp only [step] at hs
      split at hs
      · rename_i hi
        cases hs
        exact .acceptFailed hi
      · cases hs
    | some fd =>
      simp only [step] at hs
      split at hs
      · rename_i hi
        cases hs
        exact .accept hi
      · cases hs
  | dispatch => exact .dispatch (dispatchStep_move hs)

end Inversion

end Pipeline
end Xrtc
