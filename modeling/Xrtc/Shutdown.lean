import Xrtc.PipelineFlow
/-!
# Shutdown — `QUIT` on its way through the threads

`process_signal` (`main.cpp`) writes `QUIT` to the signaling server, then to the RTC server.  Each server's `_stop`
closes its own pipe, then stops and joins its workers one after the other; a worker's `_stop` closes the worker's pipe.
Everything else goes on meanwhile: the threads of the pipeline take their steps until they handle their `QUIT`.

The pipes of the pipeline hold no `QUIT`; here a pipe has one behind so many unread tokens.  A signaling worker that has
handled `QUIT` runs the other callbacks of the same loop turn (`breaking`), push requests among them, and leaves its
loop afterwards; nothing else is pending on the other threads.  The two `close` calls of a `_stop` are one step, and
`process_signal` runs once.  A write on a descriptor that its owner has closed is recorded in `closedWrites`; what
becomes of its token says nothing, since the pipe has no reader any more.
-/
namespace Xrtc
namespace Shutdown

/-- `process_signal`: before it, between its two calls of `stop`, after it. -/
inductive SignalPc where
  | start
  | stopRtc
  | done
  deriving DecidableEq

/-- A server: in its event loop, or in `_stop` at `stop()` or `join()` of its `k`-th worker, or done. -/
inductive StopPc where
  | running
  | stop (k : Nat)
  | join (k : Nat)
  | exited
  deriving DecidableEq

inductive LoopPhase where
  | running
  | breaking
  | exited
  deriving DecidableEq

/-- Whose `notify_send_fd`. -/
inductive SendFd (ns : Nat) (n : WorkerNum) where
  | server
  | worker (j : Fin n.val)
  | sig (i : Fin ns)
  deriving DecidableEq

/-- `some k` in a `Quit` field: `QUIT` stands in that pipe behind `k` unread tokens. -/
structure St (ns : Nat) (n : WorkerNum) where
  base : Pipeline.St ns n
  signal : SignalPc
  acceptQuit : Bool
  acceptStop : StopPc
  serverQuit : Option Nat
  serverStop : StopPc
  sigQuit : Fin ns → Option Nat
  sigPhase : Fin ns → LoopPhase
  workerQuit : Fin n.val → Option Nat
  workerExited : Fin n.val → Bool
  closedWrites : List (SendFd ns n)

/-- `thread` is a step of the pipeline, `quit…` a thread's `process_notify(QUIT)` with its `_stop` up to the loop over
the workers, `stopSig` and `stopWorkers` are the next statement of the servers' loops, `leave` is the return of
`event_loop_->start()`. -/
inductive Label (ns : Nat) (n : WorkerNum) where
  | thread (l : Pipeline.Label ns n)
  | signal
  | quitAccept
  | stopSig
  | quitServer
  | stopWorkers
  | quitSig (i : Fin ns)
  | leave (i : Fin ns)
  | quitWorker (j : Fin n.val)
  deriving DecidableEq

variable {ns : Nat} {n : WorkerNum}

def init : St ns n :=
  { base := Pipeline.init, signal := .start, acceptQuit := false, acceptStop := .running, serverQuit := none
    serverStop := .running, sigQuit := fun _ => none, sigPhase := fun _ => .running, workerQuit := fun _ => none
    workerExited := fun _ => false, closedWrites := [] }

def Closed (s : St ns n) : SendFd ns n → Prop
  | .server => s.serverStop ≠ .running
  | .worker j => s.workerExited j = true
  | .sig i => s.sigPhase i ≠ .running

instance (s : St ns n) : ∀ o, Decidable (Closed s o)
  | .server => inferInstanceAs (Decidable (s.serverStop ≠ .running))
  | .worker j => inferInstanceAs (Decidable (s.workerExited j = true))
  | .sig i => inferInstanceAs (Decidable (s.sigPhase i ≠ .running))

/-- The `write` of a `notify`. -/
def write (s : St ns n) (o : SendFd ns n) : St ns n :=
  if Closed s o then { s with closedWrites := s.closedWrites ++ [o] } else s

/-- The descriptor a thread's next statement writes to. -/
def target (b : Pipeline.St ns n) : Pipeline.Label ns n → Option (SendFd ns n)
  | .sig i => match b.sig i with
    | .notifyServer => some .server
    | _ => none
  | .server => match b.server with
    | .notify j => some (.worker j)
    | _ => none
  | .worker j => match b.worker j with
    | .notify i => some (.sig i)
    | _ => none
  | .dispatch => match b.accept with
    | .notify i => some (.sig i)
    | _ => none
  | _ => none

/-- The thread is still there, and if it is about to read its pipe, the next token is not `QUIT`.  A signaling worker
that is `breaking` has no watcher on its pipe. -/
def Ready (s : St ns n) : Pipeline.Label ns n → Prop
  | .pushRequest i _ => s.sigPhase i ≠ .exited
  | .sig i => s.sigPhase i ≠ .exited ∧ (s.base.sig i = .idle → s.sigPhase i = .running ∧ s.sigQuit i ≠ some 0)
  | .server => s.serverStop = .running ∧ (s.base.server = .idle → s.serverQuit ≠ some 0)
  | .worker j => s.workerExited j = false ∧ (s.base.worker j = .idle → s.workerQuit j ≠ some 0)
  | .accept _ => s.acceptStop = .running
  | .dispatch => s.acceptStop = .running

instance (s : St ns n) : ∀ l, Decidable (Ready s l)
  | .pushRequest i _ => inferInstanceAs (Decidable (s.sigPhase i ≠ .exited))
  | .sig _ => inferInstanceAs (Decidable (_ ∧ (_ → _ ∧ _)))
  | .server => inferInstanceAs (Decidable (_ ∧ (_ → _)))
  | .worker _ => inferInstanceAs (Decidable (_ ∧ (_ → _)))
  | .accept _ => inferInstanceAs (Decidable (s.acceptStop = .running))
  | .dispatch => inferInstanceAs (Decidable (s.acceptStop = .running))

/-- A token read is one token less in front of `QUIT`. -/
def tokenRead (s : St ns n) : Pipeline.Label ns n → St ns n
  | .sig i => if s.base.sig i = .idle then
      { s with sigQuit := Function.update s.sigQuit i ((s.sigQuit i).map Nat.pred) } else s
  | .server => if s.base.server = .idle then { s with serverQuit := s.serverQuit.map Nat.pred } else s
  | .worker j => if s.base.worker j = .idle then
      { s with workerQuit := Function.update s.workerQuit j ((s.workerQuit j).map Nat.pred) } else s
  | _ => s

def writeTarget (s : St ns n) (l : Pipeline.Label ns n) : St ns n :=
  match target s.base l with
  | some o => write s o
  | none => s

def threadStep (s : St ns n) (l : Pipeline.Label ns n) : Option (St ns n) :=
  if Ready s l then (Pipeline.step s.base l).map (fun b => { tokenRead (writeTarget s l) l with base := b }) else none

def processSignal (s : St ns n) : Option (St ns n) :=
  match s.signal with
  | .start => some { s with signal := .stopRtc, acceptQuit := true }
  | .stopRtc => some { write s .server with signal := .done, serverQuit := some s.base.serverPipe }
  | .done => none

/-- The loop of `SignalingServer::_stop`. -/
def stopSig (s : St ns n) : Option (St ns n) :=
  match s.acceptStop with
  | .stop k =>
    if h : k < ns then some { write s (.sig ⟨k, h⟩) with
      sigQuit := Function.update s.sigQuit ⟨k, h⟩ (some (s.base.sigPipe ⟨k, h⟩).length), acceptStop := .join k }
    else some { s with acceptStop := .exited }
  | .join k =>
    if h : k < ns then if s.sigPhase ⟨k, h⟩ = .exited then some { s with acceptStop := .stop (k + 1) } else none
    else none
  | _ => none

/-- The loop of `RtcServer::_stop`. -/
def stopWorkers (s : St ns n) : Option (St ns n) :=
  match s.serverStop with
  | .stop k =>
    if h : k < n.val then some { write s (.worker ⟨k, h⟩) with
      workerQuit := Function.update s.workerQuit ⟨k, h⟩ (some (s.base.workerPipe ⟨k, h⟩)), serverStop := .join k }
    else some { s with serverStop := .exited }
  | .join k =>
    if h : k < n.val then if s.workerExited ⟨k, h⟩ = true then some { s with serverStop := .stop (k + 1) } else none
    else none
  | _ => none

def step (s : St ns n) : Label ns n → Option (St ns n)
  | .thread l => threadStep s l
  | .signal => processSignal s
  | .quitAccept =>
    if s.acceptStop = .running ∧ s.base.accept = .idle ∧ s.acceptQuit = true then
      some { s with acceptQuit := false, acceptStop := .stop 0 }
    else none
  | .stopSig => stopSig s
  | .quitServer =>
    if s.serverStop = .running ∧ s.base.server = .idle ∧ s.serverQuit = some 0 then
      some { s with serverQuit := none, serverStop := .stop 0 }
    else none
  | .stopWorkers => stopWorkers s
  | .quitSig i =>
    if s.sigPhase i = .running ∧ s.base.sig i = .idle ∧ s.sigQuit i = some 0 then
      some { s with
        sigQuit := Function.update s.sigQuit i none, sigPhase := Function.update s.sigPhase i .breaking }
    else none
  | .leave i =>
    if s.sigPhase i = .breaking ∧ s.base.sig i = .idle then
      some { s with sigPhase := Function.update s.sigPhase i .exited }
    else none
  | .quitWorker j =>
    if s.workerExited j = false ∧ s.base.worker j = .idle ∧ s.workerQuit j = some 0 then
      some { s with
        workerQuit := Function.update s.workerQuit j none, workerExited := Function.update s.workerExited j true }
    else none

end Shutdown
end Xrtc
