import Xrtc.Lts
import Xrtc.Route
/-!
# Pipeline — the server's threads and the queues between them

The accept thread (`server/signaling_server.cpp`), `ns` signaling workers (`signaling_worker.cpp`), the RTC server
(`rtc_server.cpp`) and `n` RTC workers (`rtc_worker.cpp`).  Each hop pairs a queue with a notification pipe: a sender
pushes, then writes one token; a receiver reads one token, then pops once.  Pushes, writes, reads and pops are steps of
their own, a thread's program counter says which one is next.  A token read with nothing behind it, an unknown command
number, a message without a worker and a stream without a worker take the source's branches: the thread goes back to
its event loop.  Pipe writes succeed and nobody sends `QUIT`.

Messages are objects on the heap (`msgs`), the queues hold their numbers; `LockFreeQueue` and `std::queue` are lists
here.  The last seven fields of the state are its history.
-/
namespace Xrtc
namespace Pipeline

/-- What `process_push_` reads from the request and its connection. -/
structure PushReq where
  uid : UInt64
  streamName : List UInt8
  audio : Int
  video : Int
  logId : UInt32
  conn : Addr
  fd : Int
  deriving DecidableEq

/-- The `RtcMsg` that `process_push_` fills on signaling worker `i`. -/
def processPush {ns : Nat} (i : Fin ns) (r : PushReq) : RtcMsg (Fin ns) :=
  { cmdno := cmdnoPush, uid := r.uid, streamName := r.streamName, audio := r.audio, video := r.video
    logId := r.logId, worker := some i, conn := some r.conn, fd := r.fd }

def offer : List UInt8 := [111, 102, 102, 101, 114]

def fillOffer {W : Type} (msg : RtcMsg W) : RtcMsg W := { msg with sdp := offer }

/-- An accepted descriptor, with its place in the order of acceptance. -/
structure Accepted where
  seq : Nat
  fd : Int
  deriving DecidableEq

/-- The notifications on a signaling worker's pipe. -/
inductive Note where
  | newConn
  | rtcMsg
  deriving DecidableEq

inductive AcceptPc (ns : Nat) where
  | idle
  | dispatch (d : Accepted)
  | produce (i : Fin ns) (d : Accepted)
  | notify (i : Fin ns)
  | crashed
  deriving DecidableEq

inductive SigPc where
  | idle
  | send (m : Nat)
  | notifyServer
  | popMsg
  | answer (m : Nat)
  | takeConn
  | newConn (d : Accepted)
  deriving DecidableEq

inductive ServerPc (n : WorkerNum) where
  | idle
  | popMsg
  | route (m : Nat)
  | notify (j : Fin n.val)
  deriving DecidableEq

inductive WorkerPc (ns : Nat) where
  | idle
  | popMsg
  | process (m : Nat)
  | notify (i : Fin ns)
  deriving DecidableEq

structure St (ns : Nat) (n : WorkerNum) where
  msgs : Nat → RtcMsg (Fin ns)
  serverQueue : List Nat
  serverPipe : Nat
  server : ServerPc n
  workerQueue : Fin n.val → List Nat
  workerPipe : Fin n.val → Nat
  worker : Fin n.val → WorkerPc ns
  sigQueue : Fin ns → List Nat
  connQueue : Fin ns → List Accepted
  sigPipe : Fin ns → List Note
  sig : Fin ns → SigPc
  nextWorker : Nat
  accept : AcceptPc ns
  accepted : List Accepted
  newConns : Fin ns → List Accepted
  sent : List Nat
  pushed : List Nat
  processed : Fin n.val → List Nat
  popped : Fin ns → List Nat
  answered : Fin ns → List Nat

/-- `pushRequest` is `process_push_` up to its call of `send_rtc_msg`, `accept` is `accept_new_conn` up to its call of
`dispatch_conn` (`none` when `accept` failed); the others are the threads' next statements. -/
inductive Label (ns : Nat) (n : WorkerNum) where
  | pushRequest (i : Fin ns) (r : PushReq)
  | sig (i : Fin ns)
  | server
  | worker (j : Fin n.val)
  | accept (fd : Option Int)
  | dispatch
  deriving DecidableEq

variable {ns : Nat} {n : WorkerNum}

def init : St ns n :=
  { msgs := fun _ => {}, serverQueue := [], serverPipe := 0, server := .idle, workerQueue := fun _ => []
    workerPipe := fun _ => 0, worker := fun _ => .idle, sigQueue := fun _ => [], connQueue := fun _ => []
    sigPipe := fun _ => [], sig := fun _ => .idle, nextWorker := 0, accept := .idle, accepted := []
    newConns := fun _ => [], sent := [], pushed := [], processed := fun _ => [], popped := fun _ => []
    answered := fun _ => [] }

/-- `get_worker` on the vector of the server's workers. -/
def route (n : WorkerNum) (streamName : List UInt8) : Option (Fin n.val) :=
  getWorker (List.finRange n.val) n.val streamName

def setSig (s : St ns n) (i : Fin ns) (pc : SigPc) : St ns n := { s with sig := Function.update s.sig i pc }

def setWorker (s : St ns n) (j : Fin n.val) (pc : WorkerPc ns) : St ns n :=
  { s with worker := Function.update s.worker j pc }

def pushRequest (s : St ns n) (i : Fin ns) (r : PushReq) : St ns n :=
  setSig { s with msgs := Function.update s.msgs s.sent.length (processPush i r), sent := s.sent ++ [s.sent.length] } i
    (.send s.sent.length)

/-- A signaling worker: `RtcServer::send_rtc_msg` on its way out, `process_notify` on its way in. -/
def sigStep (s : St ns n) (i : Fin ns) : Option (St ns n) :=
  match s.sig i with
  | .idle => match s.sigPipe i with
    | [] => none
    | .newConn :: notes => some (setSig { s with sigPipe := Function.update s.sigPipe i notes } i .takeConn)
    | .rtcMsg :: notes => some (setSig { s with sigPipe := Function.update s.sigPipe i notes } i .popMsg)
  | .send m => some (setSig { s with serverQueue := s.serverQueue ++ [m], pushed := s.pushed ++ [m] } i .notifyServer)
  | .notifyServer => some (setSig { s with serverPipe := s.serverPipe + 1 } i .idle)
  | .popMsg => match s.sigQueue i with
    | [] => some (setSig s i .idle)
    | m :: rest => some (setSig { s with
        sigQueue := Function.update s.sigQueue i rest
        popped := Function.update s.popped i (s.popped i ++ [m]) } i (.answer m))
  | .answer m =>
    if (s.msgs m).cmdno = cmdnoPush then
      some (setSig { s with answered := Function.update s.answered i (s.answered i ++ [m]) } i .idle)
    else some (setSig s i .idle)
  | .takeConn => match s.connQueue i with
    | [] => some (setSig s i .idle)
    | d :: rest => some (setSig { s with connQueue := Function.update s.connQueue i rest } i (.newConn d))
  | .newConn d => some (setSig { s with newConns := Function.update s.newConns i (s.newConns i ++ [d]) } i .idle)

/-- The RTC server: `process_rtc_msg` and `RtcWorker::send_rtc_msg`. -/
def serverStep (s : St ns n) : Option (St ns n) :=
  match s.server with
  | .idle => if s.serverPipe = 0 then none else some { s with serverPipe := s.serverPipe - 1, server := .popMsg }
  | .popMsg => match s.serverQueue with
    | [] => some { s with server := .idle }
    | m :: rest => some { s with serverQueue := rest, server := .route m }
  | .route m => match route n (s.msgs m).streamName with
    | none => some { s with server := .idle }
    | some j => some { s with
        workerQueue := Function.update s.workerQueue j (s.workerQueue j ++ [m]), server := .notify j }
  | .notify j => some { s with workerPipe := Function.update s.workerPipe j (s.workerPipe j + 1), server := .idle }

/-- RTC worker `j`: `process_rtc_msg`, `_process_push` and `SignalingWorker::send_rtc_msg`. -/
def workerStep (s : St ns n) (j : Fin n.val) : Option (St ns n) :=
  match s.worker j with
  | .idle =>
    if s.workerPipe j = 0 then none
    else some (setWorker { s with workerPipe := Function.update s.workerPipe j (s.workerPipe j - 1) } j .popMsg)
  | .popMsg => match s.workerQueue j with
    | [] => some (setWorker s j .idle)
    | m :: rest => some (setWorker { s with
        workerQueue := Function.update s.workerQueue j rest
        processed := Function.update s.processed j (s.processed j ++ [m]) } j (.process m))
  | .process m =>
    if (s.msgs m).cmdno = cmdnoPush then
      let s := { s with msgs := Function.update s.msgs m (fillOffer (s.msgs m)) }
      match (s.msgs m).worker with
      | none => some (setWorker s j .idle)
      | some i => some (setWorker { s with sigQueue := Function.update s.sigQueue i (s.sigQueue i ++ [m]) } j (.notify i))
    else some (setWorker s j .idle)
  | .notify i => some (setWorker { s with sigPipe := Function.update s.sigPipe i (s.sigPipe i ++ [.rtcMsg]) } j .idle)

/-- The accept thread: `dispatch_conn` and `notify_new_conn`. -/
def dispatchStep (s : St ns n) : Option (St ns n) :=
  match s.accept with
  | .idle => none
  | .dispatch d =>
    let index := s.nextWorker
    let next := if ns ≤ s.nextWorker + 1 then 0 else s.nextWorker + 1
    if h : index < ns then some { s with nextWorker := next, accept := .produce ⟨index, h⟩ d }
    else some { s with nextWorker := next, accept := .crashed }
  | .produce i d =>
    some { s with connQueue := Function.update s.connQueue i (s.connQueue i ++ [d]), accept := .notify i }
  | .notify i =>
    some { s with sigPipe := Function.update s.sigPipe i (s.sigPipe i ++ [.newConn]), accept := .idle }
  | .crashed => none

def step (s : St ns n) : Label ns n → Option (St ns n)
  | .pushRequest i r => if s.sig i = .idle then some (pushRequest s i r) else none
  | .sig i => sigStep s i
  | .server => serverStep s
  | .worker j => workerStep s j
  | .accept none => if s.accept = .idle then some s else none
  | .accept (some fd) =>
    if s.accept = .idle then
      some { s with accept := .dispatch ⟨s.accepted.length, fd⟩, accepted := s.accepted ++ [⟨s.accepted.length, fd⟩] }
    else none
  | .dispatch => dispatchStep s

end Pipeline
end Xrtc
