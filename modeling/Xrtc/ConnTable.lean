import Xrtc.ConnReuse
import Xrtc.EventLoop
import Xrtc.QueryFrame
import Xrtc.WriteLoop
/-!
# ConnTable — the signaling workers' connections, one callback at a time

All signaling workers with their tables `conns_`, the live `TcpConnection`, `IOWatcher` and `Timewatcher` objects, the
descriptors handed over but not yet taken, and the kernel's open descriptors.  A step is one accept with its dispatch, or
one whole event-loop callback of one worker: `new_conn`, `conn_io_cb` (`read_query`, then `_write_reply`),
`conn_timer_cb`, or the answer of a message (`_response_server_offer` with `_add_reply`).  Allocators return addresses
that are not live, `accept` a descriptor from 1 on that is not open, and libev fires live and active watchers only; what
else a watcher may be fired with, what the sockets answer and which message comes back is arbitrary.

A callback that has not returned within the given number of turns is not a step; following a dangling pointer or writing
outside a vector is `crashed`.
-/
namespace Xrtc
namespace ConnTable

open EventLoop (Libev IOWatcher startIoEvent stopIoEvent creatIoEvent READ WRITE)
open ConnReuse (slot setConn)

/-- A `TcpConnection` with the addresses of its two watchers. -/
structure Conn where
  tcp : TcpConnection
  ioWatcher : Addr
  timerWatcher : Addr

/-- A live `IOWatcher` of the event loop of worker `loop`. -/
structure IoEntry (ns : Nat) where
  loop : Fin ns
  io : IOWatcher

/-- A live `Timewatcher`, started; `conn` is its `data` pointer. -/
structure TimerEntry (ns : Nat) where
  loop : Fin ns
  conn : Addr

structure St (ns : Nat) where
  conns : Fin ns → List (Option Addr)
  heap : Addr → Option Conn
  ios : Addr → Option (IoEntry ns)
  timers : Addr → Option (TimerEntry ns)
  connQueue : Fin ns → List Int
  nextWorker : Nat
  opened : Int → Bool
  crashed : Bool

def init {ns : Nat} : St ns := ⟨fun _ => [], fun _ => none, fun _ => none, fun _ => none, fun _ => [], 0, fun _ => false, false⟩

/-- How a `read_query` call goes: the clock, the read, what `process_request_` answers, and the turns it has. -/
structure ReadAct where
  now : Nat
  r : Query.SysRead
  outcome : Nat → Int
  fuel : Nat

/-- How a `_write_reply` call goes: the clock, the answers of `write(2)`, and the turns it has. -/
structure WriteAct where
  now : Nat
  answers : Nat → WriteReply.SysWrite
  turns : Nat

/-- `newConn` comes with the addresses of the three new objects and what the watcher's memory held; a `reply` is `none`
when its `zmalloc` failed. -/
inductive Label (ns : Nat) where
  | accept (fd : Int)
  | newConn (i : Fin ns) (conn io timer : Addr) (ioFd : Int) (ioEvents : BitVec 32) (now : Nat)
  | io (w : Addr) (events : BitVec 32) (rd : ReadAct) (wr : WriteAct)
  | timer (t : Addr) (now : Nat)
  | reply (i : Fin ns) (msg : RtcMsg (Fin ns)) (reply : Option Slice)

variable {ns : Nat}

/-- `accept_new_conn` with `dispatch_conn` and `notify_new_conn`. -/
def acceptStep (s : St ns) (fd : Int) : St ns :=
  let index := s.nextWorker
  let next := if ns ≤ s.nextWorker + 1 then 0 else s.nextWorker + 1
  let s := { s with opened := Function.update s.opened fd true, nextWorker := next }
  if h : index < ns then
    { s with connQueue := Function.update s.connQueue ⟨index, h⟩ (s.connQueue ⟨index, h⟩ ++ [fd]) }
  else { s with crashed := true }

/-- The callback of `NEW_CONN`: `q_conn_.consume` and `new_conn`. -/
def newConnStep (ev : Libev) (s : St ns) (i : Fin ns) (a w t : Addr) (ioFd : Int) (ioEvents : BitVec 32) (now : Nat) :
    St ns :=
  match s.connQueue i with
  | [] => s
  | fd :: rest =>
    let s := { s with connQueue := Function.update s.connQueue i rest }
    if fd < 0 then s
    else
      let io := startIoEvent ev (creatIoEvent ioFd ioEvents) fd READ
      match setConn (s.conns i) fd.toNat a with
      | none => { s with crashed := true }
      | some table => { s with
          conns := Function.update s.conns i table
          heap := Function.update s.heap a (some ⟨{ fd := fd, lastInteractionTime := now }, w, t⟩)
          ios := Function.update s.ios w (some ⟨i, io⟩)
          timers := Function.update s.timers t (some ⟨i, a⟩) }

/-- `close_conn_` of the connection `c` at address `a` on worker `i`. -/
def closeConn (s : St ns) (i : Fin ns) (a : Addr) (c : Conn) : St ns :=
  if (s.timers c.timerWatcher).isNone ∨ (s.ios c.ioWatcher).isNone ∨ (s.conns i).length ≤ c.tcp.fd.toNat then
    { s with crashed := true }
  else { s with
    opened := Function.update s.opened c.tcp.fd false
    timers := Function.update s.timers c.timerWatcher none
    ios := Function.update s.ios c.ioWatcher none
    conns := Function.update s.conns i ((s.conns i).set c.tcp.fd.toNat none)
    heap := Function.update s.heap a none }

def readQuery (s : St ns) (i : Fin ns) (fd : Int) (rd : ReadAct) : Option (St ns) :=
  match slot (s.conns i) fd with
  | none => some s
  | some a => match s.heap a with
    | none => some { s with crashed := true }
    | some c => match Query.readQuery rd.outcome rd.fuel ⟨c.tcp, .idle, []⟩ rd.now rd.r with
      | none => none
      | some q =>
        if q.phase = .closed then some (closeConn s i a c)
        else some { s with heap := Function.update s.heap a (some { c with tcp := q.conn }) }

/-- The loop of `_write_reply` on one connection; it ends with `watching` unset when it ran into an empty list. -/
def writeLoop (a : Addr) (c : TcpConnection) (wr : WriteAct) : WriteReply.St :=
  WriteReply.loop ⟨a, c, true, .writing, [], [], []⟩ wr.now wr.answers wr.turns

def writeReply (ev : Libev) (s : St ns) (i : Fin ns) (fd : Int) (wr : WriteAct) : Option (St ns) :=
  match WriteReply.writeTarget (s.conns i) fd with
  | none => some s
  | some a => match s.heap a with
    | none => some { s with crashed := true }
    | some c =>
      let t := writeLoop a c.tcp wr
      if t.phase = .idle then
        let s := { s with heap := Function.update s.heap a (some { c with tcp := t.conn }) }
        if t.watching = true then some s
        else match s.ios c.ioWatcher with
          | none => some { s with crashed := true }
          | some e => some { s with
              ios := Function.update s.ios c.ioWatcher (some { e with io := stopIoEvent ev e.io t.conn.fd WRITE }) }
      else none

/-- `conn_io_cb`, fired by watcher `e` of worker `e.loop`. -/
def connIoCb (ev : Libev) (s : St ns) (e : IoEntry ns) (events : BitVec 32) (rd : ReadAct) (wr : WriteAct) :
    Option (St ns) :=
  (if events &&& READ ≠ 0 then readQuery s e.loop e.io.fd rd else some s).bind (fun s =>
    if s.crashed = true then some s
    else if events &&& WRITE ≠ 0 then writeReply ev s e.loop e.io.fd wr else some s)

/-- `conn_timer_cb` and `process_timeout`; the difference is an `unsigned long`. -/
def connTimerCb (timeout : Nat) (s : St ns) (e : TimerEntry ns) (now : Nat) : St ns :=
  match s.heap e.conn with
  | none => { s with crashed := true }
  | some c =>
    if timeout ≤ (now + 2 ^ 64 - c.tcp.lastInteractionTime) % 2 ^ 64 then closeConn s e.loop e.conn c else s

/-- `_response_server_offer` from its guards to `_add_reply`. -/
def answerStep (ev : Libev) (s : St ns) (i : Fin ns) (msg : RtcMsg (Fin ns)) (reply : Option Slice) : St ns :=
  match Offer.replyTarget (s.conns i) msg with
  | none => s
  | some a => match s.heap a, reply with
    | none, _ => { s with crashed := true }
    | some _, none => s
    | some c, some reply => match s.ios c.ioWatcher with
      | none => { s with crashed := true }
      | some e => { s with
          heap := Function.update s.heap a (some { c with tcp := { c.tcp with replyList := c.tcp.replyList ++ [reply] } })
          ios := Function.update s.ios c.ioWatcher (some { e with io := startIoEvent ev e.io c.tcp.fd WRITE }) }

def step (ev : Libev) (timeout : Nat) (s : St ns) (l : Label ns) : Option (St ns) :=
  if s.crashed = true then none
  else match l with
    | .accept fd => if s.opened fd = false ∧ 1 ≤ fd ∧ fd < 2 ^ 30 then some (acceptStep s fd) else none
    | .newConn i a w t ioFd ioEvents now =>
      if (s.heap a).isNone ∧ (s.ios w).isNone ∧ (s.timers t).isNone then
        some (newConnStep ev s i a w t ioFd ioEvents now)
      else none
    | .io w events rd wr => match s.ios w with
      | none => none
      | some e => if e.io.active = true then connIoCb ev s e events rd wr else none
    | .timer t now => match s.timers t with
      | none => none
      | some e => some (connTimerCb timeout s e now)
    | .reply i msg reply => some (answerStep ev s i msg reply)

end ConnTable
end Xrtc
