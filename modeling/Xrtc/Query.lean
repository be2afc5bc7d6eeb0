import Xrtc.Conn
import Xrtc.Lts
/-!
# Query — reading one connection's request

`SignalingWorker::read_query` and `process_query_buffer` (`server/signaling_worker.cpp`) on one connection, one loop
iteration at a time: a `read` label is the read of a `read_query` call, an `iter` label is one evaluation of the while
condition of `process_query_buffer` together with the loop body it admits.  `process_request_` is called with a header
slice and a body slice; what it returns is an arbitrary oracle `outcome`, indexed by how many calls came before it on
this connection.
-/
namespace Xrtc
namespace Query

/-- What `read(2)` answers: the bytes it stored (none at end of file), or an error, `EAGAIN` or another. -/
inductive SysRead where
  | bytes (bs : List UInt8)
  | err (eagain : Bool)
  deriving DecidableEq

/-- `sock_read_data`: `none` is its `-1`; otherwise the bytes read, none of them for `EAGAIN`. -/
def sockReadData : SysRead → Option (List UInt8)
  | .bytes [] => none
  | .bytes (b :: bs) => some (b :: bs)
  | .err true => some []
  | .err false => none

/-- `int read_len = conn->bytes_expected`: the `size_t` narrowed to an `int`. -/
def readLen (c : TcpConnection) : Int := Int.bmod c.bytesExpected (2 ^ 32)

/-- `read(2)` stores at most the number of bytes it was asked for. -/
def fits (c : TcpConnection) : SysRead → Prop
  | .bytes bs => (bs.length : Int) ≤ max 0 (readLen c)
  | .err _ => True

instance (c : TcpConnection) : (r : SysRead) → Decidable (fits c r)
  | .bytes bs => inferInstanceAs (Decidable ((bs.length : Int) ≤ max 0 (readLen c)))
  | .err _ => inferInstanceAs (Decidable True)

/-- The arguments of one `process_request_` call. -/
structure Call where
  header : List UInt8
  body : List UInt8
  deriving DecidableEq

/-- Where the worker's thread is: in its event loop, inside the while loop, or past `close_conn_`. -/
inductive Phase where
  | idle
  | looping
  | closed
  deriving DecidableEq

/-- One connection on the worker, with every `process_request_` call made for it so far. -/
structure St where
  conn : TcpConnection
  phase : Phase
  calls : List Call

/-- `now` is the loop's clock at the read. -/
inductive Label where
  | read (now : Nat) (r : SysRead)
  | iter
  deriving DecidableEq

def init (fd : Int) : St := ⟨{ fd := fd }, .idle, []⟩

/-- The marker `process_query_buffer` leaves in `bytes_processed` once a request succeeded. -/
def doneMark : Nat := 65535

def loopCond (c : TcpConnection) : Bool := decide (c.bytesExpected + c.bytesProcessed ≤ c.querybuf.length)

/-- The `header` and `body` slices of the `STATE_BODY` branch. -/
def callOf (c : TcpConnection) : Call :=
  ⟨c.querybuf.take headerSize, (c.querybuf.drop headerSize).take (xheadAt c.querybuf).bodyLen.toNat⟩

/-- One evaluation of the while condition of `process_query_buffer` and the iteration it admits. -/
def iterate (outcome : Nat → Int) (s : St) : St :=
  if loopCond s.conn = true then
    match s.conn.currentState with
    | .head =>
      if (xheadAt s.conn.querybuf).magicNum ≠ headerMagic then { s with phase := .idle }
      else { s with conn := { s.conn with
              bytesProcessed := headerSize
              bytesExpected := (xheadAt s.conn.querybuf).bodyLen.toNat
              currentState := .body } }
    | .body =>
      if outcome s.calls.length < 0 then { s with phase := .idle, calls := s.calls ++ [callOf s.conn] }
      else { s with conn := { s.conn with bytesProcessed := doneMark }, calls := s.calls ++ [callOf s.conn] }
  else { s with phase := .idle }

/-- `read_query` up to its call of `process_query_buffer`. -/
def readStep (s : St) (now : Nat) (r : SysRead) : St :=
  match sockReadData r with
  | none => { s with conn := { s.conn with lastInteractionTime := now }, phase := .closed }
  | some bs => { s with
      conn := { s.conn with querybuf := s.conn.querybuf ++ bs, lastInteractionTime := now }, phase := .looping }

def step (outcome : Nat → Int) (s : St) : Label → Option St
  | .read now r => if s.phase = .idle then some (readStep s now r) else none
  | .iter => if s.phase = .looping then some (iterate outcome s) else none

/-- The step function with `read(2)` held to its contract: it stores no more than it was asked for. -/
def stepFit (outcome : Nat → Int) (s : St) : Label → Option St
  | .read now r => if fits s.conn r then step outcome s (.read now r) else none
  | .iter => step outcome s .iter

end Query
end Xrtc
