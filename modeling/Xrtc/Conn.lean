import Xrtc.Header
/-!
# Conn — the server's data model

`TcpConnection` (`server/tcp_connection.hpp`), `rtc::Slice` (`rtc_base/slice.h`), `RtcMsg` (`xrtcserver_def.hpp`) and
the constants of the two headers.  A pointer to a heap object is an address, `none` is the null pointer.  An `sds`
string is the byte string it holds: appends to it are list appends.
-/
namespace Xrtc

/-- `XHEAD_SIZE` (xhead.hpp) is `headerSize`; `MAX_RES_BUF` and the command numbers are xrtcserver_def.hpp's. -/
def maxResBuf : Nat := 4096
def cmdnoPush : Int := 1

abbrev Addr := Nat

/-- `rtc::Slice`: `data i` is the byte at `data() + i`, whatever lies there; the slice names the first `size` of them. -/
structure Slice where
  data : Nat → UInt8
  size : Nat

def Slice.bytes (s : Slice) : List UInt8 := (List.range s.size).map s.data

@[simp] theorem Slice.length_bytes (s : Slice) : s.bytes.length = s.size := by simp [Slice.bytes]

theorem Slice.bytes_eq (s : Slice) : s.bytes = Bytes.readMem s.data 0 s.size := by simp [Slice.bytes, Bytes.readMem]

/-- `STATE_HEAD` and `STATE_BODY`. -/
inductive ConnState where
  | head
  | body
  deriving DecidableEq

/-- `class TcpConnection`, without the peer's name and the watchers, which live in the event loop. -/
structure TcpConnection where
  fd : Int
  querybuf : List UInt8 := []
  bytesExpected : Nat := headerSize
  bytesProcessed : Nat := 0
  currentState : ConnState := .head
  lastInteractionTime : Nat := 0
  replyList : List Slice := []
  curRespPos : Nat := 0

/-- `struct RtcMsg`; `W` is the type of signaling workers `worker` points to. -/
structure RtcMsg (W : Type) where
  cmdno : Int := -1
  uid : UInt64 := 0
  streamName : List UInt8 := []
  audio : Int := 0
  video : Int := 0
  logId : UInt32 := 0
  worker : Option W := none
  conn : Option Addr := none
  sdp : List UInt8 := []
  errNo : Int := 0
  fd : Int := 0
  deriving DecidableEq

end Xrtc
