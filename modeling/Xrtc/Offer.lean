import Mathlib.Data.List.TakeWhile
import Xrtc.QueryRun
import Xrtc.Rpc
/-!
# Offer — the reply frame of `_response_server_offer`

The reply is built in a block of `XHEAD_SIZE + MAX_RES_BUF` bytes: the request's header is copied, its `body_len`
overwritten with the length of the serialized JSON, and the JSON printed behind it with `snprintf`, which writes at most
`MAX_RES_BUF` bytes and ends them with a NUL.  The slice queued for the peer claims header and JSON length whatever
`snprintf` could write.  `Json::writeString` is a parameter, a function of the members assigned to the root object.
-/
namespace Xrtc
namespace Offer

open Bytes (readMem writeMem)

inductive JsonVal where
  | int (i : Int)
  | str (s : List UInt8)
  deriving DecidableEq

def text (cs : List Char) : List UInt8 := cs.map (fun c => UInt8.ofNat c.toNat)

/-- A JSON object: its members in the order they were assigned. -/
abbrev JsonObj := List (List Char × JsonVal)

def keyErrNo : List Char := ['e', 'r', 'r', '_', 'n', 'o']
def keyErrMsg : List Char := ['e', 'r', 'r', '_', 'm', 's', 'g']
def keyOffer : List Char := ['o', 'f', 'f', 'e', 'r']
def processError : List Char := ['p', 'r', 'o', 'c', 'e', 's', 's', ' ', 'e', 'r', 'r', 'o', 'r']
def processSuccess : List Char := ['p', 'r', 'o', 'c', 'e', 's', 's', ' ', 's', 'u', 'c', 'c', 'e', 's', 's']

def resRoot {W : Type} (msg : RtcMsg W) : JsonObj :=
  (keyErrNo, .int msg.errNo) ::
    if msg.errNo ≠ 0 then [(keyErrMsg, .str (text processError)), (keyOffer, .str [])]
    else [(keyErrMsg, .str (text processSuccess)), (keyOffer, .str msg.sdp)]

/-- `json_data`: what `Json::writeString` makes of `res_root`. -/
def jsonData {W : Type} (writeString : JsonObj → List UInt8) (msg : RtcMsg W) : List UInt8 := writeString (resRoot msg)

/-- `snprintf(mem + off, n, "%s", s)`: the C string in `s`, cut to `n - 1` bytes, and a NUL. -/
def snprintf (mem : Nat → UInt8) (off n : Nat) (s : List UInt8) : Nat → UInt8 :=
  if n = 0 then mem else writeMem mem off ((s.takeWhile (fun b => b != 0)).take (n - 1) ++ [0])

/-- `uint32_t` read through `res_xh->body_len`. -/
def bodyLenAt (mem : Nat → UInt8) : UInt32 := uint32 (readMem mem 32 4)

/-- The block as `_response_server_offer` leaves it: header copied, `body_len` stored, JSON printed. -/
def replyBlock (buf : Nat → UInt8) (querybuf json : List UInt8) : Nat → UInt8 :=
  let buf := writeMem buf 0 (querybuf.take headerSize)
  let buf := writeMem buf 32 (putUint32 (UInt32.ofNat json.length))
  snprintf buf headerSize maxResBuf json

/-- `rtc::Slice reply(buf, XHEAD_SIZE + res_xh->body_len)`: the sum is a `uint32_t`. -/
def replySlice (buf : Nat → UInt8) (querybuf json : List UInt8) : Slice :=
  let buf := replyBlock buf querybuf json
  ⟨buf, (UInt32.ofNat headerSize + bodyLenAt buf).toNat⟩

/-- The guards of `_response_server_offer`: the connection it answers on. -/
def replyTarget {W : Type} (conns : List (Option Addr)) (msg : RtcMsg W) : Option Addr :=
  match msg.conn with
  | none => none
  | some conn =>
    if msg.fd < 0 ∨ (conns.length : Int) ≤ msg.fd then none
    else if conns.getD msg.fd.toNat none ≠ some conn then none
    else some conn

/-- `_response_server_offer`: the connection and the slice it passes to `_add_reply`, if it gets that far.  `block` is
what `zmalloc` returned, with whatever it held. -/
def responseServerOffer {W : Type} (writeString : JsonObj → List UInt8) (block : Option (Nat → UInt8))
    (conns : List (Option Addr)) (heap : Addr → TcpConnection) (msg : RtcMsg W) : Option (Addr × Slice) :=
  match replyTarget conns msg with
  | none => none
  | some conn => match block with
    | none => none
    | some buf => some (conn, replySlice buf (heap conn).querybuf (jsonData writeString msg))

/-- The reply is what it claims to be: inside its block, with the JSON's length in its header and the JSON as its body,
so that the Go client reads that JSON however the bytes are cut. -/
structure ReplyExact (json : List UInt8) (reply : Slice) : Prop where
  inBlock : reply.size ≤ headerSize + maxResBuf
  bodyLen : (xheadAt reply.bytes).bodyLen.toNat = json.length
  body : reply.bytes.drop headerSize = json
  goReads : ∀ pieces : List (List UInt8), pieces.flatten = reply.bytes →
    ∃ h rest, readResponse pieces = (.ok ⟨h, json⟩, rest)

/-! ## What the block holds -/

section Block
variable {buf : Nat → UInt8} {querybuf json : List UInt8}

theorem replyBlock_eq : replyBlock buf querybuf json =
    writeMem (writeMem (writeMem buf 0 (querybuf.take headerSize)) 32 (putUint32 (UInt32.ofNat json.length)))
      headerSize ((json.takeWhile (fun b => b != 0)).take (maxResBuf - 1) ++ [0]) := by
  unfold replyBlock snprintf
  rw [if_neg (by decide)]

theorem bodyLenAt_replyBlock : bodyLenAt (replyBlock buf querybuf json) = UInt32.ofNat json.length := by
  unfold bodyLenAt
  rw [replyBlock_eq, Bytes.readMem_writeMem_of_disjoint _ _ _ _ _ (.inl (by decide)),
    Bytes.readMem_writeMem _ _ _ _ (by simp), List.take_of_length_le (by simp), uint32_putUint32]

/-- The first 36 bytes: the request's header up to `reserved`, then the JSON's length. -/
theorem readMem_header (h : headerSize ≤ querybuf.length) :
    readMem (replyBlock buf querybuf json) 0 headerSize =
      querybuf.take 32 ++ putUint32 (UInt32.ofNat json.length) := by
  have hle : 32 ≤ (querybuf.take headerSize).length := by
    rw [List.length_take]
    unfold headerSize at h ⊢
    omega
  have hcopied : readMem (writeMem (writeMem buf 0 (querybuf.take headerSize)) 32
      (putUint32 (UInt32.ofNat json.length))) 0 32 = querybuf.take 32 := by
    rw [Bytes.readMem_writeMem_of_disjoint _ _ _ _ _ (.inl (by decide)), Bytes.readMem_writeMem _ _ _ _ hle,
      List.take_take]
    rfl
  have hstored : readMem (writeMem (writeMem buf 0 (querybuf.take headerSize)) 32
      (putUint32 (UInt32.ofNat json.length))) 32 4 = putUint32 (UInt32.ofNat json.length) := by
    rw [Bytes.readMem_writeMem _ _ _ _ (by simp), List.take_of_length_le (by simp)]
  rw [replyBlock_eq, Bytes.readMem_writeMem_of_disjoint _ _ _ _ _ (.inl (by decide)),
    show headerSize = 32 + 4 from rfl, Bytes.readMem_add, Nat.zero_add]
  exact congrArg₂ (· ++ ·) hcopied hstored

/-- What `snprintf` printed, as far as it goes. -/
theorem readMem_printed {n : Nat} (hn : n ≤ ((json.takeWhile (fun b => b != 0)).take (maxResBuf - 1) ++ [0]).length) :
    readMem (replyBlock buf querybuf json) headerSize n =
      ((json.takeWhile (fun b => b != 0)).take (maxResBuf - 1) ++ [0]).take n := by
  rw [replyBlock_eq, Bytes.readMem_writeMem _ _ _ _ hn]

end Block

theorem takeWhile_of_nulFree {json : List UInt8} (hnul : 0 ∉ json) : json.takeWhile (fun b => b != 0) = json := by
  apply List.takeWhile_eq_self_iff.2
  intro b hb
  have hne : b ≠ 0 := fun h0 => hnul (h0 ▸ hb)
  simpa using hne

/-! ## Short enough JSON -/

section Short
variable (buf : Nat → UInt8) {querybuf json : List UInt8}

theorem toNat_ofNat_of_short (hshort : json.length < maxResBuf) : (UInt32.ofNat json.length).toNat = json.length := by
  rw [UInt32.toNat_ofNat']
  unfold maxResBuf at hshort
  exact Nat.mod_eq_of_lt (by omega)

theorem size_of_short (hshort : json.length < maxResBuf) :
    (replySlice buf querybuf json).size = headerSize + json.length := by
  unfold replySlice
  simp only [bodyLenAt_replyBlock]
  have h36 : (UInt32.ofNat headerSize).toNat = headerSize := rfl
  rw [UInt32.toNat_add, toNat_ofNat_of_short hshort, h36]
  unfold maxResBuf at hshort
  unfold headerSize
  omega

/-- The frame queued for a JSON shorter than `MAX_RES_BUF`. -/
theorem bytes_of_short (hnul : 0 ∉ json) (hh : headerSize ≤ querybuf.length) (hshort : json.length < maxResBuf) :
    (replySlice buf querybuf json).bytes = querybuf.take 32 ++ putUint32 (UInt32.ofNat json.length) ++ json := by
  rw [Slice.bytes_eq, size_of_short buf hshort, Bytes.readMem_add, Nat.zero_add]
  unfold replySlice
  simp only
  rw [readMem_header hh]
  congr 1
  have htake : json.take (maxResBuf - 1) = json := List.take_of_length_le (by omega)
  rw [readMem_printed (by rw [takeWhile_of_nulFree hnul, htake]; simp), takeWhile_of_nulFree hnul, htake,
    List.take_append_of_le_length (Nat.le_refl _), List.take_length]

theorem header_fields (hh : headerSize ≤ querybuf.length) (len : UInt32) :
    (xheadAt (querybuf.take 32 ++ putUint32 len)).magicNum = (xheadAt querybuf).magicNum ∧
      (xheadAt (querybuf.take 32 ++ putUint32 len)).bodyLen = len := by
  unfold headerSize at hh
  have h32 : (querybuf.take 32).length = 32 := by
    rw [List.length_take]
    omega
  have hm : Bytes.sliceOf (querybuf.take 32 ++ putUint32 len) 24 28 = Bytes.sliceOf querybuf 24 28 := by
    rw [Bytes.sliceOf_append_left (by omega), Bytes.sliceOf_take (by omega) (by omega)]
  have hb : Bytes.sliceOf (querybuf.take 32 ++ putUint32 len) 32 36 = putUint32 len := by
    unfold Bytes.sliceOf
    rw [List.drop_left' h32, List.take_of_length_le (by simp)]
  simp only [xheadAt]
  rw [hm, hb, uint32_putUint32]
  exact ⟨rfl, rfl⟩

/-- **A JSON shorter than `MAX_RES_BUF` makes an exact reply.** -/
theorem exact_of_short (hnul : 0 ∉ json) (hh : Query.headIn querybuf) (hshort : json.length < maxResBuf) :
    ReplyExact json (replySlice buf querybuf json) := by
  have hbytes := bytes_of_short buf hnul hh.1 hshort
  obtain ⟨hmagic, hbody⟩ := header_fields hh.1 (UInt32.ofNat json.length)
  have hlen : (querybuf.take 32 ++ putUint32 (UInt32.ofNat json.length)).length = headerSize := by
    have := hh.1
    rw [List.length_append, List.length_take, length_putUint32]
    unfold headerSize at this ⊢
    omega
  have hnat := toNat_ofNat_of_short hshort
  constructor
  · rw [size_of_short buf hshort]
    omega
  · rw [hbytes, xheadAt_append (Nat.le_of_eq hlen.symm), hbody, hnat]
  · rw [hbytes, ← hlen, List.drop_left]
  · intro pieces hp
    rw [hbytes] at hp
    obtain ⟨h, rest, hread⟩ := readResponse_of_frame hlen (hmagic.trans hh.2) (by rw [hbody, hnat]) hp
    rw [hbody, hnat, List.take_length] at hread
    exact ⟨h, rest, hread⟩

end Short

/-! ## Too long a JSON -/

/-- **A JSON of `MAX_RES_BUF` bytes or more never makes one**: either the slice runs past its block, or its last body
byte is the terminator `snprintf` wrote. -/
theorem short_of_exact {buf : Nat → UInt8} {querybuf json : List UInt8} (hnul : 0 ∉ json)
    (h : ReplyExact json (replySlice buf querybuf json)) : json.length < maxResBuf := by
  by_contra hlong
  have hin := h.inBlock
  have hbody := h.body
  have hlen : (replySlice buf querybuf json).size - headerSize = json.length := by
    have hl := congrArg List.length hbody
    rwa [List.length_drop, Slice.length_bytes] at hl
  have h4096 : json.length = maxResBuf := by omega
  have hsize : (replySlice buf querybuf json).size = headerSize + maxResBuf := by
    unfold maxResBuf at *
    omega
  have hprinted : (json.takeWhile (fun b => b != 0)).take (maxResBuf - 1) ++ [0] = json := by
    have hpl : ((json.takeWhile (fun b => b != 0)).take (maxResBuf - 1) ++ [0]).length = maxResBuf := by
      rw [takeWhile_of_nulFree hnul, List.length_append, List.length_take, h4096]
      rfl
    rw [Slice.bytes_eq, hsize, Bytes.readMem_add, List.drop_left' (Bytes.length_readMem _ _ _), Nat.zero_add] at hbody
    unfold replySlice at hbody
    rw [readMem_printed (Nat.le_of_eq hpl.symm), List.take_of_length_le (Nat.le_of_eq hpl)] at hbody
    exact hbody
  exact hnul (hprinted ▸ List.mem_append_right _ (List.mem_singleton.2 rfl))

/-- **The reply frame is exact precisely when the JSON leaves room for `snprintf`'s terminator**, for every message
answered on a connection whose buffer starts with a valid header, whatever the serializer and the block. -/
theorem reply_frame_exact {W : Type} (writeString : JsonObj → List UInt8) (buf : Nat → UInt8)
    (conns : List (Option Addr)) (heap : Addr → TcpConnection) (msg : RtcMsg W) (conn : Addr)
    (hnul : 0 ∉ jsonData writeString msg) (hconn : replyTarget conns msg = some conn)
    (hhead : Query.headIn (heap conn).querybuf) :
    ∃ reply, responseServerOffer writeString (some buf) conns heap msg = some (conn, reply) ∧
      (ReplyExact (jsonData writeString msg) reply ↔ (jsonData writeString msg).length < maxResBuf) := by
  refine ⟨replySlice buf (heap conn).querybuf (jsonData writeString msg), ?_, ?_⟩
  · simp only [responseServerOffer, hconn]
  · constructor
    · exact short_of_exact hnul
    · exact exact_of_short buf hnul hhead

/-! ## A serializer to run -/

/-- A string literal; the escapes are those an SDP text needs. -/
def quoted (s : List UInt8) : List UInt8 :=
  34 :: s.flatMap (fun b => if b = 34 ∨ b = 92 then [92, b] else if b = 10 then [92, 110]
    else if b = 13 then [92, 114] else [b]) ++ [34]

def writeVal : JsonVal → List UInt8
  | .int (.ofNat n) => text (Nat.toDigits 10 n)
  | .int (.negSucc n) => 45 :: text (Nat.toDigits 10 (n + 1))
  | .str s => quoted s

/-- Members are kept sorted by key, as in the map behind a `Json::Value`. -/
def insertMember (m : List Char × JsonVal) : JsonObj → JsonObj
  | [] => [m]
  | x :: xs => if m.1 < x.1 then m :: x :: xs else x :: insertMember m xs

/-- `Json::writeString` with empty indentation. -/
def compactString (o : JsonObj) : List UInt8 :=
  let members := (o.foldl (fun acc m => insertMember m acc) []).map (fun m => quoted (text m.1) ++ 58 :: writeVal m.2)
  123 :: (members.intersperse [44]).flatten ++ [125]

/-- A connection at address 7, descriptor 1, whose buffer holds a request header; a message for it with an offer of
`n` bytes. -/
def oneConn : Addr → TcpConnection :=
  fun _ => { fd := 1, querybuf := { Header.zero with logId := 9, magicNum := headerMagic }.bytes }

def pushed (n : Nat) : RtcMsg Unit := { cmdno := cmdnoPush, conn := some 7, fd := 1, sdp := List.replicate n 97 }

theorem reply_frame_exact_short : ∃ reply,
    responseServerOffer compactString (some (fun _ => 255)) [none, some 7] oneConn (pushed 3) = some (7, reply) ∧
      ReplyExact (text ['{', '"', 'e', 'r', 'r', '_', 'm', 's', 'g', '"', ':', '"', 'p', 'r', 'o', 'c', 'e', 's', 's',
        ' ', 's', 'u', 'c', 'c', 'e', 's', 's', '"', ',', '"', 'e', 'r', 'r', '_', 'n', 'o', '"', ':', '0', ',', '"',
        'o', 'f', 'f', 'e', 'r', '"', ':', '"', 'a', 'a', 'a', '"', '}']) reply := by
  obtain ⟨reply, hr, hiff⟩ := reply_frame_exact compactString (fun _ => 255) [none, some 7] oneConn (pushed 3) 7
    (by decide) (by decide) (by decide)
  exact ⟨reply, hr, hiff.2 (by decide)⟩

/-- An offer of 4200 bytes, well inside what a browser negotiates, is answered with a slice that runs past its
block. -/
theorem long_offer_breaks_frame :
    Query.headIn (oneConn 7).querybuf ∧ 0 ∉ jsonData compactString (pushed 4200) ∧
      ∃ reply, responseServerOffer compactString (some (fun _ => 255)) [none, some 7] oneConn (pushed 4200) =
        some (7, reply) ∧ ¬ ReplyExact (jsonData compactString (pushed 4200)) reply ∧
        headerSize + maxResBuf < reply.size := by
  have hnul : 0 ∉ jsonData compactString (pushed 4200) := by decide +kernel
  have hlong : ¬ (jsonData compactString (pushed 4200)).length < maxResBuf := by decide +kernel
  refine ⟨by decide, hnul, replySlice (fun _ => 255) (oneConn 7).querybuf _, rfl, ?_, ?_⟩
  · exact fun h => hlong (short_of_exact hnul h)
  · unfold replySlice
    simp only [bodyLenAt_replyBlock]
    decide +kernel

end Offer
end Xrtc
