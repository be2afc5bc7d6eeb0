import Xrtc.Header
/-!
# Rpc — the Go client's request writer and response reader

`NewRequest` and `Request.Write` of `xrpc/request.go`, and `ReadResponse` of `xrpc/response.go`.  A writer is the byte
string it has accepted so far.  An `io.Reader` is the list of pieces its successive `Read` calls can deliver; the end
of the list is EOF.
-/
namespace Xrtc

/-- The `io.Reader` a caller hands to `NewRequest`, as the type switch tells them apart. -/
inductive ReqBody where
  | nil
  | bytesReader (unread : List UInt8)
  | other
  deriving DecidableEq

/-- `type Request struct`: `body` is what `io.LimitReader` will deliver, `none` for a nil reader. -/
structure Request where
  header : Header
  body : Option (List UInt8)
  deriving DecidableEq

/-- `NewRequest`; `none` is the nil request of the `default` branch. -/
def newRequest (body : ReqBody) (logId : UInt32) : Option Request :=
  let header := { Header.zero with logId := logId, magicNum := headerMagic }
  match body with
  | .nil => some ⟨header, none⟩
  | .bytesReader unread =>
    let header := { header with bodyLen := UInt32.ofNat unread.length }
    some ⟨header, some (unread.take header.bodyLen.toNat)⟩
  | .other => none

/-- `Header.Write`: marshal into a 36-byte array and hand it to the writer. -/
def Header.write (h : Header) (w : List UInt8) : Except String (List UInt8) :=
  match h.marshal (List.replicate headerSize 0) with
  | .error e => .error e
  | .ok buf => .ok (w ++ buf)

/-- `Request.Write` on a writer that accepts everything; `io.Copy` from a nil body is a nil dereference. -/
def Request.write (r : Request) (w : List UInt8) : Except String (List UInt8) :=
  match r.header.write w with
  | .error e => .error e
  | .ok w => match r.body with
    | none => .error "nil body"
    | some b => .ok (w ++ b)

/-- The bytes a client emits for a body held in a `*bytes.Reader`, as `Call` sends it. -/
def emitted (body : List UInt8) (logId : UInt32) : Except String (List UInt8) :=
  match newRequest (.bytesReader body) logId with
  | none => .error "nil request"
  | some r => r.write []

theorem Header.write_eq (h : Header) (w : List UInt8) : h.write w = .ok (w ++ h.bytes) := by
  unfold Header.write
  rw [Header.marshal_eq h _ (by simp)]
  simp

/-- **What the client puts on the wire**: a header naming the body's length and the log id, then the body. -/
theorem emitted_eq (body : List UInt8) (logId : UInt32) (h : body.length < 2 ^ 32) :
    ∃ hd : Header, hd.logId = logId ∧ hd.magicNum = headerMagic ∧ hd.bodyLen.toNat = body.length ∧
      emitted body logId = .ok (hd.bytes ++ body) := by
  have hlen : (UInt32.ofNat body.length).toNat = body.length := by
    rw [UInt32.toNat_ofNat']
    exact Nat.mod_eq_of_lt h
  refine ⟨{ Header.zero with logId := logId, magicNum := headerMagic, bodyLen := UInt32.ofNat body.length },
    rfl, rfl, hlen, ?_⟩
  simp only [emitted, newRequest, Request.write, Header.write_eq, hlen, List.take_length, List.nil_append]

/-! ## Reading a response -/

/-- The errors `io.ReadFull` and `ReadResponse` report. -/
inductive RespErr where
  | eof
  | unexpectedEof
  | shortHeader
  | magic (got : UInt32)
  deriving DecidableEq

/-- `io.ReadFull` for `n` bytes: it reads on until full, and reports EOF when the reader ends first. -/
def readFull : Nat → List (List UInt8) → Except RespErr (List UInt8) × List (List UInt8)
  | 0, r => (.ok [], r)
  | _ + 1, [] => (.error .eof, [])
  | n + 1, p :: ps =>
    if n + 1 ≤ p.length then (.ok (p.take (n + 1)), p.drop (n + 1) :: ps)
    else match readFull (n + 1 - p.length) ps with
      | (.ok bs, r) => (.ok (p ++ bs), r)
      | (.error .eof, r) => (.error (if p = [] then .eof else .unexpectedEof), r)
      | (.error e, r) => (.error e, r)

def Header.read (h : Header) (r : List (List UInt8)) : Except RespErr Header × List (List UInt8) :=
  match readFull headerSize r with
  | (.error e, r) => (.error e, r)
  | (.ok buf, r) => match h.unmarshal buf with
    | .error _ => (.error .shortHeader, r)
    | .ok h => (.ok h, r)

structure Response where
  header : Header
  body : List UInt8
  deriving DecidableEq

def readResponse (r : List (List UInt8)) : Except RespErr Response × List (List UInt8) :=
  match Header.zero.read r with
  | (.error e, r) => (.error e, r)
  | (.ok h, r) =>
    if h.magicNum ≠ headerMagic then (.error (.magic h.magicNum), r)
    else match readFull h.bodyLen.toNat r with
      | (.error e, r) => (.error e, r)
      | (.ok body, r) => (.ok ⟨h, body⟩, r)

/-- **`io.ReadFull` succeeds whenever the pieces hold enough bytes**, whatever the cut: it returns the next `n` bytes
and leaves the rest of the stream. -/
theorem readFull_of_le : ∀ (n : Nat) (r : List (List UInt8)), n ≤ r.flatten.length →
    ∃ r', readFull n r = (.ok (r.flatten.take n), r') ∧ r'.flatten = r.flatten.drop n
  | 0, r, _ => ⟨r, by simp [readFull], by simp⟩
  | n + 1, [], h => by simp at h
  | n + 1, p :: ps, h => by
    rw [List.flatten_cons]
    rw [List.flatten_cons, List.length_append] at h
    by_cases hp : n + 1 ≤ p.length
    · refine ⟨p.drop (n + 1) :: ps, ?_, ?_⟩
      · rw [readFull, if_pos hp, List.take_append_of_le_length hp]
      · rw [List.flatten_cons, List.drop_append_of_le_length hp]
    · obtain ⟨r', h1, h2⟩ := readFull_of_le (n + 1 - p.length) ps (by omega)
      have hle : p.length ≤ n + 1 := by omega
      refine ⟨r', ?_, ?_⟩
      · rw [readFull, if_neg hp, h1]
        simp only
        rw [List.take_append, List.take_of_length_le hle]
      · rw [h2, List.drop_append, List.drop_of_length_le hle, List.nil_append]

/-- **`ReadResponse` on a frame**: 36 header bytes with the right magic and at least the announced body behind them
give a response with that body. -/
theorem readResponse_of_frame {hd rest : List UInt8} {pieces : List (List UInt8)} (hlen : hd.length = headerSize)
    (hm : (xheadAt hd).magicNum = headerMagic) (hb : (xheadAt hd).bodyLen.toNat ≤ rest.length)
    (hp : pieces.flatten = hd ++ rest) :
    ∃ h r, readResponse pieces = (.ok ⟨h, rest.take (xheadAt hd).bodyLen.toNat⟩, r) := by
  obtain ⟨r₁, h1, h2⟩ := readFull_of_le headerSize pieces (by rw [hp, List.length_append]; omega)
  rw [hp, ← hlen, List.take_left, hlen] at h1
  rw [hp, ← hlen, List.drop_left] at h2
  obtain ⟨r₂, h3, -⟩ := readFull_of_le (xheadAt hd).bodyLen.toNat r₁ (by rw [h2]; exact hb)
  rw [h2] at h3
  have hread : ∃ h, Header.zero.read pieces = (.ok h, r₁) ∧ h.magicNum = (xheadAt hd).magicNum ∧
      h.bodyLen = (xheadAt hd).bodyLen := by
    unfold Header.read
    rw [h1]
    simp only [Header.unmarshal]
    rw [if_neg (by omega)]
    exact ⟨_, rfl, rfl, rfl⟩
  obtain ⟨h, hr, hmag, hbl⟩ := hread
  refine ⟨h, r₂, ?_⟩
  unfold readResponse
  rw [hr]
  simp only [ne_eq, hmag, hm, not_true_eq_false, if_false, hbl, h3]

end Xrtc
