import Xrtc.HeaderCodec
import Xrtc.Rpc
/-!
# RpcReader — `ReadResponse` on a reader that ends with EOF or with an error

`Rpc.lean` reads a response from pieces that end with EOF.  A connection's reader can also fail (its deadline passes,
the peer resets): here the reader carries what its `Read` returns once the pieces are used up, and `ReadResponse`
returns its two results, the response pointer and the error, as the Go function does.
-/
namespace Xrtc

open Bytes (sliceOf)

/-- What `Read` returns when nothing more arrives. -/
inductive ReadEnd where
  | eof
  | failed (text : String)
  deriving DecidableEq

/-- An `io.Reader`: the pieces its successive `Read` calls can deliver, and how it ends. -/
structure Reader where
  pieces : List (List UInt8)
  fin : ReadEnd
  deriving DecidableEq

/-- The bytes still to come. -/
def Reader.stream (r : Reader) : List UInt8 := r.pieces.flatten

/-- The errors `ReadResponse` hands on or makes. -/
inductive ReadErr where
  | eof
  | unexpectedEof
  | failed (text : String)
  | header (text : String)
  | magic (got : UInt32)
  deriving DecidableEq

/-- The error of `io.ReadAtLeast` when the reader ended after `got`. -/
def ReadEnd.report : ReadEnd → List UInt8 → ReadErr
  | .eof, got => if got = [] then .eof else .unexpectedEof
  | .failed text, _ => .failed text

/-- The loop of `io.ReadAtLeast` for a buffer of `n` bytes of which `got` is filled. -/
def readLoop (fin : ReadEnd) (n : Nat) : List UInt8 → List (List UInt8) → Except ReadErr (List UInt8) × List (List UInt8)
  | got, [] => if n ≤ got.length then (.ok got, []) else (.error (fin.report got), [])
  | got, p :: ps =>
    if n ≤ got.length then (.ok got, p :: ps)
    else if n ≤ got.length + p.length then
      (.ok (got ++ p.take (n - got.length)), p.drop (n - got.length) :: ps)
    else readLoop fin n (got ++ p) ps

/-- `io.ReadFull` into a buffer of `n` bytes. -/
def Reader.readFull (n : Nat) (r : Reader) : Except ReadErr (List UInt8) × Reader :=
  let (res, pieces) := readLoop r.fin n [] r.pieces
  (res, { r with pieces := pieces })

/-- `Header.Read`: the error and the header it leaves. -/
def Header.readFrom (h : Header) (r : Reader) : Option ReadErr × Header × Reader :=
  match r.readFull headerSize with
  | (.error e, r) => (some e, h, r)
  | (.ok buf, r) => match h.unmarshalFrom buf with
    | (some e, h) => (some (.header e), h, r)
    | (none, h) => (none, h, r)

/-- `ReadResponse`: the response pointer, the error, and the reader as it is left. -/
def readResponseFrom (r : Reader) : Option Response × Option ReadErr × Reader :=
  match Header.zero.readFrom r with
  | (some e, _, r) => (none, some e, r)
  | (none, h, r) =>
    if h.magicNum ≠ headerMagic then (none, some (.magic h.magicNum), r)
    else match r.readFull h.bodyLen.toNat with
      | (.error e, r) => (none, some e, r)
      | (.ok body, r) => (some ⟨h, body⟩, none, r)

/-! ## One full read -/

/-- **What the read loop does**: it returns the next bytes of the stream when there are enough of them, whatever the
pieces are, and the reader's own end otherwise. -/
theorem readLoop_spec (fin : ReadEnd) (n : Nat) : ∀ (ps : List (List UInt8)) (got : List UInt8), got.length ≤ n →
    (n ≤ got.length + ps.flatten.length → ∃ ps', readLoop fin n got ps =
        (.ok (got ++ ps.flatten.take (n - got.length)), ps') ∧ ps'.flatten = ps.flatten.drop (n - got.length)) ∧
      (got.length + ps.flatten.length < n →
        readLoop fin n got ps = (.error (fin.report (got ++ ps.flatten)), []))
  | [], got, hg => by
    rw [List.flatten_nil, List.length_nil, Nat.add_zero]
    constructor
    · intro h
      refine ⟨[], ?_, ?_⟩
      · rw [readLoop, if_pos h, List.take_nil, List.append_nil]
      · rw [List.flatten_nil, List.drop_nil]
    · intro h
      rw [readLoop, if_neg (by omega), List.append_nil]
  | p :: ps, got, hg => by
    rw [List.flatten_cons, List.length_append]
    by_cases hfull : n ≤ got.length
    · -- the buffer is full: the piece is not touched
      have h0 : n - got.length = 0 := by omega
      constructor
      · intro _
        refine ⟨p :: ps, ?_, ?_⟩
        · rw [readLoop, if_pos hfull, h0, List.take_zero, List.append_nil]
        · rw [h0, List.drop_zero, List.flatten_cons]
      · omega
    · by_cases hp : n ≤ got.length + p.length
      · have hle : n - got.length ≤ p.length := by omega
        constructor
        · intro _
          refine ⟨p.drop (n - got.length) :: ps, ?_, ?_⟩
          · rw [readLoop, if_neg hfull, if_pos hp, List.take_append_of_le_length hle]
          · rw [List.flatten_cons, List.drop_append_of_le_length hle]
        · omega
      · -- the whole piece goes into the buffer
        obtain ⟨hok, herr⟩ := readLoop_spec fin n ps (got ++ p) (by rw [List.length_append]; omega)
        rw [List.length_append] at hok herr
        have hsub : n - (got.length + p.length) = n - got.length - p.length := by omega
        have hlt : p.length ≤ n - got.length := by omega
        constructor
        · intro h
          obtain ⟨ps', h1, h2⟩ := hok (by omega)
          refine ⟨ps', ?_, ?_⟩
          · rw [readLoop, if_neg hfull, if_neg hp, h1, hsub, List.take_append, List.take_of_length_le hlt,
              List.append_assoc]
          · rw [h2, hsub, List.drop_append, List.drop_of_length_le hlt, List.nil_append]
        · intro h
          rw [readLoop, if_neg hfull, if_neg hp, herr (by omega), List.append_assoc]

theorem Reader.readFull_of_le {r : Reader} {n : Nat} (h : n ≤ r.stream.length) :
    ∃ r', r.readFull n = (.ok (r.stream.take n), r') ∧ r'.stream = r.stream.drop n ∧ r'.fin = r.fin := by
  obtain ⟨ps', h1, h2⟩ := (readLoop_spec r.fin n r.pieces [] (Nat.zero_le n)).1 (by simpa [Reader.stream] using h)
  refine ⟨{ r with pieces := ps' }, ?_, ?_, rfl⟩
  · simp only [Reader.readFull, h1, List.nil_append, List.length_nil, Nat.sub_zero, Reader.stream]
  · simpa [Reader.stream] using h2

theorem Reader.readFull_of_lt {r : Reader} {n : Nat} (h : r.stream.length < n) :
    r.readFull n = (.error (r.fin.report r.stream), { r with pieces := [] }) := by
  have h1 := (readLoop_spec r.fin n r.pieces [] (Nat.zero_le n)).2 (by simpa [Reader.stream] using h)
  simp only [Reader.readFull, h1, List.nil_append, Reader.stream]

/-! ## One response -/

/-- `BodyLen` and `MagicNum` as the first 36 bytes of a stream spell them. -/
def bodyLenField (s : List UInt8) : UInt32 := uint32 (sliceOf s 32 36)
def magicField (s : List UInt8) : UInt32 := uint32 (sliceOf s 24 28)

/-- **The frame grammar**: 36 bytes whose magic field is right, then at least `BodyLen` bytes. -/
def Framed (s : List UInt8) : Prop :=
  36 ≤ s.length ∧ magicField s = 0xfb202202 ∧ 36 + (bodyLenField s).toNat ≤ s.length

theorem Header.readFrom_of_le (h : Header) {r : Reader} (hl : headerSize ≤ r.stream.length) :
    ∃ (h' : Header) (r' : Reader), h.readFrom r = (none, h', r') ∧ h'.bytes = r.stream.take headerSize ∧
      h'.magicNum = magicField r.stream ∧ h'.bodyLen = bodyLenField r.stream ∧
      r'.stream = r.stream.drop headerSize ∧ r'.fin = r.fin := by
  obtain ⟨r', h1, h2, h3⟩ := Reader.readFull_of_le hl
  have hlen : headerSize ≤ (r.stream.take headerSize).length := by rw [List.length_take]; omega
  refine ⟨Header.ofBytes (r.stream.take headerSize) hlen, r', ?_, ?_, ?_, ?_, h2, h3⟩
  · simp only [Header.readFrom, h1, Header.unmarshalFrom_eq h hlen]
  · rw [Header.bytes_ofBytes, List.take_take, Nat.min_self]
  · simp only [Header.ofBytes, magicField]
    rw [Bytes.sliceOf_take (by decide) hl]
  · simp only [Header.ofBytes, bodyLenField]
    rw [Bytes.sliceOf_take (by decide) hl]

theorem Header.readFrom_of_lt (h : Header) {r : Reader} (hl : r.stream.length < headerSize) :
    h.readFrom r = (some (r.fin.report r.stream), h, { r with pieces := [] }) := by
  simp only [Header.readFrom, Reader.readFull_of_lt hl]

/-- The three ways a call ends once 36 bytes are there. -/
theorem readResponseFrom_of_le {r : Reader} (hl : headerSize ≤ r.stream.length) :
    (magicField r.stream ≠ headerMagic ∧ ∃ r', r'.stream = r.stream.drop headerSize ∧ r'.fin = r.fin ∧
        readResponseFrom r = (none, some (.magic (magicField r.stream)), r')) ∨
      (magicField r.stream = headerMagic ∧ r.stream.length < headerSize + (bodyLenField r.stream).toNat ∧
        ∃ e r', readResponseFrom r = (none, some e, r')) ∨
      (magicField r.stream = headerMagic ∧ headerSize + (bodyLenField r.stream).toNat ≤ r.stream.length ∧
        ∃ (h : Header) (r' : Reader), h.bytes = r.stream.take headerSize ∧
          r'.stream = r.stream.drop (headerSize + (bodyLenField r.stream).toNat) ∧ r'.fin = r.fin ∧
          readResponseFrom r =
            (some ⟨h, (r.stream.drop headerSize).take (bodyLenField r.stream).toNat⟩, none, r')) := by
  obtain ⟨h, r₁, hread, hbytes, hmag, hbl, hstr, hfin⟩ := Header.zero.readFrom_of_le hl
  by_cases hm : magicField r.stream = headerMagic
  · have hmag' : ¬ h.magicNum ≠ headerMagic := by rw [hmag, hm]; exact fun hne => hne rfl
    have hlen₁ : r₁.stream.length = r.stream.length - headerSize := by rw [hstr, List.length_drop]
    by_cases hb : headerSize + (bodyLenField r.stream).toNat ≤ r.stream.length
    · obtain ⟨r₂, h1, h2, h3⟩ := Reader.readFull_of_le (r := r₁) (n := (bodyLenField r.stream).toNat) (by omega)
      refine .inr (.inr ⟨hm, hb, h, r₂, hbytes, ?_, by rw [h3, hfin], ?_⟩)
      · rw [h2, hstr, List.drop_drop]
      · simp only [readResponseFrom, hread]
        rw [if_neg hmag', hbl, h1, hstr]
    · have h1 := Reader.readFull_of_lt (r := r₁) (n := (bodyLenField r.stream).toNat) (by omega)
      refine .inr (.inl ⟨hm, by omega, r₁.fin.report r₁.stream, { r₁ with pieces := [] }, ?_⟩)
      simp only [readResponseFrom, hread]
      rw [if_neg hmag', hbl, h1]
  · refine .inl ⟨hm, r₁, hstr, hfin, ?_⟩
    have hmag' : h.magicNum ≠ headerMagic := by rw [hmag]; exact hm
    simp only [readResponseFrom, hread]
    rw [if_pos hmag', hmag]

/-! ## The reader that ends with EOF -/

theorem readFull_of_lt : ∀ (n : Nat) (ps : List (List UInt8)), ps.flatten.length < n →
    ∃ e r, readFull n ps = (.error e, r)
  | 0, _, h => absurd h (Nat.not_lt_zero _)
  | n + 1, [], _ => ⟨.eof, [], by rw [readFull]⟩
  | n + 1, p :: ps, h => by
    rw [List.flatten_cons, List.length_append] at h
    obtain ⟨e, r, he⟩ := readFull_of_lt (n + 1 - p.length) ps (by omega)
    rw [readFull, if_neg (by omega), he]
    cases e with
    | eof => exact ⟨_, r, rfl⟩
    | unexpectedEof => exact ⟨_, r, rfl⟩
    | shortHeader => exact ⟨_, r, rfl⟩
    | magic got => exact ⟨_, r, rfl⟩

/-- **On a reader that ends with EOF both models return the same response.** -/
theorem readResponse_eq_readResponseFrom (ps : List (List UInt8)) :
    (readResponse ps).1.toOption = (readResponseFrom ⟨ps, .eof⟩).1 := by
  unfold readResponse readResponseFrom Header.read Header.readFrom
  rcases Nat.lt_or_ge ps.flatten.length headerSize with hl | hl
  · obtain ⟨e, r, he⟩ := readFull_of_lt headerSize ps hl
    have he' := Reader.readFull_of_lt (r := ⟨ps, .eof⟩) hl
    simp only [he, he']
    rfl
  · obtain ⟨r, h1, h2⟩ := readFull_of_le headerSize ps hl
    obtain ⟨r', h3, h4, -⟩ := Reader.readFull_of_le (r := ⟨ps, .eof⟩) hl
    -- the rests may be cut differently, but they are one stream
    have hrest : r.flatten = r'.stream := by rw [h2, h4]; rfl
    have hlen : headerSize ≤ (ps.flatten.take headerSize).length := by rw [List.length_take]; omega
    generalize hbs : ps.flatten.take headerSize = bs at h1 hlen
    have h3' : Reader.readFull headerSize ⟨ps, .eof⟩ = (.ok bs, r') := by rw [h3, ← hbs]; rfl
    have hu : Header.zero.unmarshal bs = .ok (Header.ofBytes bs hlen) := by
      unfold Header.unmarshal
      rw [if_neg (Nat.not_lt.2 hlen), Provider.copy_of_length]
      rfl
    simp only [h1, h3', hu, Header.unmarshalFrom_eq Header.zero hlen]
    by_cases hm : (Header.ofBytes bs hlen).magicNum ≠ headerMagic
    · rw [if_pos hm, if_pos hm]
      rfl
    · rw [if_neg hm, if_neg hm]
      generalize (Header.ofBytes bs hlen).bodyLen.toNat = n
      rcases Nat.lt_or_ge r.flatten.length n with hb | hb
      · obtain ⟨e, r₂, he⟩ := readFull_of_lt n r hb
        have he' := Reader.readFull_of_lt (r := r') (n := n) (by rw [← hrest]; exact hb)
        rw [he, he']
        rfl
      · obtain ⟨r₂, he, -⟩ := readFull_of_le n r hb
        obtain ⟨r₃, he', -⟩ := Reader.readFull_of_le (r := r') (n := n) (by rw [← hrest]; exact hb)
        rw [he, he', hrest]
        rfl

/-- **`ReadResponse` accepts exactly the frame grammar**, for every stream, every cut into pieces and every end of the
reader.  Success returns the header that marshals to the first 36 bytes and the announced body, and leaves the rest of
the stream unread; a wrong magic leaves what is behind the 36 bytes; every failure is a nil response with an error. -/
theorem readResponse_accepts_frames (r : Reader) :
    ((readResponseFrom r).2.1 = none ↔ Framed r.stream) ∧
    ((readResponseFrom r).2.1 = none → ∃ resp : Response, (readResponseFrom r).1 = some resp ∧
      (∀ buf : List UInt8, buf.length = 36 → resp.header.marshalInto buf = (none, r.stream.take 36)) ∧
      resp.body = (r.stream.drop 36).take (bodyLenField r.stream).toNat ∧
      (readResponseFrom r).2.2.stream = r.stream.drop (36 + (bodyLenField r.stream).toNat) ∧
      (readResponseFrom r).2.2.fin = r.fin) ∧
    (36 ≤ r.stream.length → magicField r.stream ≠ 0xfb202202 →
      (readResponseFrom r).2.1 = some (.magic (magicField r.stream)) ∧
      (readResponseFrom r).2.2.stream = r.stream.drop 36 ∧ (readResponseFrom r).2.2.fin = r.fin) ∧
    ((readResponseFrom r).2.1 ≠ none → (readResponseFrom r).1 = none) := by
  rcases Nat.lt_or_ge r.stream.length headerSize with hl | hl
  · -- the header itself is cut off
    have hread := Header.zero.readFrom_of_lt hl
    have hres : readResponseFrom r = (none, some (r.fin.report r.stream), { r with pieces := [] }) := by
      simp only [readResponseFrom, hread]
    have hl' : r.stream.length < 36 := hl
    rw [hres]
    refine ⟨⟨by simp, fun hf => ?_⟩, by simp, by omega, by simp⟩
    exact absurd hf.1 (by omega)
  · rcases readResponseFrom_of_le hl with ⟨hm, r', hs, hfin, hres⟩ | ⟨hm, hb, e, r', hres⟩ |
      ⟨hm, hb, h, r', hbytes, hs, hfin, hres⟩
    · rw [hres]
      refine ⟨⟨by simp, fun hf => absurd hf.2.1 hm⟩, by simp, fun _ _ => ⟨rfl, hs, hfin⟩, by simp⟩
    · rw [hres]
      refine ⟨⟨by simp, fun hf => ?_⟩, by simp, fun _ hne => absurd hm hne, by simp⟩
      have hb' : r.stream.length < 36 + (bodyLenField r.stream).toNat := hb
      exact absurd hf.2.2 (by omega)
    · rw [hres]
      refine ⟨⟨fun _ => ⟨hl, hm, hb⟩, fun _ => rfl⟩, fun _ => ⟨_, rfl, ?_, rfl, hs, hfin⟩,
        fun _ hne => absurd hm hne, by simp⟩
      intro buf hbuf
      have hd : buf.drop headerSize = [] := List.drop_of_length_le (Nat.le_of_eq hbuf)
      rw [Header.marshalInto_eq h (Nat.le_of_eq hbuf.symm), hbytes, hd, List.append_nil]
      rfl

end Xrtc
