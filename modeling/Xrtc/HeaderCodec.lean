import Xrtc.Header
/-!
# HeaderCodec — `Marshal` and `Unmarshal` as calls, against each other and against `xhead_t`

`Header.lean` has the codec's results; here are the calls with what they leave behind: the buffer after `Marshal`, the
header after `Unmarshal`, also when they return the error.  The C++ side is the cast to `xhead_t*`, with the members at
the offsets natural alignment gives them.
-/
namespace Xrtc

open Bytes (leBytes leNat sliceOf putAt Member)

/-- `Header.Marshal` as a call: the error it returns and the buffer it leaves. -/
def Header.marshalInto (h : Header) (buf : List UInt8) : Option String × List UInt8 :=
  if buf.length < headerSize then (some shortBuffer, buf)
  else
    let buf := putAt buf 0 (putUint16 h.id)
    let buf := putAt buf 2 (putUint16 h.version)
    let buf := putAt buf 4 (putUint32 h.logId)
    let buf := putAt buf 8 h.provider.val
    let buf := putAt buf 24 (putUint32 h.magicNum)
    let buf := putAt buf 28 (putUint32 h.reserved)
    let buf := putAt buf 32 (putUint32 h.bodyLen)
    (none, buf)

/-- `Header.Unmarshal` as a call: the error it returns and the header it leaves. -/
def Header.unmarshalFrom (h : Header) (buf : List UInt8) : Option String × Header :=
  if buf.length < headerSize then (some shortBuffer, h)
  else
    let h := { h with id := uint16 (sliceOf buf 0 2) }
    let h := { h with version := uint16 (sliceOf buf 2 4) }
    let h := { h with logId := uint32 (sliceOf buf 4 8) }
    let h := { h with provider := h.provider.copy (sliceOf buf 8 24) }
    let h := { h with magicNum := uint32 (sliceOf buf 24 28) }
    let h := { h with reserved := uint32 (sliceOf buf 28 32) }
    let h := { h with bodyLen := uint32 (sliceOf buf 32 36) }
    (none, h)

/-- The members of `struct xhead_t`, in the order of their declaration. -/
def xheadMembers : List Member := [⟨2, 2⟩, ⟨2, 2⟩, ⟨4, 4⟩, ⟨16, 1⟩, ⟨4, 4⟩, ⟨4, 4⟩, ⟨4, 4⟩]

/-- `(xhead_t*)buf`, every member at the offset the declaration gives it. -/
def xheadCast (buf : List UInt8) : Xhead :=
  { id := uint16 (Bytes.memberAt xheadMembers buf 0)
    version := uint16 (Bytes.memberAt xheadMembers buf 1)
    logId := uint32 (Bytes.memberAt xheadMembers buf 2)
    provider := Bytes.memberAt xheadMembers buf 3
    magicNum := uint32 (Bytes.memberAt xheadMembers buf 4)
    reserved := uint32 (Bytes.memberAt xheadMembers buf 5)
    bodyLen := uint32 (Bytes.memberAt xheadMembers buf 6) }

/-- A Go header and an `xhead_t` with the same fields. -/
def Header.sameFields (h : Header) (x : Xhead) : Prop :=
  h.id = x.id ∧ h.version = x.version ∧ h.logId = x.logId ∧ h.provider.val = x.provider ∧
    h.magicNum = x.magicNum ∧ h.reserved = x.reserved ∧ h.bodyLen = x.bodyLen

/-! ## The calls and the codec's results -/

theorem Header.marshalInto_short (h : Header) {buf : List UInt8} (hs : buf.length < headerSize) :
    h.marshalInto buf = (some shortBuffer, buf) := if_pos hs

theorem Header.unmarshalFrom_short (h : Header) {buf : List UInt8} (hs : buf.length < headerSize) :
    h.unmarshalFrom buf = (some shortBuffer, h) := if_pos hs

theorem Header.marshalInto_eq (h : Header) {buf : List UInt8} (hlen : headerSize ≤ buf.length) :
    h.marshalInto buf = (none, h.bytes ++ buf.drop headerSize) := by
  have hns : ¬ buf.length < headerSize := Nat.not_lt.2 hlen
  have hm := Header.marshal_eq h buf hlen
  unfold Header.marshal at hm
  rw [if_neg hns] at hm
  unfold Header.marshalInto
  rw [if_neg hns]
  exact congrArg (Prod.mk none) (Except.ok.inj hm)

theorem Provider.copy_of_length (p : Provider) {src : List UInt8} (h : src.length = 16) :
    p.copy src = ⟨src, h⟩ := by
  apply Subtype.ext
  have ht : src.take 16 = src := List.take_of_length_le (by omega)
  have hd : p.val.drop src.length = [] := List.drop_of_length_le (by simp [p.property, h])
  simp only [Provider.copy, ht, hd, List.append_nil]

/-- The header `Unmarshal` leaves, whatever was in it before. -/
def Header.ofBytes (buf : List UInt8) (hlen : headerSize ≤ buf.length) : Header :=
  { id := uint16 (sliceOf buf 0 2)
    version := uint16 (sliceOf buf 2 4)
    logId := uint32 (sliceOf buf 4 8)
    provider := ⟨sliceOf buf 8 24, Bytes.length_sliceOf (Nat.le_trans (by decide) hlen)⟩
    magicNum := uint32 (sliceOf buf 24 28)
    reserved := uint32 (sliceOf buf 28 32)
    bodyLen := uint32 (sliceOf buf 32 36) }

theorem Header.unmarshalFrom_eq (h : Header) {buf : List UInt8} (hlen : headerSize ≤ buf.length) :
    h.unmarshalFrom buf = (none, Header.ofBytes buf hlen) := by
  have hns : ¬ buf.length < headerSize := Nat.not_lt.2 hlen
  unfold Header.unmarshalFrom
  rw [if_neg hns]
  simp only [Header.ofBytes]
  rw [Provider.copy_of_length]

/-! ## Both directions of the round trip -/

theorem uint16_putUint16 (v : UInt16) : uint16 (putUint16 v) = v := by
  unfold uint16 putUint16
  have hv : v.toNat < 256 ^ 2 := v.toNat_lt
  rw [Bytes.leNat_leBytes_of_lt hv, UInt16.ofNat_toNat]

theorem putUint16_uint16 {b : List UInt8} (h : b.length = 2) : putUint16 (uint16 b) = b := by
  have hlt : leNat b < 2 ^ 16 := by
    have := Bytes.leNat_lt b
    rwa [h] at this
  unfold putUint16 uint16
  rw [UInt16.toNat_ofNat', Nat.mod_eq_of_lt hlt, ← h, Bytes.leBytes_leNat]

theorem putUint32_uint32 {b : List UInt8} (h : b.length = 4) : putUint32 (uint32 b) = b := by
  have hlt : leNat b < 2 ^ 32 := by
    have := Bytes.leNat_lt b
    rwa [h] at this
  unfold putUint32 uint32
  rw [UInt32.toNat_ofNat', Nat.mod_eq_of_lt hlt, ← h, Bytes.leBytes_leNat]

/-- **Decoding what was encoded**: behind the header's bytes any rest may follow. -/
theorem Header.ofBytes_bytes (h : Header) (rest : List UInt8) (hlen : headerSize ≤ (h.bytes ++ rest).length) :
    Header.ofBytes (h.bytes ++ rest) hlen = h := by
  obtain ⟨h0, h2, h4, h8, h24, h28, h32⟩ := h.sliceOf_bytes rest
  simp only [Header.ofBytes, h0, h2, h4, h8, h24, h28, h32, uint16_putUint16, uint32_putUint32]

/-- **Encoding what was decoded**: the seven slices are the 36 bytes, each once and in order. -/
theorem Header.bytes_ofBytes {buf : List UInt8} (hlen : headerSize ≤ buf.length) :
    (Header.ofBytes buf hlen).bytes = buf.take headerSize := by
  have hl : 36 ≤ buf.length := hlen
  have hs : ∀ i j, j ≤ 36 → (sliceOf buf i j).length = j - i := fun i j hj =>
    Bytes.length_sliceOf (Nat.le_trans hj hl)
  simp only [Header.bytes, Header.ofBytes]
  rw [putUint16_uint16 (hs 0 2 (by decide)), putUint16_uint16 (hs 2 4 (by decide)),
    putUint32_uint32 (hs 4 8 (by decide)), putUint32_uint32 (hs 24 28 (by decide)),
    putUint32_uint32 (hs 28 32 (by decide)), putUint32_uint32 (hs 32 36 (by decide))]
  iterate 6 rw [Bytes.sliceOf_append_sliceOf (by decide) (by decide)]
  simp [sliceOf, headerSize]

/-- **The cast finds the fields where the Go code puts them**, and nothing is padded. -/
theorem xheadCast_eq (buf : List UInt8) : xheadCast buf = xheadAt buf := rfl

theorem Header.ofBytes_sameFields {buf : List UInt8} (hlen : headerSize ≤ buf.length) :
    (Header.ofBytes buf hlen).sameFields (xheadCast buf) := by
  rw [xheadCast_eq]
  exact ⟨rfl, rfl, rfl, rfl, rfl, rfl, rfl⟩

/-- **The header codec round trip and the layout both languages share.**  `Marshal` replaces the first 36 bytes of a
buffer by bytes that depend on the header alone, keeps the rest, and `Unmarshal` gives the header back; on 36 bytes
`Unmarshal` and then `Marshal` give these bytes back, and the fields are the ones the C++ server reads through
`xhead_t`, whose size is 36.  On a short buffer both return the error and leave buffer and header as they were. -/
theorem header_codec :
    Bytes.structSize xheadMembers = 36 ∧
    (∀ h : Header, ∃ bs : List UInt8, bs.length = 36 ∧ ∀ buf : List UInt8, 36 ≤ buf.length →
      h.marshalInto buf = (none, bs ++ buf.drop 36) ∧
        ∀ h₀ : Header, h₀.unmarshalFrom (bs ++ buf.drop 36) = (none, h)) ∧
    (∀ (b : List UInt8) (h₀ : Header), b.length = 36 → ∃ h, h₀.unmarshalFrom b = (none, h) ∧
      h.sameFields (xheadCast b) ∧ ∀ buf : List UInt8, buf.length = 36 → h.marshalInto buf = (none, b)) ∧
    (∀ (h : Header) (buf : List UInt8), buf.length < 36 →
      (h.marshalInto buf = (some "no enough buffer for header", buf)) ∧
        h.unmarshalFrom buf = (some "no enough buffer for header", h)) := by
  refine ⟨by decide, ?_, ?_, ?_⟩
  · intro h
    refine ⟨h.bytes, h.length_bytes, fun buf hlen => ⟨h.marshalInto_eq hlen, fun h₀ => ?_⟩⟩
    have hl : headerSize ≤ (h.bytes ++ buf.drop 36).length := by
      rw [List.length_append, h.length_bytes]
      exact Nat.le_add_right _ _
    rw [h₀.unmarshalFrom_eq hl, Header.ofBytes_bytes]
  · intro b h₀ hb
    have hl : headerSize ≤ b.length := Nat.le_of_eq hb.symm
    have hwrite : ∀ buf : List UInt8, buf.length = 36 → (Header.ofBytes b hl).marshalInto buf = (none, b) := by
      intro buf hbuf
      rw [Header.marshalInto_eq _ (Nat.le_of_eq hbuf.symm), Header.bytes_ofBytes]
      have hd : buf.drop headerSize = [] := List.drop_of_length_le (Nat.le_of_eq hbuf)
      have ht : b.take headerSize = b := List.take_of_length_le (Nat.le_of_eq hb)
      rw [hd, ht, List.append_nil]
    exact ⟨Header.ofBytes b hl, h₀.unmarshalFrom_eq hl, Header.ofBytes_sameFields hl, hwrite⟩
  · intro h buf hs
    exact ⟨h.marshalInto_short hs, h.unmarshalFrom_short hs⟩

end Xrtc
