import Xrtc.Bytes
/-!
# Header — the 36-byte frame header on both sides of the wire

The Go side (`signaling/src/framework/xrpc/header.go`) marshals a `Header` field by field into a byte slice; the C++
side (`rtcserver/src/base/xhead.hpp`) reads the same bytes through a pointer to `xhead_t`, whose natural alignment on a
little-endian host puts the fields at the offsets the Go code writes them to.
-/
namespace Xrtc

open Bytes (leBytes leNat sliceOf putAt)

/-- `HEADER_SIZE` in Go, `XHEAD_SIZE` in C++. -/
def headerSize : Nat := 36

/-- `HEADER_MAGICNUM` in Go, `XHEAD_MAGIC` in C++. -/
def headerMagic : UInt32 := 0xfb202202

/-- `binary.LittleEndian.PutUint16` and `PutUint32`, as the bytes they store. -/
def putUint16 (v : UInt16) : List UInt8 := leBytes 2 v.toNat
def putUint32 (v : UInt32) : List UInt8 := leBytes 4 v.toNat

/-- `binary.LittleEndian.Uint16` and `Uint32` of a slice of that many bytes. -/
def uint16 (b : List UInt8) : UInt16 := UInt16.ofNat (leNat b)
def uint32 (b : List UInt8) : UInt32 := UInt32.ofNat (leNat b)

/-- The Go array type `[16]byte`. -/
abbrev Provider := { l : List UInt8 // l.length = 16 }

def Provider.zero : Provider := ⟨List.replicate 16 0, rfl⟩

/-- `copy(h.Provider[:], src)`: the copy stops at the shorter of the two. -/
def Provider.copy (p : Provider) (src : List UInt8) : Provider :=
  ⟨src.take 16 ++ p.val.drop (src.take 16).length, by
    have hp := p.property
    simp only [List.length_append, List.length_drop, List.length_take]
    omega⟩

structure Header where
  id : UInt16
  version : UInt16
  logId : UInt32
  provider : Provider
  magicNum : UInt32
  reserved : UInt32
  bodyLen : UInt32
  deriving DecidableEq

/-- The zero value of a Go `Header`. -/
def Header.zero : Header := ⟨0, 0, 0, Provider.zero, 0, 0, 0⟩

/-- `errors.New` text of both codec functions. -/
def shortBuffer : String := "no enough buffer for header"

/-- `Header.Marshal`: the seven stores, in order. -/
def Header.marshal (h : Header) (buf : List UInt8) : Except String (List UInt8) :=
  if buf.length < headerSize then .error shortBuffer
  else
    let buf := putAt buf 0 (putUint16 h.id)
    let buf := putAt buf 2 (putUint16 h.version)
    let buf := putAt buf 4 (putUint32 h.logId)
    let buf := putAt buf 8 h.provider.val
    let buf := putAt buf 24 (putUint32 h.magicNum)
    let buf := putAt buf 28 (putUint32 h.reserved)
    let buf := putAt buf 32 (putUint32 h.bodyLen)
    .ok buf

def Header.unmarshal (h : Header) (buf : List UInt8) : Except String Header :=
  if buf.length < headerSize then .error shortBuffer
  else
    .ok { id := uint16 (sliceOf buf 0 2)
          version := uint16 (sliceOf buf 2 4)
          logId := uint32 (sliceOf buf 4 8)
          provider := h.provider.copy (sliceOf buf 8 24)
          magicNum := uint32 (sliceOf buf 24 28)
          reserved := uint32 (sliceOf buf 28 32)
          bodyLen := uint32 (sliceOf buf 32 36) }

/-- The 36 bytes of a header, in the order of the stores. -/
def Header.bytes (h : Header) : List UInt8 :=
  putUint16 h.id ++ putUint16 h.version ++ putUint32 h.logId ++ h.provider.val ++ putUint32 h.magicNum ++
    putUint32 h.reserved ++ putUint32 h.bodyLen

structure Xhead where
  id : UInt16
  version : UInt16
  logId : UInt32
  provider : List UInt8
  magicNum : UInt32
  reserved : UInt32
  bodyLen : UInt32
  deriving DecidableEq

/-- `(xhead_t*)buf` on a little-endian host: natural alignment leaves no padding between the fields. -/
def xheadAt (buf : List UInt8) : Xhead :=
  { id := uint16 (sliceOf buf 0 2)
    version := uint16 (sliceOf buf 2 4)
    logId := uint32 (sliceOf buf 4 8)
    provider := sliceOf buf 8 24
    magicNum := uint32 (sliceOf buf 24 28)
    reserved := uint32 (sliceOf buf 28 32)
    bodyLen := uint32 (sliceOf buf 32 36) }

@[simp] theorem length_putUint16 (v : UInt16) : (putUint16 v).length = 2 := Bytes.length_leBytes 2 _

@[simp] theorem length_putUint32 (v : UInt32) : (putUint32 v).length = 4 := Bytes.length_leBytes 4 _

@[simp] theorem Header.length_bytes (h : Header) : h.bytes.length = headerSize := by
  simp [Header.bytes, h.provider.property, headerSize]

theorem uint32_putUint32 (v : UInt32) : uint32 (putUint32 v) = v := by
  unfold uint32 putUint32
  have hv : v.toNat < 256 ^ 4 := v.toNat_lt
  rw [Bytes.leNat_leBytes_of_lt hv, UInt32.ofNat_toNat]

/-- **`Marshal` writes the header's bytes over the first 36 and leaves the rest.** -/
theorem Header.marshal_eq (h : Header) (buf : List UInt8) (hlen : headerSize ≤ buf.length) :
    h.marshal buf = .ok (h.bytes ++ buf.drop headerSize) := by
  have hp := h.provider.property
  have hns : ¬ buf.length < headerSize := Nat.not_lt.2 hlen
  -- each store lands right after the bytes already written
  have h0 : putAt buf 0 (putUint16 h.id) = putUint16 h.id ++ buf.drop 2 := by simp [putAt]
  have hstep : ∀ (done src : List UInt8) (off k : Nat), done.length = off → k = off →
      putAt (done ++ buf.drop off) k src = (done ++ src) ++ buf.drop (off + src.length) := by
    intro done src off k hd hk
    subst hk hd
    rw [Bytes.putAt_append, List.drop_drop]
  unfold Header.marshal
  rw [if_neg hns, h0]
  simp only
  rw [hstep _ _ 2 2 (by simp) rfl, length_putUint16, hstep _ _ 4 4 (by simp) rfl, length_putUint32,
    hstep _ _ 8 8 (by simp) rfl, hp, hstep _ _ 24 24 (by simp [hp]) rfl, length_putUint32,
    hstep _ _ 28 28 (by simp [hp]) rfl, length_putUint32, hstep _ _ 32 32 (by simp [hp]) rfl, length_putUint32]
  rfl

/-- **Each field of a marshalled header is found in its own slice**, whatever follows the header. -/
theorem Header.sliceOf_bytes (h : Header) (rest : List UInt8) :
    sliceOf (h.bytes ++ rest) 0 2 = putUint16 h.id ∧ sliceOf (h.bytes ++ rest) 2 4 = putUint16 h.version ∧
      sliceOf (h.bytes ++ rest) 4 8 = putUint32 h.logId ∧ sliceOf (h.bytes ++ rest) 8 24 = h.provider.val ∧
      sliceOf (h.bytes ++ rest) 24 28 = putUint32 h.magicNum ∧
      sliceOf (h.bytes ++ rest) 28 32 = putUint32 h.reserved ∧
      sliceOf (h.bytes ++ rest) 32 36 = putUint32 h.bodyLen := by
  have hp := h.provider.property
  -- the bytes before a field, the field, and the bytes behind it
  have hfield : ∀ (a w b : List UInt8) (i j : Nat), h.bytes ++ rest = a ++ w ++ b → a.length = i →
      w.length = j - i → sliceOf (h.bytes ++ rest) i j = w := by
    intro a w b i j he ha hw
    rw [he]
    exact Bytes.sliceOf_middle ha hw
  let p2 := putUint16 h.id ++ putUint16 h.version
  let p8 := p2 ++ putUint32 h.logId
  let p24 := p8 ++ h.provider.val
  let p28 := p24 ++ putUint32 h.magicNum
  let p32 := p28 ++ putUint32 h.reserved
  let s32 := putUint32 h.bodyLen ++ rest
  let s28 := putUint32 h.reserved ++ s32
  let s24 := putUint32 h.magicNum ++ s28
  let s8 := h.provider.val ++ s24
  let s4 := putUint32 h.logId ++ s8
  refine ⟨?_, ?_, ?_, ?_, ?_, ?_, ?_⟩
  · exact hfield [] _ (putUint16 h.version ++ s4) 0 2 (by simp [Header.bytes, s4, s8, s24, s28, s32]) rfl (by simp)
  · exact hfield (putUint16 h.id) _ s4 2 4 (by simp [Header.bytes, s4, s8, s24, s28, s32]) (by simp) (by simp)
  · exact hfield p2 _ s8 4 8 (by simp [Header.bytes, p2, s8, s24, s28, s32]) (by simp [p2]) (by simp)
  · exact hfield p8 _ s24 8 24 (by simp [Header.bytes, p2, p8, s24, s28, s32]) (by simp [p2, p8]) hp
  · exact hfield p24 _ s28 24 28 (by simp [Header.bytes, p2, p8, p24, s28, s32]) (by simp [p2, p8, p24, hp]) (by simp)
  · exact hfield p28 _ s32 28 32 (by simp [Header.bytes, p2, p8, p24, p28, s32]) (by simp [p2, p8, p24, p28, hp])
      (by simp)
  · exact hfield p32 _ rest 32 36 (by simp [Header.bytes, p2, p8, p24, p28, p32])
      (by simp [p2, p8, p24, p28, p32, hp]) (by simp)

/-- **The server reads the client's fields**: through `xhead_t`, any buffer that starts with a marshalled header shows
that header's `log_id`, `magic_num` and `body_len`. -/
theorem xheadAt_bytes (h : Header) (rest : List UInt8) :
    (xheadAt (h.bytes ++ rest)).logId = h.logId ∧ (xheadAt (h.bytes ++ rest)).magicNum = h.magicNum ∧
      (xheadAt (h.bytes ++ rest)).bodyLen = h.bodyLen := by
  obtain ⟨-, -, h4, -, h24, -, h32⟩ := h.sliceOf_bytes rest
  simp only [xheadAt]
  rw [h4, h24, h32, uint32_putUint32, uint32_putUint32, uint32_putUint32]
  exact ⟨rfl, rfl, rfl⟩

/-- The header the server reads depends on the first 36 bytes only. -/
theorem xheadAt_append {a b : List UInt8} (h : headerSize ≤ a.length) : xheadAt (a ++ b) = xheadAt a := by
  unfold headerSize at h
  have hs : ∀ i j, j ≤ 36 → sliceOf (a ++ b) i j = sliceOf a i j := fun i j hj =>
    Bytes.sliceOf_append_left (Nat.le_trans hj h)
  simp only [xheadAt]
  rw [hs 0 2 (by omega), hs 2 4 (by omega), hs 4 8 (by omega), hs 8 24 (by omega), hs 24 28 (by omega),
    hs 28 32 (by omega), hs 32 36 (by omega)]

theorem xheadAt_take {buf : List UInt8} (h : headerSize ≤ buf.length) :
    xheadAt (buf.take headerSize) = xheadAt buf := by
  conv => rhs; rw [← List.take_append_drop headerSize buf]
  rw [xheadAt_append (by simp; omega)]

end Xrtc
