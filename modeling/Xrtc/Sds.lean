import Mathlib.Algebra.Group.Int.Defs
import Mathlib.Algebra.Group.Nat.Defs
/-!
# Sds — the length fields of an sds string

`sdsempty`, `sdsMakeRoomFor` and `sdsIncrLen` of `rtc_base/sds.cc` on the three numbers that decide where a caller may
write: the `len` and `free` fields of `struct sdshdr`, two C ints, and the size of the block they lie in.  Arguments and
intermediate values are `size_t`, 64 bits; the allocation is assumed to succeed.
-/
namespace Xrtc
namespace Sds

/-- An `int` converted to `size_t`, and a `size_t` or a wider difference converted to `int`. -/
def toSize (x : Int) : Nat := (x % 2 ^ 64).toNat
def toInt (x : Int) : Int := Int.bmod x (2 ^ 32)

/-- `struct sdshdr` and the bytes of the block it heads. -/
structure Sdshdr where
  len : Int
  free : Int
  block : Nat
  deriving DecidableEq

/-- `sizeof(struct sdshdr)` and `SDS_MAX_PREALLOC`. -/
def sdshdrSize : Nat := 8
def sdsMaxPrealloc : Nat := 1024 * 1024

def sdsempty : Sdshdr := ⟨0, 0, sdshdrSize + 0 + 1⟩

def sdslen (s : Sdshdr) : Nat := toSize s.len

def sdsavail (s : Sdshdr) : Nat := toSize s.free

def sdsMakeRoomFor (s : Sdshdr) (addlen : Nat) : Sdshdr :=
  let free := sdsavail s
  if addlen ≤ free then s
  else
    let len := sdslen s
    let newlen : Nat := (len + addlen) % 2 ^ 64
    let newlen : Nat := if newlen < sdsMaxPrealloc then newlen * 2 % 2 ^ 64 else (newlen + sdsMaxPrealloc) % 2 ^ 64
    { s with free := toInt (toSize ((newlen : Int) - len)), block := (sdshdrSize + newlen + 1) % 2 ^ 64 }

/-- `sdsIncrLen` past its asserts. -/
def sdsIncrLen (s : Sdshdr) (incr : Int) : Sdshdr :=
  { s with len := toInt (s.len + incr), free := toInt (s.free - incr) }

/-- The asserts of `sdsIncrLen`: enough room before, and no negative room after. -/
def IncrAsserts (s : Sdshdr) (incr : Int) : Prop := incr ≤ s.free ∧ 0 ≤ (sdsIncrLen s incr).free

/-- The fields tell the truth about a string of `n` bytes: `len` is its length, and `free` is what the block has left
beside the terminating NUL. -/
structure Sdshdr.Holds (s : Sdshdr) (n : Nat) : Prop where
  len : s.len = n
  free_nonneg : 0 ≤ s.free
  free_lt : s.free < 2 ^ 31
  block : (s.block : Int) = sdshdrSize + n + s.free + 1

theorem toInt_of_lt {x : Int} (h0 : 0 ≤ x) (h : x < 2 ^ 31) : toInt x = x := by
  unfold toInt
  rw [Int.bmod_def]
  omega

theorem toInt_of_ge {x : Int} (h : 2 ^ 31 ≤ x) (hu : x < 2 ^ 32) : toInt x = x - 2 ^ 32 := by
  unfold toInt
  rw [Int.bmod_def]
  omega

theorem toInt_lt (x : Int) : toInt x < 2 ^ 31 := by
  unfold toInt
  rw [Int.bmod_def]
  omega

theorem toSize_of_nonneg {x : Int} (h0 : 0 ≤ x) (h : x < 2 ^ 64) : (toSize x : Int) = x := by
  unfold toSize
  omega

theorem sdsempty_holds : sdsempty.Holds 0 := ⟨rfl, by decide, by decide, by decide⟩

section
variable {s : Sdshdr} {n : Nat} (hs : s.Holds n)
include hs

theorem Sdshdr.Holds.sdsavail_eq : (sdsavail s : Int) = s.free :=
  toSize_of_nonneg hs.free_nonneg (by have := hs.free_lt; omega)

theorem Sdshdr.Holds.sdslen_eq (hn : n < 2 ^ 31) : sdslen s = n := by
  have h := toSize_of_nonneg (x := s.len) (by rw [hs.len]; omega) (by rw [hs.len]; omega)
  rw [hs.len] at h
  unfold sdslen
  rw [hs.len]
  omega

/-- Room enough: the string stays where it is. -/
theorem Sdshdr.Holds.makeRoom_of_le {k : Nat} (h : (k : Int) ≤ s.free) : sdsMakeRoomFor s k = s := by
  have hav := hs.sdsavail_eq
  unfold sdsMakeRoomFor
  rw [if_pos (by omega)]

/-- The two new sizes, for a request below `2 ^ 31`: what is asked for is doubled, or gets one prealloc more. -/
theorem Sdshdr.Holds.makeRoom_of_gt (hn : n < 2 ^ 31) {k : Nat} (hk : k < 2 ^ 31) (h : s.free < k) :
    sdsMakeRoomFor s k =
      (let newlen : Nat := if n + k < sdsMaxPrealloc then (n + k) * 2 else n + k + sdsMaxPrealloc
       { s with free := toInt ((newlen : Int) - n), block := sdshdrSize + newlen + 1 }) := by
  have hav := hs.sdsavail_eq
  have hlen := hs.sdslen_eq hn
  have hmod : (n + k) % 2 ^ 64 = n + k := Nat.mod_eq_of_lt (by omega)
  unfold sdsMakeRoomFor
  rw [if_neg (by omega)]
  simp only [hlen, hmod]
  by_cases hp : n + k < sdsMaxPrealloc
  · have hp' : n + k < 1048576 := hp
    have h2 : (n + k) * 2 % 2 ^ 64 = (n + k) * 2 := Nat.mod_eq_of_lt (by omega)
    have hb : (sdshdrSize + (n + k) * 2 + 1) % 2 ^ 64 = sdshdrSize + (n + k) * 2 + 1 :=
      Nat.mod_eq_of_lt (by unfold sdshdrSize; omega)
    rw [if_pos hp, if_pos hp, h2, hb, toSize_of_nonneg (by omega) (by omega)]
  · have h2 : (n + k + sdsMaxPrealloc) % 2 ^ 64 = n + k + sdsMaxPrealloc :=
      Nat.mod_eq_of_lt (by unfold sdsMaxPrealloc; omega)
    have hb : (sdshdrSize + (n + k + sdsMaxPrealloc) + 1) % 2 ^ 64 = sdshdrSize + (n + k + sdsMaxPrealloc) + 1 :=
      Nat.mod_eq_of_lt (by unfold sdshdrSize sdsMaxPrealloc; omega)
    rw [if_neg hp, if_neg hp, h2, hb, toSize_of_nonneg (by omega) (by unfold sdsMaxPrealloc; omega)]

/-- A block sized for `m` bytes, as long as its room fits the field. -/
theorem Sdshdr.Holds.resized {m : Nat} (hm : n ≤ m) (hm' : m < n + 2 ^ 31) :
    ({ s with free := toInt ((m : Int) - n), block := sdshdrSize + m + 1 } : Sdshdr).Holds n ∧
      toInt ((m : Int) - n) = m - n := by
  have ht : toInt ((m : Int) - n) = m - n := toInt_of_lt (by omega) (by omega)
  rw [ht]
  refine ⟨⟨hs.len, ?_, ?_, ?_⟩, rfl⟩
  · change (0 : Int) ≤ m - n
    omega
  · change (m : Int) - n < 2 ^ 31
    omega
  · change ((sdshdrSize + m + 1 : Nat) : Int) = sdshdrSize + n + (m - n) + 1
    omega

/-- **Below `2 ^ 31 - 2 ^ 20` `sdsMakeRoomFor` keeps its promise**: the fields stay true and the room is there. -/
theorem Sdshdr.Holds.makeRoom (hn : n < 2 ^ 31) {k : Nat} (hk : k < 2 ^ 31 - 2 ^ 20) :
    (sdsMakeRoomFor s k).Holds n ∧ (k : Int) ≤ (sdsMakeRoomFor s k).free := by
  rcases Int.lt_or_le s.free k with h | h
  · have hp : sdsMaxPrealloc = 1048576 := rfl
    rw [hs.makeRoom_of_gt hn (by omega) h]
    by_cases hd : n + k < sdsMaxPrealloc
    · simp only [if_pos hd]
      obtain ⟨hholds, hfree⟩ := hs.resized (m := (n + k) * 2) (by omega) (by omega)
      exact ⟨hholds, by rw [hfree]; omega⟩
    · simp only [if_neg hd]
      obtain ⟨hholds, hfree⟩ := hs.resized (m := n + k + sdsMaxPrealloc) (by omega) (by omega)
      exact ⟨hholds, by rw [hfree]; omega⟩
  · rw [hs.makeRoom_of_le h]
    exact ⟨hs, h⟩

/-- **From there on the new room does not fit its field**: `free` comes out negative. -/
theorem Sdshdr.Holds.makeRoom_wraps (hn : n < 2 ^ 31) {k : Nat} (hk : 2 ^ 31 - 2 ^ 20 ≤ k) (hk' : k < 2 ^ 31)
    (h : s.free < k) : (sdsMakeRoomFor s k).free < 0 := by
  have hp : sdsMaxPrealloc = 1048576 := rfl
  rw [hs.makeRoom_of_gt hn hk' h]
  have hd : ¬ n + k < sdsMaxPrealloc := by omega
  simp only [if_neg hd]
  rw [toInt_of_ge (by omega) (by omega)]
  omega

/-- The bytes read are counted off the room. -/
theorem Sdshdr.Holds.incrLen {k : Nat} (hk : (k : Int) ≤ s.free) (hn : n + k < 2 ^ 31) :
    (sdsIncrLen s k).Holds (n + k) ∧ (sdsIncrLen s k).free = s.free - k := by
  have hlt := hs.free_lt
  have hlen : toInt (s.len + k) = ((n + k : Nat) : Int) := by
    rw [hs.len, toInt_of_lt (by omega) (by omega)]
    omega
  have hfree : toInt (s.free - k) = s.free - k := toInt_of_lt (by omega) (by omega)
  refine ⟨⟨hlen, ?_, ?_, ?_⟩, hfree⟩
  · simp only [sdsIncrLen, hfree]
    omega
  · simp only [sdsIncrLen, hfree]
    omega
  · have hb := hs.block
    simp only [sdsIncrLen, hfree]
    omega

theorem Sdshdr.Holds.incrAsserts {k : Int} (h0 : 0 ≤ k) (hk : k ≤ s.free) : IncrAsserts s k := by
  have hlt := hs.free_lt
  refine ⟨hk, ?_⟩
  simp only [sdsIncrLen]
  rw [toInt_of_lt (by omega) (by omega)]
  omega

end

end Sds
end Xrtc
