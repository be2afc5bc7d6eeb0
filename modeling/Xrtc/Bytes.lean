import Mathlib.Algebra.Group.Int.Defs
import Mathlib.Algebra.Group.Nat.Defs
import Mathlib.Data.List.Basic
/-!
# Bytes — little-endian words and byte slices

A word of `k` bytes is written least significant byte first (`leBytes`) and read back the same way (`leNat`); words
below `256 ^ k` come back unchanged.  `sliceOf` is a half-open slice of a byte string, `putAt` overwrites a byte string
in place.
-/
namespace Xrtc
namespace Bytes

/-- The `k` least significant bytes of `v`, least significant first. -/
def leBytes : Nat → Nat → List UInt8
  | 0, _ => []
  | k + 1, v => UInt8.ofNat v :: leBytes k (v / 256)

/-- The number a byte string spells, least significant byte first. -/
def leNat : List UInt8 → Nat
  | [] => 0
  | b :: bs => b.toNat + 256 * leNat bs

@[simp] theorem length_leBytes : ∀ (k v : Nat), (leBytes k v).length = k
  | 0, _ => rfl
  | k + 1, v => by rw [leBytes, List.length_cons, length_leBytes k]

/-- **Reading back `k` written bytes gives the word modulo `256 ^ k`.** -/
theorem leNat_leBytes : ∀ (k v : Nat), leNat (leBytes k v) = v % 256 ^ k
  | 0, v => by simp [leBytes, leNat, Nat.mod_one]
  | k + 1, v => by
    have hb : (UInt8.ofNat v).toNat = v % 256 := UInt8.toNat_ofNat'
    rw [leBytes, leNat, leNat_leBytes k, hb, Nat.pow_succ, Nat.mul_comm (256 ^ k), Nat.mod_mul]

theorem leNat_leBytes_of_lt {k v : Nat} (h : v < 256 ^ k) : leNat (leBytes k v) = v := by
  rw [leNat_leBytes, Nat.mod_eq_of_lt h]

theorem leNat_lt : ∀ bs : List UInt8, leNat bs < 256 ^ bs.length
  | [] => by simp [leNat]
  | b :: bs => by
    have hb : b.toNat < 256 := b.toNat_lt
    have hbs := leNat_lt bs
    rw [leNat, List.length_cons, Nat.pow_succ]
    omega

/-- **Writing back the number a byte string spells gives that byte string.** -/
theorem leBytes_leNat : ∀ bs : List UInt8, leBytes bs.length (leNat bs) = bs
  | [] => rfl
  | b :: bs => by
    have hb : b.toNat < 256 := b.toNat_lt
    have hmod : (b.toNat + 256 * leNat bs) % 256 = b.toNat := by omega
    have hdiv : (b.toNat + 256 * leNat bs) / 256 = leNat bs := by omega
    have hlow : UInt8.ofNat (b.toNat + 256 * leNat bs) = b := by
      apply UInt8.toNat_inj.1
      rw [UInt8.toNat_ofNat']
      exact hmod
    rw [List.length_cons, leNat, leBytes, hlow, hdiv, leBytes_leNat bs]

/-- `buf[i:j]`. -/
def sliceOf (buf : List UInt8) (i j : Nat) : List UInt8 := (buf.drop i).take (j - i)

theorem sliceOf_append_left {a b : List UInt8} {i j : Nat} (hj : j ≤ a.length) :
    sliceOf (a ++ b) i j = sliceOf a i j := by
  rcases Nat.lt_or_ge j i with hij | hij
  · have h0 : j - i = 0 := by omega
    simp [sliceOf, h0]
  · unfold sliceOf
    rw [List.drop_append_of_le_length (by omega), List.take_append_of_le_length (by simp; omega)]

theorem sliceOf_take {buf : List UInt8} {i j n : Nat} (hjn : j ≤ n) (hn : n ≤ buf.length) :
    sliceOf (buf.take n) i j = sliceOf buf i j := by
  conv => rhs; rw [← List.take_append_drop n buf]
  rw [sliceOf_append_left (by simp; omega)]

/-- `buf` with `src` copied over it from offset `off` on. -/
def putAt (buf : List UInt8) (off : Nat) (src : List UInt8) : List UInt8 :=
  buf.take off ++ src ++ buf.drop (off + src.length)

/-- **Consecutive writes build a prefix**: after `done` has been written from offset `0`, the next field extends it. -/
theorem putAt_append {done rest src : List UInt8} :
    putAt (done ++ rest) done.length src = (done ++ src) ++ rest.drop src.length := by
  simp [putAt, List.drop_append]

theorem sliceOf_append_sliceOf {buf : List UInt8} {i j k : Nat} (hij : i ≤ j) (hjk : j ≤ k) :
    sliceOf buf i j ++ sliceOf buf j k = sliceOf buf i k := by
  have hi : j = i + (j - i) := by omega
  have hk : k - i = (j - i) + (k - j) := by omega
  unfold sliceOf
  rw [hk, List.take_add, List.drop_drop, ← hi]

theorem length_sliceOf {buf : List UInt8} {i j : Nat} (hj : j ≤ buf.length) : (sliceOf buf i j).length = j - i := by
  simp only [sliceOf, List.length_take, List.length_drop]
  omega

theorem sliceOf_middle {a w b : List UInt8} {i j : Nat} (ha : a.length = i) (hw : w.length = j - i) :
    sliceOf (a ++ w ++ b) i j = w := by
  subst ha
  unfold sliceOf
  rw [List.append_assoc, List.drop_left, ← hw, List.take_left]

/-! ## Members of a struct at natural alignment -/

/-- A member of a C struct: its size and its alignment in bytes. -/
structure Member where
  size : Nat
  align : Nat
  deriving DecidableEq

/-- The next multiple of `a` at or after `n`. -/
def alignUp (n a : Nat) : Nat := (n + (a - 1)) / a * a

/-- The offsets of the members of a struct whose first free byte is `next`: each at its own alignment. -/
def offsets : Nat → List Member → List Nat
  | _, [] => []
  | next, m :: ms => alignUp next m.align :: offsets (alignUp next m.align + m.size) ms

/-- `sizeof`: past the last member, rounded up to the strictest alignment. -/
def structSize (ms : List Member) : Nat :=
  let last := ms.foldl (fun next m => alignUp next m.align + m.size) 0
  alignUp last (ms.foldl (fun a m => max a m.align) 1)

/-- The bytes of member number `k` of a struct read through a pointer to `buf`. -/
def memberAt (ms : List Member) (buf : List UInt8) (k : Nat) : List UInt8 :=
  let off := (offsets 0 ms).getD k 0
  sliceOf buf off (off + (ms.getD k ⟨0, 1⟩).size)

/-! ## Memory read and written through a pointer -/

/-- The `n` bytes from offset `off` on. -/
def readMem (mem : Nat → UInt8) (off n : Nat) : List UInt8 := (List.range n).map (fun i => mem (off + i))

/-- `memcpy(mem + off, src, src.length)`. -/
def writeMem (mem : Nat → UInt8) (off : Nat) (src : List UInt8) : Nat → UInt8 :=
  fun i => if off ≤ i ∧ i < off + src.length then src.getD (i - off) 0 else mem i

@[simp] theorem length_readMem (mem : Nat → UInt8) (off n : Nat) : (readMem mem off n).length = n := by simp [readMem]

theorem readMem_add (mem : Nat → UInt8) (off a b : Nat) :
    readMem mem off (a + b) = readMem mem off a ++ readMem mem (off + a) b := by
  simp only [readMem, List.range_add, List.map_append, List.map_map]
  congr 1
  apply List.map_congr_left
  intro i _
  simp only [Function.comp_apply, Nat.add_assoc]

/-- **A read inside what was written** gives a prefix of it. -/
theorem readMem_writeMem (mem : Nat → UInt8) (off n : Nat) (src : List UInt8) (h : n ≤ src.length) :
    readMem (writeMem mem off src) off n = src.take n := by
  apply List.ext_getElem
  · simp; omega
  · intro i h1 h2
    simp only [length_readMem] at h1
    have hi : i < src.length := by omega
    simp [readMem, writeMem, hi]

/-- **A read outside what was written** sees the memory as it was. -/
theorem readMem_writeMem_of_disjoint (mem : Nat → UInt8) (off off' n : Nat) (src : List UInt8)
    (h : off' + n ≤ off ∨ off + src.length ≤ off') :
    readMem (writeMem mem off src) off' n = readMem mem off' n := by
  apply List.map_congr_left
  intro i hi
  have hlt := List.mem_range.1 hi
  simp only [writeMem]
  rw [if_neg (by omega)]

end Bytes
end Xrtc
