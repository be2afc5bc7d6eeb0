import Mathlib.Algebra.Group.Nat.Defs
import Mathlib.Data.List.Basic
/-!
# GoText — the parts of Go's `strings` and `strconv` the signaling server uses

A Go string is a byte string.  `trimSpace` removes the UTF-8 encodings of the characters `unicode.IsSpace` accepts from
both ends; `parseUint` and `atoi` are the decimal readers.
-/
namespace Xrtc

/-- A Go `string`. -/
abbrev GoString := List UInt8

namespace GoText

/-- The encodings of the white space characters: ASCII, U+0085, U+00A0, U+1680, U+2000 to U+200A, U+2028, U+2029, U+202F,
U+205F and U+3000. -/
def spaces : List GoString :=
  [[9], [10], [11], [12], [13], [32], [0xc2, 0x85], [0xc2, 0xa0], [0xe1, 0x9a, 0x80], [0xe2, 0x80, 0x80],
    [0xe2, 0x80, 0x81], [0xe2, 0x80, 0x82], [0xe2, 0x80, 0x83], [0xe2, 0x80, 0x84], [0xe2, 0x80, 0x85],
    [0xe2, 0x80, 0x86], [0xe2, 0x80, 0x87], [0xe2, 0x80, 0x88], [0xe2, 0x80, 0x89], [0xe2, 0x80, 0x8a],
    [0xe2, 0x80, 0xa8], [0xe2, 0x80, 0xa9], [0xe2, 0x80, 0xaf], [0xe2, 0x81, 0x9f], [0xe3, 0x80, 0x80]]

/-- `strings.TrimLeftFunc` with `unicode.IsSpace`, on a string of at most the given length. -/
def trimLeft : Nat → GoString → GoString
  | 0, s => s
  | n + 1, s => match spaces.find? (fun c => c.isPrefixOf s) with
    | some c => trimLeft n (s.drop c.length)
    | none => s

def trimRight : Nat → GoString → GoString
  | 0, s => s
  | n + 1, s => match spaces.find? (fun c => c.isSuffixOf s) with
    | some c => trimRight n (s.take (s.length - c.length))
    | none => s

def trimSpace (s : GoString) : GoString :=
  let s := trimLeft s.length s
  trimRight s.length s

/-- `strings.Split` at the one-byte separator `sep`. -/
def split (s : GoString) (sep : UInt8) : List GoString := s.splitOn sep

theorem split_ne_nil (s : GoString) (sep : UInt8) : split s sep ≠ [] := List.splitOnP_ne_nil _ _

/-! ## Numbers -/

def isDigit (c : UInt8) : Bool := 48 ≤ c && c ≤ 57

/-- The two errors of `strconv`, `ErrSyntax` and `ErrRange`. -/
inductive NumError where
  | syntaxError
  | rangeError
  deriving DecidableEq

/-- The loop of `ParseUint(s, 10, 64)` after the digits that make `n`. -/
def parseDigits (n : Nat) : GoString → Except NumError Nat
  | [] => .ok n
  | c :: cs =>
    if ¬isDigit c then .error .syntaxError
    else if 2 ^ 64 ≤ n * 10 + (c.toNat - 48) then .error .rangeError
    else parseDigits (n * 10 + (c.toNat - 48)) cs

def parseUint (s : GoString) : Except NumError Nat :=
  if s = [] then .error .syntaxError else parseDigits 0 s

/-- `strconv.Atoi`; `none` when it returns an error. -/
def atoi (s : GoString) : Option Int :=
  let (neg, digits) := match s with
    | 43 :: cs => (false, cs)
    | 45 :: cs => (true, cs)
    | cs => (false, cs)
  match parseUint digits with
  | .error _ => none
  | .ok n =>
    if neg then (if n ≤ 2 ^ 63 then some (-(n : Int)) else none)
    else if n < 2 ^ 63 then some n else none

/-- The number a digit string spells, after digits that make `n`. -/
def digitsFrom (n : Nat) (s : GoString) : Nat := s.foldl (fun n c => n * 10 + (c.toNat - 48)) n

def decimal (s : GoString) : Nat := digitsFrom 0 s

/-- A decimal integer in `lo .. hi`: a nonempty string of digits whose value is there. -/
def DecimalIn (lo hi : Nat) (s : GoString) : Prop :=
  s ≠ [] ∧ (∀ c ∈ s, isDigit c = true) ∧ lo ≤ decimal s ∧ decimal s ≤ hi

theorem le_digitsFrom : ∀ (s : GoString) (n : Nat), n ≤ digitsFrom n s
  | [], n => Nat.le_refl n
  | c :: cs, n => by
    have hrest := le_digitsFrom cs (n * 10 + (c.toNat - 48))
    have hcons : digitsFrom n (c :: cs) = digitsFrom (n * 10 + (c.toNat - 48)) cs := rfl
    omega

/-- **The digit loop reads exactly the digit strings whose value is below `2 ^ 64`.** -/
theorem parseDigits_ok_iff : ∀ (s : GoString) (n m : Nat), n < 2 ^ 64 →
    (parseDigits n s = .ok m ↔ (∀ c ∈ s, isDigit c = true) ∧ digitsFrom n s = m ∧ m < 2 ^ 64)
  | [], n, m, hn => by
    have hnil : digitsFrom n [] = n := rfl
    simp only [parseDigits, Except.ok.injEq, hnil]
    constructor
    · rintro rfl
      exact ⟨List.forall_mem_nil _, rfl, hn⟩
    · exact fun h => h.2.1
  | c :: cs, n, m, hn => by
    have hcons : digitsFrom n (c :: cs) = digitsFrom (n * 10 + (c.toNat - 48)) cs := rfl
    rw [parseDigits]
    by_cases hd : isDigit c = true
    · rw [if_neg (not_not_intro hd)]
      by_cases hbig : 2 ^ 64 ≤ n * 10 + (c.toNat - 48)
      · -- the value only grows
        have hle := le_digitsFrom cs (n * 10 + (c.toNat - 48))
        rw [if_pos hbig]
        constructor
        · intro h
          cases h
        · rintro ⟨-, hval, hm⟩
          omega
      · rw [if_neg hbig, parseDigits_ok_iff cs _ m (by omega), hcons]
        simp [hd]
    · rw [if_pos hd]
      constructor
      · intro h
        cases h
      · intro h
        exact absurd (h.1 c List.mem_cons_self) hd

/-- **`ParseUint` succeeds exactly on the decimal integers of 64 bits**, with their value. -/
theorem parseUint_ok_iff (s : GoString) (m : Nat) :
    parseUint s = .ok m ↔ DecimalIn 0 (2 ^ 64 - 1) s ∧ decimal s = m := by
  unfold parseUint DecimalIn
  by_cases hs : s = []
  · rw [if_pos hs]
    constructor
    · intro h
      cases h
    · rintro ⟨⟨hne, -⟩, -⟩
      exact absurd hs hne
  · rw [if_neg hs, parseDigits_ok_iff s 0 m (by decide)]
    have hdec : decimal s = digitsFrom 0 s := rfl
    rw [hdec]
    constructor
    · rintro ⟨hall, hval, hm⟩
      exact ⟨⟨hs, hall, Nat.zero_le _, by omega⟩, hval⟩
    · rintro ⟨⟨-, hall, -, hle⟩, hval⟩
      exact ⟨hall, hval, by omega⟩

theorem toNat_of_isDigit {c : UInt8} (h : isDigit c = true) : 48 ≤ c.toNat ∧ c.toNat ≤ 57 := by
  simpa [isDigit, UInt8.le_iff_toNat_le] using h

theorem digitsFrom_eq_zero : ∀ (s : GoString) (n : Nat), (∀ c ∈ s, isDigit c = true) →
    (digitsFrom n s = 0 ↔ n = 0 ∧ ∀ c ∈ s, c = 48)
  | [], n, _ => by simp [digitsFrom]
  | c :: cs, n, h => by
    have hcons : digitsFrom n (c :: cs) = digitsFrom (n * 10 + (c.toNat - 48)) cs := rfl
    have hdigit := toNat_of_isDigit (h c List.mem_cons_self)
    rw [hcons, digitsFrom_eq_zero cs _ (fun d hd => h d (List.mem_cons_of_mem _ hd)), List.forall_mem_cons]
    have hzero : c = 48 ↔ c.toNat = 48 := by rw [← UInt8.toNat_inj]; rfl
    rw [hzero]
    constructor
    · rintro ⟨hn, hcs⟩
      exact ⟨by omega, by omega, hcs⟩
    · rintro ⟨hn, hc, hcs⟩
      exact ⟨by omega, hcs⟩

end GoText
end Xrtc
