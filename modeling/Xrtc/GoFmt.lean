import Xrtc.GoText
/-!
# GoFmt — Go's `fmt.Sprintf`

The formatter of Go's `fmt` (`doPrintf`, as of Go 1.23).  What a directive says never depends on the arguments, so the
model reads it first (`scanDirective`) and prints it after (`Directive.print`).  How a value prints is a parameter: its
text for given flags and verb, its integer value if it has one, and its type's name.

`sprintf_verbatim_iff`: a string put in front of every format is copied to every output exactly when it has no `%`.
-/
namespace Xrtc
namespace GoFmt

open GoText (isDigit)

def ascii (s : String) : GoString := s.toList.map (fun c => UInt8.ofNat c.toNat)

/-- The fields of Go's `fmt` struct; an absent width or precision is `none`. -/
structure Flags where
  sharp : Bool := false
  zero : Bool := false
  plus : Bool := false
  minus : Bool := false
  space : Bool := false
  sharpV : Bool := false
  plusV : Bool := false
  wid : Option Nat := none
  prec : Option Nat := none

/-- How the values of a type print: `printArg` with its flags and verb (the verb as the bytes `writeRune` writes),
the integer a `*` takes from a value, and the name of its type (`none` for `nil`). -/
structure Printer (V : Type) where
  printArg : Flags → GoString → V → GoString
  toInt : V → Option Int
  typeOf : V → Option GoString

/-! ## Reading a directive -/

def Flags.set (f : Flags) (c : UInt8) : Option Flags :=
  if c = 35 then some { f with sharp := true }
  else if c = 48 then some { f with zero := true }
  else if c = 43 then some { f with plus := true }
  else if c = 45 then some { f with minus := true }
  else if c = 32 then some { f with space := true }
  else none

def scanFlags (f : Flags) : GoString → Flags × GoString
  | [] => (f, [])
  | c :: cs => match f.set c with
    | some f => scanFlags f cs
    | none => (f, c :: cs)

/-- `parsenum` after the digits that make `n`: a number too large consumes the rest of the format. -/
def parsenum (n : Nat) (isnum : Bool) : GoString → Option Nat × GoString
  | [] => (if isnum = true then some n else none, [])
  | c :: cs =>
    if isDigit c = true then
      if 1000000 < n then (none, []) else parsenum (n * 10 + (c.toNat - 48)) true cs
    else (if isnum = true then some n else none, c :: cs)

/-- An argument index: none, one that does not parse, or `[n]`. -/
inductive Index where
  | none
  | bad
  | arg (n : Nat)

def Index.found : Index → Bool
  | .arg _ => true
  | _ => false

/-- `parseArgNumber`, where the format goes on with `[`. -/
def scanIndex : GoString → Index × GoString
  | [] => (.none, [])
  | c :: cs =>
    if c = 91 then
      -- there must be at least three bytes, and a closing bracket
      if cs.length < 2 then (.bad, cs)
      else match cs.dropWhile (fun c => c != 93) with
        | [] => (.bad, cs)
        | _ :: rest => match parsenum 0 false (cs.takeWhile (fun c => c != 93)) with
          | (some n, []) => (.arg n, rest)
          | _ => (.bad, rest)
    else (.none, c :: cs)

/-- A width or precision: none, `*`, or a number. -/
inductive Size where
  | absent
  | star
  | num (n : Nat)

def Size.isStar : Size → Bool
  | .star => true
  | _ => false

def scanSize : GoString → Size × GoString
  | [] => (.absent, [])
  | c :: cs =>
    if c = 42 then (.star, cs)
    else match parsenum 0 false (c :: cs) with
      | (some n, rest) => (.num n, rest)
      | (none, rest) => (.absent, rest)

/-- After the point there may be an index of its own. -/
def scanPrecision : GoString → Option (Index × Size) × GoString
  | [] => (none, [])
  | c :: cs =>
    if c = 46 then
      let (index, rest) := scanIndex cs
      let (size, rest) := scanSize rest
      (some (index, size), rest)
    else (none, c :: cs)

def continuation (c : UInt8) : Bool := 0x80 ≤ c && c ≤ 0xbf

/-- How many bytes of UTF-8 after `c` belong to its character, none when it is not one; a byte that is not there counts
as 0, which continues nothing. -/
def runeTail (c : UInt8) (cs : GoString) : Nat :=
  let d := cs.getD 0 0
  let e := cs.getD 1 0
  let f := cs.getD 2 0
  if 0xc2 ≤ c ∧ c ≤ 0xdf ∧ continuation d = true then 1
  else if 0xe0 ≤ c ∧ c ≤ 0xef ∧ continuation d = true ∧ (c = 0xe0 → 0xa0 ≤ d) ∧ (c = 0xed → d ≤ 0x9f) ∧
    continuation e = true then 2
  else if 0xf0 ≤ c ∧ c ≤ 0xf4 ∧ continuation d = true ∧ (c = 0xf0 → 0x90 ≤ d) ∧ (c = 0xf4 → d ≤ 0x8f) ∧
    continuation e = true ∧ continuation f = true then 3
  else 0

/-- The verb's character; a byte that starts none is `U+FFFD`. -/
def scanVerb : GoString → Option GoString × GoString
  | [] => (none, [])
  | c :: cs =>
    if c < 0x80 then (some [c], cs)
    else if runeTail c cs = 0 then (some [0xef, 0xbf, 0xbd], cs)
    else (some (c :: cs.take (runeTail c cs)), cs.drop (runeTail c cs))

/-- What stands between the `%` and the verb. -/
structure Head where
  flags : Flags
  index : Index
  width : Size
  precision : Option (Index × Size)
  last : Index

/-- `afterIndex` when the precision is read. -/
def Head.afterWidth (index : Index) (width : Size) : Bool := index.found && !width.isStar

/-- `afterIndex` when the last index is read. -/
def Head.afterPrecision (index : Index) (width : Size) : Option (Index × Size) → Bool
  | none => afterWidth index width
  | some (own, size) => afterWidth own size

def scanHead (s : GoString) : Head × GoString :=
  let (flags, s) := scanFlags {} s
  let (index, s) := scanIndex s
  let (width, s) := scanSize s
  let (precision, s) := scanPrecision s
  let (last, s) := if Head.afterPrecision index width precision = true then (.none, s) else scanIndex s
  (⟨flags, index, width, precision, last⟩, s)

structure Directive where
  head : Head
  verb : Option GoString

def scanDirective (s : GoString) : Directive × GoString :=
  let (head, s) := scanHead s
  let (verb, s) := scanVerb s
  (⟨head, verb⟩, s)

/-! ## Printing it -/

variable {V : Type}

structure Pos where
  argNum : Nat := 0
  reordered : Bool := false

/-- One directive being printed; `good` is `goodArgNum`. -/
structure Work where
  pos : Pos
  good : Bool := true
  flags : Flags
  out : GoString := []

def Work.index (numArgs : Nat) (w : Work) : Index → Work
  | .none => w
  | .bad => { w with pos := { w.pos with reordered := true }, good := false }
  | .arg n =>
    if 1 ≤ n ∧ n ≤ numArgs then { w with pos := ⟨n - 1, true⟩ }
    else { w with pos := { w.pos with reordered := true }, good := false }

/-- `intFromArg`: the integer, unless there is none or it is too large, and the next argument. -/
def intFromArg (P : Printer V) (args : List V) (argNum : Nat) : Option Int × Nat :=
  match args[argNum]? with
  | none => (none, argNum)
  | some v => ((P.toInt v).filter (fun n => decide (n.natAbs ≤ 1000000)), argNum + 1)

def Work.width (P : Printer V) (args : List V) (w : Work) (afterIndex : Bool) : Size → Work
  | .absent => w
  | .num n => { w with good := w.good && !afterIndex, flags := { w.flags with wid := some n } }
  | .star =>
    let (n, argNum) := intFromArg P args w.pos.argNum
    let w := { w with pos := { w.pos with argNum := argNum } }
    match n with
    | none => { w with out := w.out ++ ascii "%!(BADWIDTH)" }
    | some n =>
      -- a negative width pads on the right
      if n < 0 then { w with flags := { w.flags with wid := some n.natAbs, minus := true, zero := false } }
      else { w with flags := { w.flags with wid := some n.natAbs } }

def Work.precision (P : Printer V) (args : List V) (w : Work) (afterIndex : Bool) : Option (Index × Size) → Work
  | none => w
  | some (index, size) =>
    let w := { w with good := w.good && !afterIndex }.index args.length index
    match size with
    | .absent => { w with flags := { w.flags with prec := some 0 } }
    | .num n => { w with flags := { w.flags with prec := some n } }
    | .star =>
      let (n, argNum) := intFromArg P args w.pos.argNum
      let w := { w with pos := { w.pos with argNum := argNum } }
      match n.filter (fun n => decide (0 ≤ n)) with
      | none => { w with out := w.out ++ ascii "%!(BADPREC)" }
      | some n => { w with flags := { w.flags with prec := some n.natAbs } }

/-- `%#v` and `%+v` have flags of their own. -/
def Flags.forVerb (f : Flags) (verb : GoString) : Flags :=
  if verb = ascii "v" ∨ verb = ascii "w" then { f with sharp := false, plus := false, sharpV := f.sharp, plusV := f.plus }
  else f

def Work.verb (P : Printer V) (args : List V) (w : Work) : Option GoString → Work
  | none => { w with out := w.out ++ ascii "%!(NOVERB)" }
  | some verb =>
    if verb = ascii "%" then { w with out := w.out ++ ascii "%" }
    else if w.good = false then { w with out := w.out ++ (ascii "%!" ++ verb ++ ascii "(BADINDEX)") }
    else match args[w.pos.argNum]? with
      | none => { w with out := w.out ++ (ascii "%!" ++ verb ++ ascii "(MISSING)") }
      | some v =>
        { w with
          pos := { w.pos with argNum := w.pos.argNum + 1 }
          out := w.out ++ P.printArg (w.flags.forVerb verb) verb v }

def Directive.print (d : Directive) (P : Printer V) (args : List V) (pos : Pos) : Work :=
  let h := d.head
  let w : Work := { pos := pos, flags := h.flags }
  let w := w.index args.length h.index
  let w := w.width P args h.index.found h.width
  let w := w.precision P args (Head.afterWidth h.index h.width) h.precision
  let w := w.index args.length h.last
  w.verb P args d.verb

/-- The format loop of `doPrintf`, on a format of at most the given length. -/
def formatLoop (P : Printer V) (args : List V) : Nat → Pos → GoString → GoString × Pos
  | 0, pos, _ => ([], pos)
  | _ + 1, pos, [] => ([], pos)
  | n + 1, pos, c :: cs =>
    if c = 37 then
      let w := (scanDirective cs).1.print P args pos
      let (out, pos) := formatLoop P args n w.pos (scanDirective cs).2
      (w.out ++ out, pos)
    else
      let (out, pos) := formatLoop P args n pos cs
      (c :: out, pos)

def extraArg (P : Printer V) (v : V) : GoString :=
  match P.typeOf v with
  | none => ascii "<nil>"
  | some name => name ++ ascii "=" ++ P.printArg {} (ascii "v") v

def extras (P : Printer V) (args : List V) (pos : Pos) : GoString :=
  if pos.reordered = false ∧ pos.argNum < args.length then
    ascii "%!(EXTRA " ++ (ascii ", ").intercalate ((args.drop pos.argNum).map (extraArg P)) ++ ascii ")"
  else []

def sprintf (P : Printer V) (format : GoString) (args : List V) : GoString :=
  let (out, pos) := formatLoop P args format.length {} format
  out ++ extras P args pos

theorem formatLoop_directive (P : Printer V) (args : List V) (n : Nat) (pos : Pos) (cs : GoString) :
    formatLoop P args (n + 1) pos (37 :: cs) =
      (((scanDirective cs).1.print P args pos).out ++
        (formatLoop P args n ((scanDirective cs).1.print P args pos).pos (scanDirective cs).2).1,
        (formatLoop P args n ((scanDirective cs).1.print P args pos).pos (scanDirective cs).2).2) := rfl

theorem formatLoop_byte (P : Printer V) (args : List V) (n : Nat) (pos : Pos) {c : UInt8} (h : c ≠ 37) (cs : GoString) :
    formatLoop P args (n + 1) pos (c :: cs) =
      (c :: (formatLoop P args n pos cs).1, (formatLoop P args n pos cs).2) := by
  rw [formatLoop, if_neg h]

/-! ## A literal front is copied -/

theorem formatLoop_literal (P : Printer V) (args : List V) (pos : Pos) (format : GoString) : ∀ front : GoString,
    37 ∉ front → formatLoop P args (front ++ format).length pos (front ++ format) =
      (front ++ (formatLoop P args format.length pos format).1, (formatLoop P args format.length pos format).2)
  | [], _ => rfl
  | c :: cs, h => by
    have hc : c ≠ 37 := fun hc => h (hc ▸ List.mem_cons_self)
    have hcs := formatLoop_literal P args pos format cs (fun hmem => h (List.mem_cons_of_mem c hmem))
    rw [List.cons_append, List.length_cons, formatLoop_byte P args _ pos hc, hcs]
    rfl

theorem sprintf_literal (P : Printer V) (args : List V) (format : GoString) {front : GoString} (h : 37 ∉ front) :
    sprintf P (front ++ format) args = front ++ sprintf P format args := by
  simp only [sprintf, formatLoop_literal P args {} format front h, List.append_assoc]

/-! ## What a directive consumes -/

theorem scanFlags_suffix : ∀ (f : Flags) (s : GoString), (scanFlags f s).2 <:+ s
  | _, [] => List.suffix_refl _
  | f, c :: cs => by
    rw [scanFlags]
    split
    · exact (scanFlags_suffix _ cs).trans (List.suffix_cons c cs)
    · exact List.suffix_refl _

theorem parsenum_suffix : ∀ (n : Nat) (isnum : Bool) (s : GoString), (parsenum n isnum s).2 <:+ s
  | _, _, [] => List.suffix_refl _
  | n, isnum, c :: cs => by
    rw [parsenum]
    split
    · split
      · exact List.nil_suffix
      · exact (parsenum_suffix _ _ cs).trans (List.suffix_cons c cs)
    · exact List.suffix_refl _

/-- A number read is too large by at most one digit. -/
theorem parsenum_le : ∀ (s : GoString) (n : Nat) (isnum : Bool) (m : Nat), n ≤ 10000009 →
    (parsenum n isnum s).1 = some m → m ≤ 10000009
  | [], n, isnum, m, hn, h => by
    simp only [parsenum] at h
    split at h
    · cases h
      exact hn
    · cases h
  | c :: cs, n, isnum, m, hn, h => by
    rw [parsenum] at h
    split at h
    · rename_i hd
      split at h
      · cases h
      · have hdigit := GoText.toNat_of_isDigit hd
        exact parsenum_le cs _ true m (by omega) h
    · simp only at h
      split at h
      · cases h
        exact hn
      · cases h

theorem scanIndex_suffix (s : GoString) : (scanIndex s).2 <:+ s := by
  cases s with
  | nil => exact List.suffix_refl _
  | cons c cs =>
    rw [scanIndex]
    split
    · split
      · exact List.suffix_cons c cs
      · split
        · exact List.suffix_cons c cs
        · rename_i b rest hrest
          have hsuffix : b :: rest <:+ cs := hrest ▸ List.dropWhile_suffix _
          have hrest' : rest <:+ c :: cs := (List.suffix_cons b rest).trans (hsuffix.trans (List.suffix_cons c cs))
          split <;> exact hrest'
    · exact List.suffix_refl _

def Index.Small (i : Index) : Prop := ∀ n, i = .arg n → n ≤ 10000009

theorem scanIndex_small (s : GoString) : (scanIndex s).1.Small := by
  intro m hm
  cases s with
  | nil => cases hm
  | cons c cs =>
    rw [scanIndex] at hm
    split at hm
    · split at hm
      · cases hm
      · split at hm
        · cases hm
        · split at hm
          · rename_i hn
            cases hm
            exact parsenum_le _ 0 false m (by omega) (by rw [hn])
          · cases hm
    · cases hm

theorem scanSize_suffix (s : GoString) : (scanSize s).2 <:+ s := by
  cases s with
  | nil => exact List.suffix_refl _
  | cons c cs =>
    rw [scanSize]
    split
    · exact List.suffix_cons c cs
    · have hnum := parsenum_suffix 0 false (c :: cs)
      split
      · rename_i h
        rw [h] at hnum
        exact hnum
      · rename_i h
        rw [h] at hnum
        exact hnum

theorem scanPrecision_suffix (s : GoString) : (scanPrecision s).2 <:+ s := by
  cases s with
  | nil => exact List.suffix_refl _
  | cons c cs =>
    rw [scanPrecision]
    split
    · exact (scanSize_suffix _).trans ((scanIndex_suffix cs).trans (List.suffix_cons c cs))
    · exact List.suffix_refl _

def Head.Small (h : Head) : Prop :=
  h.index.Small ∧ (∀ p, h.precision = some p → p.1.Small) ∧ h.last.Small

theorem scanPrecision_small (s : GoString) : ∀ p, (scanPrecision s).1 = some p → p.1.Small := by
  intro p hp
  cases s with
  | nil => cases hp
  | cons c cs =>
    rw [scanPrecision] at hp
    split at hp
    · cases hp
      exact scanIndex_small cs
    · cases hp

theorem scanHead_spec (s : GoString) : (scanHead s).1.Small ∧ (scanHead s).2 <:+ s := by
  have hindex := scanIndex_suffix (scanFlags {} s).2
  have hsize := scanSize_suffix (scanIndex (scanFlags {} s).2).2
  have hprec := scanPrecision_suffix (scanSize (scanIndex (scanFlags {} s).2).2).2
  have hpre := hprec.trans (hsize.trans (hindex.trans (scanFlags_suffix {} s)))
  simp only [scanHead]
  split
  · refine ⟨⟨scanIndex_small _, scanPrecision_small _, ?_⟩, hpre⟩
    intro n hn
    cases hn
  · exact ⟨⟨scanIndex_small _, scanPrecision_small _, scanIndex_small _⟩, (scanIndex_suffix _).trans hpre⟩

theorem ne_of_continuation {c : UInt8} (h : continuation c = true) : c ≠ 37 := by
  rintro rfl
  cases h

theorem getD_of_mem_take {cs : GoString} {b : UInt8} {n : Nat} (h : b ∈ cs.take n) : ∃ i < n, cs.getD i 0 = b := by
  obtain ⟨i, hi, hget⟩ := List.mem_take_iff_getElem.1 h
  refine ⟨i, by omega, ?_⟩
  rw [List.getD_eq_getElem?_getD, List.getElem?_eq_getElem (by omega), Option.getD_some]
  exact hget

theorem mem_take_runeTail {c b : UInt8} {cs : GoString} (h : b ∈ cs.take (runeTail c cs)) : b ≠ 37 := by
  obtain ⟨i, hi, rfl⟩ := getD_of_mem_take h
  simp only [runeTail] at hi
  split at hi
  · rename_i hc
    obtain rfl : i = 0 := by omega
    exact ne_of_continuation hc.2.2
  · split at hi
    · rename_i hc
      rcases (by omega : i = 0 ∨ i = 1) with rfl | rfl
      · exact ne_of_continuation hc.2.2.1
      · exact ne_of_continuation hc.2.2.2.2.2
    · split at hi
      · rename_i hc
        rcases (by omega : i = 0 ∨ i = 1 ∨ i = 2) with rfl | rfl | rfl
        · exact ne_of_continuation hc.2.2.1
        · exact ne_of_continuation hc.2.2.2.2.2.1
        · exact ne_of_continuation hc.2.2.2.2.2.2
      · omega

theorem scanVerb_suffix (s : GoString) : (scanVerb s).2 <:+ s := by
  cases s with
  | nil => exact List.suffix_refl _
  | cons c cs =>
    rw [scanVerb]
    split
    · exact List.suffix_cons c cs
    · split
      · exact List.suffix_cons c cs
      · exact (List.drop_suffix _ cs).trans (List.suffix_cons c cs)

theorem scanVerb_percent {s verb : GoString} (h : (scanVerb s).1 = some verb) (hmem : 37 ∈ verb) :
    verb = ascii "%" ∧ s = 37 :: (scanVerb s).2 := by
  cases s with
  | nil => cases h
  | cons c cs =>
    rw [scanVerb] at h ⊢
    split at h
    · cases h
      rw [List.mem_singleton] at hmem
      subst hmem
      exact ⟨rfl, rfl⟩
    · rename_i hc
      split at h
      · cases h
        exact absurd hmem (by decide)
      · cases h
        rcases List.mem_cons.1 hmem with rfl | hmem
        · exact absurd (by decide) hc
        · exact absurd rfl (mem_take_runeTail hmem)

theorem scanDirective_eq (s : GoString) :
    scanDirective s = (⟨(scanHead s).1, (scanVerb (scanHead s).2).1⟩, (scanVerb (scanHead s).2).2) := rfl

theorem scanDirective_suffix (s : GoString) : (scanDirective s).2 <:+ s :=
  (scanVerb_suffix _).trans (scanHead_spec s).2

theorem scanDirective_percent {s verb : GoString} (h : (scanDirective s).1.verb = some verb) (hmem : 37 ∈ verb) :
    verb = ascii "%" ∧ (scanDirective s).2.count 37 + 1 ≤ s.count 37 := by
  rw [scanDirective_eq] at h ⊢
  obtain ⟨hverb, hcons⟩ := scanVerb_percent h hmem
  have hcount := (scanHead_spec s).2.sublist.count_le 37
  rw [hcons, List.count_cons_self] at hcount
  exact ⟨hverb, hcount⟩

/-- The loop ends by the format, not by its count. -/
theorem formatLoop_fuel (P : Printer V) (args : List V) : ∀ (n m : Nat) (pos : Pos) (s : GoString), s.length ≤ n →
    s.length ≤ m → formatLoop P args n pos s = formatLoop P args m pos s
  | 0, 0, pos, s, _, _ => rfl
  | 0, m + 1, pos, s, hn, _ => by
    obtain rfl : s = [] := List.length_eq_zero_iff.1 (by omega)
    rfl
  | n + 1, 0, pos, s, _, hm => by
    obtain rfl : s = [] := List.length_eq_zero_iff.1 (by omega)
    rfl
  | n + 1, m + 1, pos, [], _, _ => rfl
  | n + 1, m + 1, pos, c :: cs, hn, hm => by
    have hlen := (scanDirective_suffix cs).length_le
    rw [List.length_cons] at hn hm
    by_cases hc : c = 37
    · subst hc
      rw [formatLoop_directive, formatLoop_directive, formatLoop_fuel P args n m _ _ (by omega) (by omega)]
    · rw [formatLoop_byte P args n pos hc, formatLoop_byte P args m pos hc,
        formatLoop_fuel P args n m pos cs (by omega) (by omega)]

/-! ## Without arguments -/

theorem sprintf_nil (P : Printer V) (s : GoString) : sprintf P s [] = (formatLoop P [] s.length {} s).1 := by
  simp [sprintf, extras]

/-- What a directive without arguments prints begins like an error. -/
def Bang (out : GoString) : Prop := ∃ rest, out = 37 :: 33 :: rest

theorem bang_append {out more : GoString} (h : Bang out) : Bang (out ++ more) := by
  obtain ⟨rest, rfl⟩ := h
  exact ⟨rest ++ more, rfl⟩

theorem index_out (numArgs : Nat) (w : Work) (i : Index) : (w.index numArgs i).out = w.out := by
  cases i with
  | none => rfl
  | bad => rfl
  | arg n =>
    rw [Work.index]
    split <;> rfl

theorem width_bang (P : Printer V) {w : Work} (afterIndex : Bool) (size : Size) (h : w.out = [] ∨ Bang w.out) :
    (w.width P [] afterIndex size).out = [] ∨ Bang (w.width P [] afterIndex size).out := by
  cases size with
  | absent => exact h
  | num n => exact h
  | star =>
    right
    rcases h with h | h
    · exact ⟨_, by simp only [Work.width, intFromArg, h]; rfl⟩
    · exact bang_append h

theorem precision_bang (P : Printer V) {w : Work} (afterIndex : Bool) (p : Option (Index × Size))
    (h : w.out = [] ∨ Bang w.out) :
    (w.precision P [] afterIndex p).out = [] ∨ Bang (w.precision P [] afterIndex p).out := by
  match p with
  | none => exact h
  | some (i, .absent) => simpa only [Work.precision, index_out] using h
  | some (i, .num n) => simpa only [Work.precision, index_out] using h
  | some (i, .star) =>
    right
    simp only [Work.precision, intFromArg, List.getElem?_nil, Option.filter_none, index_out]
    rcases h with h | h
    · rw [h]
      exact ⟨_, rfl⟩
    · exact bang_append h

theorem verb_bang (P : Printer V) {w : Work} {verb : Option GoString} (hverb : verb ≠ some (ascii "%"))
    (h : w.out = [] ∨ Bang w.out) : Bang (w.verb P [] verb).out := by
  have happend : ∀ more, Bang more → Bang (w.out ++ more) := by
    intro more hmore
    rcases h with h | h
    · rw [h]
      exact hmore
    · exact bang_append h
  cases verb with
  | none => exact happend _ ⟨_, rfl⟩
  | some verb =>
    have hne : verb ≠ ascii "%" := fun hv => hverb (hv ▸ rfl)
    rw [Work.verb, if_neg hne]
    split
    · exact happend _ ⟨_, rfl⟩
    · exact happend _ ⟨_, rfl⟩

theorem print_bang (P : Printer V) {d : Directive} (pos : Pos) (hverb : d.verb ≠ some (ascii "%")) :
    Bang (d.print P [] pos).out := by
  refine verb_bang P hverb ?_
  rw [index_out]
  refine precision_bang P _ _ (width_bang P _ _ ?_)
  rw [index_out]
  exact .inl rfl

/-- The one directive that begins with `!` prints ten bytes more than it is long. -/
theorem sprintf_bang (P : Printer V) (s : GoString) :
    sprintf P (37 :: 33 :: s) [] = 37 :: 33 :: (ascii "!(MISSING)" ++ sprintf P s []) := by
  have hfuel := formatLoop_fuel P [] (s.length + 1) s.length {} s (by omega) (by omega)
  have hloop : (formatLoop P [] (s.length + 1 + 1) {} (37 :: 33 :: s)).1 =
      37 :: 33 :: (ascii "!(MISSING)" ++ (formatLoop P [] (s.length + 1) {} s).1) := rfl
  rw [sprintf_nil, sprintf_nil, List.length_cons, List.length_cons, hloop, hfuel]

/-- No string is a literal followed by what it prints: the literal would have to be in front again and again. -/
theorem ne_append_sprintf (P : Printer V) {text : GoString} (htext : 37 ∉ text) (hne : text ≠ []) :
    ∀ (n : Nat) (s : GoString), s.length ≤ n → s ≠ text ++ sprintf P s []
  | 0, s, hn, h => by
    have hlen := congrArg List.length h
    have hpos := List.length_pos_iff.2 hne
    rw [List.length_append] at hlen
    omega
  | n + 1, s, hn, h => by
    have hlen := congrArg List.length h
    have hpos := List.length_pos_iff.2 hne
    rw [List.length_append] at hlen
    have hnext : sprintf P s [] = text ++ sprintf P (sprintf P s []) [] := by
      have hcongr := congrArg (fun s => sprintf P s []) h
      simpa only [sprintf_literal P [] _ htext] using hcongr
    exact ne_append_sprintf P htext hne n (sprintf P s []) (by omega) hnext

/-- **Without arguments no format that begins with a directive prints itself**, but for `%%`. -/
theorem sprintf_ne_self (P : Printer V) {s : GoString} (hverb : (scanDirective s).1.verb ≠ some (ascii "%")) :
    sprintf P (37 :: s) [] ≠ 37 :: s := by
  intro h
  obtain ⟨rest, hrest⟩ := print_bang P {} hverb
  have hstart : sprintf P (37 :: s) [] =
      37 :: 33 :: (rest ++ (formatLoop P [] s.length ((scanDirective s).1.print P [] {}).pos (scanDirective s).2).1) := by
    rw [sprintf_nil, List.length_cons, formatLoop_directive]
    simp only [hrest, List.cons_append]
  rw [hstart, List.cons.injEq] at h
  obtain ⟨t, rfl⟩ : ∃ t, s = 33 :: t := ⟨_, h.2.symm⟩
  have hself : sprintf P (37 :: 33 :: t) [] = 37 :: 33 :: t := by rw [hstart, h.2]
  rw [sprintf_bang, List.cons.injEq, List.cons.injEq] at hself
  have htext : 37 ∉ ascii "!(MISSING)" ∧ ascii "!(MISSING)" ≠ [] := by decide
  exact ne_append_sprintf P htext.1 htext.2 t.length t (Nat.le_refl _) hself.2.2.symm

/-! ## With zeros as arguments -/

/-- What the argument relies on for the integer 0: it can be a width or a precision, and its text for a verb other than
`%` has at most the one `%` of an error. -/
structure IsZero (P : Printer V) (z : V) : Prop where
  toInt : P.toInt z = some 0
  percent : ∀ flags verb, 37 ∉ verb → (P.printArg flags verb z).count 37 ≤ 1

section Zeros
variable {P : Printer V} {z : V} {numArgs bound : Nat} {w : Work}

theorem intFromArg_zeros (hz : IsZero P z) {argNum : Nat} (h : argNum < numArgs) :
    intFromArg P (List.replicate numArgs z) argNum = (some 0, argNum + 1) := by
  simp [intFromArg, h, hz.toInt]

theorem index_argNum {i : Index} (hi : i.Small) (hbound : 10000009 ≤ bound) (h : w.pos.argNum ≤ bound) (n : Nat) :
    (w.index n i).pos.argNum ≤ bound := by
  cases i with
  | none => exact h
  | bad => exact h
  | arg m =>
    have hm := hi m rfl
    rw [Work.index]
    split
    · simp only
      omega
    · exact h

theorem width_zeros (hz : IsZero P z) (hlt : bound < numArgs) (h : w.pos.argNum ≤ bound) (afterIndex : Bool)
    (size : Size) : (w.width P (List.replicate numArgs z) afterIndex size).out = w.out ∧
      (w.width P (List.replicate numArgs z) afterIndex size).pos.argNum ≤ bound + 1 := by
  cases size with
  | absent => exact ⟨rfl, Nat.le_succ_of_le h⟩
  | num n => exact ⟨rfl, Nat.le_succ_of_le h⟩
  | star =>
    simp only [Work.width, intFromArg_zeros hz (Nat.lt_of_le_of_lt h hlt)]
    exact ⟨rfl, Nat.succ_le_succ h⟩

theorem precision_zeros (hz : IsZero P z) (hbound : 10000009 ≤ bound) (hlt : bound < numArgs)
    (h : w.pos.argNum ≤ bound) (afterIndex : Bool) {p : Option (Index × Size)} (hp : ∀ q, p = some q → q.1.Small) :
    (w.precision P (List.replicate numArgs z) afterIndex p).out = w.out ∧
      (w.precision P (List.replicate numArgs z) afterIndex p).pos.argNum ≤ bound + 1 := by
  match p, hp with
  | none, _ => exact ⟨rfl, Nat.le_succ_of_le h⟩
  | some (i, size), hp =>
    have hi := index_argNum (w := { w with good := w.good && !afterIndex }) (hp _ rfl) hbound h
      (List.replicate numArgs z).length
    have hout := index_out (List.replicate numArgs z).length { w with good := w.good && !afterIndex } i
    cases size with
    | absent => exact ⟨hout, Nat.le_succ_of_le hi⟩
    | num n => exact ⟨hout, Nat.le_succ_of_le hi⟩
    | star =>
      simp only [Work.precision, intFromArg_zeros hz (Nat.lt_of_le_of_lt hi hlt)]
      exact ⟨hout, Nat.succ_le_succ hi⟩

theorem verb_zeros (hz : IsZero P z) (h : w.pos.argNum ≤ bound) {verb : Option GoString}
    (hverb : ∀ v, verb = some v → 37 ∈ v → v = ascii "%") :
    (w.verb P (List.replicate numArgs z) verb).out.count 37 ≤ w.out.count 37 + 1 ∧
      (w.verb P (List.replicate numArgs z) verb).pos.argNum ≤ bound + 1 := by
  have happend : ∀ more : GoString, more.count 37 ≤ 1 → (w.out ++ more).count 37 ≤ w.out.count 37 + 1 := by
    intro more hmore
    rw [List.count_append]
    omega
  cases verb with
  | none => exact ⟨happend _ (by decide), Nat.le_succ_of_le h⟩
  | some v =>
    rw [Work.verb]
    by_cases hv : v = ascii "%"
    · rw [if_pos hv]
      exact ⟨happend _ (by decide), Nat.le_succ_of_le h⟩
    · have hmem : 37 ∉ v := fun hmem => hv (hverb v rfl hmem)
      have hzero : v.count 37 = 0 := List.count_eq_zero.2 hmem
      have htext : ∀ text : GoString, text.count 37 = 0 → (ascii "%!" ++ v ++ text).count 37 ≤ 1 := by
        intro text htext
        rw [List.count_append, List.count_append, hzero, htext]
        decide
      rw [if_neg hv]
      split
      · exact ⟨happend _ (htext _ (by decide)), Nat.le_succ_of_le h⟩
      · split
        · exact ⟨happend _ (htext _ (by decide)), Nat.le_succ_of_le h⟩
        · rename_i k hk
          obtain rfl : k = z := List.eq_of_mem_replicate (List.mem_of_getElem? hk)
          exact ⟨happend _ (hz.percent _ v hmem), Nat.succ_le_succ h⟩

/-- **A directive prints at most one `%`** while zeros are left. -/
theorem print_zeros (hz : IsZero P z) {d : Directive} (hsmall : d.head.Small)
    (hverb : ∀ v, d.verb = some v → 37 ∈ v → v = ascii "%") {pos : Pos} (hbound : 10000009 ≤ bound)
    (hlt : bound + 1 < numArgs) (h : pos.argNum ≤ bound) :
    (d.print P (List.replicate numArgs z) pos).out.count 37 ≤ 1 ∧
      (d.print P (List.replicate numArgs z) pos).pos.argNum ≤ bound + 3 := by
  obtain ⟨hindex, hprec, hlast⟩ := hsmall
  have h1 := index_argNum (w := { pos := pos, flags := d.head.flags }) hindex hbound h (List.replicate numArgs z).length
  have o1 := index_out (List.replicate numArgs z).length { pos := pos, flags := d.head.flags } d.head.index
  obtain ⟨o2, h2⟩ := width_zeros hz (by omega : bound < numArgs) h1 d.head.index.found d.head.width
  obtain ⟨o3, h3⟩ := precision_zeros hz (by omega) hlt h2 (Head.afterWidth d.head.index d.head.width) hprec
  have h4 := index_argNum hlast (by omega) h3 (List.replicate numArgs z).length
  obtain ⟨h5, h6⟩ := verb_zeros hz h4 hverb
  rw [index_out, o3, o2, o1] at h5
  exact ⟨h5, h6⟩

theorem scanDirective_zeros (hz : IsZero P z) (s : GoString) {pos : Pos} (hbound : 10000009 ≤ bound)
    (hlt : bound + 1 < numArgs) (h : pos.argNum ≤ bound) :
    ((scanDirective s).1.print P (List.replicate numArgs z) pos).out.count 37 ≤ 1 ∧
      ((scanDirective s).1.print P (List.replicate numArgs z) pos).pos.argNum ≤ bound + 3 :=
  print_zeros hz (scanHead_spec s).1 (fun _ hv hmem => (scanDirective_percent hv hmem).1) hbound hlt h

theorem formatLoop_zeros (hz : IsZero P z) : ∀ (n bound : Nat) (pos : Pos) (s : GoString), 10000009 ≤ bound →
    bound + 3 * n ≤ numArgs → pos.argNum ≤ bound →
      (formatLoop P (List.replicate numArgs z) n pos s).1.count 37 ≤ s.count 37
  | 0, _, _, s, _, _, _ => by
    rw [formatLoop]
    exact Nat.zero_le _
  | n + 1, _, _, [], _, _, _ => Nat.le_refl 0
  | n + 1, bound, pos, c :: cs, hbound, hlt, h => by
    by_cases hc : c = 37
    · subst hc
      obtain ⟨hout, hnext⟩ := scanDirective_zeros hz cs hbound (by omega : bound + 1 < numArgs) h
      have hrest := formatLoop_zeros hz n (bound + 3) _ (scanDirective cs).2 (by omega) (by omega) hnext
      have hcount := (scanDirective_suffix cs).sublist.count_le 37
      rw [formatLoop_directive, List.count_append, List.count_cons_self]
      omega
    · rw [formatLoop_byte P _ n pos hc, List.count_cons_of_ne hc, List.count_cons_of_ne hc]
      exact formatLoop_zeros hz n bound pos cs hbound (by omega) h

/-- A format that begins with a `%%` prints less `%` than it has. -/
theorem formatLoop_percent (hz : IsZero P z) {s : GoString} (hverb : (scanDirective s).1.verb = some (ascii "%"))
    {n : Nat} (hlt : 10000012 + 3 * n ≤ numArgs) :
    (formatLoop P (List.replicate numArgs z) (n + 1) {} (37 :: s)).1.count 37 < (37 :: s).count 37 := by
  have hcount := (scanDirective_percent hverb (by decide)).2
  have hargs : 10000009 + 1 < numArgs := by omega
  have hpos : ({} : Pos).argNum ≤ 10000009 := Nat.zero_le _
  obtain ⟨hout, hnext⟩ := scanDirective_zeros hz s (Nat.le_refl 10000009) hargs hpos
  have hrest := formatLoop_zeros hz n 10000012 _ (scanDirective s).2 (by omega) hlt hnext
  rw [formatLoop_directive, List.count_append, List.count_cons_self]
  omega

theorem count_intercalate {sep : GoString} (hsep : sep.count 37 = 0) (text : GoString) : ∀ n : Nat,
    (sep.intercalate (List.replicate n text)).count 37 = n * text.count 37
  | 0 => by simp
  | 1 => by simp
  | n + 2 => by
    have ih := count_intercalate hsep text (n + 1)
    rw [List.replicate_succ, List.replicate_succ, List.intercalate_cons_cons, List.count_append, List.count_append, hsep]
    rw [List.replicate_succ] at ih
    rw [ih, Nat.add_zero, Nat.succ_mul (n + 1), Nat.add_comm]

theorem extras_zeros (pos : Pos) :
    (extras P (List.replicate numArgs z) pos).count 37 ≤ (extras P (List.replicate numArgs z) {}).count 37 := by
  have hcount : ∀ pos : Pos, pos.reordered = false ∧ pos.argNum < numArgs →
      (extras P (List.replicate numArgs z) pos).count 37 = 1 + (numArgs - pos.argNum) * (extraArg P z).count 37 := by
    intro pos hpos
    have htexts : (ascii "%!(EXTRA ").count 37 = 1 ∧ (ascii ")").count 37 = 0 := by decide
    rw [extras, List.length_replicate, if_pos hpos, List.count_append, List.count_append, List.drop_replicate,
      List.map_replicate, count_intercalate (by decide), htexts.1, htexts.2]
    rfl
  by_cases hpos : pos.reordered = false ∧ pos.argNum < numArgs
  · have hzero : ({} : Pos).reordered = false ∧ ({} : Pos).argNum < numArgs := ⟨rfl, Nat.zero_lt_of_lt hpos.2⟩
    rw [hcount pos hpos, hcount {} hzero]
    exact Nat.add_le_add_left (Nat.mul_le_mul_right _ (Nat.sub_le_sub_left (Nat.zero_le _) numArgs)) 1
  · rw [extras, List.length_replicate, if_neg hpos]
    exact Nat.zero_le _

theorem verb_ne_percent (hz : IsZero P z) {s : GoString}
    (h : ∀ args, sprintf P (37 :: s) args = 37 :: s ++ sprintf P [] args) :
    (scanDirective s).1.verb ≠ some (ascii "%") := by
  intro hverb
  generalize hN : 10000012 + 3 * s.length = numArgs
  have hloop := formatLoop_percent hz hverb (Nat.le_of_eq hN)
  have hcount := congrArg (List.count 37) (h (List.replicate numArgs z))
  have hextras := @extras_zeros V P z numArgs
    (formatLoop P (List.replicate numArgs z) (s.length + 1) {} (37 :: s)).2
  have hempty : sprintf P [] (List.replicate numArgs z) = extras P (List.replicate numArgs z) {} := rfl
  have hfull : sprintf P (37 :: s) (List.replicate numArgs z) =
      (formatLoop P (List.replicate numArgs z) (s.length + 1) {} (37 :: s)).1 ++
        extras P (List.replicate numArgs z) (formatLoop P (List.replicate numArgs z) (s.length + 1) {} (37 :: s)).2 := rfl
  rw [hempty, hfull, List.count_append, List.count_append] at hcount
  omega

end Zeros

/-- **A front is copied in front of every output exactly when it has no `%`.** -/
theorem sprintf_verbatim_iff {P : Printer V} {z : V} (hz : IsZero P z) (front : GoString) :
    (∀ format args, sprintf P (front ++ format) args = front ++ sprintf P format args) ↔ 37 ∉ front := by
  constructor
  · intro h hmem
    -- the first `%` is no `%%`, since zeros would give fewer `%`, and no other directive, since nothing prints as it
    obtain ⟨literal, s, rfl, hliteral⟩ := List.eq_append_cons_of_mem hmem
    have hself : ∀ args, sprintf P (37 :: s) args = 37 :: s ++ sprintf P [] args := by
      intro args
      have hargs := h [] args
      rw [List.append_nil, sprintf_literal P args _ hliteral, List.append_assoc] at hargs
      exact List.append_cancel_left hargs
    have hnil : sprintf P (37 :: s) [] = 37 :: s := (hself []).trans (List.append_nil _)
    exact sprintf_ne_self P (verb_ne_percent hz hself) hnil
  · intro h format args
    exact sprintf_literal P args format h

end GoFmt
end Xrtc
