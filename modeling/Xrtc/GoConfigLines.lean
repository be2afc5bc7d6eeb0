import Xrtc.GoConfig
/-!
# GoConfigLines — what a saved line is read back as

A saved text is a list of lines (`lineText`), and reading it is handling them one after the other (`feed`).  A key and its
value come back from their line when they are storable: `KeyOk` and `ValueOk` say which are, with the quotes the writer
puts around them taken into account.
-/
namespace Xrtc
namespace GoConfig

open GoText

/-! ## Lines -/

def lineText (ls : List GoString) : GoString := ls.flatMap (fun l => l ++ newline)

@[simp] theorem lineText_nil : lineText [] = [] := rfl

theorem lineText_cons (l : GoString) (ls : List GoString) : lineText (l :: ls) = l ++ 10 :: lineText ls := by
  simp [lineText, newline]

theorem lineText_append (ls ms : List GoString) : lineText (ls ++ ms) = lineText ls ++ lineText ms :=
  List.flatMap_append

/-- `handleLine` on each line, trimmed as `read` trims it. -/
def feed (sc : Scan) : List GoString → Except ReadError Scan
  | [] => .ok sc
  | l :: ls => match handleLine sc (trimSpace (l ++ newline)) with
    | .error e => .error e
    | .ok sc => feed sc ls

theorem feed_append : ∀ {ls : List GoString} {sc sc' : Scan} (ms : List GoString), feed sc ls = .ok sc' →
    feed sc (ls ++ ms) = feed sc' ms
  | [], sc, sc', ms, h => by
    cases h
    rfl
  | l :: ls, sc, sc', ms, h => by
    rw [List.cons_append, feed]
    rw [feed] at h
    cases hl : handleLine sc (trimSpace (l ++ newline)) with
    | error e =>
      rw [hl] at h
      cases h
    | ok sc₁ =>
      rw [hl] at h
      exact feed_append ms h

theorem feed_cons {sc sc' : Scan} {l : GoString} (ls : List GoString)
    (h : handleLine sc (trimSpace (l ++ newline)) = .ok sc') : feed sc (l :: ls) = feed sc' ls := by
  rw [feed, h]

theorem readString_line {l : GoString} (h : 10 ∉ l) (rest : GoString) :
    readString (l ++ 10 :: rest) = (l ++ newline, rest, false) := by
  have hne : ∀ c ∈ l, decide (c ≠ 10) = true := fun c hc => decide_eq_true (fun he => h (he ▸ hc))
  have hstop : (10 :: rest : GoString).dropWhile (fun c => decide (c ≠ 10)) = 10 :: rest := by
    rw [List.dropWhile_cons_of_neg (by decide)]
  unfold readString
  rw [List.dropWhile_append_of_pos hne, hstop]
  dsimp only
  rw [List.takeWhile_append_of_pos hne, List.takeWhile_cons_of_neg (by decide), List.append_nil]
  rfl

/-- **Reading a text of lines handles them in order.** -/
theorem readLoop_lines : ∀ {ls : List GoString} {n : Nat} {sc sc' : Scan}, (∀ l ∈ ls, 10 ∉ l) → ls.length < n →
    feed sc ls = .ok sc' → readLoop n sc (lineText ls) = (none, sc')
  | [], n + 1, sc, sc', _, _, h => by
    cases h
    rfl
  | l :: ls, n + 1, sc, sc', hls, hn, h => by
    rw [lineText_cons, readLoop, readString_line (hls l List.mem_cons_self)]
    rw [feed] at h
    simp only [Bool.false_eq_true, false_and, if_false]
    cases hl : handleLine sc (trimSpace (l ++ newline)) with
    | error e =>
      rw [hl] at h
      cases h
    | ok sc₁ =>
      rw [hl] at h
      exact readLoop_lines (fun l' hl' => hls l' (List.mem_cons_of_mem _ hl')) (Nat.lt_of_succ_lt_succ hn) h

theorem length_le_lineText : ∀ ls : List GoString, ls.length ≤ (lineText ls).length
  | [] => Nat.le_refl _
  | l :: ls => by
    have := length_le_lineText ls
    rw [lineText_cons, List.length_append, List.length_cons, List.length_cons]
    omega

/-! ## Comments -/

/-- The lines of a comment as it is written. -/
def commentList (comments : GoString) : List GoString := if comments = [] then [] else split comments 10

theorem lineText_intercalate : ∀ {ls : List GoString}, ls ≠ [] → lineText ls = newline.intercalate ls ++ newline
  | [l], _ => by simp [lineText, newline]
  | l :: m :: ls, _ => by
    rw [lineText_cons, lineText_intercalate (List.cons_ne_nil m ls), List.intercalate_cons_cons]
    simp [newline]

theorem commentLines_eq (comments : GoString) : commentLines comments = lineText (commentList comments) := by
  unfold commentLines commentList
  by_cases h : comments = []
  · simp [h]
  · rw [if_pos (List.length_pos_iff.2 h), if_neg h, lineText_intercalate (split_ne_nil comments 10)]
    exact congrArg (· ++ newline) (List.intercalate_splitOn (10 : UInt8)).symm

theorem not_mem_split : ∀ (n : Nat) {s : GoString}, s.length ≤ n → ∀ l ∈ split s 10, (10 : UInt8) ∉ l := by
  intro n
  induction n with
  | zero =>
    intro s hs l hl
    rw [List.length_eq_zero_iff.1 (Nat.le_zero.1 hs), split, List.splitOn_nil, List.mem_singleton] at hl
    rw [hl]
    exact List.not_mem_nil
  | succ n ih =>
    intro s hs l hl
    by_cases h : (10 : UInt8) ∈ s
    · -- cut at the first newline
      obtain ⟨a, b, rfl, ha⟩ := List.eq_append_cons_of_mem h
      rw [split, List.splitOn_append_cons_self_of_not_mem ha, List.mem_cons] at hl
      rcases hl with rfl | hl
      · exact ha
      · refine ih ?_ l hl
        rw [List.length_append, List.length_cons] at hs
        omega
    · rw [split, List.splitOn_eq_singleton h, List.mem_singleton] at hl
      rwa [hl]

/-- A comment that comes back: each of its lines is one. -/
def CommentOk (comments : GoString) : Prop :=
  ∀ l ∈ commentList comments, Trimmed l ∧ (l.head? = some 35 ∨ l.head? = some 59)

instance (comments : GoString) : Decidable (CommentOk comments) :=
  inferInstanceAs (Decidable (∀ l ∈ commentList comments, Trimmed l ∧ (l.head? = some 35 ∨ l.head? = some 59)))

theorem not_mem_commentList {comments : GoString} : ∀ l ∈ commentList comments, (10 : UInt8) ∉ l := by
  intro l hl
  unfold commentList at hl
  split at hl
  · cases hl
  · exact not_mem_split _ (Nat.le_refl _) l hl

theorem trimSpace_line {l : GoString} (h : Trimmed l) (hne : l ≠ []) : trimSpace (l ++ newline) = l := by
  rw [newline, trimSpace_newline h.1 hne, trimSpace_of_trimmed h]

theorem handleLine_comment {sc : Scan} {l : GoString} (h : l.head? = some 35 ∨ l.head? = some 59) :
    handleLine sc l = .ok { sc with comments := if sc.comments = [] then l else sc.comments ++ [10] ++ l } := by
  have hlen : ¬l.length = 0 := by
    intro h0
    rw [List.length_eq_zero_iff.1 h0] at h
    rcases h with h | h <;> cases h
  unfold handleLine
  rw [if_neg hlen, if_pos h]
  simp only [List.length_eq_zero_iff]

theorem feed_more : ∀ {ls : List GoString} {sc : Scan}, (∀ l ∈ ls, Trimmed l ∧ (l.head? = some 35 ∨ l.head? = some 59)) →
    sc.comments ≠ [] → feed sc ls = .ok { sc with comments := sc.comments ++ ls.flatMap (fun l => 10 :: l) }
  | [], sc, _, _ => by simp [feed]
  | l :: ls, sc, h, hsc => by
    obtain ⟨htrim, hcomment⟩ := h l List.mem_cons_self
    have hne : l ≠ [] := by
      rintro rfl
      rcases hcomment with h | h <;> cases h
    rw [feed_cons ls (by rw [trimSpace_line htrim hne, handleLine_comment hcomment]),
      feed_more (fun l' hl' => h l' (List.mem_cons_of_mem _ hl')) (by simp [hsc])]
    simp [hsc]

theorem intercalate_newline (l : GoString) : ∀ ls : List GoString,
    newline.intercalate (l :: ls) = l ++ ls.flatMap (fun l => 10 :: l)
  | [] => by simp
  | m :: ls => by
    rw [List.intercalate_cons_cons, intercalate_newline m ls, List.flatMap_cons]
    simp [newline]

/-- **The comment lines of a key or section are collected as they were.** -/
theorem feed_comments {sc : Scan} {comments : GoString} (hsc : sc.comments = []) (h : CommentOk comments) :
    feed sc (commentList comments) = .ok { sc with comments := comments } := by
  unfold CommentOk commentList at h
  unfold commentList
  by_cases hc : comments = []
  · rw [if_pos hc, hc, ← hsc]
    rfl
  · rw [if_neg hc] at h ⊢
    cases hsplit : split comments 10 with
    | nil => exact absurd hsplit (split_ne_nil comments 10)
    | cons l ls =>
      rw [hsplit] at h
      obtain ⟨htrim, hcomment⟩ := h l List.mem_cons_self
      have hne : l ≠ [] := by
        rintro rfl
        rcases hcomment with h | h <;> cases h
      have hjoin : comments = l ++ ls.flatMap (fun l => 10 :: l) := by
        rw [← intercalate_newline l ls, ← hsplit]
        exact (List.intercalate_splitOn (10 : UInt8)).symm
      rw [feed_cons ls (by rw [trimSpace_line htrim hne, handleLine_comment hcomment]),
        feed_more (fun l' hl' => h l' (List.mem_cons_of_mem _ hl')) (by simp [hsc, hne])]
      simp [hsc, ← hjoin]

/-! ## Keys and values -/

/-- A value that comes back.  The writer puts quotes around one with a backquote, and `read` takes off only the triple
ones. -/
def ValueOk (v : GoString) : Prop :=
  10 ∉ v ∧ if 96 ∈ v then 34 ∈ v else Trimmed v ∧ ¬(6 ≤ v.length ∧ v.take 3 = tripleQuote)

/-- A key that comes back. -/
def KeyOk (k : GoString) : Prop :=
  10 ∉ k ∧ if 61 ∈ k ∨ 58 ∈ k then 96 ∈ k → 34 ∈ k → index (k ++ tripleQuote) tripleQuote = some k.length
    else k ≠ [] ∧ Trimmed k ∧ k ≠ [45] ∧ k.head? ≠ some 59 ∧ k.head? ≠ some 34 ∧ k.head? ≠ some 96 ∧ ¬bom <+: k

instance (v : GoString) : Decidable (ValueOk v) := inferInstanceAs (Decidable (_ ∧ _))

instance (k : GoString) : Decidable (KeyOk k) := inferInstanceAs (Decidable (_ ∧ _))

theorem trimmed_quoted {x : UInt8} (s : GoString) (hfront : ∀ c ∈ spaces, c.head? ≠ some x)
    (hback : ∀ c ∈ spaces, c.getLast? ≠ some x) : Trimmed (x :: s ++ [x]) :=
  ⟨frontTrimmed_cons hfront, backTrimmed_concat hback⟩

theorem trimmed_valueText {v : GoString} (h : ValueOk v) : Trimmed (valueText v) := by
  unfold valueText
  have hok := h.2
  by_cases hv : 96 ∈ v
  · rw [if_pos hv] at hok ⊢
    rw [if_pos hok]
    have hshape : tripleQuote ++ v ++ tripleQuote = 34 :: ([34, 34] ++ v ++ [34, 34]) ++ [34] := by simp [tripleQuote]
    rw [hshape]
    exact trimmed_quoted _ (by decide) (by decide)
  · rw [if_neg hv] at hok ⊢
    exact hok.1

/-- **A storable value is read as it was.** -/
theorem parseValue_valueText {line v : GoString} {i : Nat} (h : ValueOk v)
    (hright : trimSpace (line.drop (i + 1)) = valueText v) : parseValue line i = some v := by
  have hok := h.2
  unfold parseValue
  rw [hright]
  unfold valueText
  by_cases hv : 96 ∈ v
  · -- the last triple quote of the line is the writer's
    rw [if_pos hv] at hok ⊢
    rw [if_pos hok]
    have hlen : (tripleQuote ++ v ++ tripleQuote).length = v.length + 6 := by simp [tripleQuote]
    have hhead : ¬(2 ≤ (tripleQuote ++ v ++ tripleQuote).length ∧ (tripleQuote ++ v ++ tripleQuote).head? = some 96) := by
      rintro ⟨-, h96⟩
      revert h96
      simp [tripleQuote]
    have htriple : 6 ≤ (tripleQuote ++ v ++ tripleQuote).length ∧ (tripleQuote ++ v ++ tripleQuote).take 3 = tripleQuote :=
      ⟨by omega, by simp [tripleQuote]⟩
    have hlast : lastIndex ((tripleQuote ++ v ++ tripleQuote).drop 3) tripleQuote = some v.length := by
      rw [List.append_assoc, show (3 : Nat) = tripleQuote.length from rfl, List.drop_left]
      exact lastIndex_append v tripleQuote (by decide)
    simp only [if_neg hhead, if_pos htriple]
    rw [if_pos (by decide), show tripleQuote.length = 3 from rfl, hlast]
    dsimp only
    rw [show v.length + 3 = (tripleQuote ++ v).length by simp [tripleQuote], List.take_left,
      show (3 : Nat) = tripleQuote.length from rfl, List.drop_left]
  · rw [if_neg hv] at hok ⊢
    have hhead : ¬(2 ≤ v.length ∧ v.head? = some 96) := fun h2 => hv (List.mem_of_mem_head? h2.2)
    simp only [if_neg hhead, if_neg hok.2, ne_eq, not_true_eq_false, if_false, trimSpace_of_trimmed hok.1]

/-- `kt` stands for the key `k` in front of a separator. -/
structure Spells (kt k : GoString) : Prop where
  nonempty : kt ≠ []
  front : FrontTrimmed kt
  noNewline : 10 ∉ kt
  noBom : ¬bom <+: kt
  noComment : kt.head? ≠ some 35 ∧ kt.head? ≠ some 59
  parse : ∀ sp t : GoString, sp = [] ∨ sp = [32] → parseKey (kt ++ sp ++ 61 :: t) = some (k, kt.length + sp.length)

theorem not_bom_of_head {s : GoString} (h : s.head? ≠ some 239) : ¬bom <+: s := by
  rintro ⟨u, rfl⟩
  exact h rfl

theorem not_sep_of_blank {sp : GoString} (hsp : sp = [] ∨ sp = [32]) : ∀ x ∈ sp, x ∉ ([61, 58] : List UInt8) := by
  rcases hsp with rfl | rfl <;> simp

/-- A key in quotes. -/
theorem parseKey_quoted {q k : GoString} (hq : q ≠ []) (hsep : ∀ x ∈ q, x ∉ ([61, 58] : List UInt8))
    (hindex : index (k ++ q) q = some k.length) {sp t : GoString} (hsp : sp = [] ∨ sp = [32])
    (hquote : ∀ line : GoString, line = q ++ k ++ q ++ sp ++ 61 :: t →
      (if line.head? = some 34 then (if 6 ≤ line.length ∧ line.take 3 = tripleQuote then tripleQuote else [34])
        else if line.head? = some 96 then [96] else []) = q) :
    parseKey (q ++ k ++ q ++ sp ++ 61 :: t) = some (k, (q ++ k ++ q).length + sp.length) := by
  unfold parseKey
  simp only [hquote _ rfl, if_pos hq]
  have hdrop : (q ++ k ++ q ++ sp ++ 61 :: t).drop q.length = k ++ q ++ (sp ++ 61 :: t) := by
    simp only [List.append_assoc]
    rw [List.drop_left]
  have hkey : (q ++ k ++ q ++ sp ++ 61 :: t).take (k.length + q.length) = q ++ k := by
    have : k.length + q.length = (q ++ k).length := by
      rw [List.length_append]
      omega
    rw [this]
    simp only [List.append_assoc]
    rw [← List.append_assoc q k, List.take_left]
  have hrest : (q ++ k ++ q ++ sp ++ 61 :: t).drop (k.length + q.length) = (q ++ sp) ++ 61 :: t := by
    have : k.length + q.length = (q ++ k).length := by
      rw [List.length_append]
      omega
    rw [this]
    simp only [List.append_assoc]
    rw [← List.append_assoc q k, List.drop_left]
  have hany : indexAny ((q ++ sp) ++ 61 :: t) [61, 58] = some (q ++ sp).length := by
    refine indexAny_append (fun x hx => ?_) (by decide)
    rcases List.mem_append.1 hx with hx | hx
    · exact hsep x hx
    · exact not_sep_of_blank hsp x hx
  obtain ⟨j, hj⟩ : ∃ j, (q ++ sp).length = j + 1 := by
    cases q with
    | nil => exact absurd rfl hq
    | cons x q => exact ⟨(q ++ sp).length, rfl⟩
  rw [hdrop, index_append _ hindex]
  dsimp only
  rw [hrest, hany, hj, hkey]
  dsimp only
  rw [List.drop_left, Option.some.injEq, Prod.mk.injEq]
  refine ⟨rfl, ?_⟩
  rw [← hj]
  simp only [List.length_append]
  omega

/-- A key without quotes. -/
theorem parseKey_plain {k : GoString} (hne : k ≠ []) (htrim : Trimmed k) (hsep : ∀ x ∈ k, x ∉ ([61, 58] : List UInt8))
    (h34 : k.head? ≠ some 34) (h96 : k.head? ≠ some 96) {sp t : GoString} (hsp : sp = [] ∨ sp = [32]) :
    parseKey (k ++ sp ++ 61 :: t) = some (k, k.length + sp.length) := by
  have hhead : (k ++ sp ++ 61 :: t).head? = k.head? := by
    cases k with
    | nil => exact absurd rfl hne
    | cons x k => rfl
  have hany : indexAny ((k ++ sp) ++ 61 :: t) [61, 58] = some (k ++ sp).length := by
    refine indexAny_append (fun x hx => ?_) (by decide)
    rcases List.mem_append.1 hx with hx | hx
    · exact hsep x hx
    · exact not_sep_of_blank hsp x hx
  obtain ⟨j, hj⟩ : ∃ j, (k ++ sp).length = j + 1 := by
    cases k with
    | nil => exact absurd rfl hne
    | cons x k => exact ⟨(k ++ sp).length, rfl⟩
  have hkey : trimSpace (k ++ sp) = k := by
    rcases hsp with rfl | rfl
    · rw [List.append_nil, trimSpace_of_trimmed htrim]
    · exact trimSpace_blank htrim hne
  unfold parseKey
  simp only [hhead, if_neg h34, if_neg h96, ne_eq, not_true_eq_false, if_false, hany, hj]
  rw [← hj, List.take_left, hkey, List.length_append]

theorem spells_plain {k : GoString} (h10 : 10 ∉ k) (hne : k ≠ []) (htrim : Trimmed k)
    (hsep : ∀ x ∈ k, x ∉ ([61, 58] : List UInt8)) (h35 : k.head? ≠ some 35) (h59 : k.head? ≠ some 59)
    (h34 : k.head? ≠ some 34) (h96 : k.head? ≠ some 96) (hbom : ¬bom <+: k) : Spells k k :=
  ⟨hne, htrim.1, h10, hbom, ⟨h35, h59⟩, fun _ _ hsp => parseKey_plain hne htrim hsep h34 h96 hsp⟩

theorem spells_backquote {k : GoString} (h10 : 10 ∉ k) (h96 : 96 ∉ k) : Spells ([96] ++ k ++ [96]) k := by
  refine ⟨by simp, frontTrimmed_cons (by decide), by simp [h10], not_bom_of_head (by simp), by simp, fun sp t hsp => ?_⟩
  refine parseKey_quoted (by decide) (by simp) (index_singleton h96) hsp (fun line hline => ?_)
  subst hline
  simp

theorem spells_quote {k : GoString} (h10 : 10 ∉ k) (h34 : 34 ∉ k) (hne : k ≠ []) : Spells ([34] ++ k ++ [34]) k := by
  refine ⟨by simp, frontTrimmed_cons (by decide), by simp [h10], not_bom_of_head (by simp), by simp, fun sp t hsp => ?_⟩
  refine parseKey_quoted (by decide) (by simp) (index_singleton h34) hsp (fun line hline => ?_)
  subst hline
  cases k with
  | nil => exact absurd rfl hne
  | cons x k =>
    have hx : x ≠ 34 := fun he => h34 (he ▸ List.mem_cons_self)
    simp [tripleQuote, hx]

theorem spells_triple {k : GoString} (h10 : 10 ∉ k) (hindex : index (k ++ tripleQuote) tripleQuote = some k.length) :
    Spells (tripleQuote ++ k ++ tripleQuote) k := by
  refine ⟨by simp [tripleQuote], frontTrimmed_cons (by decide), by simp [tripleQuote, h10],
    not_bom_of_head (by simp [tripleQuote]), by simp [tripleQuote], fun sp t hsp => ?_⟩
  refine parseKey_quoted (by decide) (by simp [tripleQuote]) hindex hsp (fun line hline => ?_)
  subst hline
  simp [tripleQuote]
  omega

/-- **A storable key that is not automatic is spelled by its own text.** -/
theorem spells_keyText {k : GoString} (h : KeyOk k) (h35 : k.head? ≠ some 35) :
    ∃ kt, keyText k = some kt ∧ Spells kt k := by
  obtain ⟨h10, hok⟩ := h
  cases k with
  | nil =>
    simp only [List.not_mem_nil, or_self, if_false] at hok
    exact absurd rfl hok.1
  | cons x k =>
    have hx : x ≠ 35 := fun he => h35 (by rw [he]; rfl)
    unfold keyText
    simp only [List.head?_cons, Option.map_some, if_neg hx]
    refine ⟨_, rfl, ?_⟩
    by_cases hsep : 61 ∈ x :: k ∨ 58 ∈ x :: k
    · rw [if_pos hsep] at hok ⊢
      by_cases h96 : 96 ∈ x :: k
      · rw [if_pos h96]
        by_cases h34 : 34 ∈ x :: k
        · rw [if_pos h34]
          exact spells_triple h10 (hok h96 h34)
        · rw [if_neg h34]
          exact spells_quote h10 h34 (List.cons_ne_nil _ _)
      · rw [if_neg h96]
        exact spells_backquote h10 h96
    · rw [if_neg hsep] at hok ⊢
      obtain ⟨hne, htrim, -, h59, h34, h96, hbom⟩ := hok
      rw [not_or] at hsep
      refine spells_plain h10 hne htrim (fun y hy hmem => ?_) h35 h59 h34 h96 hbom
      simp only [List.mem_cons, List.not_mem_nil, or_false] at hmem
      rcases hmem with rfl | rfl
      · exact hsep.1 hy
      · exact hsep.2 hy

theorem spells_automatic : Spells [45] [45] :=
  spells_plain (by decide) (by decide) (by decide) (by simp) (by decide) (by decide) (by decide) (by decide) (by decide)

/-! ## The line of a key -/

/-- What is left of a trimmed line right of the key, without and with a separator and its blanks. -/
def lead (pretty : Bool) : GoString := if pretty then [32] else []

def follow (pretty : Bool) (vt : GoString) : GoString := if pretty = true ∧ vt ≠ [] then 32 :: vt else vt

theorem lead_cases (pretty : Bool) : lead pretty = [] ∨ lead pretty = [32] := by cases pretty <;> simp [lead]

theorem trimSpace_follow (pretty : Bool) {vt : GoString} (h : Trimmed vt) : trimSpace (follow pretty vt) = vt := by
  unfold follow
  split
  · exact trimSpace_lead h
  · exact trimSpace_of_trimmed h

theorem trimSpace_keyLine {kt vt : GoString} (pretty : Bool) (hne : kt ≠ []) (hkt : FrontTrimmed kt) (hvt : Trimmed vt) :
    trimSpace (kt ++ equalSign pretty ++ vt ++ newline) = kt ++ lead pretty ++ 61 :: follow pretty vt := by
  -- the value, or the sign, ends the line
  have hback : ∀ u : GoString, BackTrimmed (u ++ 61 :: vt) := by
    intro u
    by_cases hv : vt = []
    · subst hv
      exact backTrimmed_concat (by decide)
    · exact hvt.2.append hv (by decide)
  cases pretty with
  | false =>
    have hline : kt ++ equalSign false ++ vt = kt ++ 61 :: vt := by simp [equalSign]
    have htrim : Trimmed (kt ++ 61 :: vt) := ⟨hkt.append hne (by decide), hback kt⟩
    rw [hline, trimSpace_line htrim (by simp)]
    simp [lead, follow]
  | true =>
    by_cases hv : vt = []
    · subst hv
      have hline : kt ++ equalSign true ++ [] = kt ++ 32 :: [61] ++ [32] := by simp [equalSign]
      have htrim : Trimmed (kt ++ 32 :: [61]) := by
        refine ⟨hkt.append hne (by decide), ?_⟩
        rw [show kt ++ 32 :: [61] = (kt ++ [32]) ++ [61] by simp]
        exact backTrimmed_concat (by decide)
      have hfront : FrontTrimmed (kt ++ 32 :: [61] ++ [32]) := htrim.1.append (by simp) (by decide)
      rw [hline, newline, trimSpace_newline hfront (by simp), trimSpace_blank htrim (by simp)]
      simp [lead, follow]
    · have hline : kt ++ equalSign true ++ vt = kt ++ 32 :: (61 :: 32 :: vt) := by simp [equalSign]
      have htrim : Trimmed (kt ++ 32 :: (61 :: 32 :: vt)) := by
        refine ⟨hkt.append hne (by decide), ?_⟩
        rw [show kt ++ 32 :: (61 :: 32 :: vt) = (kt ++ [32, 61]) ++ 32 :: vt by simp]
        exact hvt.2.append hv (by decide)
      rw [hline, trimSpace_line htrim (by simp)]
      simp [lead, follow, hv]

/-- The configuration after a key's line. -/
def assigned (cfg : ConfigFile) (name key value comments : GoString) : ConfigFile :=
  let cfg := (cfg.setValue name key value).2
  if 0 < comments.length then (cfg.setKeyComments name key comments).2 else cfg

/-- **The line of a storable key and value assigns them**, an automatic key under the next number. -/
theorem handleLine_entry (sc : Scan) (pretty : Bool) {kt k v : GoString} (hname : sc.name ≠ []) (hk : Spells kt k)
    (hv : ValueOk v) (hsection : ¬(kt.head? = some 91 ∧ (valueText v).getLast? = some 93)) :
    handleLine sc (trimSpace (kt ++ equalSign pretty ++ valueText v ++ newline)) =
      .ok { sc with
        cfg := assigned sc.cfg sc.name (if k = [45] then 35 :: sprint sc.count else k) v sc.comments
        count := if k = [45] then sc.count + 1 else sc.count
        comments := [] } := by
  have hvt := trimmed_valueText hv
  rw [trimSpace_keyLine pretty hk.nonempty hk.front hvt]
  have hparse := hk.parse (lead pretty) (follow pretty (valueText v)) (lead_cases pretty)
  have hlen : ¬(kt ++ lead pretty ++ 61 :: follow pretty (valueText v)).length = 0 := by simp
  have hhead : (kt ++ lead pretty ++ 61 :: follow pretty (valueText v)).head? = kt.head? := by
    cases hkt : kt with
    | nil => exact absurd hkt hk.nonempty
    | cons x kt => rfl
  have hcomment : ¬(kt.head? = some 35 ∨ kt.head? = some 59) := not_or.2 hk.noComment
  have hheader : ¬(kt.head? = some 91 ∧
      (kt ++ lead pretty ++ 61 :: follow pretty (valueText v)).getLast? = some 93) := by
    rintro ⟨h91, hlast⟩
    by_cases hvt' : valueText v = []
    · rw [hvt', follow, if_neg (fun h => h.2 rfl), List.getLast?_append, List.getLast?_singleton] at hlast
      cases hlast
    · refine hsection ⟨h91, ?_⟩
      have hsuf : ∃ u, kt ++ lead pretty ++ 61 :: follow pretty (valueText v) = u ++ valueText v := by
        unfold follow
        split
        · exact ⟨kt ++ lead pretty ++ [61, 32], by simp⟩
        · exact ⟨kt ++ lead pretty ++ [61], by simp⟩
      obtain ⟨u, hu⟩ := hsuf
      rwa [hu, List.getLast?_append_of_ne_nil _ hvt'] at hlast
  have hright : trimSpace ((kt ++ lead pretty ++ 61 :: follow pretty (valueText v)).drop
      (kt.length + (lead pretty).length + 1)) = valueText v := by
    rw [show kt.length + (lead pretty).length + 1 = (kt ++ lead pretty ++ [61]).length by simp; omega,
      show kt ++ lead pretty ++ 61 :: follow pretty (valueText v) =
        (kt ++ lead pretty ++ [61]) ++ follow pretty (valueText v) by simp, List.drop_left, trimSpace_follow pretty hvt]
  unfold handleLine
  rw [if_neg hlen, hhead, if_neg hcomment, if_neg hheader, if_neg hname, hparse]
  dsimp only
  by_cases hauto : k = [45]
  · simp only [if_pos hauto]
    rw [parseValue_valueText hv hright]
    rfl
  · simp only [if_neg hauto]
    rw [parseValue_valueText hv hright]
    rfl

/-- **The header of a section with a trimmed name opens it.** -/
theorem handleLine_section (sc : Scan) {name : GoString} (h : Trimmed name) :
    handleLine sc (trimSpace ([91] ++ name ++ [93] ++ newline)) =
      .ok { cfg := (((if 0 < sc.comments.length then (sc.cfg.setSectionComments name sc.comments).2
              else sc.cfg).setValue name blank blank).2)
            count := 1, name := name, comments := [] } := by
  have htrim : Trimmed ([91] ++ name ++ [93]) :=
    ⟨frontTrimmed_cons (by decide), backTrimmed_concat (by decide)⟩
  have hinner : (([91] ++ name ++ [93]).take (([91] ++ name ++ [93]).length - 1)).drop 1 = name := by simp
  rw [trimSpace_line htrim (by simp)]
  unfold handleLine
  rw [if_neg (by simp), if_neg (by simp), if_pos ⟨by simp, List.getLast?_concat⟩, hinner, trimSpace_of_trimmed h]

theorem handleLine_blank (sc : Scan) : handleLine sc (trimSpace ([] ++ newline)) = .ok sc := by
  have hempty : trimSpace ([] ++ newline) = [] := by decide
  rw [hempty]
  rfl

end GoConfig
end Xrtc
