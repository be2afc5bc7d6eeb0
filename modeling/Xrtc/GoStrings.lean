import Mathlib.Data.List.DropRight
import Xrtc.GoText
/-!
# GoStrings — searching, trimming and replacing in Go strings

`strings.Index`, `LastIndex` and `IndexAny`, and what `strings.TrimSpace` leaves alone: a string is trimmed when no
encoding of a white space character stands at either end.  No such encoding reaches over an ASCII byte, so joining
strings at one keeps their outer ends trimmed.  `strings.Replace` and the cutset forms of `Trim` come last.
-/
namespace Xrtc
namespace GoText

/-- `strings.Index`. -/
def index : GoString → GoString → Option Nat
  | [], pat => if pat = [] then some 0 else none
  | c :: s, pat => if pat.isPrefixOf (c :: s) then some 0 else (index s pat).map (· + 1)

/-- `strings.LastIndex`. -/
def lastIndex : GoString → GoString → Option Nat
  | [], pat => if pat = [] then some 0 else none
  | c :: s, pat => match lastIndex s pat with
    | some i => some (i + 1)
    | none => if pat.isPrefixOf (c :: s) then some 0 else none

/-- `strings.IndexAny` for ASCII characters. -/
def indexAny (s : GoString) (chars : List UInt8) : Option Nat := s.findIdx? (fun c => chars.contains c)

/-! ## Searching -/

theorem index_length : ∀ {s pat : GoString} {i : Nat}, index s pat = some i → i + pat.length ≤ s.length
  | [], pat, i, h => by
    unfold index at h
    split at h
    · rename_i hpat
      cases h
      rw [hpat]
      exact Nat.le_refl _
    · cases h
  | c :: s, pat, i, h => by
    unfold index at h
    split at h
    · rename_i hpre
      cases h
      rw [Nat.zero_add]
      exact (List.isPrefixOf_iff_prefix.1 hpre).length_le
    · obtain ⟨j, hj, rfl⟩ := Option.map_eq_some_iff.1 h
      have := index_length hj
      rw [List.length_cons]
      omega

/-- What follows a string does not move the first occurrence inside it. -/
theorem index_append {pat : GoString} (rest : GoString) : ∀ {s : GoString} {i : Nat}, index s pat = some i →
    index (s ++ rest) pat = some i
  | [], i, h => by
    unfold index at h
    split at h
    · rename_i hpat
      cases h
      subst hpat
      cases rest <;> rfl
    · cases h
  | c :: s, i, h => by
    unfold index at h
    rw [List.cons_append, index]
    split at h
    · rename_i hpre
      cases h
      have hpre' : pat.isPrefixOf (c :: (s ++ rest)) = true :=
        List.isPrefixOf_iff_prefix.2 ((List.isPrefixOf_iff_prefix.1 hpre).trans (List.prefix_append (c :: s) rest))
      rw [if_pos hpre']
    · rename_i hpre
      obtain ⟨j, hj, rfl⟩ := Option.map_eq_some_iff.1 h
      have hlen := index_length hj
      have hno : ¬(pat.isPrefixOf (c :: (s ++ rest)) = true) := by
        intro hp
        refine hpre (List.isPrefixOf_iff_prefix.2 (List.prefix_of_prefix_length_le (List.isPrefixOf_iff_prefix.1 hp)
          (List.prefix_append (c :: s) rest) ?_))
        rw [List.length_cons]
        omega
      rw [if_neg hno, index_append rest hj, Option.map_some]

/-- The first occurrence of a byte that is not in front of it. -/
theorem index_singleton {q : UInt8} : ∀ {s : GoString}, q ∉ s → index (s ++ [q]) [q] = some s.length
  | [], _ => by simp [index, List.isPrefixOf]
  | c :: s, h => by
    rw [List.mem_cons, not_or] at h
    have hno : ¬(List.isPrefixOf [q] (c :: (s ++ [q])) = true) := by
      rw [List.isPrefixOf_iff_prefix, List.cons_prefix_cons]
      exact fun hp => h.1 hp.1
    rw [List.cons_append, index, if_neg hno, index_singleton h.2]
    rfl

/-- The last occurrence stands at the end. -/
theorem lastIndex_append : ∀ (s pat : GoString), pat ≠ [] → lastIndex (s ++ pat) pat = some s.length
  | [], pat, hpat => by
    cases pat with
    | nil => exact absurd rfl hpat
    | cons c pat =>
      have hnone : ∀ t : GoString, t.length < (c :: pat).length → lastIndex t (c :: pat) = none := by
        intro t
        induction t with
        | nil => exact fun _ => rfl
        | cons d t ih =>
          intro hlen
          rw [List.length_cons] at hlen
          rw [lastIndex, ih (by omega)]
          have hno : ¬((c :: pat).isPrefixOf (d :: t) = true) := by
            rw [List.isPrefixOf_iff_prefix]
            intro hpre
            have := hpre.length_le
            simp only [List.length_cons] at this hlen
            omega
          exact if_neg hno
      rw [List.nil_append, lastIndex, hnone pat (by simp)]
      have hpre : (c :: pat).isPrefixOf (c :: pat) = true := List.isPrefixOf_iff_prefix.2 (List.prefix_refl _)
      simp only [hpre, if_true, List.length_nil]
  | c :: s, pat, hpat => by
    rw [List.cons_append, lastIndex, lastIndex_append s pat hpat]
    rfl

theorem indexAny_append {chars : List UInt8} : ∀ {s : GoString} {c : UInt8} {rest : GoString}, (∀ x ∈ s, x ∉ chars) →
    c ∈ chars → indexAny (s ++ c :: rest) chars = some s.length
  | [], c, rest, _, hc => by simp [indexAny, List.findIdx?_cons, hc]
  | x :: s, c, rest, hs, hc => by
    have hrec : indexAny (s ++ c :: rest) chars = some s.length :=
      indexAny_append (fun y hy => hs y (List.mem_cons_of_mem _ hy)) hc
    have hx : chars.contains x = false := by
      rw [List.contains_eq_mem, decide_eq_false_iff_not]
      exact hs x List.mem_cons_self
    unfold indexAny at hrec ⊢
    rw [List.cons_append, List.findIdx?_cons, hx, hrec]
    rfl

/-! ## Trimming -/

def FrontTrimmed (s : GoString) : Prop := ∀ c ∈ spaces, ¬c <+: s

def BackTrimmed (s : GoString) : Prop := ∀ c ∈ spaces, ¬c <:+ s

instance (s : GoString) : Decidable (FrontTrimmed s) := inferInstanceAs (Decidable (∀ c ∈ spaces, ¬c <+: s))

instance (s : GoString) : Decidable (BackTrimmed s) := inferInstanceAs (Decidable (∀ c ∈ spaces, ¬c <:+ s))

/-- `TrimSpace` leaves it alone. -/
def Trimmed (s : GoString) : Prop := FrontTrimmed s ∧ BackTrimmed s

instance (s : GoString) : Decidable (Trimmed s) := inferInstanceAs (Decidable (_ ∧ _))

theorem trimLeft_of_front {s : GoString} (h : FrontTrimmed s) (n : Nat) : trimLeft n s = s := by
  have hnone : spaces.find? (fun c => c.isPrefixOf s) = none := by
    rw [List.find?_eq_none]
    intro c hc
    rw [List.isPrefixOf_iff_prefix]
    exact h c hc
  cases n with
  | zero => rfl
  | succ n => rw [trimLeft, hnone]

theorem trimRight_of_back {s : GoString} (h : BackTrimmed s) (n : Nat) : trimRight n s = s := by
  have hnone : spaces.find? (fun c => c.isSuffixOf s) = none := by
    rw [List.find?_eq_none]
    intro c hc
    rw [List.isSuffixOf_iff_suffix]
    exact h c hc
  cases n with
  | zero => rfl
  | succ n => rw [trimRight, hnone]

theorem trimSpace_of_trimmed {s : GoString} (h : Trimmed s) : trimSpace s = s := by
  unfold trimSpace
  rw [trimLeft_of_front h.1, trimRight_of_back h.2]

theorem spaces_head : ∀ c ∈ spaces, ∃ x rest, c = x :: rest ∧ ∀ y ∈ rest, 128 ≤ y.toNat := by
  intro c hc
  have hall : spaces.all (fun c => !c.isEmpty && c.tail.all (fun y => 128 ≤ y.toNat)) = true := by decide
  have hone := List.all_eq_true.1 hall c hc
  cases c with
  | nil => cases hone
  | cons x rest => exact ⟨x, rest, rfl, by simpa using hone⟩

theorem spaces_last : ∀ c ∈ spaces, ∃ front x, c = front ++ [x] ∧ ∀ y ∈ front, 128 ≤ y.toNat := by
  intro c hc
  have hall : spaces.all (fun c => !c.isEmpty && c.dropLast.all (fun y => 128 ≤ y.toNat)) = true := by decide
  have hone := List.all_eq_true.1 hall c hc
  cases hne : c with
  | nil =>
    rw [hne] at hone
    cases hone
  | cons x rest =>
    have hc' : c ≠ [] := by simp [hne]
    refine ⟨c.dropLast, c.getLast hc', by rw [List.dropLast_concat_getLast, hne], fun y hy => ?_⟩
    simp only [Bool.and_eq_true, List.all_eq_true, decide_eq_true_eq] at hone
    exact hone.2 y hy

/-- A prefix of other bytes does not reach over an ASCII byte. -/
theorem prefix_of_append {p s t : GoString} {x : UInt8} (hp : ∀ y ∈ p, 128 ≤ y.toNat) (hx : x.toNat < 128)
    (h : p <+: s ++ x :: t) : p <+: s := by
  rcases List.prefix_or_prefix_of_prefix h (List.prefix_append s (x :: t)) with hps | ⟨u, hu⟩
  · exact hps
  · cases u with
    | nil =>
      rw [List.append_nil] at hu
      exact hu ▸ List.prefix_refl s
    | cons z u =>
      obtain ⟨v, hv⟩ := h
      rw [← hu, List.append_assoc, List.append_cancel_left_eq, List.cons_append, List.cons.injEq] at hv
      have := hp x (by rw [← hu, ← hv.1]; simp)
      omega

/-- An ASCII byte behind a string does not complete a white space character at its front. -/
theorem FrontTrimmed.append {s t : GoString} {x : UInt8} (h : FrontTrimmed s) (hs : s ≠ []) (hx : x.toNat < 128) :
    FrontTrimmed (s ++ x :: t) := by
  intro c hc hpre
  rcases List.prefix_or_prefix_of_prefix hpre (List.prefix_append s (x :: t)) with hcs | ⟨u, hu⟩
  · exact h c hc hcs
  · obtain ⟨y, rest, hy, hrest⟩ := spaces_head c hc
    cases u with
    | nil =>
      rw [List.append_nil] at hu
      exact h c hc (hu ▸ List.prefix_refl s)
    | cons z u =>
      obtain ⟨v, hv⟩ := hpre
      have hz : z = x := by
        rw [← hu, List.append_assoc, List.append_cancel_left_eq, List.cons_append, List.cons.injEq] at hv
        exact hv.1
      have hmem : x ∈ rest := by
        cases s with
        | nil => exact absurd rfl hs
        | cons a s =>
          rw [hy, List.cons_append, List.cons.injEq] at hu
          rw [← hu.2, hz]
          simp
      have := hrest x hmem
      omega

theorem BackTrimmed.append {s t : GoString} {x : UInt8} (h : BackTrimmed t) (ht : t ≠ []) (hx : x.toNat < 128) :
    BackTrimmed (s ++ x :: t) := by
  intro c hc hsuf
  have ht' : t <:+ s ++ x :: t := ⟨s ++ [x], by simp⟩
  rcases List.suffix_or_suffix_of_suffix hsuf ht' with hcs | ⟨u, hu⟩
  · exact h c hc hcs
  · obtain ⟨front, y, hy, hfront⟩ := spaces_last c hc
    rcases List.eq_nil_or_concat u with rfl | ⟨u, z, rfl⟩
    · rw [List.nil_append] at hu
      exact h c hc (hu ▸ List.suffix_refl t)
    · rw [List.concat_eq_append] at hu
      obtain ⟨v, hv⟩ := hsuf
      have hz : z = x := by
        have hsplit : s ++ x :: t = (s ++ [x]) ++ t := by simp
        rw [← hu, hsplit, ← List.append_assoc, List.append_cancel_right_eq, ← List.append_assoc] at hv
        exact (List.append_inj' hv rfl).2 |> List.singleton_inj.1
      have hmem : x ∈ front := by
        rcases List.eq_nil_or_concat t with rfl | ⟨t, a, rfl⟩
        · exact absurd rfl ht
        · rw [hy, List.concat_eq_append, ← List.append_assoc] at hu
          rw [← (List.append_inj' hu rfl).1, hz]
          simp
      have := hfront x hmem
      omega

/-- A string between two bytes that no white space character starts or ends with. -/
theorem frontTrimmed_cons {x : UInt8} {s : GoString} (hx : ∀ c ∈ spaces, c.head? ≠ some x) : FrontTrimmed (x :: s) := by
  rintro c hc ⟨u, hu⟩
  obtain ⟨y, rest, rfl, -⟩ := spaces_head c hc
  rw [List.cons_append, List.cons.injEq] at hu
  exact hx _ hc (by rw [hu.1]; rfl)

theorem backTrimmed_concat {x : UInt8} {s : GoString} (hx : ∀ c ∈ spaces, c.getLast? ≠ some x) :
    BackTrimmed (s ++ [x]) := by
  rintro c hc ⟨u, hu⟩
  obtain ⟨front, y, rfl, -⟩ := spaces_last c hc
  rw [← List.append_assoc] at hu
  have hy := List.singleton_inj.1 (List.append_inj' hu rfl).2
  exact hx _ hc (by rw [hy]; simp)

/-- One ASCII white space character at the end goes. -/
theorem trimRight_space {x : UInt8} (hmem : [x] ∈ spaces) (honly : ∀ c ∈ spaces, c.getLast? = some x → c = [x])
    (n : Nat) (s : GoString) : trimRight (n + 1) (s ++ [x]) = trimRight n s := by
  have hfind : spaces.find? (fun c => c.isSuffixOf (s ++ [x])) = some [x] := by
    cases hf : spaces.find? (fun c => c.isSuffixOf (s ++ [x])) with
    | none =>
      rw [List.find?_eq_none] at hf
      exact absurd (List.isSuffixOf_iff_suffix.2 (List.suffix_append s [x])) (hf [x] hmem)
    | some c =>
      have hc := List.mem_of_find?_eq_some hf
      have hsuf : c.isSuffixOf (s ++ [x]) = true := List.find?_some (p := fun c : GoString => c.isSuffixOf (s ++ [x])) hf
      obtain ⟨u, hu⟩ := List.isSuffixOf_iff_suffix.1 hsuf
      obtain ⟨front, y, rfl, -⟩ := spaces_last c hc
      rw [← List.append_assoc] at hu
      have hy := List.singleton_inj.1 (List.append_inj' hu rfl).2
      rw [honly _ hc (by rw [hy]; simp)]
  rw [trimRight, hfind]
  simp

theorem trimLeft_space {x : UInt8} (hmem : [x] ∈ spaces) (honly : ∀ c ∈ spaces, c.head? = some x → c = [x])
    (n : Nat) (s : GoString) : trimLeft (n + 1) (x :: s) = trimLeft n s := by
  have hfind : spaces.find? (fun c => c.isPrefixOf (x :: s)) = some [x] := by
    cases hf : spaces.find? (fun c => c.isPrefixOf (x :: s)) with
    | none =>
      rw [List.find?_eq_none] at hf
      exact absurd (List.isPrefixOf_iff_prefix.2 ⟨s, rfl⟩) (hf [x] hmem)
    | some c =>
      have hc := List.mem_of_find?_eq_some hf
      have hpre : c.isPrefixOf (x :: s) = true := List.find?_some (p := fun c : GoString => c.isPrefixOf (x :: s)) hf
      obtain ⟨u, hu⟩ := List.isPrefixOf_iff_prefix.1 hpre
      obtain ⟨y, rest, rfl, -⟩ := spaces_head c hc
      rw [List.cons_append, List.cons.injEq] at hu
      rw [honly _ hc (by rw [hu.1]; rfl)]
  rw [trimLeft, hfind]
  rfl

theorem trimSpace_newline {s : GoString} (h : FrontTrimmed s) (hne : s ≠ []) : trimSpace (s ++ [10]) = trimSpace s := by
  unfold trimSpace
  rw [trimLeft_of_front (h.append hne (by decide)), trimLeft_of_front h]
  dsimp only
  rw [List.length_append, List.length_singleton, trimRight_space (by decide) (by decide)]

theorem trimSpace_blank {s : GoString} (h : Trimmed s) (hne : s ≠ []) : trimSpace (s ++ [32]) = s := by
  unfold trimSpace
  rw [trimLeft_of_front (h.1.append hne (by decide))]
  dsimp only
  rw [List.length_append, List.length_singleton, trimRight_space (by decide) (by decide), trimRight_of_back h.2]

theorem trimSpace_lead {s : GoString} (h : Trimmed s) : trimSpace (32 :: s) = s := by
  unfold trimSpace
  rw [List.length_cons, trimLeft_space (by decide) (by decide), trimLeft_of_front h.1]
  dsimp only
  rw [trimRight_of_back h.2]

/-! ## Replacing -/

/-- `strings.TrimLeft` and `strings.TrimRight` with ASCII characters. -/
def trimLeftSet (s : GoString) (cutset : List UInt8) : GoString := s.dropWhile (fun c => cutset.contains c)

def trimRightSet (s : GoString) (cutset : List UInt8) : GoString := s.rdropWhile (fun c => cutset.contains c)

/-- The loop of `strings.Replace`; the number says how much of the last occurrence is still to be skipped. -/
def replaceFrom (old new : GoString) : Nat → GoString → GoString
  | _, [] => []
  | k + 1, _ :: s => replaceFrom old new k s
  | 0, c :: s =>
    if old.isPrefixOf (c :: s) then new ++ replaceFrom old new (old.length - 1) s else c :: replaceFrom old new 0 s

/-- `strings.Replace(s, old, new, -1)` for an `old` that is not empty. -/
def replaceAll (s old new : GoString) : GoString := replaceFrom old new 0 s

section Replace
variable {old new : GoString}

theorem replaceFrom_skip : ∀ (s rest : GoString), replaceFrom old new s.length (s ++ rest) = replaceFrom old new 0 rest
  | [], _ => rfl
  | _ :: s, rest => replaceFrom_skip s rest

/-- An occurrence. -/
theorem replaceAll_hit (h : old ≠ []) (rest : GoString) :
    replaceAll (old ++ rest) old new = new ++ replaceAll rest old new := by
  cases old with
  | nil => exact absurd rfl h
  | cons c old =>
    have hpre : (c :: old).isPrefixOf (c :: (old ++ rest)) = true :=
      List.isPrefixOf_iff_prefix.2 (List.prefix_append (c :: old) rest)
    unfold replaceAll
    rw [List.cons_append, replaceFrom, if_pos hpre, List.length_cons, Nat.add_sub_cancel, replaceFrom_skip]

/-- A byte where no occurrence starts. -/
theorem replaceAll_miss {c : UInt8} {s : GoString} (h : ¬old <+: c :: s) :
    replaceAll (c :: s) old new = c :: replaceAll s old new := by
  rw [← List.isPrefixOf_iff_prefix] at h
  unfold replaceAll
  rw [replaceFrom, if_neg h]

end Replace

end GoText
end Xrtc
