import Xrtc.GoConfigMap
import Xrtc.Template
/-!
# GoConfigValue — `GetValue` and the references in values

A value may name others, `%(name)s`.  `GetValue` finds the leftmost reference with a regular expression, takes the name
out of it with `TrimLeft` and `TrimRight`, calls itself for the default section and replaces every copy of the reference
in the text; so up to 200 times.  On values that are spelled templates (`Template`) this text processing is the expansion
of the template (`expandValue_spell`), and the recursion is the meaning of a system of definitions: `GetValue` returns
exactly the meaning, and where references lead round in a circle it never returns.
-/
namespace Xrtc
namespace GoConfig

open GoText (lastIndex trimLeftSet trimRightSet replaceAll)
open Template (Piece Means refs render expand subst)

/-- `_DEPTH_VALUES`. -/
def depthValues : Nat := 200

/-- `varPattern`, the regular expression of a reference, at the front of a text. -/
def matchVar (s : GoString) : Option GoString :=
  if [37, 40] <+: s then
    let name := (s.drop 2).takeWhile (fun c => c ≠ 41)
    if name ≠ [] ∧ [41, 115] <+: (s.drop 2).dropWhile (fun c => c ≠ 41) then some ([37, 40] ++ name ++ [41, 115])
    else none
  else none

/-- `varPattern.FindString`: the leftmost match. -/
def findVar : GoString → GoString
  | [] => []
  | c :: s => match matchVar (c :: s) with
    | some vr => vr
    | none => findVar s

/-- Take off leading `%(` and trailing `)s`: with `TrimLeft` and `TrimRight`, which take off every such character. -/
def noption (vr : GoString) : GoString := trimRightSet (trimLeftSet vr [37, 40]) [41, 115]

inductive GetError where
  | sectionNotFound (name : GoString)
  | keyNotFound (key : GoString)
  deriving DecidableEq

/-- What replaces a reference in section `name`: the value from the default section, or on an error the section's own,
as it stands there. -/
def nvalue (kv : GoString → Option GoString) (name key : GoString) : Except GetError GoString → GoString
  | .ok v => v
  | .error _ => if name ≠ defaultSection then (kv key).getD [] else []

/-- The loop of `GetValue`; `look` is its recursive call for the default section. -/
def expandValue (look : GoString → Option (Except GetError GoString)) (kv : GoString → Option GoString)
    (name : GoString) : Nat → GoString → Option GoString
  | 0, value => some value
  | i + 1, value =>
    let vr := findVar value
    if vr.length = 0 then some value
    else (look (noption vr)).bind (fun r =>
      expandValue look kv name i (replaceAll value vr (nvalue kv name (noption vr) r)))

/-- `GetValue`; `none` when the recursion is deeper than the fuel. -/
def getValue : Nat → ConfigFile → GoString → GoString → Option (Except GetError GoString)
  | 0, _, _, _ => none
  | n + 1, c, name, key =>
    let name := sectionOf name
    match c.data name with
    | none => some (.error (.sectionNotFound name))
    | some kv => match kv key with
      | none => match lastIndex name [46] with
        | some i => getValue n c (name.take i) key
        | none => some (.error (.keyNotFound key))
      | some value =>
        (expandValue (fun key => getValue n c defaultSection key) kv name depthValues value).map Except.ok

/-! ## Templates as text -/

/-- No reference starts in it, whatever follows: it has no `%(` and does not end in `%`. -/
def Literal : GoString → Prop
  | [] => True
  | [c] => c ≠ 37
  | c :: d :: s => ¬(c = 37 ∧ d = 40) ∧ Literal (d :: s)

def decideLiteral : ∀ s, Decidable (Literal s)
  | [] => .isTrue trivial
  | [c] => inferInstanceAs (Decidable (c ≠ 37))
  | _ :: d :: s =>
    have := decideLiteral (d :: s)
    inferInstanceAs (Decidable (_ ∧ _))

instance (s : GoString) : Decidable (Literal s) := decideLiteral s

/-- The name of a reference, as it is written: no `)` and no `%(` in it. -/
def NameOk (n : GoString) : Prop := n ≠ [] ∧ 41 ∉ n ∧ Literal (n ++ [41])

instance (n : GoString) : Decidable (NameOk n) := inferInstanceAs (Decidable (_ ∧ _))

def spellRef (n : GoString) : GoString := [37, 40] ++ n ++ [41, 115]

def spellPiece : Piece GoString UInt8 → GoString
  | .lit s => s
  | .ref n => spellRef n

def spell (t : List (Piece GoString UInt8)) : GoString := t.flatMap spellPiece

def PieceOk : Piece GoString UInt8 → Prop
  | .lit s => Literal s
  | .ref n => NameOk n

instance : ∀ p, Decidable (PieceOk p)
  | .lit s => inferInstanceAs (Decidable (Literal s))
  | .ref n => inferInstanceAs (Decidable (NameOk n))

/-- Its text is read as it is meant, and in no more than the loop's iterations. -/
structure TemplateOk (t : List (Piece GoString UInt8)) : Prop where
  pieces : ∀ p ∈ t, PieceOk p
  depth : (refs t).toFinset.card ≤ depthValues

section Literals

theorem Literal.tail {c : UInt8} {s : GoString} (h : Literal (c :: s)) : Literal s := by
  cases s with
  | nil => trivial
  | cons d s => exact h.2

theorem Literal.no_start {c : UInt8} {s : GoString} (h : Literal (c :: s)) (rest : GoString) :
    ¬[37, 40] <+: c :: s ++ rest := by
  intro hpre
  cases s with
  | nil =>
    rw [List.cons_append, List.cons_prefix_cons] at hpre
    exact h hpre.1.symm
  | cons d s =>
    rw [List.cons_append, List.cons_append, List.cons_prefix_cons, List.cons_prefix_cons] at hpre
    exact h.1 ⟨hpre.1.symm, hpre.2.1.symm⟩

theorem Literal.append : ∀ {s t : GoString}, Literal s → Literal t → Literal (s ++ t)
  | [], _, _, ht => ht
  | [_], [], hs, _ => hs
  | [_], _ :: _, hs, ht => ⟨fun h => hs h.1, ht⟩
  | _ :: d :: s, _, hs, ht => ⟨hs.1, Literal.append (s := d :: s) hs.2 ht⟩

/-- What is behind the `%` of a reference. -/
theorem NameOk.literal {n : GoString} (h : NameOk n) : Literal (40 :: (n ++ [41, 115])) := by
  have hn : Literal (n ++ [41, 115]) := by
    have hs : Literal ((n ++ [41]) ++ [115]) := h.2.2.append (by decide)
    rwa [List.append_assoc] at hs
  cases hcase : n ++ [41, 115] with
  | nil => exact absurd hcase (by simp)
  | cons d s => exact ⟨fun hc => absurd hc.1 (by decide), hcase ▸ hn⟩

theorem takeWhile_name {n : GoString} (h : 41 ∉ n) (rest : GoString) :
    (n ++ 41 :: rest).takeWhile (fun c => c ≠ 41) = n ∧ (n ++ 41 :: rest).dropWhile (fun c => c ≠ 41) = 41 :: rest := by
  have hall : ∀ c ∈ n, decide (c ≠ 41) = true := by
    intro c hc
    rw [decide_eq_true_eq]
    rintro rfl
    exact h hc
  constructor
  · rw [List.takeWhile_append_of_pos hall]
    simp
  · rw [List.dropWhile_append_of_pos hall]
    simp

theorem matchVar_spellRef {n : GoString} (h : NameOk n) (rest : GoString) :
    matchVar (spellRef n ++ rest) = some (spellRef n) := by
  have hshape : spellRef n ++ rest = 37 :: 40 :: (n ++ 41 :: (115 :: rest)) := by simp [spellRef]
  obtain ⟨htake, hdrop⟩ := takeWhile_name h.2.1 (115 :: rest)
  have hpre : [37, 40] <+: (37 : UInt8) :: 40 :: (n ++ 41 :: (115 :: rest)) := ⟨_, rfl⟩
  have hsuf : [41, 115] <+: (41 : UInt8) :: 115 :: rest := ⟨_, rfl⟩
  rw [hshape, matchVar, if_pos hpre]
  simp only [List.drop_succ_cons, List.drop_zero, htake, hdrop]
  rw [if_pos ⟨h.1, hsuf⟩, spellRef]

/-- Two references are the same text only for the same name. -/
theorem spellRef_inj {n m rest : GoString} (hn : NameOk n) (hm : NameOk m) (h : spellRef n <+: spellRef m ++ rest) :
    n = m := by
  obtain ⟨u, hu⟩ := h
  have h1 := matchVar_spellRef hn u
  rw [hu, matchVar_spellRef hm rest, Option.some.injEq] at h1
  unfold spellRef at h1
  rw [List.append_assoc, List.append_assoc, List.append_cancel_left_eq, List.append_cancel_right_eq] at h1
  exact h1.symm

theorem findVar_literal : ∀ {s : GoString} (rest : GoString), Literal s → findVar (s ++ rest) = findVar rest
  | [], _, _ => rfl
  | c :: s, rest, h => by
    have hno : matchVar (c :: (s ++ rest)) = none := if_neg (h.no_start rest)
    rw [List.cons_append, findVar, hno]
    exact findVar_literal rest h.tail

theorem replaceAll_literal {n new : GoString} : ∀ {s : GoString} (rest : GoString), Literal s →
    replaceAll (s ++ rest) (spellRef n) new = s ++ replaceAll rest (spellRef n) new
  | [], _, _ => rfl
  | c :: s, rest, h => by
    have hno : ¬spellRef n <+: c :: (s ++ rest) := by
      intro hpre
      exact h.no_start rest (List.IsPrefix.trans ⟨n ++ [41, 115], by simp [spellRef]⟩ hpre)
    rw [List.cons_append, GoText.replaceAll_miss hno, replaceAll_literal rest h.tail, List.cons_append]

/-- Another reference stays. -/
theorem replaceAll_other {n m new : GoString} (hn : NameOk n) (hm : NameOk m) (hne : n ≠ m) (rest : GoString) :
    replaceAll (spellRef m ++ rest) (spellRef n) new = spellRef m ++ replaceAll rest (spellRef n) new := by
  have hshape : spellRef m = 37 :: (40 :: (m ++ [41, 115])) := by simp [spellRef]
  have hno : ¬spellRef n <+: 37 :: ((40 :: (m ++ [41, 115])) ++ rest) := by
    intro hpre
    rw [← List.cons_append, ← hshape] at hpre
    exact hne (spellRef_inj hn hm hpre)
  rw [hshape, List.cons_append, GoText.replaceAll_miss hno, replaceAll_literal rest hm.literal]
  rfl

end Literals

section Spelled
variable {t : List (Piece GoString UInt8)}

theorem spell_cons (p : Piece GoString UInt8) (t : List (Piece GoString UInt8)) :
    spell (p :: t) = spellPiece p ++ spell t := rfl

theorem findVar_spell : ∀ {t : List (Piece GoString UInt8)}, (∀ p ∈ t, PieceOk p) →
    findVar (spell t) = match refs t with
      | [] => []
      | n :: _ => spellRef n
  | [], _ => rfl
  | .lit s :: t, h => by
    have hs : Literal s := h _ List.mem_cons_self
    rw [spell_cons, spellPiece, findVar_literal _ hs, findVar_spell (fun p hp => h p (List.mem_cons_of_mem _ hp)),
      Template.refs_lit]
  | .ref n :: t, h => by
    have hn : NameOk n := h _ List.mem_cons_self
    have hmatch := matchVar_spellRef hn (spell t)
    rw [Template.refs_ref, spell_cons, spellPiece]
    have hshape : spellRef n ++ spell t = 37 :: (40 :: (n ++ [41, 115]) ++ spell t) := by simp [spellRef]
    rw [hshape] at hmatch ⊢
    rw [findVar, hmatch]

/-- **Replacing the text of a reference replaces the reference.** -/
theorem replaceAll_spell {n w : GoString} (hn : NameOk n) : ∀ {t : List (Piece GoString UInt8)}, (∀ p ∈ t, PieceOk p) →
    replaceAll (spell t) (spellRef n) w = spell (subst n w t)
  | [], _ => rfl
  | .lit s :: t, h => by
    have hs : Literal s := h _ List.mem_cons_self
    have hrec := replaceAll_spell (w := w) hn (fun p hp => h p (List.mem_cons_of_mem _ hp))
    rw [spell_cons, spellPiece, replaceAll_literal _ hs, hrec]
    rfl
  | .ref m :: t, h => by
    have hm : NameOk m := h _ List.mem_cons_self
    have hrec := replaceAll_spell (w := w) hn (fun p hp => h p (List.mem_cons_of_mem _ hp))
    have hcons : subst n w (.ref m :: t) = Template.Piece.subst n w (.ref m) :: subst n w t := rfl
    rw [hcons, spell_cons, spell_cons, Template.Piece.subst]
    by_cases he : m = n
    · subst he
      have hne : spellRef m ≠ [] := by simp [spellRef]
      rw [if_pos rfl]
      show replaceAll (spellRef m ++ spell t) (spellRef m) w = w ++ spell (subst m w t)
      rw [GoText.replaceAll_hit hne, hrec]
    · rw [if_neg he, spellPiece, replaceAll_other hn hm (fun h' => he h'.symm), hrec]

theorem pieces_subst {n w : GoString} (hw : Literal w) (h : ∀ p ∈ t, PieceOk p) : ∀ p ∈ subst n w t, PieceOk p := by
  intro p hp
  obtain ⟨q, hq, rfl⟩ := List.mem_map.1 hp
  cases q with
  | lit s => exact h _ hq
  | ref m =>
    rw [Template.Piece.subst]
    by_cases he : m = n
    · rw [if_pos he]
      exact hw
    · rw [if_neg he]
      exact h _ hq

/-- A template without references is its own expansion. -/
theorem expand_of_no_refs {env : GoString → Option GoString} (h : refs t = []) : expand env t = some (spell t) := by
  have hnone : ∀ n ∈ refs t, env n = some [] := by
    rw [h]
    exact List.forall_mem_nil _
  rw [Template.expand_eq_render (ρ := fun _ => []) hnone]
  congr 1
  refine List.flatMap_congr (fun p hp => ?_)
  cases p with
  | lit s => rfl
  | ref n =>
    have hmem : n ∈ refs t := List.mem_filterMap.2 ⟨_, hp, rfl⟩
    rw [h] at hmem
    cases hmem

/-- `TrimLeft` and `TrimRight` take the brackets off, and what else they find. -/
theorem noption_spellRef (n : GoString) : noption (spellRef n) = noption n := by
  have hleft : trimLeftSet (n ++ [41, 115]) [37, 40] = trimLeftSet n [37, 40] ++ [41, 115] := by
    unfold trimLeftSet
    rw [List.dropWhile_append]
    split
    · rename_i hnil
      rw [List.isEmpty_iff] at hnil
      rw [hnil]
      decide
    · rfl
  have hstrip : trimLeftSet (spellRef n) [37, 40] = trimLeftSet (n ++ [41, 115]) [37, 40] := by
    unfold trimLeftSet spellRef
    rw [List.append_assoc]
    rfl
  have hright : ∀ s : GoString, trimRightSet (s ++ [41, 115]) [41, 115] = trimRightSet s [41, 115] := by
    intro s
    have hsplit : s ++ [41, 115] = (s ++ [41]) ++ [115] := by simp
    unfold trimRightSet
    rw [hsplit, List.rdropWhile_concat_pos _ _ _ (by decide), List.rdropWhile_concat_pos _ _ _ (by decide)]
  unfold noption
  rw [hstrip, hleft, hright]

/-- **Which names are looked up as they are written**: not one that ends in `s`. -/
theorem noption_eq_iff {n : GoString} (h : n ≠ []) (hclose : 41 ∉ n) :
    noption n = n ↔ (n.head h ≠ 37 ∧ n.head h ≠ 40) ∧ n.getLast h ≠ 115 := by
  have hleft : trimLeftSet n [37, 40] = n ↔ n.head h ≠ 37 ∧ n.head h ≠ 40 := by
    unfold trimLeftSet
    cases n with
    | nil => exact absurd rfl h
    | cons c n => simp [List.dropWhile_eq_self_iff]
  have hright : trimRightSet n [41, 115] = n ↔ n.getLast h ≠ 115 := by
    unfold trimRightSet
    rw [List.rdropWhile_eq_self_iff]
    have hne : n.getLast h ≠ 41 := fun he => hclose (he ▸ List.getLast_mem h)
    simp [h, hne]
  rw [← hleft, ← hright]
  unfold noption
  constructor
  · intro he
    have hkeep : trimLeftSet n [37, 40] = n := by
      have hsuf : trimLeftSet n [37, 40] <:+ n := List.dropWhile_suffix _
      refine hsuf.eq_of_length (Nat.le_antisymm hsuf.length_le ?_)
      have hpre : trimRightSet (trimLeftSet n [37, 40]) [41, 115] <+: trimLeftSet n [37, 40] :=
        List.rdropWhile_prefix _ _
      rw [he] at hpre
      exact hpre.length_le
    rw [hkeep] at he
    exact ⟨hkeep, he⟩
  · rintro ⟨h1, h2⟩
    rw [h1, h2]

/-- **The loop expands the template**, in as many iterations as it has names. -/
theorem expandValue_spell {look : GoString → Option (Except GetError GoString)} {kv : GoString → Option GoString}
    {name : GoString} : ∀ (i : Nat) {t : List (Piece GoString UInt8)}, (∀ p ∈ t, PieceOk p) →
    (∀ n ∈ refs t, ∀ r, look (noption n) = some r → Literal (nvalue kv name (noption n) r)) →
    (refs t).toFinset.card ≤ i →
    expandValue look kv name i (spell t) = expand (fun n => (look (noption n)).map (nvalue kv name (noption n))) t
  | 0, t, _, _, hcard => by
    have hno : refs t = [] := by
      rw [← List.toFinset_eq_empty_iff, ← Finset.card_eq_zero]
      exact Nat.le_zero.1 hcard
    rw [expand_of_no_refs hno]
    rfl
  | i + 1, t, hok, hlit, hcard => by
    rw [expandValue]
    have hfind := findVar_spell hok
    cases hrefs : refs t with
    | nil =>
      rw [hrefs] at hfind
      rw [expand_of_no_refs hrefs]
      simp only [hfind, List.length_nil, if_true]
    | cons n ns =>
      rw [hrefs] at hfind
      have hmem : n ∈ refs t := by
        rw [hrefs]
        exact List.mem_cons_self
      have hn : NameOk n := by
        obtain ⟨p, hp, hname⟩ := List.mem_filterMap.1 hmem
        cases p with
        | lit s => cases hname
        | ref m => exact Option.some.inj hname ▸ hok _ hp
      have hlen : (spellRef n).length ≠ 0 := by simp [spellRef]
      simp only [hfind]
      rw [if_neg hlen, noption_spellRef n]
      cases hlook : look (noption n) with
      | none =>
        -- a reference that is never answered leaves the whole value open
        have hopen : ¬(expand (fun n => (look (noption n)).map (nvalue kv name (noption n))) t).isSome := by
          intro hsome
          have h1 := Template.expand_isSome.1 hsome n hmem
          rw [hlook] at h1
          cases h1
        rw [Option.bind_none, Option.not_isSome_iff_eq_none.1 hopen]
      | some r =>
        have hw := hlit n hmem r hlook
        have hsub : ∀ m ∈ refs (subst n (nvalue kv name (noption n) r) t), m ∈ refs t := by
          intro m hm
          rw [Template.refs_subst] at hm
          exact List.mem_of_mem_filter hm
        have hsame := @Template.expand_subst GoString UInt8 _
          (fun n => (look (noption n)).map (nvalue kv name (noption n))) n (nvalue kv name (noption n) r)
          (by rw [hlook, Option.map_some]) t
        rw [Option.bind_some, replaceAll_spell hn hok,
          expandValue_spell i (pieces_subst hw hok) (fun m hm => hlit m (hsub m hm))
            (Nat.le_of_lt_succ ((Template.card_refs_subst _ hmem).trans_le hcard)),
          hsame]

end Spelled

/-! ## What `GetValue` returns -/

/-- The default section holds the system `D`, spelled out. -/
structure Defines (c : ConfigFile) (D : GoString → Option (List (Piece GoString UInt8))) : Prop where
  spelled : ∀ k, c.lookup defaultSection k = (D k).map spell
  ok : ∀ k t, D k = some t → TemplateOk t

/-- A reference in section `s` stands for the meaning of a default key, or for the section's own value as it is. -/
def StandsFor (c : ConfigFile) (D : GoString → Option (List (Piece GoString UInt8))) (s n w : GoString) : Prop :=
  if D (noption n) = none ∧ s ≠ defaultSection then w = (c.lookup s (noption n)).getD []
  else Means noption D (noption n) w

/-- `GetValue` finds the key in section `s`: the one named, or the first one above it that has the key. -/
inductive Owner (c : ConfigFile) (key : GoString) : GoString → GoString → Prop
  | here {name : GoString} (h : (c.lookup (sectionOf name) key).isSome) : Owner c key name (sectionOf name)
  | above {name s : GoString} {i : Nat} (hsec : (c.data (sectionOf name)).isSome)
      (hno : c.lookup (sectionOf name) key = none) (hdot : lastIndex (sectionOf name) [46] = some i)
      (h : Owner c key ((sectionOf name).take i) s) : Owner c key name s

section Values
variable {c : ConfigFile} {D : GoString → Option (List (Piece GoString UInt8))}

theorem lookup_some {s k v : GoString} (h : c.lookup s k = some v) : ∃ kv, c.data s = some kv ∧ kv k = some v :=
  Option.bind_eq_some_iff.1 h

/-- The sections above take one call each. -/
theorem getValue_owner {key name s : GoString} (h : Owner c key name s) :
    ∃ d, ∀ fuel, getValue fuel c name key = getValue (fuel - d) c s key := by
  induction h with
  | @here name _ =>
    refine ⟨0, fun fuel => ?_⟩
    cases fuel with
    | zero => rfl
    | succ n => rw [Nat.sub_zero, getValue, getValue, sectionOf_idem]
  | @above name s i hsec hno hdot _ ih =>
    obtain ⟨d, hd⟩ := ih
    refine ⟨d + 1, fun fuel => ?_⟩
    cases fuel with
    | zero => rw [Nat.zero_sub, getValue, getValue]
    | succ n =>
      obtain ⟨kv, hkv⟩ := Option.isSome_iff_exists.1 hsec
      have hkey : kv key = none := by
        unfold ConfigFile.lookup at hno
        rwa [hkv, Option.bind_some] at hno
      rw [Nat.add_sub_add_right, ← hd n, getValue]
      simp only [hkv, hkey, hdot]

theorem Owner.found {key name s : GoString} (h : Owner c key name s) : sectionOf s = s := by
  induction h with
  | here _ => exact sectionOf_idem _
  | above _ _ _ _ ih => exact ih

/-- A default key that is missing is an error, at once. -/
theorem getValue_missing {k : GoString} (h : c.lookup defaultSection k = none) (n : Nat) :
    ∃ e, getValue (n + 1) c defaultSection k = some (.error e) := by
  have hname : sectionOf defaultSection = defaultSection := by decide
  have hdot : lastIndex defaultSection [46] = none := by decide
  rw [getValue, hname]
  cases hd : c.data defaultSection with
  | none => exact ⟨_, rfl⟩
  | some kv =>
    have hkey : kv k = none := by
      unfold ConfigFile.lookup at h
      rwa [hd, Option.bind_some] at h
    simp only [hkey, hdot]
    exact ⟨_, rfl⟩

/-- One call on a key that is there. -/
theorem getValue_spell {s key : GoString} (hs : sectionOf s = s) {kv : GoString → Option GoString}
    (hkv : c.data s = some kv) {t : List (Piece GoString UInt8)} (ht : kv key = some (spell t)) (hok : TemplateOk t)
    {n : Nat} (hlit : ∀ m ∈ refs t, ∀ r, getValue n c defaultSection (noption m) = some r →
      Literal (nvalue kv s (noption m) r)) :
    getValue (n + 1) c s key = (expand (fun m =>
      (getValue n c defaultSection (noption m)).map (nvalue kv s (noption m))) t).map Except.ok := by
  have hloop := @expandValue_spell (fun k => getValue n c defaultSection k) kv s depthValues t hok.pieces hlit hok.depth
  rw [getValue, hs]
  simp only [hkv, ht, hloop]

theorem Defines.literal (h : Defines c D) {k v : GoString} (hm : Means noption D k v) : Literal v := by
  refine hm.induct (P := Literal) trivial (fun a b => Literal.append) (fun k t s hd hs => ?_)
  exact (h.ok k t hd).pieces _ hs

/-- **Whatever it returns for a default key is what the key means.** -/
theorem Defines.answer (h : Defines c D) : ∀ (n : Nat) (k : GoString) (r : Except GetError GoString),
    getValue n c defaultSection k = some r →
    (D k = none ∧ ∃ e, r = .error e) ∨ (∃ w, D k ≠ none ∧ Means noption D k w ∧ r = .ok w)
  | 0, _, _, hr => by cases hr
  | n + 1, k, r, hr => by
    have hsp := h.spelled k
    cases hd : D k with
    | none =>
      rw [hd, Option.map_none] at hsp
      obtain ⟨e, he⟩ := getValue_missing hsp n
      rw [he, Option.some.injEq] at hr
      exact .inl ⟨rfl, e, hr.symm⟩
    | some t =>
      rw [hd, Option.map_some] at hsp
      obtain ⟨kv, hkv, hkey⟩ := lookup_some hsp
      have hmeans : ∀ (m : GoString) (r : Except GetError GoString), getValue n c defaultSection (noption m) = some r →
          Means noption D (noption m) (nvalue kv defaultSection (noption m) r) := by
        intro m r hm
        rcases h.answer n _ r hm with ⟨hnone, e, rfl⟩ | ⟨w, -, hw, rfl⟩
        · exact .absent hnone
        · exact hw
      rw [getValue_spell (by decide) hkv hkey (h.ok k t hd) (fun m _ r hm => h.literal (hmeans m r hm))] at hr
      obtain ⟨v, hv, rfl⟩ := Option.map_eq_some_iff.1 hr
      refine .inr ⟨v, by simp, ?_, rfl⟩
      rw [Template.render_of_expand hv]
      refine .defined _ hd (fun m hm => ?_)
      obtain ⟨w, hw⟩ := Option.isSome_iff_exists.1 (Template.expand_isSome.1 (by rw [hv]; rfl) m hm)
      obtain ⟨r, hr, rfl⟩ := Option.map_eq_some_iff.1 hw
      rw [hw, Option.getD_some]
      exact hmeans m r hr

/-- A bound for each of finitely many things is a bound for all of them. -/
theorem eventually_all {A : Type} {P : A → Nat → Prop} : ∀ {l : List A}, (∀ a ∈ l, ∃ N, ∀ n, N ≤ n → P a n) →
    ∃ N, ∀ n, N ≤ n → ∀ a ∈ l, P a n
  | [], _ => ⟨0, fun _ _ => List.forall_mem_nil _⟩
  | a :: l, h => by
    obtain ⟨N, hN⟩ := h a List.mem_cons_self
    obtain ⟨M, hM⟩ := eventually_all (fun b hb => h b (List.mem_cons_of_mem _ hb))
    refine ⟨max N M, fun n hn => List.forall_mem_cons.2 ⟨hN n ?_, hM n ?_⟩⟩
    · exact (Nat.le_max_left N M).trans hn
    · exact (Nat.le_max_right N M).trans hn

/-- **A default key with a meaning is answered.** -/
theorem Defines.returns (h : Defines c D) {k v : GoString} (hm : Means noption D k v) :
    ∃ N, ∀ n, N ≤ n → (getValue n c defaultSection k).isSome := by
  induction hm with
  | @absent k hd =>
    have hsp := h.spelled k
    rw [hd, Option.map_none] at hsp
    refine ⟨1, fun n hn => ?_⟩
    obtain ⟨m, rfl⟩ := Nat.exists_eq_add_of_le' hn
    obtain ⟨e, he⟩ := getValue_missing hsp m
    rw [he]
    rfl
  | @defined k t ρ hd _ ih =>
    have hsp := h.spelled k
    rw [hd, Option.map_some] at hsp
    obtain ⟨kv, hkv, hkey⟩ := lookup_some hsp
    obtain ⟨N, hN⟩ := eventually_all ih
    refine ⟨N + 1, fun n hn => ?_⟩
    obtain ⟨m, rfl⟩ := Nat.exists_eq_add_of_le' (Nat.le_of_add_left_le hn)
    have hlit : ∀ x ∈ refs t, ∀ r, getValue m c defaultSection (noption x) = some r →
        Literal (nvalue kv defaultSection (noption x) r) := by
      intro x _ r hr
      rcases h.answer m _ r hr with ⟨-, e, rfl⟩ | ⟨w, -, hw, rfl⟩
      · exact trivial
      · exact h.literal hw
    rw [getValue_spell (by decide) hkv hkey (h.ok k t hd) hlit, Option.isSome_map, Template.expand_isSome]
    intro x hx
    rw [Option.isSome_map]
    exact hN m (by omega) x hx

end Values

section Sections
variable {c : ConfigFile} {D : GoString → Option (List (Piece GoString UInt8))}

/-- What replaces a reference in section `s` is what it stands for there. -/
theorem Defines.standsFor (h : Defines c D) {s : GoString} {kv : GoString → Option GoString} (hkv : c.data s = some kv)
    {n : Nat} {m : GoString} {r : Except GetError GoString} (hr : getValue n c defaultSection (noption m) = some r) :
    StandsFor c D s m (nvalue kv s (noption m) r) := by
  have hlookup : c.lookup s (noption m) = kv (noption m) := by
    unfold ConfigFile.lookup
    rw [hkv, Option.bind_some]
  unfold StandsFor
  rcases h.answer n _ r hr with ⟨hnone, e, rfl⟩ | ⟨w, hsome, hw, rfl⟩
  · by_cases hs : s = defaultSection
    · rw [if_neg (fun hc => hc.2 hs), nvalue, if_neg (fun hc => hc hs)]
      exact .absent hnone
    · rw [if_pos ⟨hnone, hs⟩, nvalue, if_pos hs, hlookup]
  · rw [if_neg (fun hc => hsome hc.1)]
    exact hw

theorem StandsFor.unique {s m w w' : GoString} (h : StandsFor c D s m w) (h' : StandsFor c D s m w') : w = w' := by
  unfold StandsFor at h h'
  split at h
  · rename_i hc
    rw [if_pos hc] at h'
    rw [h, h']
  · rename_i hc
    rw [if_neg hc] at h'
    exact h.unique h'

theorem Defines.answered (h : Defines c D) {s m w : GoString} (hw : StandsFor c D s m w) :
    ∃ N, ∀ n, N ≤ n → (getValue n c defaultSection (noption m)).isSome := by
  unfold StandsFor at hw
  split at hw
  · rename_i hc
    exact h.returns (.absent hc.1)
  · exact h.returns hw

end Sections

/-- `h`, `u` and `l` by default, `x` in section `a`; section `a.b` has nothing of its own. -/
def system : GoString → Option (List (Piece GoString UInt8)) := fun k =>
  if k = [104] then some [.lit [49]]
  else if k = [117] then some [.ref [104], .lit [58, 50]]
  else if k = [108] then some [.ref [108]]
  else none

def withReferences : ConfigFile := { newConfigFile with
  data := fun s =>
    if s = defaultSection then some (fun k => (system k).map spell)
    else if s = [97] then some (fun k => if k = [120] then some (spell [.lit [47], .ref [117]]) else none)
    else if s = [97, 46, 98] then some (fun _ => none)
    else none }

theorem defines_system : Defines withReferences system := by
  refine ⟨fun k => by simp [withReferences, ConfigFile.lookup], fun k t h => ?_⟩
  unfold system at h
  split at h
  · cases h
    exact ⟨by decide, by decide⟩
  · split at h
    · cases h
      exact ⟨by decide, by decide⟩
    · split at h
      · cases h
        exact ⟨by decide, by decide⟩
      · cases h

end GoConfig
end Xrtc
