import Xrtc.GoConfigLines
import Xrtc.GoConfigMap
/-!
# GoConfigSave — a saved configuration is loaded as it was

What a configuration shows (`view`): its sections in order, with their comments, and in each its keys in order, with
values and comments.  `SaveConfigData` writes the view and nothing else.  A view whose parts all survive their own line
(`Storable`) survives the file: reading it shows the same, and saving that again writes the same text.
-/
namespace Xrtc
namespace GoConfig

open GoText

structure Entry where
  key : GoString
  value : GoString
  comments : GoString
  deriving DecidableEq

structure Sec where
  name : GoString
  comments : GoString
  entries : List Entry
  deriving DecidableEq

def entryOf (c : ConfigFile) (s k : GoString) : Entry := ⟨k, (c.lookup s k).getD [], c.getKeyComments s k⟩

def secOf (c : ConfigFile) (s : GoString) : Sec :=
  ⟨s, c.getSectionComments s, ((c.keyList s).filter (fun key => key ≠ blank)).map (entryOf c s)⟩

def view (c : ConfigFile) : List Sec := c.sectionList.map (secOf c)

/-! ## The saved text -/

def entryLines (pretty : Bool) (e : Entry) : List GoString :=
  commentList e.comments ++ [(keyText e.key).getD [] ++ equalSign pretty ++ valueText e.value]

def secLines (pretty : Bool) (s : Sec) : List GoString :=
  commentList s.comments ++ (if s.name ≠ defaultSection then [[91] ++ s.name ++ [93]] else []) ++
    s.entries.flatMap (entryLines pretty) ++ [[]]

theorem mapM_some {A B : Type} {f : A → Option B} {g : A → B} : ∀ {l : List A}, (∀ a ∈ l, f a = some (g a)) →
    l.mapM f = some (l.map g)
  | [], _ => rfl
  | a :: l, h => by
    rw [List.mapM_cons, h a List.mem_cons_self, mapM_some (fun b hb => h b (List.mem_cons_of_mem _ hb))]
    rfl

theorem lineText_flatMap {A : Type} (f : A → List GoString) (l : List A) :
    lineText (l.flatMap f) = l.flatMap (fun a => lineText (f a)) := by
  unfold lineText
  rw [List.flatMap_assoc]

theorem saveKey_eq {c : ConfigFile} (h : Inv c) {s k : GoString} (hk : k ∈ c.keyList s) :
    saveKey c s k = some (if k = blank then [] else lineText (entryLines c.prettyFormat (entryOf c s k))) := by
  unfold saveKey
  by_cases hb : k = blank
  · rw [if_pos hb, if_pos hb]
  · rw [if_neg hb, if_neg hb]
    cases k with
    | nil => exact absurd rfl (h.keyed s [] hk)
    | cons x k =>
      rw [commentLines_eq, entryLines, lineText_append, lineText_cons, lineText_nil]
      simp [keyText, entryOf, newline]

theorem saveSection_eq {c : ConfigFile} (h : Inv c) (s : GoString) :
    saveSection c s = some (lineText (secLines c.prettyFormat (secOf c s))) := by
  have hkeys := mapM_some (fun k hk => saveKey_eq h (s := s) hk)
  have hflat : ∀ l : List GoString,
      (l.map (fun k => if k = blank then [] else lineText (entryLines c.prettyFormat (entryOf c s k)))).flatten =
        lineText (((l.filter (fun key => key ≠ blank)).map (entryOf c s)).flatMap (entryLines c.prettyFormat)) := by
    intro l
    induction l with
    | nil => rfl
    | cons k l ih =>
      rw [List.map_cons, List.flatten_cons, ih]
      by_cases hb : k = blank
      · rw [if_pos hb, List.filter_cons_of_neg (by simp [hb]), List.nil_append]
      · rw [if_neg hb, List.filter_cons_of_pos (by simp [hb]), List.map_cons, List.flatMap_cons, lineText_append]
  have hheader : (if s ≠ defaultSection then [91] ++ s ++ [93] ++ newline else []) =
      lineText (if (secOf c s).name ≠ defaultSection then [[91] ++ (secOf c s).name ++ [93]] else []) := by
    by_cases hs : s = defaultSection
    · have hs' : (secOf c s).name = defaultSection := hs
      rw [if_neg (not_not_intro hs), if_neg (not_not_intro hs'), lineText_nil]
    · have hs' : (secOf c s).name ≠ defaultSection := hs
      rw [if_pos hs, if_pos hs', lineText_cons, lineText_nil]
      rfl
  unfold saveSection secLines
  rw [hkeys, Option.map_some, hflat, commentLines_eq, hheader, lineText_append, lineText_append, lineText_append,
    lineText_cons, lineText_nil]
  rfl

/-- **`SaveConfigData` writes the view.** -/
theorem saveConfigData_eq {c : ConfigFile} (h : Inv c) :
    saveConfigData c = some (lineText ((view c).flatMap (secLines c.prettyFormat))) := by
  unfold saveConfigData view
  rw [mapM_some (fun s _ => saveSection_eq h s), Option.map_some, lineText_flatMap, List.flatMap_map]
  rfl

/-! ## Storable views -/

/-- The entries of a section: a key that starts with `#` has to be the next automatic one, and no line may look like a
section header. -/
def EntriesOk : Nat → List Entry → Prop
  | _, [] => True
  | count, e :: es =>
    CommentOk e.comments ∧ ValueOk e.value ∧
      if e.key.head? = some 35 then e.key = 35 :: sprint count ∧ EntriesOk (count + 1) es
      else KeyOk e.key ∧ ¬(((keyText e.key).getD []).head? = some 91 ∧ (valueText e.value).getLast? = some 93) ∧
        EntriesOk count es

def decideEntriesOk : ∀ (count : Nat) (es : List Entry), Decidable (EntriesOk count es)
  | _, [] => .isTrue trivial
  | count, e :: es =>
    have : Decidable (EntriesOk (count + 1) es) := decideEntriesOk (count + 1) es
    have : Decidable (EntriesOk count es) := decideEntriesOk count es
    inferInstanceAs (Decidable (_ ∧ _ ∧ if e.key.head? = some 35 then _ else _))

instance (count : Nat) (es : List Entry) : Decidable (EntriesOk count es) := decideEntriesOk count es

/-- The default section has no header: it needs a key to be there again, and its comments would become that key's. -/
def SecOk (s : Sec) : Prop :=
  (if s.name = defaultSection then s.comments = [] ∧ s.entries ≠ []
    else 10 ∉ s.name ∧ Trimmed s.name ∧ CommentOk s.comments) ∧ EntriesOk 1 s.entries

instance (s : Sec) : Decidable (SecOk s) := inferInstanceAs (Decidable (_ ∧ _))

/-- Only the first section can go without a header. -/
def Storable (d : List Sec) : Prop := (∀ s ∈ d, SecOk s) ∧ ∀ s ∈ d.tail, s.name ≠ defaultSection

instance (d : List Sec) : Decidable (Storable d) := inferInstanceAs (Decidable (_ ∧ _))

/-! ## What a line adds to the view -/

def keyComment (c : ConfigFile) (s k : GoString) : Option GoString := (c.keyComments s).bind (fun kc => kc k)

theorem sectionOf_of_ne {s : GoString} (h : s ≠ []) : sectionOf s = s := by
  unfold sectionOf
  rw [if_neg (fun h0 => h (List.length_eq_zero_iff.1 h0))]

theorem getKeyComments_eq (c : ConfigFile) {s : GoString} (h : s ≠ []) (k : GoString) :
    c.getKeyComments s k = (keyComment c s k).getD [] := by
  unfold ConfigFile.getKeyComments keyComment
  rw [sectionOf_of_ne h]

/-- A configuration with this view, the format of a new one, and no comments but those of the view. -/
structure Shows (c : ConfigFile) (d : List Sec) : Prop where
  inv : Inv c
  view : view c = d
  pretty : c.prettyFormat = true
  sections : ∀ s, s ∉ c.sectionList → c.sectionComments s = none
  keys : ∀ s k, k ∉ c.keyList s → keyComment c s k = none

theorem Shows.names {c : ConfigFile} {d : List Sec} (h : Shows c d) : c.sectionList = d.map Sec.name := by
  rw [← h.view, GoConfig.view, List.map_map]
  exact (List.map_id _).symm

theorem secOf_congr {c c' : ConfigFile} {x : GoString} (hx : x ≠ []) (hkeys : c'.keyList x = c.keyList x)
    (hlookup : ∀ k, c'.lookup x k = c.lookup x k) (hsec : c'.sectionComments x = c.sectionComments x)
    (hkey : ∀ k, keyComment c' x k = keyComment c x k) : secOf c' x = secOf c x := by
  have hentry : entryOf c' x = entryOf c x := by
    funext k
    rw [entryOf, entryOf, hlookup, getKeyComments_eq c' hx, getKeyComments_eq c hx, hkey]
  rw [secOf, secOf, hkeys, hentry, ConfigFile.getSectionComments, ConfigFile.getSectionComments, sectionOf_of_ne hx, hsec]

/-- Comments of a key, set or left. -/
theorem keyComment_set (c : ConfigFile) {s k cm : GoString} (hs : s ≠ []) (hcm : cm = [] ∨ Comment cm) (x y : GoString) :
    keyComment (c.setKeyComments s k cm).2 x y =
      if x = s ∧ y = k then (if cm = [] then none else some cm) else keyComment c x y := by
  have htext : Comment cm → ConfigFile.commentText cm = cm := fun h => if_pos h
  unfold ConfigFile.setKeyComments keyComment
  rw [sectionOf_of_ne hs]
  dsimp only
  rcases hcm with rfl | hcm
  · cases hkc : c.keyComments s with
    | none =>
      by_cases hx : x = s
      · subst hx
        simp [hkc]
      · simp [hx]
    | some kc =>
      by_cases hx : x = s
      · subst hx
        by_cases hy : y = k <;> simp [hkc, hy]
      · simp [hx]
  · have hne : ¬cm.length = 0 := by
      intro h0
      rw [List.length_eq_zero_iff.1 h0] at hcm
      rcases hcm with h | h <;> cases h
    have hne' : cm ≠ [] := fun h => hne (by rw [h]; rfl)
    rw [htext hcm]
    cases hkc : c.keyComments s with
    | none =>
      by_cases hx : x = s
      · subst hx
        by_cases hy : y = k <;> simp [hkc, hy, hne']
      · simp [hx, hne']
    | some kc =>
      by_cases hx : x = s
      · subst hx
        by_cases hy : y = k <;> simp [hkc, hy, hne']
      · simp [hx, hne']

theorem setKeyComments_frame (c : ConfigFile) (s k cm : GoString) :
    (c.setKeyComments s k cm).2.data = c.data ∧ (c.setKeyComments s k cm).2.sectionList = c.sectionList ∧
    (c.setKeyComments s k cm).2.keyList = c.keyList ∧ (c.setKeyComments s k cm).2.sectionComments = c.sectionComments ∧
    (c.setKeyComments s k cm).2.prettyFormat = c.prettyFormat := by
  unfold ConfigFile.setKeyComments
  dsimp only
  by_cases hcm : cm.length = 0
  · cases c.keyComments (sectionOf s) <;> simp [hcm]
  · cases c.keyComments (sectionOf s) <;> simp [hcm]

/-- What the line of a new key changes. -/
theorem assigned_spec {c : ConfigFile} (h : Inv c) {s k v cm : GoString} (hs : s ≠ []) (hk : k ≠ [])
    (hnew : k ∉ c.keyList s) (hnone : keyComment c s k = none) (hcm : cm = [] ∨ Comment cm) :
    Inv (assigned c s k v cm) ∧ (assigned c s k v cm).prettyFormat = c.prettyFormat ∧
    (assigned c s k v cm).sectionComments = c.sectionComments ∧
    (assigned c s k v cm).sectionList = (if s ∈ c.sectionList then c.sectionList else c.sectionList ++ [s]) ∧
    (assigned c s k v cm).keyList = Function.update c.keyList s (c.keyList s ++ [k]) ∧
    (∀ x y, (assigned c s k v cm).lookup x y = if x = s ∧ y = k then some v else c.lookup x y) ∧
    ∀ x y, keyComment (assigned c s k v cm) x y =
      if x = s ∧ y = k then (if cm = [] then none else some cm) else keyComment c x y := by
  -- `SetValue` first
  have hset : Inv (c.setValue s k v).2 ∧ (c.setValue s k v).2.prettyFormat = c.prettyFormat ∧
      (c.setValue s k v).2.sectionComments = c.sectionComments ∧
      (c.setValue s k v).2.sectionList = (if s ∈ c.sectionList then c.sectionList else c.sectionList ++ [s]) ∧
      (c.setValue s k v).2.keyList = Function.update c.keyList s (c.keyList s ++ [k]) ∧
      (∀ x y, (c.setValue s k v).2.lookup x y = if x = s ∧ y = k then some v else c.lookup x y) ∧
      (c.setValue s k v).2.keyComments = c.keyComments := by
    obtain ⟨hsec, hkey, hpretty⟩ := setValue_comments (c := c) (s := s) (k := k) v
    refine ⟨inv_setValue h v, hpretty, hsec, ?_, ?_, ?_, hkey⟩
    · cases hd : c.data s with
      | none =>
        have hnot : s ∉ c.sectionList := fun hm => by simpa [hd] using (h.sections.mem s).1 hm
        rw [setValue_of_none v hk (by rwa [sectionOf_of_ne hs]), if_neg hnot, sectionOf_of_ne hs]
      | some kv =>
        have hmem : s ∈ c.sectionList := (h.sections.mem s).2 (by rw [hd]; rfl)
        rw [setValue_of_some v hk (by rwa [sectionOf_of_ne hs]), if_pos hmem]
    · cases hd : c.data s with
      | none => rw [setValue_of_none v hk (by rwa [sectionOf_of_ne hs]), sectionOf_of_ne hs]
      | some kv =>
        have hkv : ¬(kv k).isSome = true := fun hsome => hnew (((h.keys s kv hd).mem k).2 hsome)
        rw [setValue_of_some v hk (by rwa [sectionOf_of_ne hs]), if_neg hkv, sectionOf_of_ne hs]
    · intro x y
      cases hd : c.data s with
      | none =>
        rw [setValue_of_none v hk (by rwa [sectionOf_of_ne hs]), sectionOf_of_ne hs]
        unfold ConfigFile.lookup
        by_cases hx : x = s
        · subst hx
          by_cases hy : y = k <;> simp [hy, hd]
        · simp [hx]
      | some kv =>
        rw [setValue_of_some v hk (by rwa [sectionOf_of_ne hs]), sectionOf_of_ne hs]
        unfold ConfigFile.lookup
        by_cases hx : x = s
        · subst hx
          by_cases hy : y = k <;> simp [hy, hd]
        · simp [hx]
  obtain ⟨hinv, hpretty, hsec, hlist, hkeys, hlookup, hcomments⟩ := hset
  have hkeep : ∀ x y, keyComment (c.setValue s k v).2 x y = keyComment c x y := by
    intro x y
    rw [keyComment, keyComment, hcomments]
  unfold assigned
  dsimp only
  by_cases hlen : 0 < cm.length
  · obtain ⟨h1, h2, h3, h4, h5⟩ := setKeyComments_frame (c.setValue s k v).2 s k cm
    rw [if_pos hlen]
    refine ⟨(setKeyComments_spec hinv s k cm).1, h5.trans hpretty, h4.trans hsec, h2.trans hlist, h3.trans hkeys,
      fun x y => ?_, fun x y => ?_⟩
    · rw [← hlookup x y, ConfigFile.lookup, ConfigFile.lookup, h1]
    · rw [keyComment_set _ hs hcm, hkeep]
  · have hnil : cm = [] := List.length_eq_zero_iff.1 (by omega)
    rw [if_neg hlen]
    refine ⟨hinv, hpretty, hsec, hlist, hkeys, hlookup, fun x y => ?_⟩
    rw [hkeep, if_pos hnil]
    split
    · rename_i hxy
      rw [hxy.1, hxy.2, hnone]
    · rfl

/-- The sections read so far: the current one is not there while it is the default section without a key. -/
def sofar (d : List Sec) (s : Sec) : List Sec := if s.name = defaultSection ∧ s.entries = [] then d else d ++ [s]

theorem sofar_cons (d : List Sec) (s : Sec) (h : s.entries ≠ []) : sofar d s = d ++ [s] := if_neg (fun h' => h h'.2)

section Load
variable {c : ConfigFile} {d : List Sec}

/-- A section's entry in the view. -/
theorem Shows.at_section (h : Shows c d) {s : Sec} (hs : s ∈ d) : secOf c s.name = s := by
  rw [← h.view, GoConfig.view] at hs
  obtain ⟨x, -, rfl⟩ := List.mem_map.1 hs
  rfl

/-- **The line of a new key adds its entry.** -/
theorem shows_entry {s k v cm : GoString} {scm : GoString} {es : List Entry} (h : Shows c (sofar d ⟨s, scm, es⟩))
    (hs : s ≠ []) (hnot : s ∉ d.map Sec.name) (hdefault : s = defaultSection → scm = []) (hk : k ≠ []) (hkb : k ≠ blank)
    (hnew : k ∉ es.map Entry.key) (hcm : cm = [] ∨ Comment cm) :
    Shows (assigned c s k v cm) (sofar d ⟨s, scm, es ++ [⟨k, v, cm⟩]⟩) := by
  rw [sofar_cons d ⟨s, scm, es ++ [⟨k, v, cm⟩]⟩ (List.append_ne_nil_of_right_ne_nil es (List.cons_ne_nil _ _))]
  -- the section as it is: listed last, or not yet listed and empty
  have hcur : secOf c s = ⟨s, scm, es⟩ ∧ view c = d ++ (if s ∈ c.sectionList then [⟨s, scm, es⟩] else []) := by
    have hnames := h.names
    by_cases hgone : s = defaultSection ∧ es = []
    · rw [sofar, if_pos hgone] at hnames
      have hsec : s ∉ c.sectionList := by rwa [hnames]
      have hdata : c.data s = none :=
        Option.not_isSome_iff_eq_none.1 (fun hsome => hsec ((h.inv.sections.mem s).2 hsome))
      refine ⟨?_, ?_⟩
      · rw [secOf, h.inv.gone s hdata, ConfigFile.getSectionComments, sectionOf_of_ne hs, h.sections s hsec, hgone.2,
          hdefault hgone.1]
        rfl
      · rw [if_neg hsec, List.append_nil, h.view, sofar, if_pos hgone]
    · rw [sofar, if_neg hgone] at hnames
      have hsec : s ∈ c.sectionList := by simp [hnames]
      refine ⟨?_, ?_⟩
      · exact h.at_section (s := ⟨s, scm, es⟩) (by rw [sofar, if_neg hgone]; simp)
      · rw [if_pos hsec, h.view, sofar, if_neg hgone]
  obtain ⟨hsecOf, hview⟩ := hcur
  have hkeys : ((c.keyList s).filter (fun key => key ≠ blank)).map (entryOf c s) = es := congrArg Sec.entries hsecOf
  have hkeyNew : k ∉ c.keyList s := by
    intro hmem
    refine hnew ?_
    rw [← hkeys, List.map_map]
    exact List.mem_map.2 ⟨k, List.mem_filter.2 ⟨hmem, decide_eq_true hkb⟩, rfl⟩
  obtain ⟨hinv, hpretty, hsec, hlist, hkeyList, hlookup, hkeyComment⟩ :=
    assigned_spec h.inv (v := v) hs hk hkeyNew (h.keys s k hkeyNew) hcm
  -- the others do not change
  have hother : ∀ x ∈ c.sectionList, x ≠ s → secOf (assigned c s k v cm) x = secOf c x := by
    intro x hx hxs
    refine secOf_congr (h.inv.named x hx) (by rw [hkeyList, Function.update_of_ne hxs]) (fun y => ?_) (by rw [hsec])
      (fun y => ?_)
    · rw [hlookup, if_neg (fun hxy => hxs hxy.1)]
    · rw [hkeyComment, if_neg (fun hxy => hxs hxy.1)]
  have hself : secOf (assigned c s k v cm) s = ⟨s, scm, es ++ [⟨k, v, cm⟩]⟩ := by
    have hscm : (assigned c s k v cm).getSectionComments s = scm := by
      rw [ConfigFile.getSectionComments, hsec]
      exact congrArg Sec.comments hsecOf
    have hold : ∀ y ∈ (c.keyList s).filter (fun key => key ≠ blank),
        entryOf (assigned c s k v cm) s y = entryOf c s y := by
      intro y hy
      have hyk : y ≠ k := fun he => hkeyNew (he ▸ (List.mem_filter.1 hy).1)
      rw [entryOf, entryOf, hlookup, if_neg (fun hxy => hyk hxy.2), getKeyComments_eq _ hs, getKeyComments_eq _ hs,
        hkeyComment, if_neg (fun hxy => hyk hxy.2)]
    have hlast : entryOf (assigned c s k v cm) s k = ⟨k, v, cm⟩ := by
      rw [entryOf, hlookup, if_pos ⟨rfl, rfl⟩, getKeyComments_eq _ hs, hkeyComment, if_pos ⟨rfl, rfl⟩]
      by_cases hnil : cm = []
      · rw [if_pos hnil, hnil]
        rfl
      · rw [if_neg hnil]
        rfl
    rw [secOf, hscm, hkeyList, Function.update_self, List.filter_append, List.map_append, List.map_congr_left hold, hkeys,
      List.filter_cons_of_pos (by simpa using hkb), List.filter_nil, List.map_singleton, hlast]
  refine ⟨hinv, ?_, hpretty.trans h.pretty, fun x hx => ?_, fun x y hy => ?_⟩
  · unfold view at hview ⊢
    rw [hlist]
    by_cases hmem : s ∈ c.sectionList
    · rw [if_pos hmem] at hview ⊢
      have hnames : c.sectionList = d.map Sec.name ++ [s] := by
        have hmap := congrArg (List.map Sec.name) hview
        rw [List.map_map, List.map_append] at hmap
        exact (List.map_id _).symm.trans hmap
      rw [hnames, List.map_append] at hview
      have hfront := (List.append_inj' hview rfl).1
      rw [hnames, List.map_append, List.map_singleton, hself]
      congr 1
      refine (List.map_congr_left (fun x hx => ?_)).trans hfront
      exact hother x (by rw [hnames]; exact List.mem_append_left _ hx) (fun he => hnot (he ▸ hx))
    · rw [if_neg hmem] at hview ⊢
      rw [List.map_append, List.map_congr_left (fun x hx => hother x hx (fun he => hmem (he ▸ hx))), hview,
        List.append_nil, List.map_singleton, hself]
  · rw [hsec]
    refine h.sections x (fun hmem => hx ?_)
    rw [hlist]
    split
    · exact hmem
    · exact List.mem_append_left _ hmem
  · rw [hkeyList] at hy
    by_cases hxs : x = s
    · subst hxs
      rw [Function.update_self, List.mem_append, List.mem_singleton, not_or] at hy
      rw [hkeyComment, if_neg (fun hxy => hy.2 hxy.2)]
      exact h.keys x y hy.1
    · rw [Function.update_of_ne hxs] at hy
      rw [hkeyComment, if_neg (fun hxy => hxs hxy.1)]
      exact h.keys x y hy

/-- **A header adds an empty section**, with the comments in front of it. -/
theorem shows_section {s cm : GoString} (h : Shows c d) (hs : s ≠ []) (hnot : s ∉ d.map Sec.name)
    (hcm : cm = [] ∨ Comment cm) :
    Shows (((if 0 < cm.length then (c.setSectionComments s cm).2 else c).setValue s blank blank).2)
      (d ++ [⟨s, cm, []⟩]) := by
  have hsec : s ∉ c.sectionList := by rwa [h.names]
  have hdata : c.data s = none := Option.not_isSome_iff_eq_none.1 (fun hsome => hsec ((h.inv.sections.mem s).2 hsome))
  -- the comments, which are not listed yet
  have hcomments : ∃ c₁, c₁ = (if 0 < cm.length then (c.setSectionComments s cm).2 else c) ∧ Inv c₁ ∧
      c₁.data = c.data ∧ c₁.sectionList = c.sectionList ∧ c₁.keyList = c.keyList ∧ c₁.keyComments = c.keyComments ∧
      c₁.prettyFormat = c.prettyFormat ∧
      ∀ x, c₁.sectionComments x = if x = s then (if cm = [] then none else some cm) else c.sectionComments x := by
    by_cases hlen : 0 < cm.length
    · have hne : cm ≠ [] := List.length_pos_iff.1 hlen
      have hcm' : Comment cm := hcm.resolve_left hne
      have htext : ConfigFile.commentText cm = cm := if_pos hcm'
      have hset : (c.setSectionComments s cm).2 =
          { c with sectionComments := Function.update c.sectionComments s (some cm) } := by
        unfold ConfigFile.setSectionComments
        dsimp only
        rw [if_neg (by omega), sectionOf_of_ne hs, htext]
      refine ⟨_, rfl, ?_⟩
      rw [if_pos hlen]
      refine ⟨(setSectionComments_spec h.inv s cm).1, ?_⟩
      rw [hset]
      refine ⟨rfl, rfl, rfl, rfl, rfl, fun x => ?_⟩
      dsimp only
      rw [Function.update_apply, if_neg hne]
    · have hnil : cm = [] := List.length_eq_zero_iff.1 (by omega)
      refine ⟨_, rfl, ?_⟩
      rw [if_neg hlen]
      refine ⟨h.inv, rfl, rfl, rfl, rfl, rfl, fun x => ?_⟩
      rw [if_pos hnil]
      split
      · rename_i hx
        rw [hx, h.sections s hsec]
      · rfl
  obtain ⟨c₁, hc₁, hinv, h1, h2, h3, h4, h5, h6⟩ := hcomments
  rw [← hc₁]
  have hset : (c₁.setValue s blank blank).2 = { c₁ with
      data := Function.update c₁.data s (some (Function.update (fun _ => none) blank (some blank)))
      sectionList := c₁.sectionList ++ [s]
      keyList := Function.update c₁.keyList s (c₁.keyList s ++ [blank]) } := by
    rw [setValue_of_none blank (by decide) (by rwa [sectionOf_of_ne hs, h1]), sectionOf_of_ne hs]
  have hlist : (c₁.setValue s blank blank).2.sectionList = c.sectionList ++ [s] := by rw [hset, h2]
  have hkeys : (c₁.setValue s blank blank).2.keyList = Function.update c.keyList s [blank] := by
    rw [hset, h3, h.inv.gone s hdata]
    rfl
  have hlookup : ∀ x y, x ≠ s → (c₁.setValue s blank blank).2.lookup x y = c.lookup x y := by
    intro x y hx
    rw [hset, ConfigFile.lookup, ConfigFile.lookup]
    dsimp only
    rw [Function.update_of_ne hx, h1]
  have hkeyComment : ∀ x y, keyComment (c₁.setValue s blank blank).2 x y = keyComment c x y := by
    intro x y
    rw [hset, keyComment, keyComment, h4]
  have hsecComment : ∀ x, (c₁.setValue s blank blank).2.sectionComments x =
      if x = s then (if cm = [] then none else some cm) else c.sectionComments x := by
    intro x
    rw [hset, ← h6 x]
  have hother : ∀ x ∈ c.sectionList, secOf (c₁.setValue s blank blank).2 x = secOf c x := by
    intro x hx
    have hxs : x ≠ s := fun he => hsec (he ▸ hx)
    exact secOf_congr (h.inv.named x hx) (by rw [hkeys, Function.update_of_ne hxs]) (fun y => hlookup x y hxs)
      (by rw [hsecComment, if_neg hxs]) (hkeyComment x)
  have hself : secOf (c₁.setValue s blank blank).2 s = ⟨s, cm, []⟩ := by
    have hcm' : (c₁.setValue s blank blank).2.getSectionComments s = cm := by
      rw [ConfigFile.getSectionComments, sectionOf_of_ne hs, hsecComment, if_pos rfl]
      by_cases hnil : cm = []
      · rw [if_pos hnil, hnil]
        rfl
      · rw [if_neg hnil]
        rfl
    rw [secOf, hcm', hkeys, Function.update_self]
    rfl
  refine ⟨inv_setValue hinv blank, ?_, ?_, fun x hx => ?_, fun x y hy => ?_⟩
  · unfold view
    rw [hlist, List.map_append, List.map_congr_left hother, List.map_singleton, hself]
    exact congrArg (· ++ _) h.view
  · rw [hset]
    exact h5.trans h.pretty
  · rw [hlist, List.mem_append, List.mem_singleton, not_or] at hx
    rw [hsecComment, if_neg hx.2]
    exact h.sections x hx.1
  · rw [hkeyComment]
    refine h.keys x y (fun hmem => hy ?_)
    rw [hkeys]
    by_cases hxs : x = s
    · subst hxs
      rw [h.inv.gone x hdata] at hmem
      cases hmem
    · rwa [Function.update_of_ne hxs]

end Load

/-! ## Reading the saved text -/

theorem comment_of_ok {cm : GoString} (h : CommentOk cm) : cm = [] ∨ Comment cm := by
  by_cases hnil : cm = []
  · exact .inl hnil
  · right
    unfold CommentOk commentList at h
    rw [if_neg hnil] at h
    cases hsplit : split cm 10 with
    | nil => exact absurd hsplit (split_ne_nil cm 10)
    | cons l ls =>
      rw [hsplit] at h
      obtain ⟨-, hcomment⟩ := h l List.mem_cons_self
      have hjoin : cm = l ++ ls.flatMap (fun l => 10 :: l) := by
        rw [← intercalate_newline l ls, ← hsplit]
        exact (List.intercalate_splitOn (10 : UInt8)).symm
      rw [hjoin]
      cases l with
      | nil => rcases hcomment with h | h <;> cases h
      | cons x l => exact hcomment

theorem key_ne_blank {k : GoString} (h : KeyOk k) : k ≠ [] ∧ k ≠ blank := by
  constructor
  · rintro rfl
    revert h
    decide
  · rintro rfl
    revert h
    decide

/-- The entries of a section, read one after the other. -/
theorem feed_entries (pretty : Bool) {d : List Sec} {s scm : GoString} (hs : s ≠ []) (hnot : s ∉ d.map Sec.name)
    (hdefault : s = defaultSection → scm = []) : ∀ {es old : List Entry} {sc : Scan},
    Shows sc.cfg (sofar d ⟨s, scm, old⟩) → sc.name = s → sc.comments = [] → EntriesOk sc.count es →
    ((old ++ es).map Entry.key).Nodup →
    ∃ sc', feed sc (es.flatMap (entryLines pretty)) = .ok sc' ∧ Shows sc'.cfg (sofar d ⟨s, scm, old ++ es⟩) ∧
      sc'.comments = []
  | [], old, sc, h, _, hcm, _, _ => ⟨sc, rfl, by rwa [List.append_nil], hcm⟩
  | e :: es, old, sc, h, hname, hcm, hok, hnd => by
    obtain ⟨hcomment, hvalue, hkey⟩ := hok
    have hfresh : e.key ∉ old.map Entry.key := by
      rw [List.map_append, List.map_cons, List.nodup_append] at hnd
      exact fun hm => hnd.2.2 e.key hm e.key List.mem_cons_self rfl
    have hsplit : old ++ e :: es = (old ++ [e]) ++ es := by simp
    -- the line of the key, automatic or not
    have hline : ∃ sc₁, feed { sc with comments := e.comments }
          [(keyText e.key).getD [] ++ equalSign pretty ++ valueText e.value] = .ok sc₁ ∧
        sc₁.cfg = assigned sc.cfg s e.key e.value e.comments ∧ sc₁.name = s ∧ sc₁.comments = [] ∧
        EntriesOk sc₁.count es ∧ e.key ≠ [] ∧ e.key ≠ blank := by
      by_cases h35 : e.key.head? = some 35
      · rw [if_pos h35] at hkey
        obtain ⟨hauto, hrest⟩ := hkey
        have hkt : keyText e.key = some [45] := by
          rw [hauto]
          rfl
        have hhandle := handleLine_entry { sc with comments := e.comments } pretty (by rw [hname]; exact hs)
          spells_automatic hvalue (fun hx => absurd hx.1 (by decide))
        rw [hkt, Option.getD_some, feed_cons [] hhandle]
        refine ⟨_, rfl, ?_, hname, rfl, hrest, ?_, ?_⟩
        · dsimp only
          rw [if_pos rfl, hname, ← hauto]
        · rw [hauto]
          exact List.cons_ne_nil _ _
        · rw [hauto]
          exact fun he => absurd (List.head_eq_of_cons_eq he) (by decide)
      · rw [if_neg h35] at hkey
        obtain ⟨hkeyOk, hsection, hrest⟩ := hkey
        obtain ⟨kt, hkt, hspells⟩ := spells_keyText hkeyOk h35
        rw [hkt, Option.getD_some] at hsection ⊢
        have h45 : e.key ≠ [45] := by
          intro he
          rw [he] at hkeyOk
          revert hkeyOk
          decide
        have hhandle := handleLine_entry { sc with comments := e.comments } pretty (by rw [hname]; exact hs)
          hspells hvalue hsection
        rw [feed_cons [] hhandle]
        simp only [if_neg h45]
        refine ⟨_, rfl, ?_, hname, rfl, hrest, key_ne_blank hkeyOk⟩
        dsimp only
        rw [hname]
    obtain ⟨sc₁, hfeed, hcfg, hname', hcm', hrest, hne, hnb⟩ := hline
    have hshows : Shows sc₁.cfg (sofar d ⟨s, scm, old ++ [e]⟩) := by
      rw [hcfg]
      exact shows_entry h hs hnot hdefault hne hnb hfresh (comment_of_ok hcomment)
    obtain ⟨sc', hfeed', hshows', hcm''⟩ := feed_entries pretty hs hnot hdefault hshows hname' hcm' hrest (by rwa [← hsplit])
    refine ⟨sc', ?_, by rwa [hsplit], hcm''⟩
    rw [List.flatMap_cons, entryLines, List.append_assoc, feed_append _ (feed_comments hcm hcomment),
      feed_append _ hfeed, hfeed']

/-- **A storable section is read as it was.** -/
theorem feed_section (pretty : Bool) {d : List Sec} {s : Sec} {sc : Scan} (h : Shows sc.cfg d) (hs : s.name ≠ [])
    (hnot : s.name ∉ d.map Sec.name) (hcm : sc.comments = []) (hok : SecOk s) (hnd : (s.entries.map Entry.key).Nodup)
    (hdefault : s.name = defaultSection → sc.name = defaultSection ∧ sc.count = 1) :
    ∃ sc', feed sc (secLines pretty s) = .ok sc' ∧ Shows sc'.cfg (d ++ [s]) ∧ sc'.comments = [] := by
  obtain ⟨hhead, hentries⟩ := hok
  by_cases hdef : s.name = defaultSection
  · rw [if_pos hdef] at hhead
    obtain ⟨hscm, hne⟩ := hhead
    obtain ⟨hname, hcount⟩ := hdefault hdef
    have hstart : Shows sc.cfg (sofar d ⟨s.name, s.comments, []⟩) := by rwa [sofar, if_pos ⟨hdef, rfl⟩]
    obtain ⟨sc', hfeed, hshows, hcm'⟩ := feed_entries pretty hs hnot (fun _ => hscm) hstart
      (hname.trans hdef.symm) hcm (by rwa [hcount]) hnd
    refine ⟨sc', ?_, by rwa [List.nil_append, sofar_cons d _ hne] at hshows, hcm'⟩
    rw [secLines, hscm, if_neg (not_not_intro hdef), commentList, if_pos rfl, List.nil_append, List.nil_append,
      feed_append _ hfeed, feed_cons [] (handleLine_blank sc')]
    rfl
  · rw [if_neg hdef] at hhead
    obtain ⟨-, htrim, hcomment⟩ := hhead
    have hheader := handleLine_section { sc with comments := s.comments } htrim
    have hopen : ∀ es, sofar d ⟨s.name, s.comments, es⟩ = d ++ [⟨s.name, s.comments, es⟩] :=
      fun es => if_neg (fun h' => hdef h'.1)
    have hstart := shows_section h hs hnot (comment_of_ok hcomment)
    rw [← hopen] at hstart
    obtain ⟨sc', hfeed, hshows, hcm'⟩ := feed_entries pretty hs hnot (fun he => absurd he hdef)
      (show Shows (Scan.mk _ 1 s.name []).cfg _ from hstart) rfl rfl hentries hnd
    rw [List.nil_append, hopen] at hshows
    refine ⟨sc', ?_, hshows, hcm'⟩
    rw [secLines, if_pos hdef, List.append_assoc, List.append_assoc, feed_append _ (feed_comments hcm hcomment),
      List.singleton_append, feed_cons _ hheader, feed_append _ hfeed, feed_cons [] (handleLine_blank sc')]
    rfl

theorem feed_sections (pretty : Bool) : ∀ {rest d : List Sec} {sc : Scan}, Shows sc.cfg d → sc.comments = [] →
    (∀ s ∈ rest, SecOk s ∧ s.name ≠ [] ∧ s.name ≠ defaultSection ∧ (s.entries.map Entry.key).Nodup) →
    ((d ++ rest).map Sec.name).Nodup →
    ∃ sc', feed sc (rest.flatMap (secLines pretty)) = .ok sc' ∧ Shows sc'.cfg (d ++ rest)
  | [], d, sc, h, _, _, _ => ⟨sc, rfl, by rwa [List.append_nil]⟩
  | s :: rest, d, sc, h, hcm, hall, hnd => by
    obtain ⟨hok, hs, hdef, hkeys⟩ := hall s List.mem_cons_self
    have hnot : s.name ∉ d.map Sec.name := by
      rw [List.map_append, List.map_cons, List.nodup_append] at hnd
      exact fun hm => hnd.2.2 s.name hm s.name List.mem_cons_self rfl
    have hsplit : d ++ s :: rest = (d ++ [s]) ++ rest := by simp
    obtain ⟨sc₁, hfeed, hshows, hcm'⟩ := feed_section pretty h hs hnot hcm hok hkeys (fun he => absurd he hdef)
    obtain ⟨sc', hfeed', hshows'⟩ := feed_sections pretty hshows hcm'
      (fun s' hs' => hall s' (List.mem_cons_of_mem _ hs')) (by rwa [← hsplit])
    exact ⟨sc', by rw [List.flatMap_cons, feed_append _ hfeed, hfeed'], by rwa [hsplit]⟩

/-- A line without a line break in it, that is not taken for a byte order mark. -/
def PlainLine (l : GoString) : Prop := 10 ∉ l ∧ ¬bom <+: l

theorem not_bom_append {l rest : GoString} {x : UInt8} (hx : x.toNat < 128) (h : ¬bom <+: l) : ¬bom <+: l ++ x :: rest :=
  fun hpre => h (prefix_of_append (by simp [bom]) hx hpre)

theorem plain_comment {cm : GoString} (h : CommentOk cm) : ∀ l ∈ commentList cm, PlainLine l := by
  intro l hl
  refine ⟨not_mem_commentList l hl, not_bom_of_head ?_⟩
  rcases (h l hl).2 with h | h <;> rw [h] <;> decide

theorem plain_entry {kt k v : GoString} (pretty : Bool) (hk : Spells kt k) (hv : ValueOk v) :
    PlainLine (kt ++ equalSign pretty ++ valueText v) := by
  have hvt : 10 ∉ valueText v := by
    unfold valueText
    split
    · split <;> simp [tripleQuote, hv.1]
    · exact hv.1
  constructor
  · have hsign : 10 ∉ equalSign pretty := by cases pretty <;> decide
    simp [hk.noNewline, hvt, hsign]
  · rw [List.append_assoc]
    cases pretty
    · exact not_bom_append (by decide) hk.noBom
    · exact not_bom_append (by decide) hk.noBom

theorem plain_entries (pretty : Bool) : ∀ {es : List Entry} {count : Nat}, EntriesOk count es →
    ∀ l ∈ es.flatMap (entryLines pretty), PlainLine l
  | [], _, _, _, hl => by cases hl
  | e :: es, count, hok, l, hl => by
    obtain ⟨hcomment, hvalue, hkey⟩ := hok
    have hline : PlainLine ((keyText e.key).getD [] ++ equalSign pretty ++ valueText e.value) ∧
        ∃ count', EntriesOk count' es := by
      by_cases h35 : e.key.head? = some 35
      · rw [if_pos h35] at hkey
        have hkt : keyText e.key = some [45] := by
          rw [hkey.1]
          rfl
        rw [hkt]
        exact ⟨plain_entry pretty spells_automatic hvalue, _, hkey.2⟩
      · rw [if_neg h35] at hkey
        obtain ⟨kt, hkt, hspells⟩ := spells_keyText hkey.1 h35
        rw [hkt]
        exact ⟨plain_entry pretty hspells hvalue, _, hkey.2.2⟩
    obtain ⟨hplain, count', hrest⟩ := hline
    rw [List.flatMap_cons, entryLines] at hl
    rcases List.mem_append.1 hl with hl | hl
    · rcases List.mem_append.1 hl with hl | hl
      · exact plain_comment hcomment l hl
      · rwa [List.mem_singleton.1 hl]
    · exact plain_entries pretty hrest l hl

theorem plain_section (pretty : Bool) {s : Sec} (h : SecOk s) : ∀ l ∈ secLines pretty s, PlainLine l := by
  intro l hl
  obtain ⟨hhead, hentries⟩ := h
  unfold secLines at hl
  rcases List.mem_append.1 hl with hl | hl
  · rcases List.mem_append.1 hl with hl | hl
    · by_cases hdef : s.name = defaultSection
      · rw [if_pos hdef] at hhead
        rw [hhead.1, if_neg (not_not_intro hdef)] at hl
        cases hl
      · rw [if_neg hdef] at hhead
        rw [if_pos hdef] at hl
        rcases List.mem_append.1 hl with hl | hl
        · exact plain_comment hhead.2.2 l hl
        · rw [List.mem_singleton.1 hl]
          exact ⟨by simp [hhead.1], not_bom_of_head (by simp)⟩
    · exact plain_entries pretty hentries l hl
  · rw [List.mem_singleton.1 hl]
    exact ⟨List.not_mem_nil, by decide⟩

theorem shows_newConfigFile : Shows newConfigFile [] :=
  ⟨inv_newConfigFile, rfl, rfl, fun _ _ => rfl, fun _ _ _ => rfl⟩

/-- **Loading the text of a storable view shows the view.** -/
theorem load_view {c : ConfigFile} (h : Inv c) (hok : Storable (view c)) :
    ∃ c', loadFromReader (lineText ((view c).flatMap (secLines c.prettyFormat))) = (none, c') ∧ Shows c' (view c) := by
  have hnames : (view c).map Sec.name = c.sectionList := by
    rw [view, List.map_map]
    exact List.map_id _
  have hnd : ((view c).map Sec.name).Nodup := hnames ▸ h.sections.nodup
  have hsec : ∀ s ∈ view c, SecOk s ∧ s.name ≠ [] ∧ (s.entries.map Entry.key).Nodup := by
    intro s hs
    refine ⟨hok.1 s hs, ?_⟩
    rw [view] at hs
    obtain ⟨x, hx, rfl⟩ := List.mem_map.1 hs
    refine ⟨h.named x hx, ?_⟩
    obtain ⟨kv, hkv⟩ := Option.isSome_iff_exists.1 ((h.sections.mem x).1 hx)
    have hkeys : (secOf c x).entries.map Entry.key = (c.keyList x).filter (fun key => key ≠ blank) := by
      rw [secOf, List.map_map]
      exact List.map_id _
    rw [hkeys]
    exact (h.keys x kv hkv).nodup.filter _
  -- the first section may be the default one
  have hfeed : ∃ sc', feed ⟨newConfigFile, 1, defaultSection, []⟩ ((view c).flatMap (secLines c.prettyFormat)) = .ok sc' ∧
      Shows sc'.cfg (view c) := by
    have htail := hok.2
    generalize view c = d at htail hnd hsec ⊢
    cases d with
    | nil => exact ⟨_, rfl, shows_newConfigFile⟩
    | cons s rest =>
      obtain ⟨hs, hne, hkeys⟩ := hsec s List.mem_cons_self
      obtain ⟨sc₁, hfeed, hshows, hcm⟩ := feed_section c.prettyFormat (d := [])
        (show Shows (Scan.mk newConfigFile 1 defaultSection []).cfg [] from shows_newConfigFile) hne List.not_mem_nil rfl hs
        hkeys (fun _ => ⟨rfl, rfl⟩)
      obtain ⟨sc', hfeed', hshows'⟩ := feed_sections c.prettyFormat hshows hcm
        (fun s' hs' => ⟨(hsec s' (List.mem_cons_of_mem _ hs')).1, (hsec s' (List.mem_cons_of_mem _ hs')).2.1, htail s' hs',
          (hsec s' (List.mem_cons_of_mem _ hs')).2.2⟩) hnd
      exact ⟨sc', by rw [List.flatMap_cons, feed_append _ hfeed, hfeed'], hshows'⟩
  obtain ⟨sc', hfeed, hshows⟩ := hfeed
  have hplain : ∀ l ∈ (view c).flatMap (secLines c.prettyFormat), PlainLine l := by
    intro l hl
    obtain ⟨s, hs, hl⟩ := List.mem_flatMap.1 hl
    exact plain_section _ (hok.1 s hs) l hl
  have hbom : ¬bom <+: lineText ((view c).flatMap (secLines c.prettyFormat)) := by
    generalize (view c).flatMap (secLines c.prettyFormat) = ls at hplain
    cases ls with
    | nil => decide
    | cons l ls =>
      rw [lineText_cons]
      exact not_bom_append (by decide) (hplain l List.mem_cons_self).2
  refine ⟨sc'.cfg, ?_, hshows⟩
  unfold loadFromReader read
  rw [if_neg hbom]
  dsimp only
  rw [readLoop_lines (fun l hl => (hplain l hl).1) (Nat.lt_succ_of_le (length_le_lineText _)) hfeed]

/-- **What is saved is loaded.**  After any sequence of calls that leaves a storable view, the saved text is read back
without an error into a configuration that shows the same sections, keys, values and comments in the same order; in the
pretty format, saving that one again writes the same text. -/
theorem save_load_round_trip (calls : List Call) (c : ConfigFile) (h : Lts.run step newConfigFile calls = some c)
    (hok : Storable (view c)) : ∃ text c', saveConfigData c = some text ∧ loadFromReader text = (none, c') ∧
      view c' = view c ∧ (c.prettyFormat = true → saveConfigData c' = some text) := by
  obtain ⟨c₁, hrun, hinv, -⟩ := run_refines calls newConfigFile inv_newConfigFile
  obtain rfl : c₁ = c := Option.some.inj (hrun.symm.trans h)
  obtain ⟨c', hload, hshows⟩ := load_view hinv hok
  refine ⟨_, c', saveConfigData_eq hinv, hload, hshows.view, fun hpretty => ?_⟩
  rw [saveConfigData_eq hshows.inv, hshows.view, hshows.pretty, hpretty]

/-- A default section, a commented one with a quoted key and value, and automatic keys. -/
def mixedCalls : List Call :=
  [.setValue [] [97] [49], .setValue [115] [107, 61, 120] [96, 34], .setSectionComments [115] [110, 111, 116, 101],
  .setKeyComments [115] [107, 61, 120] [59, 32, 49, 10, 35, 32, 50],
  .read [91, 116, 93, 10, 45, 61, 120, 10, 45, 32, 61, 32, 121, 10]]

theorem save_load_round_trip_mixed : ∃ c, Lts.run step newConfigFile mixedCalls = some c ∧
    ∃ text c', saveConfigData c = some text ∧ loadFromReader text = (none, c') ∧ view c' = view c ∧
      (c.prettyFormat = true → saveConfigData c' = some text) := by
  have hview : (Lts.run step newConfigFile mixedCalls).map view = some
      [⟨defaultSection, [], [⟨[97], [49], []⟩]⟩,
    ⟨[115], [59, 32, 110, 111, 116, 101], [⟨[107, 61, 120], [96, 34], [59, 32, 49, 10, 35, 32, 50]⟩]⟩,
    ⟨[116], [], [⟨[35, 49], [120], []⟩, ⟨[35, 50], [121], []⟩]⟩] := by
    decide +kernel
  obtain ⟨c, hrun, hc⟩ := Option.map_eq_some_iff.1 hview
  exact ⟨c, hrun, save_load_round_trip mixedCalls c hrun (by rw [hc]; decide +kernel)⟩

end GoConfig
end Xrtc
