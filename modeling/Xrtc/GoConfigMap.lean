import Xrtc.GoConfig
import Xrtc.Lts
import Xrtc.OrdMap
/-!
# GoConfigMap — a configuration is a map of maps that keeps its order

The lists of sections and keys and the maps beside them represent an ordered map of ordered maps (`abs`).  Every call
keeps them in step (`Inv`), so that no slice expression of `DeleteKey` or `DeleteSection` and no `keyName[0]` of the
writer is ever out of range, and does to the represented map what its name says.
-/
namespace Xrtc
namespace GoConfig

open OrdMap (Keeps)

def Comment (comments : GoString) : Prop := comments.head? = some 35 ∨ comments.head? = some 59

instance (comments : GoString) : Decidable (Comment comments) := inferInstanceAs (Decidable (_ ∨ _))

structure Inv (c : ConfigFile) : Prop where
  sections : Keeps c.sectionList c.data
  keys : ∀ s kv, c.data s = some kv → Keeps (c.keyList s) kv
  gone : ∀ s, c.data s = none → c.keyList s = []
  named : ∀ s ∈ c.sectionList, s ≠ []
  keyed : ∀ s, ∀ k ∈ c.keyList s, k ≠ []
  sectionComment : ∀ s t, c.sectionComments s = some t → Comment t
  keyComment : ∀ s kc k t, c.keyComments s = some kc → kc k = some t → Comment t

/-- Sections in order, and in each its keys and values in order. -/
abbrev Ordered := List (GoString × List (GoString × GoString))

def sectionMap (c : ConfigFile) (s : GoString) : Option (List (GoString × GoString)) :=
  (c.data s).map (OrdMap.toList (c.keyList s))

def abs (c : ConfigFile) : Ordered := OrdMap.toList c.sectionList (sectionMap c)

/-- Setting a key of a section, which is made when it is missing. -/
def setAt (m : Ordered) (s k v : GoString) : Ordered := OrdMap.set m s (OrdMap.set ((OrdMap.lookup m s).getD []) k v)

def eraseAt (m : Ordered) (s k : GoString) : Ordered :=
  match OrdMap.lookup m s with
  | none => m
  | some kv => OrdMap.set m s (OrdMap.erase kv k)

theorem sectionOf_ne_nil (s : GoString) : sectionOf s ≠ [] := by
  unfold sectionOf
  split
  · decide
  · rename_i hne
    intro he
    exact hne (by rw [he]; rfl)

section Represent
variable {c : ConfigFile}

theorem sectionMap_isSome (c : ConfigFile) (s : GoString) : (sectionMap c s).isSome = (c.data s).isSome := by
  simp [sectionMap]

theorem Inv.represents (h : Inv c) : Keeps c.sectionList (sectionMap c) :=
  ⟨h.sections.nodup, fun s => by rw [sectionMap_isSome]; exact h.sections.mem s⟩

theorem Inv.lookup_abs (h : Inv c) (s : GoString) : OrdMap.lookup (abs c) s = sectionMap c s := h.represents.lookup s

/-- A section's map changed in place. -/
theorem abs_update_mem (h : Inv c) {s : GoString} (hs : (c.data s).isSome) {c' : ConfigFile}
    {m : List (GoString × GoString)} (hlist : c'.sectionList = c.sectionList) (hself : sectionMap c' s = some m)
    (hother : ∀ x, x ≠ s → sectionMap c' x = sectionMap c x) : abs c' = OrdMap.set (abs c) s m := by
  have hmap : ∀ x, sectionMap c' x = Function.update (sectionMap c) s (some m) x := by
    intro x
    by_cases hx : x = s
    · rw [hx, hself, Function.update_self]
    · rw [hother x hx, Function.update_of_ne hx]
  unfold abs
  rw [hlist, OrdMap.toList_congr (fun x _ => hmap x)]
  exact OrdMap.toList_update_mem m h.sections.nodup (fun x hx => (h.represents.mem x).1 hx) ((h.sections.mem s).2 hs)

/-- A section appended. -/
theorem abs_snoc (h : Inv c) {s : GoString} (hs : c.data s = none) {c' : ConfigFile} {m : List (GoString × GoString)}
    (hlist : c'.sectionList = c.sectionList ++ [s]) (hself : sectionMap c' s = some m)
    (hother : ∀ x, x ≠ s → sectionMap c' x = sectionMap c x) : abs c' = OrdMap.set (abs c) s m := by
  have hmap : ∀ x, sectionMap c' x = Function.update (sectionMap c) s (some m) x := by
    intro x
    by_cases hx : x = s
    · rw [hx, hself, Function.update_self]
    · rw [hother x hx, Function.update_of_ne hx]
  have hnot : s ∉ c.sectionList := fun hm => by simpa [hs] using (h.sections.mem s).1 hm
  unfold abs
  rw [hlist, OrdMap.toList_congr (fun x _ => hmap x)]
  exact OrdMap.toList_snoc m (fun x hx => (h.represents.mem x).1 hx) hnot

end Represent

/-! ## `SetValue` -/

section SetValue
variable {c : ConfigFile} {s k : GoString}

/-- `SetValue` in a section that exists. -/
theorem setValue_of_some {kv : GoString → Option GoString} (v : GoString) (hk : k ≠ [])
    (hs : c.data (sectionOf s) = some kv) :
    c.setValue s k v = ((kv k).isNone, { c with
      data := Function.update c.data (sectionOf s) (some (Function.update kv k (some v)))
      keyList := if (kv k).isSome then c.keyList
        else Function.update c.keyList (sectionOf s) (c.keyList (sectionOf s) ++ [k]) }) := by
  have hlen : ¬k.length = 0 := fun h0 => hk (List.length_eq_zero_iff.1 h0)
  unfold ConfigFile.setValue
  simp only [if_neg hlen, hs, Option.getD_some]
  cases kv k <;> rfl

/-- `SetValue` makes the section. -/
theorem setValue_of_none (v : GoString) (hk : k ≠ []) (hs : c.data (sectionOf s) = none) :
    c.setValue s k v = (true, { c with
      data := Function.update c.data (sectionOf s) (some (Function.update (fun _ => none) k (some v)))
      sectionList := c.sectionList ++ [sectionOf s]
      keyList := Function.update c.keyList (sectionOf s) (c.keyList (sectionOf s) ++ [k]) }) := by
  have hlen : ¬k.length = 0 := fun h0 => hk (List.length_eq_zero_iff.1 h0)
  unfold ConfigFile.setValue
  simp only [if_neg hlen, hs, Function.update_self, Option.getD_some, Option.isSome_none, Bool.false_eq_true, if_false,
    Function.update_idem]

theorem setValue_nil (v : GoString) : c.setValue s [] v = (false, c) := rfl

theorem setValue_comments (v : GoString) : (c.setValue s k v).2.sectionComments = c.sectionComments ∧
    (c.setValue s k v).2.keyComments = c.keyComments ∧ (c.setValue s k v).2.prettyFormat = c.prettyFormat := by
  by_cases hk : k = []
  · subst hk
    exact ⟨rfl, rfl, rfl⟩
  · cases hs : c.data (sectionOf s) with
    | none =>
      rw [setValue_of_none v hk hs]
      exact ⟨rfl, rfl, rfl⟩
    | some kv =>
      rw [setValue_of_some v hk hs]
      exact ⟨rfl, rfl, rfl⟩

theorem inv_setValue (h : Inv c) (v : GoString) : Inv (c.setValue s k v).2 := by
  by_cases hk : k = []
  · subst hk
    exact h
  · cases hs : c.data (sectionOf s) with
    | none =>
      rw [setValue_of_none v hk hs]
      have hnot : sectionOf s ∉ c.sectionList := fun hm => by simpa [hs] using (h.sections.mem _).1 hm
      refine ⟨h.sections.snoc hnot _, fun x kv hx => ?_, fun x hx => ?_, fun x hx => ?_, fun x y hy => ?_,
        h.sectionComment, h.keyComment⟩
      · dsimp only at hx ⊢
        by_cases hxs : x = sectionOf s
        · subst hxs
          rw [Function.update_self, Option.some.injEq] at hx
          rw [Function.update_self, h.gone _ hs, ← hx]
          exact Keeps.snoc ⟨List.nodup_nil, by simp⟩ List.not_mem_nil v
        · rw [Function.update_of_ne hxs] at hx ⊢
          exact h.keys x kv hx
      · dsimp only at hx ⊢
        by_cases hxs : x = sectionOf s
        · subst hxs
          rw [Function.update_self] at hx
          cases hx
        · rw [Function.update_of_ne hxs] at hx ⊢
          exact h.gone x hx
      · rcases List.mem_append.1 hx with hx | hx
        · exact h.named x hx
        · rw [List.mem_singleton.1 hx]
          exact sectionOf_ne_nil s
      · dsimp only at hy
        by_cases hxs : x = sectionOf s
        · subst hxs
          rw [Function.update_self, List.mem_append] at hy
          rcases hy with hy | hy
          · exact h.keyed _ y hy
          · rw [List.mem_singleton.1 hy]
            exact hk
        · rw [Function.update_of_ne hxs] at hy
          exact h.keyed x y hy
    | some kv =>
      rw [setValue_of_some v hk hs]
      have hkeeps := h.keys _ kv hs
      have hmem : sectionOf s ∈ c.sectionList := (h.sections.mem _).2 (by rw [hs]; rfl)
      refine ⟨h.sections.update hmem _, fun x kv' hx => ?_, fun x hx => ?_, h.named, fun x y hy => ?_,
        h.sectionComment, h.keyComment⟩
      · dsimp only at hx ⊢
        by_cases hxs : x = sectionOf s
        · subst hxs
          rw [Function.update_self, Option.some.injEq] at hx
          rw [← hx]
          by_cases hold : (kv k).isSome = true
          · rw [if_pos hold]
            exact hkeeps.update ((hkeeps.mem k).2 hold) v
          · rw [if_neg hold, Function.update_self]
            exact hkeeps.snoc (fun hm => hold ((hkeeps.mem k).1 hm)) v
        · rw [Function.update_of_ne hxs] at hx
          have hsame := h.keys x kv' hx
          split
          · exact hsame
          · rwa [Function.update_of_ne hxs]
      · dsimp only at hx ⊢
        by_cases hxs : x = sectionOf s
        · subst hxs
          rw [Function.update_self] at hx
          cases hx
        · rw [Function.update_of_ne hxs] at hx
          have hsame := h.gone x hx
          split
          · exact hsame
          · rwa [Function.update_of_ne hxs]
      · dsimp only at hy
        split at hy
        · exact h.keyed x y hy
        · by_cases hxs : x = sectionOf s
          · subst hxs
            rw [Function.update_self, List.mem_append] at hy
            rcases hy with hy | hy
            · exact h.keyed _ y hy
            · rw [List.mem_singleton.1 hy]
              exact hk
          · rw [Function.update_of_ne hxs] at hy
            exact h.keyed x y hy

/-- **`SetValue` sets the value**, and says whether the key is new. -/
theorem abs_setValue (h : Inv c) (hk : k ≠ []) (v : GoString) :
    abs (c.setValue s k v).2 = setAt (abs c) (sectionOf s) k v ∧
      ((c.setValue s k v).1 = true ↔ c.lookup (sectionOf s) k = none) := by
  unfold setAt
  rw [h.lookup_abs]
  cases hs : c.data (sectionOf s) with
  | none =>
    have hmap : sectionMap c (sectionOf s) = none := by simp [sectionMap, hs]
    rw [setValue_of_none v hk hs, hmap]
    refine ⟨abs_snoc h hs rfl ?_ (fun x hx => ?_), ?_⟩
    · simp [sectionMap, h.gone _ hs, OrdMap.toList, OrdMap.set]
    · simp [sectionMap, Function.update_of_ne hx]
    · simp [ConfigFile.lookup, hs]
  | some kv =>
    have hmap : sectionMap c (sectionOf s) = some (OrdMap.toList (c.keyList (sectionOf s)) kv) := by simp [sectionMap, hs]
    have hkeeps := h.keys _ kv hs
    have hall : ∀ x ∈ c.keyList (sectionOf s), (kv x).isSome := fun x hx => (hkeeps.mem x).1 hx
    rw [setValue_of_some v hk hs, hmap]
    refine ⟨abs_update_mem h (by rw [hs]; rfl) rfl ?_ (fun x hx => ?_), ?_⟩
    · by_cases hold : (kv k).isSome = true
      · simp only [sectionMap, if_pos hold, Function.update_self, Option.map_some, Option.getD_some, Option.some.injEq]
        exact OrdMap.toList_update_mem v hkeeps.nodup hall ((hkeeps.mem k).2 hold)
      · simp only [sectionMap, if_neg hold, Function.update_self, Option.map_some, Option.getD_some, Option.some.injEq]
        exact OrdMap.toList_snoc v hall (fun hm => hold ((hkeeps.mem k).1 hm))
    · simp only [sectionMap, Function.update_of_ne hx]
      split
      · rfl
      · rw [Function.update_of_ne hx]
    · simp [ConfigFile.lookup, hs]

end SetValue

/-! ## Comments -/

section Comments
variable {c : ConfigFile}

theorem comment_commentText (comments : GoString) : Comment (ConfigFile.commentText comments) := by
  unfold ConfigFile.commentText
  split
  · rename_i h
    exact h
  · exact .inr rfl

/-- A call that touches only comments and format. -/
theorem Inv.recomment (h : Inv c) {c' : ConfigFile} (hdata : c'.data = c.data) (hlist : c'.sectionList = c.sectionList)
    (hkeys : c'.keyList = c.keyList) (hsec : ∀ s t, c'.sectionComments s = some t → Comment t)
    (hkey : ∀ s kc k t, c'.keyComments s = some kc → kc k = some t → Comment t) : Inv c' ∧ abs c' = abs c := by
  obtain ⟨h1, h2, h3, h4, h5, -, -⟩ := h
  refine ⟨⟨?_, ?_, ?_, ?_, ?_, hsec, hkey⟩, ?_⟩
  · rwa [hdata, hlist]
  · rwa [hdata, hkeys]
  · rwa [hdata, hkeys]
  · rwa [hlist]
  · rwa [hkeys]
  · unfold abs sectionMap
    rw [hdata, hlist, hkeys]

theorem setSectionComments_spec (h : Inv c) (s comments : GoString) :
    Inv (c.setSectionComments s comments).2 ∧ abs (c.setSectionComments s comments).2 = abs c := by
  unfold ConfigFile.setSectionComments
  dsimp only
  split
  · refine h.recomment rfl rfl rfl (fun x t hx => ?_) h.keyComment
    dsimp only at hx
    rw [Function.update_apply] at hx
    split at hx
    · cases hx
    · exact h.sectionComment x t hx
  · refine h.recomment rfl rfl rfl (fun x t hx => ?_) h.keyComment
    dsimp only at hx
    rw [Function.update_apply] at hx
    split at hx
    · cases hx
      exact comment_commentText comments
    · exact h.sectionComment x t hx

/-- The comments of one section replaced by comments that are still in form. -/
theorem keyComment_update (h : Inv c) {s : GoString} {kc : GoString → Option GoString}
    (hkc : ∀ k t, kc k = some t → Comment t) (x : GoString) (kc' : GoString → Option GoString) (k t : GoString)
    (hx : Function.update c.keyComments s (some kc) x = some kc') (ht : kc' k = some t) : Comment t := by
  rw [Function.update_apply] at hx
  split at hx
  · cases hx
    exact hkc k t ht
  · exact h.keyComment x kc' k t hx ht

theorem setKeyComments_spec (h : Inv c) (s k comments : GoString) :
    Inv (c.setKeyComments s k comments).2 ∧ abs (c.setKeyComments s k comments).2 = abs c := by
  have hone : ∀ {kc : GoString → Option GoString} {o : Option GoString}, (∀ x t, kc x = some t → Comment t) →
      (∀ t, o = some t → Comment t) → ∀ x t, Function.update kc k o x = some t → Comment t := by
    intro kc o hkc ho x t hx
    rw [Function.update_apply] at hx
    split at hx
    · exact ho t hx
    · exact hkc x t hx
  unfold ConfigFile.setKeyComments
  dsimp only
  cases hs : c.keyComments (sectionOf s) with
  | some kc =>
    have hkc : ∀ x t, kc x = some t → Comment t := fun x t => h.keyComment _ kc x t hs
    dsimp only
    split
    · refine h.recomment rfl rfl rfl h.sectionComment (keyComment_update h (hone hkc (fun t ht => ?_)))
      cases ht
    · refine h.recomment rfl rfl rfl h.sectionComment (keyComment_update h (hone hkc (fun t ht => ?_)))
      cases ht
      exact comment_commentText comments
  | none =>
    dsimp only
    split
    · exact ⟨h, rfl⟩
    · refine h.recomment rfl rfl rfl h.sectionComment (keyComment_update h (hone (fun x t hx => ?_) (fun t ht => ?_)))
      · cases hx
      · cases ht
        exact comment_commentText comments

end Comments

/-! ## `DeleteKey` and `DeleteSection` -/

section Delete
variable {c : ConfigFile}

theorem cut_of_mem {l : List GoString} {x : GoString} (hnd : l.Nodup) (h : x ∈ l) :
    ConfigFile.cut l x = some (l.filter (fun y => y ≠ x)) := by
  have hlt : l.findIdx (fun y => y == x) < l.length := List.findIdx_lt_length_of_exists ⟨x, h, by simp⟩
  have herase : l.erase x = l.eraseIdx (l.findIdx (fun y => y == x)) := List.erase_eq_eraseIdx_of_idxOf rfl
  have hfilter : l.erase x = l.filter (fun y => y ≠ x) := by
    rw [hnd.erase_eq_filter]
    exact List.filter_congr (fun y _ => by by_cases hy : y = x <;> simp [hy])
  unfold ConfigFile.cut
  rw [← hfilter, herase, List.eraseIdx_eq_take_drop_succ]
  exact if_pos hlt

theorem sectionOf_idem (s : GoString) : sectionOf (sectionOf s) = sectionOf s := by
  have hne : ¬(sectionOf s).length = 0 := fun h0 => sectionOf_ne_nil s (List.length_eq_zero_iff.1 h0)
  rw [sectionOf, if_neg hne]

/-- Removing a key's comment commutes with everything that does not touch comments. -/
theorem setKeyComments_with (s k : GoString) (data : GoString → Option (GoString → Option GoString))
    (keyList : GoString → List GoString) :
    ({ (ConfigFile.setKeyComments { c with data := data } s k []).2 with keyList := keyList } : ConfigFile) =
      (ConfigFile.setKeyComments { c with data := data, keyList := keyList } s k []).2 ∧
    (ConfigFile.setKeyComments { c with data := data } s k []).2.keyList = c.keyList := by
  unfold ConfigFile.setKeyComments
  dsimp only
  cases c.keyComments (sectionOf s) <;> exact ⟨rfl, rfl⟩

/-- The key gone from map and list. -/
theorem inv_without_key (h : Inv c) {s k : GoString} {kv : GoString → Option GoString} (hs : c.data s = some kv)
    {c' : ConfigFile} (hc' : c' = { c with
      data := Function.update c.data s (some (Function.update kv k none))
      keyList := Function.update c.keyList s ((c.keyList s).filter (fun x => x ≠ k)) }) :
    Inv c' ∧ abs c' = OrdMap.set (abs c) s (OrdMap.erase (OrdMap.toList (c.keyList s) kv) k) := by
  subst hc'
  have hkeeps := h.keys s kv hs
  have hmem : s ∈ c.sectionList := (h.sections.mem s).2 (by rw [hs]; rfl)
  refine ⟨⟨h.sections.update hmem _, fun x kv' hx => ?_, fun x hx => ?_, h.named, fun x y hy => ?_, h.sectionComment,
    h.keyComment⟩, abs_update_mem h (by rw [hs]; rfl) rfl ?_ (fun x hx => ?_)⟩
  · dsimp only at hx ⊢
    by_cases hxs : x = s
    · subst hxs
      rw [Function.update_self, Option.some.injEq] at hx
      rw [Function.update_self, ← hx]
      exact hkeeps.erase k
    · rw [Function.update_of_ne hxs] at hx ⊢
      exact h.keys x kv' hx
  · dsimp only at hx ⊢
    by_cases hxs : x = s
    · subst hxs
      rw [Function.update_self] at hx
      cases hx
    · rw [Function.update_of_ne hxs] at hx ⊢
      exact h.gone x hx
  · dsimp only at hy
    by_cases hxs : x = s
    · subst hxs
      rw [Function.update_self] at hy
      exact h.keyed _ y (List.mem_filter.1 hy).1
    · rw [Function.update_of_ne hxs] at hy
      exact h.keyed x y hy
  · simp only [sectionMap, Function.update_self, Option.map_some, Option.some.injEq]
    exact OrdMap.toList_erase k
  · simp only [sectionMap, Function.update_of_ne hx]

/-- **`DeleteKey` never panics and deletes the key.** -/
theorem deleteKey_spec (h : Inv c) (s k : GoString) : ∃ b c', c.deleteKey s k = some (b, c') ∧ Inv c' ∧
    abs c' = eraseAt (abs c) (sectionOf s) k ∧ (b = true ↔ (c.lookup (sectionOf s) k).isSome) := by
  unfold eraseAt
  rw [h.lookup_abs]
  cases hs : c.data (sectionOf s) with
  | none =>
    refine ⟨false, c, by simp [ConfigFile.deleteKey, hs], h, by simp [sectionMap, hs], ?_⟩
    simp [ConfigFile.lookup, hs]
  | some kv =>
    have hmap : sectionMap c (sectionOf s) = some (OrdMap.toList (c.keyList (sectionOf s)) kv) := by simp [sectionMap, hs]
    have hkeeps := h.keys _ kv hs
    have hlookup : c.lookup (sectionOf s) k = kv k := by simp [ConfigFile.lookup, hs]
    rw [hmap, hlookup]
    dsimp only
    by_cases hold : (kv k).isSome = true
    · -- the list has the key because the map has it
      have hcut := cut_of_mem hkeeps.nodup ((hkeeps.mem k).2 hold)
      obtain ⟨hwith, hlist⟩ := setKeyComments_with (c := c) (sectionOf s) k
        (Function.update c.data (sectionOf s) (some (Function.update kv k none)))
        (Function.update c.keyList (sectionOf s) ((c.keyList (sectionOf s)).filter (fun x => x ≠ k)))
      obtain ⟨hinv, habs⟩ := inv_without_key h hs rfl
      obtain ⟨hinv', habs'⟩ := setKeyComments_spec hinv (sectionOf s) k []
      refine ⟨true, _, ?_, hinv', habs'.trans habs, iff_of_true rfl hold⟩
      rw [← hwith]
      simp only [ConfigFile.deleteKey, hs, if_pos hold, hlist, hcut, Option.map_some]
    · have hnot : k ∉ (OrdMap.toList (c.keyList (sectionOf s)) kv).map Prod.fst := by
        rw [OrdMap.keys_toList (fun x hx => (hkeeps.mem x).1 hx)]
        exact fun hm => hold ((hkeeps.mem k).1 hm)
      refine ⟨false, c, by simp [ConfigFile.deleteKey, hs, hold], h, ?_, iff_of_false Bool.false_ne_true hold⟩
      rw [OrdMap.erase_of_not_mem hnot, OrdMap.set_lookup ((h.lookup_abs _).trans hmap)]

/-- **`DeleteSection` never panics and deletes the section.** -/
theorem deleteSection_spec (h : Inv c) (s : GoString) : ∃ b c', c.deleteSection s = some (b, c') ∧ Inv c' ∧
    abs c' = OrdMap.erase (abs c) (sectionOf s) ∧ (b = true ↔ (c.data (sectionOf s)).isSome) := by
  cases hs : c.data (sectionOf s) with
  | none =>
    have hnot : sectionOf s ∉ (abs c).map Prod.fst := by
      unfold abs
      rw [OrdMap.keys_toList (fun x hx => (h.represents.mem x).1 hx)]
      exact fun hm => by simpa [hs] using (h.sections.mem _).1 hm
    exact ⟨false, c, by simp [ConfigFile.deleteSection, hs], h, (OrdMap.erase_of_not_mem hnot).symm, by simp⟩
  | some kv =>
    have hcut := cut_of_mem h.sections.nodup ((h.sections.mem (sectionOf s)).2 (by rw [hs]; rfl))
    let c₁ : ConfigFile := { c with
      data := Function.update c.data (sectionOf s) none
      sectionList := c.sectionList.filter (fun x => x ≠ sectionOf s)
      keyList := Function.update c.keyList (sectionOf s) [] }
    have hmap : ∀ x, sectionMap c₁ x = Function.update (sectionMap c) (sectionOf s) none x := by
      intro x
      by_cases hxs : x = sectionOf s
      · simp [c₁, sectionMap, hxs]
      · simp [c₁, sectionMap, Function.update_of_ne hxs]
    have hinv : Inv c₁ := by
      refine ⟨h.sections.erase _, fun x kv' hx => ?_, fun x hx => ?_, fun x hx => h.named x (List.mem_filter.1 hx).1,
        fun x y hy => ?_, h.sectionComment, h.keyComment⟩
      · dsimp only [c₁] at hx ⊢
        by_cases hxs : x = sectionOf s
        · rw [hxs, Function.update_self] at hx
          cases hx
        · rw [Function.update_of_ne hxs] at hx ⊢
          exact h.keys x kv' hx
      · dsimp only [c₁] at hx ⊢
        by_cases hxs : x = sectionOf s
        · rw [hxs, Function.update_self]
        · rw [Function.update_of_ne hxs] at hx ⊢
          exact h.gone x hx
      · dsimp only [c₁] at hy
        by_cases hxs : x = sectionOf s
        · rw [hxs, Function.update_self] at hy
          cases hy
        · rw [Function.update_of_ne hxs] at hy
          exact h.keyed x y hy
    have habs : abs c₁ = OrdMap.erase (abs c) (sectionOf s) := by
      unfold abs
      rw [OrdMap.toList_congr (fun x _ => hmap x)]
      exact OrdMap.toList_erase (sectionOf s)
    obtain ⟨hinv', habs'⟩ := setSectionComments_spec hinv (sectionOf s) []
    refine ⟨true, _, ?_, hinv', habs'.trans habs, iff_of_true rfl (by rfl)⟩
    simp [ConfigFile.deleteSection, hs, ConfigFile.setSectionComments, hcut, c₁]

end Delete

/-! ## Reading a text -/

/-- What a text says, apart from comments: section, key and value, in order.  It does not depend on the configuration. -/
abbrev Assignment := GoString × GoString × GoString

/-- Counter, section and assignments after a trimmed line; `none` where `read` stops with an error. -/
def assign (count : Nat) (name line : GoString) : Option (Nat × GoString × List Assignment) :=
  if line.length = 0 then some (count, name, [])
  else if line.head? = some 35 ∨ line.head? = some 59 then some (count, name, [])
  else if line.head? = some 91 ∧ line.getLast? = some 93 then
    let name := GoText.trimSpace ((line.take (line.length - 1)).drop 1)
    some (1, name, [(name, blank, blank)])
  else if name = [] then none
  else match parseKey line with
    | none => none
    | some (key, i) =>
      let (key, count) := if key = [45] then (35 :: sprint count, count + 1) else (key, count)
      (parseValue line i).map (fun value => (count, name, [(name, key, value)]))

def assignmentsLoop : Nat → Nat → GoString → GoString → List Assignment
  | 0, _, _, _ => []
  | n + 1, count, name, s =>
    match readString s with
    | (line, rest, eof) =>
      let line := GoText.trimSpace line
      if eof ∧ line.length = 0 then []
      else match assign count name line with
        | none => []
        | some (count, name, sets) => sets ++ assignmentsLoop n count name rest

def assignments (text : GoString) : List Assignment :=
  let text := if bom <+: text then text.drop 3 else text
  assignmentsLoop (text.length + 1) 1 defaultSection text

/-- An assignment with an empty key is ignored. -/
def assignAt (m : Ordered) (a : Assignment) : Ordered := if a.2.1 = [] then m else setAt m (sectionOf a.1) a.2.1 a.2.2

section Read

theorem abs_setValue_assign {c : ConfigFile} (h : Inv c) (s k v : GoString) :
    Inv (c.setValue s k v).2 ∧ abs (c.setValue s k v).2 = assignAt (abs c) (s, k, v) := by
  refine ⟨inv_setValue h v, ?_⟩
  unfold assignAt
  by_cases hk : k = []
  · rw [if_pos hk, hk, setValue_nil]
  · rw [if_neg hk, (abs_setValue h hk v).1]

/-- A line does to the configuration what its assignments say. -/
theorem handleLine_spec {sc : Scan} (h : Inv sc.cfg) (line : GoString) :
    match assign sc.count sc.name line with
    | none => ∃ e, handleLine sc line = .error e
    | some (count, name, sets) => ∃ sc', handleLine sc line = .ok sc' ∧ sc'.count = count ∧ sc'.name = name ∧
        Inv sc'.cfg ∧ abs sc'.cfg = sets.foldl assignAt (abs sc.cfg) := by
  unfold assign handleLine
  by_cases hempty : line.length = 0
  · simp only [if_pos hempty]
    exact ⟨sc, rfl, rfl, rfl, h, rfl⟩
  · simp only [if_neg hempty]
    by_cases hcomment : line.head? = some 35 ∨ line.head? = some 59
    · simp only [if_pos hcomment]
      exact ⟨_, rfl, rfl, rfl, h, rfl⟩
    · simp only [if_neg hcomment]
      by_cases hsection : line.head? = some 91 ∧ line.getLast? = some 93
      · simp only [if_pos hsection]
        refine ⟨_, rfl, rfl, rfl, ?_⟩
        dsimp only
        generalize GoText.trimSpace ((line.take (line.length - 1)).drop 1) = name
        split
        · obtain ⟨hinv, habs⟩ := setSectionComments_spec h name sc.comments
          obtain ⟨hinv', habs'⟩ := abs_setValue_assign hinv name blank blank
          exact ⟨hinv', by rw [habs', habs]; rfl⟩
        · exact abs_setValue_assign h name blank blank
      · simp only [if_neg hsection]
        by_cases hname : sc.name = []
        · simp only [if_pos hname]
          exact ⟨_, rfl⟩
        · simp only [if_neg hname]
          cases hkey : parseKey line with
          | none => exact ⟨_, rfl⟩
          | some p =>
            obtain ⟨key, i⟩ := p
            dsimp only
            generalize (if key = [45] then (35 :: sprint sc.count, sc.count + 1) else (key, sc.count)) = kc
            obtain ⟨key, count⟩ := kc
            dsimp only
            cases hvalue : parseValue line i with
            | none => exact ⟨_, rfl⟩
            | some value =>
              refine ⟨_, rfl, rfl, rfl, ?_⟩
              dsimp only
              obtain ⟨hinv, habs⟩ := abs_setValue_assign h sc.name key value
              split
              · obtain ⟨hinv', habs'⟩ := setKeyComments_spec hinv sc.name key sc.comments
                exact ⟨hinv', by rw [habs', habs]; rfl⟩
              · exact ⟨hinv, habs⟩

theorem readLoop_spec : ∀ (n : Nat) (sc : Scan) (s : GoString), Inv sc.cfg →
    Inv (readLoop n sc s).2.cfg ∧
      abs (readLoop n sc s).2.cfg = (assignmentsLoop n sc.count sc.name s).foldl assignAt (abs sc.cfg)
  | 0, sc, s, h => ⟨h, rfl⟩
  | n + 1, sc, s, h => by
    unfold readLoop assignmentsLoop
    generalize readString s = r
    obtain ⟨line, rest, eof⟩ := r
    dsimp only
    split
    · exact ⟨h, rfl⟩
    · have hline := handleLine_spec h (GoText.trimSpace line)
      cases hassign : assign sc.count sc.name (GoText.trimSpace line) with
      | none =>
        rw [hassign] at hline
        obtain ⟨e, he⟩ := hline
        rw [he]
        exact ⟨h, rfl⟩
      | some p =>
        obtain ⟨count, name, sets⟩ := p
        rw [hassign] at hline
        obtain ⟨sc', hok, rfl, rfl, hinv, habs⟩ := hline
        rw [hok]
        obtain ⟨hinv', habs'⟩ := readLoop_spec n sc' rest hinv
        refine ⟨hinv', ?_⟩
        rw [habs', habs, List.foldl_append]

/-- **Reading a text makes its assignments**, up to the line of an error. -/
theorem read_spec {c : ConfigFile} (h : Inv c) (text : GoString) :
    Inv (read c text).2 ∧ abs (read c text).2 = (assignments text).foldl assignAt (abs c) := by
  unfold read assignments
  exact readLoop_spec _ ⟨c, 1, defaultSection, []⟩ _ h

end Read

/-! ## Runs -/

inductive Call where
  | setValue (name key value : GoString)
  | deleteKey (name key : GoString)
  | deleteSection (name : GoString)
  | setSectionComments (name comments : GoString)
  | setKeyComments (name key comments : GoString)
  | setPrettyFormat (pretty : Bool)
  | read (text : GoString)

/-- The calls that change a configuration; `none` is a panic. -/
def step (c : ConfigFile) : Call → Option ConfigFile
  | .setValue name key value => some (c.setValue name key value).2
  | .deleteKey name key => (c.deleteKey name key).map Prod.snd
  | .deleteSection name => (c.deleteSection name).map Prod.snd
  | .setSectionComments name comments => some (c.setSectionComments name comments).2
  | .setKeyComments name key comments => some (c.setKeyComments name key comments).2
  | .setPrettyFormat pretty => some (c.setPrettyFormat pretty)
  | .read text => some (GoConfig.read c text).2

/-- What a call does to an ordered map of ordered maps. -/
def apply (m : Ordered) : Call → Ordered
  | .setValue name key value => assignAt m (name, key, value)
  | .deleteKey name key => eraseAt m (sectionOf name) key
  | .deleteSection name => OrdMap.erase m (sectionOf name)
  | .read text => (assignments text).foldl assignAt m
  | _ => m

/-- **Every call returns, and refines the map's.** -/
theorem step_refines {c : ConfigFile} (h : Inv c) (call : Call) :
    ∃ c', step c call = some c' ∧ Inv c' ∧ abs c' = apply (abs c) call := by
  cases call with
  | setValue name key value => exact ⟨_, rfl, abs_setValue_assign h name key value⟩
  | deleteKey name key =>
    obtain ⟨b, c', hc, hinv, habs, -⟩ := deleteKey_spec h name key
    exact ⟨c', by simp [step, hc], hinv, habs⟩
  | deleteSection name =>
    obtain ⟨b, c', hc, hinv, habs, -⟩ := deleteSection_spec h name
    exact ⟨c', by simp [step, hc], hinv, habs⟩
  | setSectionComments name comments => exact ⟨_, rfl, setSectionComments_spec h name comments⟩
  | setKeyComments name key comments => exact ⟨_, rfl, setKeyComments_spec h name key comments⟩
  | setPrettyFormat pretty => exact ⟨_, rfl, h.recomment rfl rfl rfl h.sectionComment h.keyComment⟩
  | read text => exact ⟨_, rfl, read_spec h text⟩

theorem inv_newConfigFile : Inv newConfigFile := by
  refine ⟨⟨List.nodup_nil, fun s => by simp [newConfigFile]⟩, fun s kv hs => ?_, fun _ _ => rfl, List.forall_mem_nil _,
    fun _ => List.forall_mem_nil _, fun s t hs => ?_, fun s kc k t hs => ?_⟩
  · cases hs
  · cases hs
  · cases hs

theorem run_refines : ∀ (calls : List Call) (c : ConfigFile), Inv c →
    ∃ c', Lts.run step c calls = some c' ∧ Inv c' ∧ abs c' = calls.foldl apply (abs c)
  | [], c, h => ⟨c, rfl, h, rfl⟩
  | call :: calls, c, h => by
    obtain ⟨c₁, hs, hinv, habs⟩ := step_refines h call
    obtain ⟨c', hrun, hinv', habs'⟩ := run_refines calls c₁ hinv
    refine ⟨c', ?_, hinv', ?_⟩
    · rw [Lts.run, hs, Option.bind_some, hrun]
    · rw [habs', habs, List.foldl_cons]

/-- No key is empty, so the writer never indexes one. -/
theorem saveConfigData_isSome {c : ConfigFile} (h : Inv c) : ∃ text, saveConfigData c = some text := by
  have hkey : ∀ s, ∀ k ∈ c.keyList s, ∃ t, saveKey c s k = some t := by
    intro s k hk
    unfold saveKey
    split
    · exact ⟨_, rfl⟩
    · cases k with
      | nil => exact absurd rfl (h.keyed s [] hk)
      | cons x k => exact ⟨_, rfl⟩
  have hmap : ∀ {A B : Type} {f : A → Option B} {l : List A}, (∀ a ∈ l, ∃ b, f a = some b) → ∃ bs, l.mapM f = some bs := by
    intro A B f l
    induction l with
    | nil => exact fun _ => ⟨[], rfl⟩
    | cons a l ih =>
      intro hall
      obtain ⟨b, hb⟩ := hall a List.mem_cons_self
      obtain ⟨bs, hbs⟩ := ih (fun x hx => hall x (List.mem_cons_of_mem _ hx))
      exact ⟨b :: bs, by simp [hb, hbs]⟩
  have hsection : ∀ s ∈ c.sectionList, ∃ t, saveSection c s = some t := by
    intro s _
    obtain ⟨keys, hkeys⟩ := hmap (hkey s)
    exact ⟨_, by rw [saveSection, hkeys]; rfl⟩
  obtain ⟨texts, htexts⟩ := hmap hsection
  exact ⟨texts.flatten, by rw [saveConfigData, htexts]; rfl⟩

/-- **A configuration is an ordered map of ordered maps.**  Every sequence of calls, of texts read with or without an
error among them, returns without a panic.  What it leaves is the map the calls make by replacing in place, appending and
removing: `GetSectionList`, `GetKeyList` and `GetSection` answer from it in its order, and `SaveConfigData` writes it
without a panic. -/
theorem config_refines_ordered_map (calls : List Call) : ∃ c, Lts.run step newConfigFile calls = some c ∧
    (∃ text, saveConfigData c = some text) ∧
    c.getSectionList = (calls.foldl apply []).map Prod.fst ∧
    (∀ s, c.getKeyList s = (OrdMap.lookup (calls.foldl apply []) (sectionOf s)).map
      (fun kv => (kv.map Prod.fst).filter (fun key => key ≠ blank))) ∧
    ∀ s, c.getSection s = (OrdMap.lookup (calls.foldl apply []) (sectionOf s)).map
      (fun kv => Function.update (OrdMap.lookup kv) blank none) := by
  obtain ⟨c, hrun, hinv, habs⟩ := run_refines calls newConfigFile inv_newConfigFile
  have hm : calls.foldl apply [] = abs c := by
    rw [habs]
    rfl
  refine ⟨c, hrun, saveConfigData_isSome hinv, ?_, fun s => ?_, fun s => ?_⟩
  · rw [hm]
    exact (OrdMap.keys_toList (fun x hx => (hinv.represents.mem x).1 hx)).symm
  · rw [hm, hinv.lookup_abs]
    cases hs : c.data (sectionOf s) with
    | none => simp [ConfigFile.getKeyList, sectionMap, hs]
    | some kv =>
      have hkeys := OrdMap.keys_toList (fun x hx => ((hinv.keys _ kv hs).mem x).1 hx)
      simp only [ConfigFile.getKeyList, sectionMap, hs, Option.map_some, hkeys]
  · rw [hm, hinv.lookup_abs]
    cases hs : c.data (sectionOf s) with
    | none => simp [ConfigFile.getSection, sectionMap, hs]
    | some kv =>
      have hkv : OrdMap.lookup (OrdMap.toList (c.keyList (sectionOf s)) kv) = kv := by
        funext k
        exact (hinv.keys _ kv hs).lookup k
      simp only [ConfigFile.getSection, sectionMap, hs, Option.map_some, hkv]

end GoConfig
end Xrtc
