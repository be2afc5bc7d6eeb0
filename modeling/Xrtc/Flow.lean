import Mathlib.Algebra.BigOperators.Group.Finset.Basic
import Mathlib.Data.Fintype.BigOperators
import Mathlib.Data.List.Nodup
/-!
# Flow — items travelling through FIFO stations

Every item `m` has a fixed path, a list of stations with the last one first; it enters at the end of the list and each
hop takes it from the front of one station to the back of the one before it on its path.  `Flows path c entered` is the
law such a system keeps: a station holds only items whose path it is on, and read from the far end, the stations of a
path hold the items of that path in the order they entered.  Nothing is lost, nothing doubled, nothing overtaken.
-/
namespace Xrtc
namespace Flow

variable {P M : Type}

/-- The items `sel` selects, station after station. -/
def along (c : P → List M) (sel : M → Bool) (π : List P) : List M := π.flatMap (fun p => (c p).filter sel)

theorem along_append (c : P → List M) (sel : M → Bool) (π ρ : List P) :
    along c sel (π ++ ρ) = along c sel π ++ along c sel ρ := List.flatMap_append

theorem along_congr {c c' : P → List M} {sel sel' : M → Bool} : ∀ {π : List P},
    (∀ p ∈ π, (c p).filter sel = (c' p).filter sel') → along c sel π = along c' sel' π
  | [], _ => rfl
  | p :: π, h => by
    simp only [along, List.flatMap_cons]
    rw [h p (by simp)]
    congr 1
    exact along_congr (fun q hq => h q (List.mem_cons_of_mem _ hq))

variable [DecidableEq P]

/-- `m`, the first item of `p`, goes to the back of `q`. -/
def hop (c : P → List M) (p q : P) (m : M) (rest : List M) : P → List M :=
  Function.update (Function.update c p rest) q (c q ++ [m])

/-- `m` arrives at the back of `p`. -/
def put (c : P → List M) (p : P) (m : M) : P → List M := Function.update c p (c p ++ [m])

structure Flows (path : M → List P) (c : P → List M) (entered : List M) : Prop where
  onPath : ∀ p m, m ∈ c p → p ∈ path m
  inOrder : ∀ π, along c (fun m => path m = π) π = entered.filter (fun m => path m = π)

section Hop
variable {c : P → List M} {p q : P} {m : M} {rest : List M}

theorem hop_of_ne {x : P} (hp : x ≠ p) (hq : x ≠ q) : hop c p q m rest x = c x := by
  unfold hop
  rw [Function.update_of_ne hq, Function.update_of_ne hp]

theorem hop_target : hop c p q m rest q = c q ++ [m] := by
  unfold hop
  rw [Function.update_self]

theorem hop_source (hpq : p ≠ q) : hop c p q m rest p = rest := by
  unfold hop
  rw [Function.update_of_ne hpq, Function.update_self]

/-- **A hop between neighbours changes nothing along the path.** -/
theorem along_hop (sel : M → Bool) {pre post : List P} (hnd : (pre ++ q :: p :: post).Nodup) (hp : c p = m :: rest) :
    along (hop c p q m rest) sel (pre ++ q :: p :: post) = along c sel (pre ++ q :: p :: post) := by
  rw [List.nodup_append, List.nodup_cons, List.nodup_cons] at hnd
  obtain ⟨-, ⟨hq, hp', -⟩, hdisj⟩ := hnd
  have hpq : p ≠ q := fun he => hq (by simp [he])
  have hpre : along (hop c p q m rest) sel pre = along c sel pre := along_congr (fun x hx => by
    rw [hop_of_ne (fun he => hdisj x hx p (by simp) he) (fun he => hdisj x hx q (by simp) he)])
  have hpost : along (hop c p q m rest) sel post = along c sel post := along_congr (fun x hx => by
    have hxp : x ≠ p := fun he => hp' (he ▸ hx)
    have hxq : x ≠ q := fun he => hq (he ▸ List.mem_cons_of_mem _ hx)
    rw [hop_of_ne hxp hxq])
  rw [along_append, along_append, hpre]
  congr 1
  unfold along at hpost ⊢
  simp only [List.flatMap_cons, hop_target, hop_source hpq]
  rw [hpost, hp, ← List.append_assoc, ← List.append_assoc, ← List.filter_append, ← List.filter_append,
    List.append_assoc, List.singleton_append]

end Hop

section Rules
variable {path : M → List P} {c : P → List M} {entered : List M}

theorem flows_empty (path : M → List P) : Flows path (fun _ => []) [] where
  onPath := fun _ _ h => by cases h
  inOrder := fun π => by simp [along]

theorem Flows.mem_entered (h : Flows path c entered) {p : P} {m : M} (hm : m ∈ c p) : m ∈ entered := by
  have hmem : m ∈ along c (fun x => path x = path m) (path m) :=
    List.mem_flatMap.2 ⟨p, h.onPath p m hm, by simp [hm]⟩
  rw [h.inOrder] at hmem
  exact (List.mem_filter.1 hmem).1

/-- **The hop rule.** -/
theorem Flows.hop (h : Flows path c entered) {p q : P} {m : M} {rest : List M} {pre post : List P}
    (hpath : path m = pre ++ q :: p :: post) (hnd : (path m).Nodup) (hp : c p = m :: rest) :
    Flows path (Flow.hop c p q m rest) entered := by
  constructor
  · intro x m' hm'
    by_cases hxq : x = q
    · subst hxq
      rw [hop_target] at hm'
      rcases List.mem_append.1 hm' with h' | h'
      · exact h.onPath _ _ h'
      · rw [List.mem_singleton.1 h', hpath]
        simp
    · by_cases hxp : x = p
      · subst hxp
        rw [hop_source hxq] at hm'
        exact h.onPath _ _ (hp ▸ List.mem_cons_of_mem _ hm')
      · rw [hop_of_ne hxp hxq] at hm'
        exact h.onPath _ _ hm'
  · intro π
    rw [← h.inOrder π]
    by_cases hπ : path m = π
    · rw [← hπ]
      rw [hpath] at hnd ⊢
      exact along_hop _ hnd hp
    · apply along_congr
      intro x _
      by_cases hxq : x = q
      · subst hxq
        rw [hop_target]
        simp [hπ]
      · by_cases hxp : x = p
        · subst hxp
          rw [hop_source hxq, hp]
          simp [hπ]
        · rw [hop_of_ne hxp hxq]

/-- **The entry rule.** -/
theorem Flows.put (h : Flows path c entered) {p : P} {m : M} {pre : List P} (hpath : path m = pre ++ [p])
    (hnd : (path m).Nodup) : Flows path (Flow.put c p m) (entered ++ [m]) := by
  have hself : Flow.put c p m p = c p ++ [m] := Function.update_self _ _ _
  have hother : ∀ x, x ≠ p → Flow.put c p m x = c x := fun x hx => Function.update_of_ne hx _ _
  constructor
  · intro x m' hm'
    by_cases hx : x = p
    · subst hx
      rw [hself] at hm'
      rcases List.mem_append.1 hm' with h' | h'
      · exact h.onPath _ _ h'
      · rw [List.mem_singleton.1 h', hpath]
        simp
    · rw [hother x hx] at hm'
      exact h.onPath _ _ hm'
  · intro π
    rw [List.filter_append, ← h.inOrder π]
    by_cases hπ : path m = π
    · subst hπ
      rw [hpath] at hnd
      have hpre : along (Flow.put c p m) (fun x => path x = path m) pre = along c (fun x => path x = path m) pre :=
        along_congr (fun x hx => by
          have hne : x ≠ p := fun he => (List.nodup_append.1 hnd).2.2 x hx p (by simp) he
          rw [hother x hne])
      have hlast : along (Flow.put c p m) (fun x => path x = path m) [p] =
          along c (fun x => path x = path m) [p] ++ [m] := by
        simp [along, hself]
      have hsplit : ∀ d : P → List M, along d (fun x => path x = path m) (path m) =
          along d (fun x => path x = path m) pre ++ along d (fun x => path x = path m) [p] := by
        intro d
        rw [← along_append]
        exact congrArg (along d _) hpath
      rw [hsplit, hsplit, hpre, hlast, ← List.append_assoc]
      simp
    · rw [List.filter_cons_of_neg (by simpa using hπ), List.filter_nil, List.append_nil]
      apply along_congr
      intro x _
      by_cases hx : x = p
      · subst hx
        rw [hself]
        simp [hπ]
      · rw [hother x hx]

/-- The law is about the paths of the items that entered. -/
theorem Flows.congr (h : Flows path c entered) {path' : M → List P} (he : ∀ m ∈ entered, path' m = path m) :
    Flows path' c entered := by
  constructor
  · intro p m hm
    rw [he m (h.mem_entered hm)]
    exact h.onPath p m hm
  · intro π
    have hsel : ∀ m ∈ entered, decide (path' m = π) = decide (path m = π) := by
      intro m hm
      rw [he m hm]
    rw [List.filter_congr hsel, ← h.inOrder π]
    apply along_congr
    intro p _
    exact List.filter_congr (fun m hm => hsel m (h.mem_entered hm))

end Rules

section Results
variable {path : M → List P} {c : P → List M} {entered : List M}

theorem Flows.exists_station (h : Flows path c entered) {m : M} (hm : m ∈ entered) : ∃ p ∈ path m, m ∈ c p := by
  have hmem : m ∈ entered.filter (fun x => path x = path m) := by simp [hm]
  rw [← h.inOrder] at hmem
  obtain ⟨p, hp, hmp⟩ := List.mem_flatMap.1 hmem
  exact ⟨p, hp, (List.mem_filter.1 hmp).1⟩

theorem Flows.nodup_along (h : Flows path c entered) (hnd : entered.Nodup) (π : List P) :
    (along c (fun m => path m = π) π).Nodup := by
  rw [h.inOrder]
  exact hnd.filter _

/-- **An item is in one station only**, and there once. -/
theorem Flows.unique (h : Flows path c entered) (hnd : entered.Nodup) {m : M} {p q : P} (hp : m ∈ c p) (hq : m ∈ c q) :
    p = q := by
  by_contra hne
  have hflat := h.nodup_along hnd (path m)
  unfold along at hflat
  rw [List.nodup_flatMap] at hflat
  have hsymm : Std.Symm (Function.onFun List.Disjoint (fun p => (c p).filter (fun x => path x = path m))) :=
    ⟨fun _ _ hxy => List.Disjoint.symm hxy⟩
  have hdisj := hflat.2.forall (h.onPath p m hp) (h.onPath q m hq) hne
  exact hdisj (a := m) (by simp [hp]) (by simp [hq])

theorem Flows.nodup_station [DecidableEq M] (h : Flows path c entered) (hnd : entered.Nodup) (p : P) :
    (c p).Nodup := by
  rw [List.nodup_iff_count_le_one]
  intro m
  by_cases hm : m ∈ c p
  · have hflat := h.nodup_along hnd (path m)
    unfold along at hflat
    rw [List.nodup_flatMap] at hflat
    have hp := hflat.1 p (h.onPath p m hm)
    have hcount := List.nodup_iff_count_le_one.1 hp m
    rwa [List.count_filter (by simp)] at hcount
  · rw [List.count_eq_zero_of_not_mem hm]
    exact Nat.zero_le 1

/-- **What has come to the far end of a path came in order.** -/
theorem Flows.front_prefix (h : Flows path c entered) (π ρ : List P) :
    along c (fun m => path m = π ++ ρ) π <+: entered.filter (fun m => path m = π ++ ρ) := by
  rw [← h.inOrder, along_append]
  exact List.prefix_append _ _

end Results

/-! ## Counting over threads -/

/-- What a thread's move leaves alone. -/
theorem apply_update_eq {I A B : Type} [DecidableEq I] {f : A → B} {g : I → A} {i : I} {v : A} (h : f v = f (g i))
    (k : I) : f (Function.update g i v k) = f (g k) := by
  rw [Function.update_apply]
  split
  · rename_i he
    rw [he, h]
  · rfl

/-- A count over all threads after one of them has moved. -/
theorem sum_update_add {I A : Type} [Fintype I] [DecidableEq I] (f : A → Nat) (g : I → A) (i : I) (v : A) :
    ∑ x, f (Function.update g i v x) + f (g i) = ∑ x, f (g x) + f v := by
  rw [← Finset.add_sum_erase Finset.univ (fun x => f (Function.update g i v x)) (Finset.mem_univ i),
    ← Finset.add_sum_erase Finset.univ (fun x => f (g x)) (Finset.mem_univ i), Function.update_self]
  have hrest : ∑ x ∈ Finset.univ.erase i, f (Function.update g i v x) = ∑ x ∈ Finset.univ.erase i, f (g x) := by
    apply Finset.sum_congr rfl
    intro x hx
    rw [Function.update_of_ne (Finset.ne_of_mem_erase hx)]
  rw [hrest]
  omega

end Flow
end Xrtc
