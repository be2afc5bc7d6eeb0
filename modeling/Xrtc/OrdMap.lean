import Mathlib.Data.List.Nodup
import Mathlib.Logic.Function.Basic
/-!
# OrdMap — maps that remember the order in which their keys came

An ordered map is a list of pairs: `set` replaces a value in place or appends the pair, `erase` removes it.  A list of
keys kept beside a map represents one (`Keeps`, `toList`), as long as it has every key of the map once; the three ways a
program changes list and map together are `set` and `erase` of the map they represent.
-/
namespace Xrtc
namespace OrdMap

universe u v

variable {K : Type u} {V : Type v}

section Maps
variable [DecidableEq K]

def set : List (K × V) → K → V → List (K × V)
  | [], k, v => [(k, v)]
  | p :: m, k, v => if p.1 = k then (k, v) :: m else p :: set m k v

def erase (m : List (K × V)) (k : K) : List (K × V) := m.filter (fun p => p.1 ≠ k)

def lookup (m : List (K × V)) (k : K) : Option V := (m.find? (fun p => p.1 = k)).map Prod.snd

end Maps

/-- The list has every key of the map, once. -/
structure Keeps (keys : List K) (f : K → Option V) : Prop where
  nodup : keys.Nodup
  mem : ∀ k, k ∈ keys ↔ (f k).isSome

def toList (keys : List K) (f : K → Option V) : List (K × V) := keys.filterMap (fun k => (f k).map (fun v => (k, v)))

section Represent
variable {keys : List K} {f g : K → Option V}

theorem toList_congr (h : ∀ k ∈ keys, f k = g k) : toList keys f = toList keys g :=
  List.filterMap_congr (fun k hk => by rw [h k hk])

theorem toList_cons {k : K} {v : V} (hv : f k = some v) : toList (k :: keys) f = (k, v) :: toList keys f := by
  unfold toList
  rw [List.filterMap_cons, hv]
  rfl

theorem keys_toList : ∀ {keys : List K}, (∀ k ∈ keys, (f k).isSome) → (toList keys f).map Prod.fst = keys
  | [], _ => rfl
  | k :: keys, h => by
    obtain ⟨v, hv⟩ := Option.isSome_iff_exists.1 (h k List.mem_cons_self)
    rw [toList_cons hv, List.map_cons, keys_toList (fun k' hk => h k' (List.mem_cons_of_mem _ hk))]

variable [DecidableEq K]

theorem lookup_toList : ∀ {keys : List K} {k : K}, (∀ k ∈ keys, (f k).isSome) → k ∈ keys → lookup (toList keys f) k = f k
  | k' :: keys, k, h, hk => by
    obtain ⟨v, hv⟩ := Option.isSome_iff_exists.1 (h k' List.mem_cons_self)
    rw [toList_cons hv]
    unfold lookup
    by_cases he : k' = k
    · subst he
      simp [hv]
    · have hk' : k ∈ keys := (List.mem_cons.1 hk).resolve_left (fun h' => he h'.symm)
      have hrec := lookup_toList (fun x hx => h x (List.mem_cons_of_mem _ hx)) hk'
      unfold lookup at hrec
      rw [List.find?_cons, decide_eq_false he, hrec]

theorem lookup_toList_of_not_mem {k : K} (hk : k ∉ keys) : lookup (toList keys f) k = none := by
  unfold lookup toList
  rw [Option.map_eq_none_iff, List.find?_eq_none]
  intro p hp
  obtain ⟨k', hk', hp⟩ := List.mem_filterMap.1 hp
  obtain ⟨v, -, rfl⟩ := Option.map_eq_some_iff.1 hp
  rw [decide_eq_true_eq]
  rintro rfl
  exact hk hk'

/-- **The represented map has what the map has.** -/
theorem Keeps.lookup (h : Keeps keys f) (k : K) : OrdMap.lookup (toList keys f) k = f k := by
  by_cases hk : k ∈ keys
  · exact lookup_toList (fun k' hk' => (h.mem k').1 hk') hk
  · have hnone : f k = none := Option.not_isSome_iff_eq_none.1 (fun hs => hk ((h.mem k).2 hs))
    rw [lookup_toList_of_not_mem hk, hnone]

/-- A value replaced in the map is replaced in place. -/
theorem toList_update_mem : ∀ {keys : List K} {k : K} (v : V), keys.Nodup → (∀ k ∈ keys, (f k).isSome) → k ∈ keys →
    toList keys (Function.update f k (some v)) = set (toList keys f) k v
  | k' :: keys, k, v, hnd, h, hk => by
    obtain ⟨hk', hnd⟩ := List.nodup_cons.1 hnd
    obtain ⟨v', hv'⟩ := Option.isSome_iff_exists.1 (h k' List.mem_cons_self)
    rw [toList_cons hv', set]
    by_cases he : k' = k
    · subst he
      rw [if_pos rfl, toList_cons (Function.update_self k' (some v) f)]
      congr 1
      exact toList_congr (fun x hx => Function.update_of_ne (fun hxk : x = k' => hk' (hxk ▸ hx)) _ _)
    · have hmem : k ∈ keys := (List.mem_cons.1 hk).resolve_left (fun h' => he h'.symm)
      have hkeep : Function.update f k (some v) k' = some v' := by rw [Function.update_of_ne he, hv']
      rw [if_neg he, toList_cons hkeep, toList_update_mem v hnd (fun x hx => h x (List.mem_cons_of_mem _ hx)) hmem]

theorem set_of_not_mem {k : K} (v : V) : ∀ {m : List (K × V)}, k ∉ m.map Prod.fst → set m k v = m ++ [(k, v)]
  | [], _ => rfl
  | p :: m, h => by
    rw [List.map_cons, List.mem_cons, not_or] at h
    rw [set, if_neg (fun he => h.1 he.symm), set_of_not_mem v h.2, List.cons_append]

/-- A new key comes last. -/
theorem toList_snoc {k : K} (v : V) (h : ∀ k ∈ keys, (f k).isSome) (hk : k ∉ keys) :
    toList (keys ++ [k]) (Function.update f k (some v)) = set (toList keys f) k v := by
  rw [set_of_not_mem v (by rwa [keys_toList h])]
  unfold toList
  rw [List.filterMap_append]
  congr 1
  · exact List.filterMap_congr (fun x hx => by rw [Function.update_of_ne (fun hxk : x = k => hk (hxk ▸ hx))])
  · simp

theorem toList_erase (k : K) :
    toList (keys.filter (fun x => x ≠ k)) (Function.update f k none) = erase (toList keys f) k := by
  unfold toList erase
  rw [List.filterMap_filter, List.filter_filterMap]
  refine List.filterMap_congr (fun x _ => ?_)
  by_cases hx : x = k
  · subst hx
    cases f x <;> simp [Option.filter]
  · rw [Function.update_of_ne hx]
    cases f x <;> simp [Option.filter, hx]

theorem Keeps.update (h : Keeps keys f) {k : K} (hk : k ∈ keys) (v : V) : Keeps keys (Function.update f k (some v)) := by
  refine ⟨h.nodup, fun x => ?_⟩
  by_cases hx : x = k
  · subst hx
    simp [hk]
  · rw [Function.update_of_ne hx]
    exact h.mem x

theorem Keeps.snoc (h : Keeps keys f) {k : K} (hk : k ∉ keys) (v : V) :
    Keeps (keys ++ [k]) (Function.update f k (some v)) := by
  refine ⟨?_, fun x => ?_⟩
  · rw [List.nodup_append]
    refine ⟨h.nodup, List.nodup_singleton k, fun a ha b hb => ?_⟩
    rw [List.mem_singleton.1 hb]
    exact fun he => hk (he ▸ ha)
  · by_cases hx : x = k
    · subst hx
      simp
    · rw [Function.update_of_ne hx, List.mem_append, List.mem_singleton, or_iff_left hx]
      exact h.mem x

theorem Keeps.erase (h : Keeps keys f) (k : K) : Keeps (keys.filter (fun x => x ≠ k)) (Function.update f k none) := by
  refine ⟨h.nodup.filter _, fun x => ?_⟩
  rw [List.mem_filter, decide_eq_true_eq]
  by_cases hx : x = k
  · subst hx
    simp
  · rw [Function.update_of_ne hx]
    exact ⟨fun hm => (h.mem x).1 hm.1, fun hs => ⟨(h.mem x).2 hs, hx⟩⟩

end Represent

section Idle
variable [DecidableEq K] {m : List (K × V)} {k : K}

theorem set_lookup {v : V} : ∀ {m : List (K × V)}, lookup m k = some v → set m k v = m
  | [], h => by cases h
  | p :: m, h => by
    rw [set]
    by_cases he : p.1 = k
    · rw [lookup, List.find?_cons, decide_eq_true he] at h
      rw [if_pos he, ← he, ← Option.some.inj h]
    · rw [lookup, List.find?_cons, decide_eq_false he] at h
      rw [if_neg he, set_lookup h]

theorem erase_of_not_mem (h : k ∉ m.map Prod.fst) : erase m k = m := by
  unfold erase
  rw [List.filter_eq_self]
  intro p hp
  rw [decide_eq_true_eq]
  rintro rfl
  exact h (List.mem_map_of_mem hp)

end Idle

end OrdMap
end Xrtc
