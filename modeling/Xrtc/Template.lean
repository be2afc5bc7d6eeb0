import Mathlib.Data.Finset.Dedup
import Mathlib.Data.Finset.Card
/-!
# Template — texts with references

A template is a list of pieces, literal text and references.  `expand` replaces the references by what an environment
says, as soon as it says something about all of them; `subst` replaces one name.  A system of definitions `D` gives a
name the meaning of its template, whose references are names again (`Means`); a name whose references lead round in a
circle has none.
-/
namespace Xrtc
namespace Template

universe u v w

inductive Piece (N : Type u) (A : Type v) where
  | lit (s : List A)
  | ref (n : N)
  deriving DecidableEq

variable {N : Type u} {A : Type v}

def Piece.name : Piece N A → Option N
  | .lit _ => none
  | .ref n => some n

def refs (t : List (Piece N A)) : List N := t.filterMap Piece.name

@[simp] theorem refs_nil : refs ([] : List (Piece N A)) = [] := rfl

@[simp] theorem refs_lit (s : List A) (t : List (Piece N A)) : refs (.lit s :: t) = refs t := rfl

@[simp] theorem refs_ref (n : N) (t : List (Piece N A)) : refs (.ref n :: t) = n :: refs t := rfl

def Piece.text (ρ : N → List A) : Piece N A → List A
  | .lit s => s
  | .ref n => ρ n

def render (ρ : N → List A) (t : List (Piece N A)) : List A := t.flatMap (Piece.text ρ)

def expand (env : N → Option (List A)) : List (Piece N A) → Option (List A)
  | [] => some []
  | .lit s :: t => (expand env t).map (s ++ ·)
  | .ref n :: t => (env n).bind (fun w => (expand env t).map (w ++ ·))

/-! ## Expanding -/

section Expand
variable {env : N → Option (List A)} {ρ : N → List A}

theorem expand_eq_render : ∀ {t : List (Piece N A)}, (∀ n ∈ refs t, env n = some (ρ n)) →
    expand env t = some (render ρ t)
  | [], _ => rfl
  | .lit s :: t, h => by
    rw [expand, expand_eq_render (t := t) h, Option.map_some]
    rfl
  | .ref n :: t, h => by
    have htail : ∀ m ∈ refs t, env m = some (ρ m) := fun m hm => h m (List.mem_cons_of_mem _ hm)
    rw [expand, h n List.mem_cons_self, Option.bind_some, expand_eq_render htail, Option.map_some]
    rfl

/-- An expansion has needed every reference. -/
theorem expand_isSome : ∀ {t : List (Piece N A)}, (expand env t).isSome ↔ ∀ n ∈ refs t, (env n).isSome
  | [] => by simp [expand]
  | .lit s :: t => by rw [expand, Option.isSome_map, expand_isSome, refs_lit]
  | .ref n :: t => by
    rw [expand, refs_ref, List.forall_mem_cons, ← expand_isSome (t := t)]
    cases env n with
    | none => simp
    | some w => simp

theorem render_of_expand {t : List (Piece N A)} {v : List A} (h : expand env t = some v) :
    v = render (fun n => (env n).getD []) t := by
  have hall : ∀ n ∈ refs t, env n = some ((env n).getD []) := by
    intro n hn
    obtain ⟨w, hw⟩ := Option.isSome_iff_exists.1 (expand_isSome.1 (by rw [h]; rfl) n hn)
    rw [hw, Option.getD_some]
  rw [expand_eq_render hall] at h
  exact (Option.some.inj h).symm

theorem render_congr {ρ' : N → List A} {t : List (Piece N A)} (h : ∀ n ∈ refs t, ρ n = ρ' n) :
    render ρ t = render ρ' t := by
  have hρ : expand (fun n => some (ρ n)) t = some (render ρ t) := expand_eq_render (fun _ _ => rfl)
  rw [expand_eq_render (ρ := ρ') (fun n hn => congrArg some (h n hn))] at hρ
  exact (Option.some.inj hρ).symm

end Expand

/-! ## Replacing one name -/

section Subst
variable [DecidableEq N]

def Piece.subst (n : N) (w : List A) : Piece N A → Piece N A
  | .lit s => .lit s
  | .ref m => if m = n then .lit w else .ref m

def subst (n : N) (w : List A) (t : List (Piece N A)) : List (Piece N A) := t.map (Piece.subst n w)

theorem refs_subst (n : N) (w : List A) : ∀ t : List (Piece N A), refs (subst n w t) = (refs t).filter (fun m => m ≠ n)
  | [] => rfl
  | .lit s :: t => refs_subst n w t
  | .ref m :: t => by
    have hrec := refs_subst n w t
    unfold subst at hrec ⊢
    by_cases hm : m = n
    · simp [Piece.subst, hm, hrec]
    · simp [Piece.subst, hm, hrec]

theorem expand_subst {env : N → Option (List A)} {n : N} {w : List A} (h : env n = some w) :
    ∀ t : List (Piece N A), expand env (subst n w t) = expand env t
  | [] => rfl
  | .lit s :: t => congrArg (Option.map (s ++ ·)) (expand_subst h t)
  | .ref m :: t => by
    have hrec := expand_subst h t
    unfold subst at hrec ⊢
    rw [List.map_cons]
    by_cases hm : m = n
    · subst hm
      rw [Piece.subst, if_pos rfl, expand, expand, hrec, h, Option.bind_some]
    · rw [Piece.subst, if_neg hm, expand, expand, hrec]

/-- The names still to be replaced become fewer. -/
theorem card_refs_subst (w : List A) {n : N} {t : List (Piece N A)} (h : n ∈ refs t) :
    (refs (subst n w t)).toFinset.card < (refs t).toFinset.card := by
  have he : (refs (subst n w t)).toFinset = (refs t).toFinset.erase n := by
    ext m
    simp [refs_subst, and_comm]
  rw [he]
  exact Finset.card_erase_lt_of_mem (List.mem_toFinset.2 h)

end Subst

/-! ## Systems of definitions -/

section Means
variable {K : Type w} {key : N → K} {D : K → Option (List (Piece N A))}

/-- The meaning of a name: nothing for one without a definition, else its template with the meanings of its
references. -/
inductive Means (key : N → K) (D : K → Option (List (Piece N A))) : K → List A → Prop
  | absent {k : K} (h : D k = none) : Means key D k []
  | defined {k : K} {t : List (Piece N A)} (ρ : N → List A) (h : D k = some t)
      (hrefs : ∀ n ∈ refs t, Means key D (key n) (ρ n)) : Means key D k (render ρ t)

/-- **A name means one thing at most.** -/
theorem Means.unique {k : K} {v v' : List A} (h : Means key D k v) (h' : Means key D k v') : v = v' := by
  induction h generalizing v' with
  | absent hd =>
    cases h' with
    | absent hd' => rfl
    | defined ρ' hd' hrefs' =>
      rw [hd] at hd'
      cases hd'
  | defined ρ hd hrefs ih =>
    cases h' with
    | absent hd' =>
      rw [hd] at hd'
      cases hd'
    | defined ρ' hd' hrefs' =>
      rw [hd] at hd'
      cases hd'
      exact render_congr (fun n hn => ih n hn (hrefs' n hn))

/-- What holds of the literal text and goes over to joined texts holds of every meaning. -/
theorem Means.induct {P : List A → Prop} (hnil : P []) (happ : ∀ a b, P a → P b → P (a ++ b))
    (hlit : ∀ k t s, D k = some t → .lit s ∈ t → P s) {k : K} {v : List A} (h : Means key D k v) : P v := by
  induction h with
  | absent _ => exact hnil
  | @defined k t ρ hd _ ih =>
    have hall : ∀ t' : List (Piece N A), (∀ p ∈ t', p ∈ t) → P (render ρ t') := by
      intro t'
      induction t' with
      | nil => exact fun _ => hnil
      | cons p t' iht =>
        intro hsub
        have hp : P (p.text ρ) := by
          cases p with
          | lit s => exact hlit k t s hd (hsub _ List.mem_cons_self)
          | ref n => exact ih n (List.mem_filterMap.2 ⟨.ref n, hsub _ List.mem_cons_self, rfl⟩)
        exact happ _ _ hp (iht (fun q hq => hsub q (List.mem_cons_of_mem _ hq)))
    exact hall t (fun _ hp => hp)

/-- **Names that lead round in a circle have no meaning**: each of them refers to one of them. -/
theorem Means.no_circle {S : K → Prop} (hS : ∀ k, S k → ∃ t, D k = some t ∧ ∃ n ∈ refs t, S (key n)) {k : K} {v : List A}
    (h : Means key D k v) : ¬S k := by
  induction h with
  | absent hd =>
    intro hk
    obtain ⟨t, ht, -⟩ := hS _ hk
    rw [hd] at ht
    cases ht
  | defined ρ hd _ ih =>
    intro hk
    obtain ⟨t, ht, n, hn, hSn⟩ := hS _ hk
    rw [hd] at ht
    cases ht
    exact ih n hn hSn

end Means
end Template
end Xrtc
