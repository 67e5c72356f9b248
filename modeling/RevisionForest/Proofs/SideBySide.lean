import RevisionForest.Proofs.Steps
import Mathlib.Data.List.Forall2
/-!
# Two runs side by side

Two reads agree if they yield related values or fail with the same error (`Agree`), and so do two runs, whose states after it are then related as well (`Concurs`). Runs that are composed in the same way of runs that concur do so themselves (`Concurs.bind`); so two runs of one program are compared step by step, and the error of one is the error of the other.
-/

namespace RevisionForest

/-- Both reads yield values that are related, or both fail with the same error. -/
inductive Agree {ε α β : Type} (values : α → β → Prop) : Except ε α → Except ε β → Prop
  | ok {value : α} {value' : β} (h : values value value') : Agree values (.ok value) (.ok value')
  | error (error : ε) : Agree values (.error error) (.error error)

/-- Both runs return, with values and states as wanted, or both fail with the same error. -/
inductive Concurs {ε σ α β : Type} (post : α → β → σ → σ → Prop) :
    EStateM.Result ε σ α → EStateM.Result ε σ β → Prop
  | ok {value : α} {value' : β} {state state' : σ} (h : post value value' state state') :
    Concurs post (.ok value state) (.ok value' state')
  | error (error : ε) (state state' : σ) : Concurs post (.error error state) (.error error state')

/-! ### Reads -/

namespace Agree

variable {ε ε' α β γ δ : Type} {values strong : α → β → Prop} {values' : γ → δ → Prop} {found : Except ε α}
  {found' : Except ε β}

theorem bind {next : α → Except ε γ} {next' : β → Except ε δ} (h : Agree values found found')
    (hnext : ∀ value value', values value value' → Agree values' (next value) (next' value')) :
    Agree values' (found >>= next) (found' >>= next') := by
  cases h with
  | ok hvalues => exact hnext _ _ hvalues
  | error error => exact .error error

theorem mono (h : Agree strong found found') (himplies : ∀ value value', strong value value' → values value value') :
    Agree values found found' := by
  cases h with
  | ok hvalues => exact .ok (himplies _ _ hvalues)
  | error error => exact .error error

theorem refl (found : Except ε α) : Agree Eq found found := by
  cases found with
  | ok value => exact .ok rfl
  | error error => exact .error error

theorem map {f : α → γ} {g : β → δ} (h : Agree values found found')
    (hmap : ∀ value value', values value value' → values' (f value) (g value')) :
    Agree values' (found.map f) (found'.map g) := by
  cases h with
  | ok hvalues => exact .ok (hmap _ _ hvalues)
  | error error => exact .error error

theorem mapError (h : Agree values found found') (change : ε → ε') :
    Agree values (found.mapError change) (found'.mapError change) := by
  cases h with
  | ok hvalues => exact .ok hvalues
  | error error => exact .error (change error)

theorem eq {found found' : Except ε α} (h : Agree Eq found found') : found = found' := by
  cases h with
  | ok hvalues => rw [hvalues]
  | error error => rfl

end Agree

/-! ### Runs -/

namespace Concurs

variable {ε σ α β γ δ : Type} {post strong : α → β → σ → σ → Prop} {post' : γ → δ → σ → σ → Prop}
  {action : EStateM ε σ α} {action' : EStateM ε σ β} {state state' : σ}

theorem bind {next : α → EStateM ε σ γ} {next' : β → EStateM ε σ δ} (h : Concurs post (action state) (action' state'))
    (hnext : ∀ value value' between between', post value value' between between' →
      Concurs post' (next value between) (next' value' between')) :
    Concurs post' ((action >>= next) state) ((action' >>= next') state') := by
  simp only [Bind.bind, EStateM.bind]
  generalize action state = result at h
  generalize action' state' = result' at h
  cases h with
  | ok hpost => exact hnext _ _ _ _ hpost
  | error error between between' => exact .error error between between'

theorem get_bind {next : σ → EStateM ε σ γ} {next' : σ → EStateM ε σ δ}
    (h : Concurs post' (next state state) (next' state' state')) :
    Concurs post' ((get >>= next) state) ((get >>= next') state') :=
  h

theorem pure_bind {value : α} {value' : β} {next : α → EStateM ε σ γ} {next' : β → EStateM ε σ δ}
    (h : Concurs post' (next value state) (next' value' state')) :
    Concurs post' ((pure value >>= next) state) ((pure value' >>= next') state') :=
  h

theorem mono {result : EStateM.Result ε σ α} {result' : EStateM.Result ε σ β} (h : Concurs strong result result')
    (himplies : ∀ value value' state state', strong value value' state state' → post value value' state state') :
    Concurs post result result' := by
  cases h with
  | ok hpost => exact .ok (himplies _ _ _ _ hpost)
  | error error between between' => exact .error error between between'

theorem guard {condition condition' : Prop} [Decidable condition] [Decidable condition'] {error : ε}
    {next : PUnit → EStateM ε σ α} {next' : PUnit → EStateM ε σ β} (hsame : condition ↔ condition')
    (hnext : ¬condition → Concurs post (next ⟨⟩ state) (next' ⟨⟩ state')) :
    Concurs post ((if condition then throw error >>= next else next ⟨⟩) state)
      ((if condition' then throw error >>= next' else next' ⟨⟩) state') := by
  by_cases hcondition : condition
  · rw [if_pos hcondition, if_pos (hsame.mp hcondition)]
    exact .error error state state'
  · rw [if_neg hcondition, if_neg fun h => hcondition (hsame.mpr h)]
    exact hnext hcondition

end Concurs

theorem Statement.query_concurs {α β : Type} {values : α → β → Prop} {read : Tables → Tables.Query α}
    {read' : Tables → Tables.Query β} {tables tables' : Tables} (h : Agree values (read tables) (read' tables')) :
    Concurs (fun value value' after after' => values value value' ∧ after = tables ∧ after' = tables')
      (Statement.query read tables) (Statement.query read' tables') := by
  unfold Statement.query
  rw [bind_of_ok get_eq, bind_of_ok get_eq]
  generalize read tables = found at h
  generalize read' tables' = found' at h
  cases h with
  | ok hvalues => exact .ok ⟨hvalues, rfl, rfl⟩
  | error error => exact .error error _ _

/-! ### Lists in pairs -/

section Lists

variable {ε α β γ δ : Type} {pairs : α → β → Prop} {values : γ → δ → Prop} {list : List α} {list' : List β}
  {test : α → Bool} {test' : β → Bool}

theorem optionRel_mono {strong : α → β → Prop} {value : Option α} {value' : Option β} (h : Option.Rel strong value value')
    (himplies : ∀ value value', strong value value' → pairs value value') : Option.Rel pairs value value' := by
  cases h with
  | some hvalues => exact .some (himplies _ _ hvalues)
  | none => exact .none

theorem optionRel_map {f : α → γ} {g : β → δ} {value : Option α} {value' : Option β} (h : Option.Rel pairs value value')
    (hmap : ∀ value value', pairs value value' → values (f value) (g value')) :
    Option.Rel values (value.map f) (value'.map g) := by
  cases h with
  | some hvalues => exact .some (hmap _ _ hvalues)
  | none => exact .none

theorem optionRel_refl (value : Option α) : Option.Rel Eq value value := by
  cases value with
  | some value => exact .some rfl
  | none => exact .none

theorem isSome_eq_of_rel {value : Option α} {value' : Option β} (h : Option.Rel pairs value value') :
    value.isSome = value'.isSome := by
  cases h <;> rfl

theorem find?_rel (h : List.Forall₂ pairs list list')
    (hsame : ∀ value value', pairs value value' → test value = test' value') :
    Option.Rel pairs (list.find? test) (list'.find? test') := by
  induction h with
  | nil => exact .none
  | @cons first first' _ _ hfirst _ ih =>
    rw [List.find?_cons, List.find?_cons, hsame _ _ hfirst]
    cases test' first' with
    | true => exact .some hfirst
    | false => exact ih

theorem filter_rel (h : List.Forall₂ pairs list list')
    (hsame : ∀ value value', pairs value value' → test value = test' value') :
    List.Forall₂ pairs (list.filter test) (list'.filter test') := by
  induction h with
  | nil => exact .nil
  | @cons first first' _ _ hfirst _ ih =>
    rw [List.filter_cons, List.filter_cons, hsame _ _ hfirst]
    cases test' first' with
    | true => exact .cons hfirst ih
    | false => exact ih

theorem any_eq_of_rel (h : List.Forall₂ pairs list list')
    (hsame : ∀ value value', pairs value value' → test value = test' value') : list.any test = list'.any test' := by
  induction h with
  | nil => rfl
  | cons hfirst _ ih => rw [List.any_cons, List.any_cons, hsame _ _ hfirst, ih]

theorem head?_rel (h : List.Forall₂ pairs list list') : Option.Rel pairs list.head? list'.head? := by
  cases h with
  | nil => exact .none
  | cons hfirst _ => exact .some hfirst

theorem map_rel {f : α → γ} {g : β → δ} (h : List.Forall₂ pairs list list')
    (hmap : ∀ value value', pairs value value' → values (f value) (g value')) :
    List.Forall₂ values (list.map f) (list'.map g) :=
  List.forall₂_map_left_iff.mpr (List.forall₂_map_right_iff.mpr (h.imp hmap))

theorem foldl_rel {f : γ → α → γ} {g : δ → β → δ} {start : γ} {start' : δ} (h : List.Forall₂ pairs list list')
    (hstart : values start start')
    (hstep : ∀ value value' item item', values value value' → pairs item item' → values (f value item) (g value' item')) :
    values (list.foldl f start) (list'.foldl g start') := by
  induction h generalizing start start' with
  | nil => exact hstart
  | cons hfirst _ ih => exact ih (hstep _ _ _ _ hstart hfirst)

theorem mapM_agree {read : α → Except ε γ} {read' : β → Except ε δ} (h : List.Forall₂ pairs list list')
    (hread : ∀ value value', pairs value value' → Agree values (read value) (read' value')) :
    Agree (List.Forall₂ values) (list.mapM read) (list'.mapM read') := by
  induction h with
  | nil => exact .ok .nil
  | cons hfirst _ ih =>
    rw [List.mapM_cons, List.mapM_cons]
    exact (hread _ _ hfirst).bind fun value value' hvalues => ih.bind fun values values' hrest =>
      .ok (.cons hvalues hrest)

end Lists

end RevisionForest
