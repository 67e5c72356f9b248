import RevisionForest.Edit.Basic
/-!
# Taking actions apart

Statements, transactions, edits, actions and requests are state functions of one shape. A run that yields a value went through every step it is made of, so it is taken apart step by step (`ok_bind_iff`), and the steps that change nothing or cannot yield drop out. A property of the state that every step keeps is kept by the run, also if it fails halfway (`Keeps.bind`).
-/

namespace RevisionForest

section Steps

variable {ε σ α β : Type} {action : EStateM ε σ α} {state state' : σ}

/-- The state after a run, however it ended. -/
def stateAfter (action : EStateM ε σ α) (state : σ) : σ :=
  match action state with
  | .ok _ after => after
  | .error _ after => after

theorem ok_bind_iff {next : α → EStateM ε σ β} {value : β} :
    (action >>= next) state = .ok value state' ↔
      ∃ middle between, action state = .ok middle between ∧ next middle between = .ok value state' := by
  simp only [bind, EStateM.bind]
  cases action state with
  | ok middle between =>
    refine ⟨fun h => ⟨middle, between, rfl, h⟩, ?_⟩
    rintro ⟨_, _, heq, h⟩
    obtain ⟨rfl, rfl⟩ := EStateM.Result.ok.inj heq
    exact h
  | error error between => simp

theorem error_bind_iff {next : α → EStateM ε σ β} {error : ε} :
    (action >>= next) state = .error error state' ↔ action state = .error error state' ∨
      ∃ middle between, action state = .ok middle between ∧ next middle between = .error error state' := by
  simp only [bind, EStateM.bind]
  cases action state with
  | ok middle between =>
    refine ⟨fun h => .inr ⟨middle, between, rfl, h⟩, ?_⟩
    rintro (hfirst | ⟨_, _, heq, h⟩)
    · nomatch hfirst
    · obtain ⟨rfl, rfl⟩ := EStateM.Result.ok.inj heq
      exact h
  | error error between => simp

theorem error_bind_pure_iff {view : α → β} {error : ε} :
    (action >>= fun value => pure (view value)) state = .error error state' ↔ action state = .error error state' := by
  rw [error_bind_iff]
  refine or_iff_left ?_
  rintro ⟨_, _, -, hlast⟩
  nomatch hlast

theorem bind_of_ok {next : α → EStateM ε σ β} {value : α} (h : action state = .ok value state') :
    (action >>= next) state = next value state' := by
  simp only [bind, EStateM.bind, h]

theorem ok_pure_iff {value value' : α} :
    (pure value : EStateM ε σ α) state = .ok value' state' ↔ value = value' ∧ state = state' := by
  simp [pure, EStateM.pure]

theorem get_eq : (get : EStateM ε σ σ) state = .ok state state :=
  rfl

theorem set_eq (value : σ) : (set value : EStateM ε σ PUnit) state = .ok ⟨⟩ value :=
  rfl

theorem modify_eq (change : σ → σ) : (modify change : EStateM ε σ PUnit) state = .ok ⟨⟩ (change state) :=
  rfl

theorem throw_eq (error : ε) : (throw error : EStateM ε σ α) state = .error error state :=
  rfl

theorem ok_get_iff {value : σ} :
    (get : EStateM ε σ σ) state = .ok value state' ↔ state = value ∧ state = state' := by
  simp [get_eq]

theorem ok_set_iff {value : σ} {done : PUnit} :
    (set value : EStateM ε σ PUnit) state = .ok done state' ↔ value = state' := by
  simp [set_eq]

theorem ok_modify_iff {change : σ → σ} {done : PUnit} :
    (modify change : EStateM ε σ PUnit) state = .ok done state' ↔ change state = state' := by
  simp [modify_eq]

theorem not_ok_throw {error : ε} {value : α} : (throw error : EStateM ε σ α) state ≠ .ok value state' := by
  simp [throw_eq]

theorem ok_guard_iff {condition : Prop} [Decidable condition] {error : ε} {next : PUnit → EStateM ε σ β} {value : β} :
    (if condition then throw error >>= next else next ⟨⟩) state = .ok value state' ↔
      ¬condition ∧ next ⟨⟩ state = .ok value state' := by
  split
  · rename_i hcondition
    simp [hcondition, ok_bind_iff, not_ok_throw]
  · rename_i hcondition
    simp [hcondition]

theorem stateAfter_of_ok {value : α} (h : action state = .ok value state') : stateAfter action state = state' := by
  simp [stateAfter, h]

theorem stateAfter_of_error {error : ε} (h : action state = .error error state') :
    stateAfter action state = state' := by
  simp [stateAfter, h]

theorem run'_of_ok {value : α} (h : action state = .ok value state') : action.run' state = some value := by
  delta EStateM.run' EStateM.run
  rw [h]

theorem run'_of_error {error : ε} (h : action state = .error error state') : action.run' state = none := by
  delta EStateM.run' EStateM.run
  rw [h]

/-- Whether a run yields a value. -/
def succeeds (action : EStateM ε σ α) (state : σ) : Bool :=
  match action state with
  | .ok _ _ => true
  | .error _ _ => false

theorem exists_ok_of_succeeds (h : succeeds action state = true) :
    ∃ value, action state = .ok value (stateAfter action state) := by
  unfold succeeds at h
  unfold stateAfter
  cases hresult : action state with
  | ok value after => exact ⟨value, rfl⟩
  | error error after =>
    rw [hresult] at h
    nomatch h

end Steps

/-! ### Properties of the state -/

/-- An action keeps a property of the state however it ends. -/
def Keeps {ε σ α : Type} (property : σ → Prop) (action : EStateM ε σ α) : Prop :=
  ∀ ⦃state⦄, property state → property (stateAfter action state)

section Keeping

variable {ε σ α β : Type} {property : σ → Prop} {action : EStateM ε σ α} {state : σ}

theorem stateAfter_get_bind (next : σ → EStateM ε σ α) : stateAfter (get >>= next) state = stateAfter (next state) state :=
  rfl

theorem stateAfter_guard {condition : Prop} [Decidable condition] {error : ε} (next : PUnit → EStateM ε σ α) :
    stateAfter (if condition then throw error >>= next else next ⟨⟩) state
      = if condition then state else stateAfter (next ⟨⟩) state := by
  by_cases h : condition
  · rw [if_pos h, if_pos h]
    rfl
  · rw [if_neg h, if_neg h]

theorem Keeps.bind {next : α → EStateM ε σ β} (hfirst : Keeps property action) (hnext : ∀ value, Keeps property (next value)) :
    Keeps property (action >>= next) := by
  intro state h
  have hbetween := hfirst h
  cases hresult : action state with
  | ok value between =>
    rw [stateAfter_of_ok hresult] at hbetween
    rw [stateAfter, bind_of_ok hresult]
    exact hnext value hbetween
  | error error between =>
    rw [stateAfter_of_error hresult] at hbetween
    rwa [stateAfter_of_error (error_bind_iff.mpr (.inl hresult))]

theorem Keeps.pure (value : α) : Keeps property (pure value : EStateM ε σ α) :=
  fun _ h => h

theorem Keeps.answer (h : Keeps property action) (view : α → β) :
    Keeps property (action >>= fun value => Pure.pure (view value)) :=
  h.bind fun _ => .pure _

theorem Keeps.unanswered {next : α → EStateM ε σ β} (h : Keeps property (action >>= next))
    (hsame : ∀ value state, stateAfter (next value) state = state) : Keeps property action := by
  intro state hstate
  have hafter := h hstate
  cases hresult : action state with
  | ok value between =>
    rw [stateAfter, bind_of_ok hresult] at hafter
    rw [stateAfter_of_ok hresult, ← hsame value between]
    exact hafter
  | error error between =>
    rw [stateAfter_of_error (error_bind_iff.mpr (.inl hresult))] at hafter
    rwa [stateAfter_of_error hresult]

theorem Keeps.modify {change : σ → σ} (h : ∀ state, property state → property (change state)) :
    Keeps property (modify change : EStateM ε σ PUnit) :=
  fun state hstate => h state hstate

end Keeping

namespace Statement

variable {α : Type} {tables tables' : Tables} {value : α}

theorem query_ok_iff {read : Tables → Tables.Query α} :
    query read tables = .ok value tables' ↔ read tables = .ok value ∧ tables = tables' := by
  unfold query
  rw [bind_of_ok get_eq]
  cases read tables with
  | ok found => simp [ok_pure_iff]
  | error error => simp [not_ok_throw]

end Statement

namespace Edit

variable {α : Type} {draft draft' : Draft} {value : α}

theorem statement_ok_iff {action : Statement α} :
    statement action draft = .ok value draft' ↔
      ∃ tables, action draft.tables = .ok value tables ∧ { draft with tables } = draft' := by
  simp only [statement]
  cases action draft.tables with
  | ok found tables =>
    simp only [EStateM.Result.ok.injEq]
    constructor
    · rintro ⟨rfl, rfl⟩
      exact ⟨tables, ⟨rfl, rfl⟩, rfl⟩
    · rintro ⟨_, ⟨rfl, rfl⟩, rfl⟩
      exact ⟨rfl, rfl⟩
  | error error tables => simp

theorem query_ok_iff {read : Tables → Tables.Query α} :
    query read draft = .ok value draft' ↔ read draft.tables = .ok value ∧ draft = draft' := by
  simp only [query, statement_ok_iff, Statement.query_ok_iff]
  constructor
  · rintro ⟨_, ⟨hread, rfl⟩, rfl⟩
    exact ⟨hread, rfl⟩
  · rintro ⟨hread, rfl⟩
    exact ⟨_, ⟨hread, rfl⟩, rfl⟩

theorem require_ok_iff {found : Option α} {error : StoreError} :
    require found error draft = .ok value draft' ↔ found = some value ∧ draft = draft' := by
  cases found with
  | none => simp [require, not_ok_throw]
  | some found => simp [require, ok_pure_iff]

theorem announce_ok_iff {event : ChangeEvent} {done : Unit} :
    announce event draft = .ok done draft' ↔ { draft with events := draft.events ++ [event] } = draft' := by
  simp [announce, ok_modify_iff]

theorem documentNumber_ok_iff {doc : String} {number : Int} :
    documentNumber doc draft = .ok number draft' ↔ draft.tables.documentNumber? doc = some number ∧ draft = draft' := by
  simp only [documentNumber, ok_bind_iff, ok_get_iff, require_ok_iff]
  constructor
  · rintro ⟨_, _, ⟨rfl, rfl⟩, hfound, rfl⟩
    exact ⟨hfound, rfl⟩
  · rintro ⟨hfound, rfl⟩
    exact ⟨_, _, ⟨rfl, rfl⟩, hfound, rfl⟩

theorem sequence_ok_iff {doc : String} {number found : Int} {rev : RevId} :
    sequence doc number rev draft = .ok found draft' ↔
      draft.tables.sequenceOf? number rev = some found ∧ draft = draft' := by
  simp only [sequence, ok_bind_iff, ok_get_iff, require_ok_iff]
  constructor
  · rintro ⟨_, _, ⟨rfl, rfl⟩, hfound, rfl⟩
    exact ⟨hfound, rfl⟩
  · rintro ⟨hfound, rfl⟩
    exact ⟨_, _, ⟨rfl, rfl⟩, hfound, rfl⟩

theorem snapshot_ok_iff {sequence : Int} {revision : Revision} :
    snapshot sequence draft = .ok revision draft' ↔
      draft.tables.getBySequence sequence = .ok (some revision) ∧ draft = draft' := by
  simp only [snapshot, ok_bind_iff, query_ok_iff, require_ok_iff]
  constructor
  · rintro ⟨_, _, ⟨hread, rfl⟩, rfl, rfl⟩
    exact ⟨hread, rfl⟩
  · rintro ⟨hread, rfl⟩
    exact ⟨_, _, ⟨hread, rfl⟩, rfl, rfl⟩

end Edit

end RevisionForest
