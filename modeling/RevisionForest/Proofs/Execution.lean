import RevisionForest.Proofs.Submission
/-!
# Submitted actions

When a submitted action has been run to its end no level is open, however it ended, and the holdings have gone along the relation of its end. A script is one action; a batch submits its grafts one after the other.
-/

namespace RevisionForest

variable {R Q : Holdings → Holdings → Prop} {α : Type} {action : Action α}

theorem Writer.anchored_of_rest {writer : Writer} (hrest : writer.database.group = none) : writer.database.Anchored := by
  intro group hgroup
  rw [hrest] at hgroup
  nomatch hgroup

theorem Writer.intact_of_rest {writer : Writer} (hrest : writer.database.group = none) : writer.database.Intact := by
  intro group hgroup
  rw [hrest] at hgroup
  nomatch hgroup

theorem Writer.run_rest (action : Action α) (writer : Writer) : (writer.run action).2.database.group = none := by
  have hsettle : ∀ (result : Except Halt α) (after : Writer), (after.settle result).2.database.group = none := by
    intro result after
    cases hgroup : after.database.group with
    | none => rcases result with (_ | _) | _ <;> simp [Writer.settle, Writer.recover, Database.inTransaction, hgroup,
        Database.abandon_rest]
    | some group => rcases result with (_ | _) | _ <;> simp [Writer.settle, Writer.recover, Database.inTransaction,
        hgroup, Database.abandon_rest]
  unfold Writer.run
  cases action writer with
  | ok value after => exact hsettle _ after
  | error halt after => exact hsettle _ after

/-- When an action has been run to its end no level is open, and the holdings have gone along the relation of its end. -/
theorem Writer.run_ends {writer : Writer} (hends : Action.EndsAt R Q action writer)
    (hrest : writer.database.group = none) :
    match writer.run action with
    | (.ok _, after) => after.database.group = none ∧ R writer.holdings after.holdings
    | (.error _, after) => after.database.group = none ∧ Q writer.holdings after.holdings := by
  have hpassed : ∀ P after, Passed P writer after → after.database.group = none ∧ P writer.holdings after.holdings := by
    intro P after hpassed
    have hgroup := hpassed.levels.none_iff.mp hrest
    exact ⟨hgroup, hpassed.holdings (Writer.intact_of_rest hgroup)⟩
  unfold Action.EndsAt at hends
  unfold Writer.run
  cases hresult : action writer with
  | ok value after =>
    rw [hresult] at hends
    obtain ⟨hgroup, hrelated⟩ := hpassed R after hends
    simp [Writer.settle, Database.inTransaction, hgroup, hrelated]
  | error halt after =>
    rw [hresult] at hends
    cases halt with
    | fault error =>
      obtain ⟨hgroup, hrelated⟩ := hpassed Q after hends
      simp [Writer.settle, Database.inTransaction, hgroup, hrelated]
    | panic =>
      -- All open levels are abandoned, and outside of all levels the floor is where the action began.
      have hfloor := hends.outermost hrest
      have hgroup : after.recover.database.group = none := Database.abandon_rest _
      have hafter : after.floor = after.recover.holdings := by
        rw [← Writer.floor_of_rest hgroup, Writer.floor, Writer.floor, Database.abandon_of_rest hgroup]
        rfl
      rw [Writer.floor_of_rest hrest, hafter] at hfloor
      exact ⟨hgroup, hfloor⟩

theorem Writer.run_follows (h : Action.Follows R action) {writer : Writer} (hrest : writer.database.group = none) :
    (writer.run action).2.database.group = none ∧ R writer.holdings (writer.run action).2.holdings := by
  have hends := Writer.run_ends (h writer (Writer.anchored_of_rest hrest)) hrest
  rcases hresult : writer.run action with ⟨_ | _, after⟩ <;> simpa only [hresult] using hends

theorem Writer.run_bind_snd {β : Type} {next : α → Action β}
    (hnext : ∀ value writer, ∃ answer, next value writer = .ok answer writer) (writer : Writer) :
    (writer.run (action >>= next)).2 = (writer.run action).2 := by
  unfold Writer.run
  cases hresult : action writer with
  | error halt after =>
    rw [error_bind_iff.mpr (.inl hresult)]
    rcases halt with error | _
    · simp only [Writer.settle]
      split <;> rfl
    · rfl
  | ok value after =>
    obtain ⟨answer, hanswer⟩ := hnext value after
    rw [bind_of_ok hresult, hanswer]
    simp only [Writer.settle]
    split <;> rfl

namespace Store

variable {store : Store}

/-- No level is open between submissions. -/
def AtRest (store : Store) : Prop :=
  store.writer.database.group = none

theorem stateAfter_execute (action : Action α) (store : Store) :
    stateAfter (execute action) store
      = if store.closed then store else { store with writer := (store.writer.run action).2 } := by
  unfold stateAfter execute
  cases store.closed with
  | true => rfl
  | false =>
    simp only [Bool.false_eq_true, ↓reduceIte]
    rcases store.writer.run action with ⟨_ | _, _⟩ <;> rfl

theorem execute_ok_iff {value : α} {after : Store} :
    execute action store = .ok value after ↔
      store.closed = false ∧ ∃ writer, action store.writer = .ok value writer ∧ writer.database.group = none ∧
        { store with writer } = after := by
  unfold execute
  cases store.closed with
  | true => simp
  | false =>
    simp only [Bool.false_eq_true, ↓reduceIte, true_and, Writer.run]
    cases hresult : action store.writer with
    | ok found writer =>
      cases hgroup : writer.database.group with
      | none => simp [Writer.settle, Database.inTransaction, hgroup, and_assoc]
      | some group => simp [Writer.settle, Database.inTransaction, hgroup]
    | error halt writer =>
      rcases halt with error | _
      · cases hopen : writer.database.inTransaction <;> simp [Writer.settle, hopen]
      · simp [Writer.settle]

theorem execute_of_fault {error : StoreError} {writer : Writer} (hopen : store.closed = false)
    (h : action store.writer = .error (.fault error) writer) (hgroup : writer.database.group = none) :
    execute action store = .error error { store with writer } := by
  simp [execute, hopen, Writer.run, h, Writer.settle, Database.inTransaction, hgroup]

theorem execute_error_of_unchanged (hrest : store.AtRest)
    (h : ∃ error, action store.writer = .error (.fault error) store.writer) :
    ∃ error, execute action store = .error error store := by
  obtain ⟨error, haction⟩ := h
  cases hclosed : store.closed with
  | true => exact ⟨.queueClosed, by simp only [execute, hclosed, ↓reduceIte]⟩
  | false => exact ⟨error, execute_of_fault hclosed haction hrest⟩

theorem execute_ends (hends : Action.EndsAt R Q action store.writer) (course : Course Q) (hrest : store.AtRest) :
    match execute action store with
    | .ok _ after => after.AtRest ∧ after.closed = store.closed ∧ R store.writer.holdings after.writer.holdings
    | .error _ after => after.AtRest ∧ after.closed = store.closed ∧ Q store.writer.holdings after.writer.holdings := by
  unfold execute
  cases hclosed : store.closed with
  | true => exact ⟨hrest, hclosed, course.refl _ _ (.refl store.writer.blobs)⟩
  | false =>
    have hrun := Writer.run_ends hends hrest
    simp only [Bool.false_eq_true, ↓reduceIte]
    rcases hresult : store.writer.run action with ⟨error | value, after⟩
    · rw [hresult] at hrun
      exact ⟨hrun.1, rfl, hrun.2⟩
    · rw [hresult] at hrun
      exact ⟨hrun.1, rfl, hrun.2⟩

theorem execute_follows (course : Course R) (h : Action.Follows R action) (hrest : store.AtRest) :
    (stateAfter (execute action) store).AtRest ∧
      R store.writer.holdings (stateAfter (execute action) store).writer.holdings := by
  rw [stateAfter_execute]
  split
  · exact ⟨hrest, course.refl _ _ (.refl store.writer.blobs)⟩
  · exact Writer.run_follows h hrest

theorem graftEach_cons_snd (item : Graft) (rest : List Graft) (store : Store) :
    (graftEach (item :: rest) store).2 = (graftEach rest (stateAfter (execute (Action.graft item)) store)).2 := by
  unfold stateAfter
  rw [graftEach, graft]
  cases execute (Action.graft item) store <;> rfl

theorem graftEach_follows_each (course : Course R) {items : List Graft}
    (hruns : ∀ item ∈ items, item.check = .ok () → (Edit.graft item).Runs R) (hrest : store.AtRest) :
    (graftEach items store).2.AtRest ∧ R store.writer.holdings (graftEach items store).2.writer.holdings := by
  induction items generalizing store with
  | nil => exact ⟨hrest, course.refl _ _ (.refl store.writer.blobs)⟩
  | cons item rest ih =>
    have hfirst := Action.graft_ends (hruns item List.mem_cons_self)
    obtain ⟨hafter, hrelated⟩ := execute_follows course (hfirst.follows course) hrest
    obtain ⟨hlast, hrelated'⟩ := ih (fun other hother => hruns other (List.mem_cons_of_mem _ hother)) hafter
    rw [graftEach_cons_snd]
    exact ⟨hlast, course.trans hrelated hrelated'⟩

theorem graftEach_follows_of (course : Course R) (hruns : ∀ item : Graft, item.check = .ok () → (Edit.graft item).Runs R)
    (items : List Graft) (hrest : store.AtRest) :
    (graftEach items store).2.AtRest ∧ R store.writer.holdings (graftEach items store).2.writer.holdings :=
  graftEach_follows_each course (fun item _ => hruns item) hrest

theorem graftEach_follows (covers : Covers R) (items : List Graft) (hrest : store.AtRest) :
    (graftEach items store).2.AtRest ∧ R store.writer.holdings (graftEach items store).2.writer.holdings :=
  graftEach_follows_of covers.toCourse covers.graft items hrest

theorem stateAfter_graftAll (items : List Graft) (store : Store) :
    stateAfter (graftAll items) store
      = if store.closed && !items.isEmpty then store else (graftEach items store).2 := by
  unfold stateAfter graftAll
  cases store.closed && !items.isEmpty with
  | true => rfl
  | false =>
    simp only [Bool.false_eq_true, ↓reduceIte]
    cases (graftEach items store).1.failures.isEmpty <;> rfl

/-- A script does what its commands do in order, and keeps the answers besides. -/
theorem script_run_eq (script : Script) (writer : Writer) :
    match Command.runAll script writer with
    | .ok _ after => (script.run writer).1.2 = none ∧ (script.run writer).2 = after
    | .error halt after => (script.run writer).1.2 = some halt ∧ (script.run writer).2 = after := by
  induction script generalizing writer with
  | nil => exact ⟨rfl, rfl⟩
  | cons command rest ih =>
    simp only [Command.runAll, Script.run, bind, EStateM.bind]
    cases command.run writer with
    | error halt after => exact ⟨rfl, rfl⟩
    | ok answer between =>
      have hrest := ih between
      cases hresult : Command.runAll rest between with
      | ok answers after =>
        rw [hresult] at hrest
        simpa [hresult, pure, EStateM.pure] using hrest
      | error halt after =>
        rw [hresult] at hrest
        simpa [hresult] using hrest

theorem settle_snd {β : Type} (result : Except Halt α) (next : α → Except Halt β)
    (hnext : ∀ value, ∃ value', next value = .ok value') (writer : Writer) :
    (writer.settle (result >>= next)).2 = (writer.settle result).2 := by
  rcases result with (error | _) | value
  · simp only [bind, Except.bind, Writer.settle]
    split <;> rfl
  · rfl
  · obtain ⟨value', heq⟩ := hnext value
    simp only [bind, Except.bind, heq, Writer.settle]
    split <;> rfl

theorem executeScript_eq (script : Script) (store : Store) :
    (executeScript script store).2
      = if store.closed then store else { store with writer := (store.writer.run (Command.runAll script)).2 } := by
  unfold executeScript
  cases store.closed with
  | true => rfl
  | false =>
    have hscript := script_run_eq script store.writer
    simp only [Bool.false_eq_true, ↓reduceIte, Writer.run]
    cases hresult : Command.runAll script store.writer with
    | ok answers after =>
      rw [hresult] at hscript
      simp only [hscript.1, hscript.2]
      rw [← settle_snd (.ok answers) (fun _ => .ok ()) (fun _ => ⟨(), rfl⟩) after]
      rfl
    | error halt after =>
      rw [hresult] at hscript
      simp only [hscript.1, hscript.2]
      rw [← settle_snd (.error halt : Except Halt (List Answer)) (fun _ => .ok ()) (fun _ => ⟨(), rfl⟩) after]
      rfl

theorem execute_rest (action : Action α) (hrest : store.AtRest) : (stateAfter (execute action) store).AtRest := by
  rw [stateAfter_execute]
  split
  · exact hrest
  · exact Writer.run_rest action store.writer

theorem stateAfter_submit (command : Command) (store : Store) :
    stateAfter (submit command) store = stateAfter (execute command.run) store := by
  unfold stateAfter submit
  cases execute command.run store <;> rfl

theorem stateAfter_submit_graft (item : Graft) (store : Store) :
    stateAfter (submit (.mutate (.graft item))) store = stateAfter (graft item) store := by
  rw [stateAfter_submit, graft, stateAfter_execute, stateAfter_execute]
  have houtcome : (store.writer.run (Mutation.graft item).run).2 = (store.writer.run (Action.graft item)).2 := by
    unfold Mutation.run
    refine Writer.run_bind_snd (fun found writer => ?_) store.writer
    cases found <;> exact ⟨_, rfl⟩
  have hanswer : (store.writer.run (Command.mutate (.graft item)).run).2 = (store.writer.run (Mutation.graft item).run).2 :=
    Writer.run_bind_snd (fun outcome writer => ⟨Answer.outcome outcome, rfl⟩) store.writer
  rw [hanswer, houtcome]

theorem submit_ok_iff {command : Command} {answer : Answer} {after : Store} :
    submit command store = .ok (.ok answer) after ↔ execute command.run store = .ok answer after := by
  unfold submit
  cases execute command.run store with
  | ok found between => simp
  | error error between => simp

theorem submit_error_iff {command : Command} {error : StoreError} {after : Store} :
    submit command store = .ok (.error error) after ↔ execute command.run store = .error error after := by
  unfold submit
  cases execute command.run store with
  | ok found between => simp
  | error error between => simp

theorem graftEach_closed (items : List Graft) (store : Store) : (graftEach items store).2.closed = store.closed := by
  induction items generalizing store with
  | nil => rfl
  | cons item rest ih =>
    rw [graftEach_cons_snd, ih, stateAfter_execute]
    split <;> rfl

end Store

end RevisionForest
