import RevisionForest.Command
import RevisionForest.Proofs.Announcements
import RevisionForest.Proofs.Grafts
/-!
# Levels protect the tables

Actions are composed of edits inside levels, and whatever way they are composed, what they do to the tables and announce to the feed they do by edits that succeeded. Let `R` relate holdings to later holdings, and let it hold along every successful edit. An action that returns leaves the levels around it as they were, and goes along `R` unless some level inside it has failed; but then the group it is part of can only be rolled back. A level that fails restores the tables and publishes nothing, and a panic leaves open levels whose tables are restored in the end (`Writer.floor`). These three endings are stated once (`Action.Ends`), and each way of composing actions keeps them.

What an open group has staged counts as published (`Writer.holdings`), since it will be if the group commits; so the holdings do not change when a level is opened or completed.
-/

namespace RevisionForest

/-- What edits work on: the tables and the feed, which levels protect, and the blobs, which only grow. -/
structure Holdings where
  tables : Tables
  blobs : BlobStore
  feed : Feed

/-- The holdings that a draft makes of a feed. -/
def Draft.holdings (draft : Draft) (feed : Feed) : Holdings :=
  ⟨draft.tables, draft.blobs, feed.publish draft.events⟩

/-- The events that the commit of the open group will publish. -/
def Database.staged (database : Database) : List ChangeEvent :=
  match database.group with
  | none => []
  | some group => group.staged

/-- What there will be if all open levels succeed. -/
def Writer.holdings (writer : Writer) : Holdings :=
  ⟨writer.database.tables, writer.blobs, writer.feed.publish writer.database.staged⟩

/-- What is left when all open levels fail. -/
def Writer.floor (writer : Writer) : Holdings :=
  ⟨writer.database.abandon.tables, writer.blobs, writer.feed⟩

/-- The tables and the feed are what they were. -/
structure Holdings.Kept (before after : Holdings) : Prop where
  tables : after.tables = before.tables
  blobs : before.blobs.Grown after.blobs
  feed : after.feed = before.feed

/-- A relation of holdings to later ones. -/
structure Course (R : Holdings → Holdings → Prop) : Prop where
  refl : ∀ tables feed {blobs blobs' : BlobStore}, blobs.Grown blobs' → R ⟨tables, blobs, feed⟩ ⟨tables, blobs', feed⟩
  trans : ∀ {first second third : Holdings}, R first second → R second third → R first third

theorem Holdings.Kept.trans {first second third : Holdings} (h : first.Kept second) (h' : second.Kept third) :
    first.Kept third :=
  ⟨h'.tables.trans h.tables, h.blobs.trans h'.blobs, h'.feed.trans h.feed⟩

theorem Course.of_kept {R : Holdings → Holdings → Prop} (course : Course R) {before after : Holdings}
    (h : before.Kept after) : R before after := by
  obtain ⟨tables, blobs, feed⟩ := after
  obtain rfl : tables = before.tables := h.tables
  obtain rfl : feed = before.feed := h.feed
  exact course.refl _ _ h.blobs

theorem course_kept : Course Holdings.Kept where
  refl := fun _ _ _ _ hgrown => ⟨rfl, hgrown, rfl⟩
  trans := Holdings.Kept.trans

/-- An edit goes along a relation if it succeeds. -/
def Edit.Runs (R : Holdings → Holdings → Prop) {α : Type} (work : Edit α) : Prop :=
  work.Grows ∧ ∀ draft value draft', work draft = .ok value draft' → ∀ feed, R (draft.holdings feed) (draft'.holdings feed)

/-- An edit of some holdings goes along a relation if it succeeds. -/
def Edit.RunsFrom (R : Holdings → Holdings → Prop) (holdings : Holdings) {α : Type} (work : Edit α) : Prop :=
  work.Grows ∧ ∀ value draft, work ⟨holdings.tables, holdings.blobs, []⟩ = .ok value draft →
    R holdings (draft.holdings holdings.feed)

theorem Edit.Runs.runsFrom {R : Holdings → Holdings → Prop} {α : Type} {work : Edit α} (h : work.Runs R)
    (holdings : Holdings) : work.RunsFrom R holdings :=
  ⟨h.1, fun value draft hwork => h.2 ⟨holdings.tables, holdings.blobs, []⟩ value draft hwork holdings.feed⟩

namespace Database

/-- The same levels are open, though some inside may have failed meanwhile. -/
def SameLevels (before after : Database) : Prop :=
  match before.group, after.group with
  | none, none => True
  | some group, some group' =>
    group'.before = group.before ∧ group'.marked = group.marked ∧ group'.outer = group.outer ∧
      (group'.unbroken = true → group.unbroken = true)
  | _, _ => False

/-- No level of the open group has failed. -/
def Intact (database : Database) : Prop :=
  ∀ group, database.group = some group → group.unbroken = true

/-- An open group knows the tables that it found. -/
def Anchored (database : Database) : Prop :=
  ∀ group, database.group = some group → group.before.isSome = true

variable {first second third : Database}

theorem intact_iff {database : Database} {group : Group} (h : database.group = some group) :
    database.Intact ↔ group.unbroken = true := by
  simp [Intact, h]

theorem rollBack_of_opened {group : Group} (hrest : first.group = none) (h : group.before = some first.tables) :
    second.rollBack group = first := by
  simp [rollBack, h, ← hrest]

theorem SameLevels.refl (database : Database) : database.SameLevels database := by
  unfold SameLevels
  cases database.group with
  | none => trivial
  | some group => exact ⟨rfl, rfl, rfl, id⟩

theorem SameLevels.trans (h : first.SameLevels second) (h' : second.SameLevels third) : first.SameLevels third := by
  unfold SameLevels at *
  cases hfirst : first.group <;> cases hsecond : second.group <;> cases hthird : third.group <;>
    simp only [hfirst, hsecond, hthird] at h h' ⊢
  exact ⟨h'.1.trans h.1, h'.2.1.trans h.2.1, h'.2.2.1.trans h.2.2.1, fun hunbroken => h.2.2.2 (h'.2.2.2 hunbroken)⟩

theorem SameLevels.anchored (h : first.SameLevels second) (hanchored : first.Anchored) : second.Anchored := by
  intro group hgroup
  unfold SameLevels at h
  cases hfirst : first.group with
  | none => simp [hfirst, hgroup] at h
  | some old =>
    simp only [hfirst, hgroup] at h
    rw [h.1]
    exact hanchored old hfirst

theorem SameLevels.intact (h : first.SameLevels second) (hintact : second.Intact) : first.Intact := by
  intro group hgroup
  unfold SameLevels at h
  cases hsecond : second.group with
  | none => simp [hsecond, hgroup] at h
  | some new =>
    simp only [hsecond, hgroup] at h
    exact h.2.2.2 (hintact new hsecond)

theorem SameLevels.abandon (h : first.SameLevels second) (hanchored : first.Anchored) (hopen : first.group ≠ none) :
    second.abandon.tables = first.abandon.tables := by
  unfold SameLevels at h
  cases hfirst : first.group <;> cases hsecond : second.group <;> simp only [hfirst, hsecond] at h
  · exact absurd hfirst hopen
  · rename_i group group'
    obtain ⟨before, hbefore⟩ := Option.isSome_iff_exists.mp (hanchored group hfirst)
    simp only [Database.abandon, hfirst, hsecond, Database.rollBack, h.1, hbefore, Option.getD_some]

theorem SameLevels.none_iff (h : first.SameLevels second) : first.group = none ↔ second.group = none := by
  unfold SameLevels at h
  cases hfirst : first.group <;> cases hsecond : second.group <;> simp [hfirst, hsecond] at h ⊢

end Database

/-- How an action that did not panic has left the writer. -/
structure Passed (R : Holdings → Holdings → Prop) (before after : Writer) : Prop where
  levels : before.database.SameLevels after.database
  blobs : before.blobs.Grown after.blobs
  /-- Inside a level nothing is published. -/
  quiet : before.database.group ≠ none → after.feed = before.feed
  holdings : after.database.Intact → R before.holdings after.holdings

/-- How an action that panicked has left the writer. With a group open, what is left are the tables that it found. -/
structure Sunk (Q : Holdings → Holdings → Prop) (before after : Writer) : Prop where
  anchored : after.database.Anchored
  outermost : before.database.group = none → Q before.floor after.floor
  inner : before.database.group ≠ none → before.floor.Kept after.floor

variable {R Q Q' : Holdings → Holdings → Prop} {before between after : Writer}

theorem Passed.of_same (course : Course R) (hdatabase : after.database = before.database)
    (hgrown : before.blobs.Grown after.blobs) (hfeed : after.feed = before.feed) : Passed R before after where
  levels := hdatabase ▸ .refl before.database
  blobs := hgrown
  quiet := fun _ => hfeed
  holdings := by
    intro _
    rw [Writer.holdings, Writer.holdings, hdatabase, hfeed]
    exact course.refl _ _ hgrown

theorem Passed.trans (hstep : ∀ first second third, R first second → Q' second third → Q first third)
    (h : Passed R before between) (h' : Passed Q' between after) : Passed Q before after where
  levels := h.levels.trans h'.levels
  blobs := h.blobs.trans h'.blobs
  quiet := fun hopen => (h'.quiet fun hrest => hopen (h.levels.none_iff.mpr hrest)).trans (h.quiet hopen)
  holdings := fun hintact => hstep _ _ _ (h.holdings (h'.levels.intact hintact)) (h'.holdings hintact)

theorem Passed.mono (h : Passed Q before after) (himplies : ∀ first second, Q first second → Q' first second) :
    Passed Q' before after :=
  ⟨h.levels, h.blobs, h.quiet, fun hintact => himplies _ _ (h.holdings hintact)⟩

theorem Database.abandon_of_rest {database : Database} (hrest : database.group = none) : database.abandon = database := by
  simp only [Database.abandon, hrest]

theorem Database.abandon_rest (database : Database) : database.abandon.group = none := by
  unfold Database.abandon
  split
  · assumption
  · rfl

theorem Writer.holdings_of_rest {writer : Writer} (hrest : writer.database.group = none) :
    writer.holdings = ⟨writer.database.tables, writer.blobs, writer.feed⟩ := by
  simp only [Writer.holdings, Database.staged, hrest, Feed.publish_nil]

theorem Writer.floor_of_rest {writer : Writer} (hrest : writer.database.group = none) :
    writer.floor = writer.holdings := by
  rw [Writer.holdings_of_rest hrest, Writer.floor, Database.abandon_of_rest hrest]

theorem Passed.floor (h : Passed R before after) (hrest : before.database.group = none) :
    R before.floor after.floor := by
  have hafter := h.levels.none_iff.mp hrest
  have hintact : after.database.Intact := by
    intro group hgroup
    rw [hafter] at hgroup
    nomatch hgroup
  rw [Writer.floor_of_rest hrest, Writer.floor_of_rest hafter]
  exact h.holdings hintact

theorem Passed.kept_floor (h : Passed R before after) (hanchored : before.database.Anchored)
    (hopen : before.database.group ≠ none) : before.floor.Kept after.floor :=
  ⟨h.levels.abandon hanchored hopen, h.blobs, h.quiet hopen⟩

theorem Passed.sunk (hstep : ∀ first second third, R first second → Q' second third → Q first third)
    (h : Passed R before between) (h' : Sunk Q' between after) (hanchored : before.database.Anchored) :
    Sunk Q before after where
  anchored := h'.anchored
  outermost := fun hrest => hstep _ _ _ (h.floor hrest) (h'.outermost (h.levels.none_iff.mp hrest))
  inner := fun hopen => (h.kept_floor hanchored hopen).trans
    (h'.inner fun hrest => hopen (h.levels.none_iff.mpr hrest))

namespace Action

/-- Every end of an action: it passes along `R` if it returns and along `Q` if it fails, and what is left of it if it panics is along `Q`. -/
def EndsAt (R Q : Holdings → Holdings → Prop) {α : Type} (action : Action α) (writer : Writer) : Prop :=
  match action writer with
  | .ok _ after => Passed R writer after
  | .error (.fault _) after => Passed Q writer after
  | .error .panic after => Sunk Q writer after

def Ends (R Q : Holdings → Holdings → Prop) {α : Type} (action : Action α) : Prop :=
  ∀ writer : Writer, writer.database.Anchored → EndsAt R Q action writer

/-- However it ends, an action goes along a relation. -/
abbrev Follows (R : Holdings → Holdings → Prop) {α : Type} (action : Action α) : Prop :=
  Ends R R action

/-- If it returns, an action goes along a relation; a failure may leave it anywhere, in levels that fail with it. -/
abbrev Strives (R : Holdings → Holdings → Prop) {α : Type} (action : Action α) : Prop :=
  Ends R (fun _ _ => True) action

variable {α β : Type} {action : Action α} {writer : Writer}

theorem EndsAt.passed {value : α} (h : EndsAt R Q action writer) (hresult : action writer = .ok value after) :
    Passed R writer after := by
  unfold EndsAt at h
  rwa [hresult] at h

theorem EndsAt.mono (h : EndsAt R Q action writer) (himplies : ∀ first second, Q first second → Q' first second) :
    EndsAt R Q' action writer := by
  unfold EndsAt at *
  cases hresult : action writer with
  | ok value after => simpa only [hresult] using h
  | error halt after =>
    rw [hresult] at h
    cases halt with
    | fault error => exact h.mono himplies
    | panic => exact ⟨h.anchored, fun hrest => himplies _ _ (h.outermost hrest), h.inner⟩

theorem Ends.mono (h : Ends R Q action) (himplies : ∀ first second, Q first second → Q' first second) :
    Ends R Q' action :=
  fun writer hanchored => (h writer hanchored).mono himplies

theorem Ends.strives (h : Ends R Q action) : Strives R action :=
  h.mono fun _ _ _ => trivial

theorem Ends.follows (h : Ends R Holdings.Kept action) (course : Course R) : Follows R action :=
  h.mono fun _ _ => course.of_kept

theorem EndsAt.bind {next : α → Action β} (h : EndsAt R Q action writer) (hanchored : writer.database.Anchored)
    (hstep : ∀ first second third, R first second → R second third → R first third)
    (hfail : ∀ first second third, R first second → Q' second third → Q first third)
    (hnext : ∀ value between, action writer = .ok value between → between.database.Anchored →
      EndsAt R Q' (next value) between) : EndsAt R Q (action >>= next) writer := by
  unfold EndsAt at *
  simp only [Bind.bind, EStateM.bind]
  cases hresult : action writer with
  | error halt after =>
    rw [hresult] at h
    cases halt <;> exact h
  | ok value between =>
    rw [hresult] at h
    have hlater := hnext value between hresult (h.levels.anchored hanchored)
    simp only
    cases hlast : next value between with
    | ok value after =>
      rw [hlast] at hlater
      exact h.trans hstep hlater
    | error halt after =>
      rw [hlast] at hlater
      cases halt with
      | fault error => exact h.trans hfail hlater
      | panic => exact h.sunk hfail hlater hanchored

theorem Follows.bind {next : α → Action β} (h : Follows R action) (course : Course R)
    (hnext : ∀ value, Follows R (next value)) : Follows R (action >>= next) := fun writer hanchored =>
  (h writer hanchored).bind hanchored (fun _ _ _ => course.trans) (fun _ _ _ => course.trans)
    fun value between _ hbetween => hnext value between hbetween

/-- What follows an action and never fails does not count in how the action fails. -/
theorem EndsAt.bind_of_total {next : α → Action β} (h : EndsAt R Q action writer) (hanchored : writer.database.Anchored)
    (course : Course R) (hnext : ∀ value, Ends R (fun _ _ => False) (next value)) : EndsAt R Q (action >>= next) writer :=
  h.bind hanchored (fun _ _ _ => course.trans) (fun _ _ _ _ => False.elim)
    fun value between _ hbetween => hnext value between hbetween

theorem Ends.pure (course : Course R) (value : α) : Ends R Q (Pure.pure value : Action α) :=
  fun writer _ => Passed.of_same course rfl (.refl writer.blobs) rfl

theorem Ends.tick (course : Course R) : Ends R Q tick :=
  fun writer _ => Passed.of_same course rfl (.refl writer.blobs) rfl

theorem Ends.fail (course : Course Q) (error : StoreError) : Ends R Q (fail error : Action α) :=
  fun writer _ => Passed.of_same course rfl (.refl writer.blobs) rfl

theorem Ends.panic (course : Course Q) : Ends R Q (throw .panic : Action α) := by
  intro writer hanchored
  have hkept : writer.floor.Kept writer.floor := ⟨rfl, .refl writer.blobs, rfl⟩
  exact ⟨hanchored, fun _ => course.of_kept hkept, fun _ => hkept⟩

theorem check_ok_iff {condition : Except StoreError Unit} {done : Unit} :
    check condition before = .ok done after ↔ condition = .ok () ∧ before = after := by
  cases condition with
  | ok => simp [check, ok_pure_iff]
  | error error => simp [check, Action.fail, not_ok_throw]

theorem EndsAt.check (course : Course Q) {condition : Except StoreError Unit} {next : Unit → Action α}
    (hnext : condition = .ok () → EndsAt R Q (next ()) writer) : EndsAt R Q (check condition >>= next) writer := by
  cases condition with
  | ok => exact hnext rfl
  | error error => exact Passed.of_same course rfl (.refl writer.blobs) rfl

theorem EndsAt.guard (course : Course Q) {condition : Prop} [Decidable condition] {error : StoreError}
    {next : PUnit → Action α} (hnext : ¬condition → EndsAt R Q (next ⟨⟩) writer) :
    EndsAt R Q (if condition then Action.fail error >>= next else next ⟨⟩) writer := by
  by_cases hcondition : condition
  · rw [if_pos hcondition]
    exact Passed.of_same course rfl (.refl writer.blobs) rfl
  · rw [if_neg hcondition]
    exact hnext hcondition

theorem Follows.putBlob (course : Course R) (bytes : Bytes) : Follows R (putBlob bytes) := by
  intro writer _
  unfold EndsAt Action.putBlob
  cases hput : BlobStore.put bytes writer.blobs with
  | ok digest blobs => exact Passed.of_same course rfl (BlobStore.put_ok hput).2.1 rfl
  | error error blobs =>
    obtain rfl := BlobStore.put_error hput
    exact Passed.of_same course rfl (.refl writer.blobs) rfl

theorem Follows.attempt {action : Action Answer} (h : Follows R action) : Follows R (attempt action) := by
  intro writer hanchored
  have hends := h writer hanchored
  unfold EndsAt at *
  unfold Action.attempt
  cases hresult : action writer with
  | ok answer after =>
    rw [hresult] at hends
    exact hends
  | error halt after =>
    rw [hresult] at hends
    cases halt <;> exact hends

theorem sameLevels_install (writer : Writer) (draft : Draft) :
    writer.database.SameLevels (install writer draft).database := by
  cases hgroup : writer.database.group with
  | none => simp [Database.SameLevels, install, Database.stage, hgroup]
  | some group => simp [Database.SameLevels, install, Database.stage, hgroup]

theorem edit_ok {work : Edit α} {value : α} (h : edit work writer = .ok value after) :
    ∃ draft, work ⟨writer.database.tables, writer.blobs, []⟩ = .ok value draft ∧ install writer draft = after := by
  unfold Action.edit at h
  cases hresult : work ⟨writer.database.tables, writer.blobs, []⟩ with
  | error error draft =>
    rw [hresult] at h
    nomatch h
  | ok found draft =>
    rw [hresult] at h
    obtain ⟨rfl, rfl⟩ := EStateM.Result.ok.inj h
    exact ⟨draft, rfl, rfl⟩

theorem holdings_install {draft : Draft} (hopen : writer.database.group ≠ none) :
    (install writer draft).holdings = draft.holdings writer.holdings.feed := by
  cases hgroup : writer.database.group with
  | none => exact absurd hgroup hopen
  | some group =>
    simp only [Writer.holdings, Draft.holdings, install, Database.stage, Database.staged, hgroup, Option.map_some,
      Feed.publish_append]

theorem EndsAt.edit {work : Edit α} (hopen : writer.database.group ≠ none) (h : work.RunsFrom R writer.holdings) :
    EndsAt R (fun _ _ => True) (edit work) writer := by
  have hgrown := h.1 ⟨writer.database.tables, writer.blobs, []⟩
  unfold EndsAt Action.edit
  cases hresult : work ⟨writer.database.tables, writer.blobs, []⟩ with
  | ok value draft =>
    rw [stateAfter_of_ok hresult] at hgrown
    exact ⟨sameLevels_install writer draft, hgrown, fun _ => rfl, fun _ =>
      holdings_install hopen ▸ h.2 value draft hresult⟩
  | error error draft =>
    rw [stateAfter_of_error hresult] at hgrown
    exact ⟨sameLevels_install writer draft, hgrown, fun _ => rfl, fun _ => trivial⟩

/-! ### Opening and closing a level -/

/-- The writer with one more level open. -/
def opened (writer : Writer) : Writer :=
  { writer with
    database := { writer.database with
      group := match writer.database.group with
        | none => some ⟨some writer.database.tables, false, [], true, []⟩
        | some group => some { group with marked := false, outer := group.marked :: group.outer } } }

theorem begin_eq (writer : Writer) : transaction Transaction.begin writer = .ok () (opened writer) := by
  unfold transaction opened Transaction.begin
  cases hgroup : writer.database.group <;> simp [modify_eq, hgroup]

variable {inside : Writer} {group : Group} {marked : Bool} {outer : List Bool}

theorem finish_inner (hgroup : inside.database.group = some group) (houter : group.outer = marked :: outer) :
    transaction Transaction.finish inside = .ok .nested { inside with
      database := { inside.database with
        group := some { group with marked, outer, unbroken := group.unbroken && group.marked } } } := by
  simp [transaction, Transaction.finish, bind, EStateM.bind, get_eq, set_eq, hgroup, houter, pure, EStateM.pure]

theorem finish_broken (hgroup : inside.database.group = some group) (houter : group.outer = [])
    (hbroken : (group.unbroken && group.marked) = false) :
    transaction Transaction.finish inside = .ok .rolledBack { inside with database := inside.database.rollBack group } := by
  simp [transaction, Transaction.finish, bind, EStateM.bind, get_eq, set_eq, hgroup, houter, hbroken, pure,
    EStateM.pure]

theorem finish_unbroken (hgroup : inside.database.group = some group) (houter : group.outer = [])
    (hunbroken : (group.unbroken && group.marked) = true) (hanchored : group.before.isSome = true) :
    transaction Transaction.finish inside
      = .ok (.committed group.staged) { inside with database := { inside.database with group := none } } := by
  have hbefore : group.before ≠ none := Option.isSome_iff_ne_none.mp hanchored
  simp [transaction, Transaction.finish, bind, EStateM.bind, get_eq, set_eq, hgroup, houter, hunbroken, hbefore, pure,
    EStateM.pure]

/-- The writer with its innermost level marked. -/
def mark (inside : Writer) (group : Group) : Writer :=
  { inside with database := { inside.database with group := some { group with marked := true } } }

theorem complete_eq (hgroup : inside.database.group = some group) :
    complete inside = (transaction Transaction.finish >>= fun ending => match ending with
      | .nested => Pure.pure ()
      | .committed events => modify fun writer => { writer with feed := writer.feed.publish events }
      | .rolledBack => fail .transactionAborted) (mark inside group) := by
  have hmark : transaction Transaction.markSuccessful inside = .ok () (mark inside group) := by
    simp [transaction, Transaction.markSuccessful, bind, EStateM.bind, get_eq, set_eq, hgroup, mark]
  unfold complete
  conv_lhs => simp only [bind, EStateM.bind, hmark]
  rfl

theorem complete_inner (hgroup : inside.database.group = some group) (houter : group.outer = marked :: outer) :
    complete inside
      = .ok () { inside with database := { inside.database with group := some { group with marked, outer } } } := by
  have hmarked : (mark inside group).database.group = some { group with marked := true } := rfl
  rw [complete_eq hgroup]
  simp only [bind, EStateM.bind, finish_inner hmarked houter, Bool.and_true]
  rfl

theorem complete_broken (hgroup : inside.database.group = some group) (houter : group.outer = [])
    (hbroken : group.unbroken = false) :
    complete inside
      = .error (.fault .transactionAborted) { inside with database := inside.database.rollBack group } := by
  have hmarked : (mark inside group).database.group = some { group with marked := true } := rfl
  rw [complete_eq hgroup]
  simp only [bind, EStateM.bind, finish_broken hmarked houter (by simp [hbroken])]
  rfl

theorem complete_unbroken (hgroup : inside.database.group = some group) (houter : group.outer = [])
    (hunbroken : group.unbroken = true) (hanchored : group.before.isSome = true) :
    complete inside
      = .ok () { inside with
          database := { inside.database with group := none }, feed := inside.feed.publish group.staged } := by
  have hmarked : (mark inside group).database.group = some { group with marked := true } := rfl
  rw [complete_eq hgroup]
  simp only [bind, EStateM.bind, finish_unbroken hmarked houter (by simp [hunbroken]) hanchored]
  rfl

theorem close_inner (hgroup : inside.database.group = some group) (houter : group.outer = marked :: outer) :
    close inside = { inside with
      database := { inside.database with
        group := some { group with marked, outer, unbroken := group.unbroken && group.marked } } } := by
  simp only [close, finish_inner hgroup houter]

theorem close_outermost (hgroup : inside.database.group = some group) (houter : group.outer = [])
    (hunmarked : group.marked = false) :
    close inside = { inside with database := inside.database.rollBack group } := by
  simp only [close, finish_broken hgroup houter (by simp [hunmarked])]

theorem anchored_opened (h : before.database.Anchored) : (opened before).database.Anchored := by
  intro group hgroup
  cases hbefore : before.database.group with
  | none =>
    simp only [opened, hbefore, Option.some.injEq] at hgroup
    rw [← hgroup]
    rfl
  | some old =>
    simp only [opened, hbefore, Option.some.injEq] at hgroup
    rw [← hgroup]
    exact h old hbefore

theorem group_opened (writer : Writer) : (opened writer).database.group ≠ none := by
  cases hgroup : writer.database.group <;> simp [opened, hgroup]

theorem holdings_opened (writer : Writer) : (opened writer).holdings = writer.holdings := by
  cases hgroup : writer.database.group with
  | none => simp only [Writer.holdings, Database.staged, opened, hgroup]
  | some group => simp only [Writer.holdings, Database.staged, opened, hgroup]

theorem floor_opened : (opened before).floor = before.floor := by
  cases hbefore : before.database.group with
  | none => simp [Writer.floor, opened, Database.abandon, Database.rollBack, hbefore]
  | some group => simp [Writer.floor, opened, Database.abandon, Database.rollBack, hbefore]

theorem group_of_opened (h : (opened before).database.SameLevels inside.database) :
    ∃ group, inside.database.group = some group ∧ group.marked = false ∧
      match before.database.group with
      | none => group.before = some before.database.tables ∧ group.outer = []
      | some old => group.before = old.before ∧ group.outer = old.marked :: old.outer ∧
          (group.unbroken = true → old.unbroken = true) := by
  cases hinside : inside.database.group with
  | none => cases hbefore : before.database.group <;> simp [Database.SameLevels, opened, hbefore, hinside] at h
  | some group =>
    cases hbefore : before.database.group with
    | none =>
      simp only [Database.SameLevels, opened, hbefore, hinside] at h
      exact ⟨group, rfl, h.2.1, h.1, h.2.2.1⟩
    | some old =>
      simp only [Database.SameLevels, opened, hbefore, hinside] at h
      exact ⟨group, rfl, h.2.1, h.1, h.2.2.1, h.2.2.2⟩

theorem passed_close (course : Course R) (h : Passed Q (opened before) inside) : Passed R before (close inside) := by
  obtain ⟨group, hgroup, hmarked, hrest⟩ := group_of_opened h.levels
  cases hbefore : before.database.group with
  | none =>
    simp only [hbefore] at hrest
    rw [close_outermost hgroup hrest.2 hmarked]
    exact Passed.of_same course (Database.rollBack_of_opened hbefore hrest.1) h.blobs (h.quiet (group_opened before))
  | some old =>
    simp only [hbefore] at hrest
    rw [close_inner hgroup hrest.2.1]
    refine ⟨?_, h.blobs, fun _ => h.quiet (group_opened before), fun hintact => ?_⟩
    · simp only [Database.SameLevels, hbefore]
      exact ⟨hrest.1, trivial, trivial, by simp [hmarked]⟩
    · have hunbroken := hintact _ rfl
      simp [hmarked] at hunbroken

theorem complete_ends (h : Passed R (opened before) inside) :
    (∃ after, complete inside = .ok () after ∧ after.holdings = inside.holdings ∧
        (after.database.Intact → inside.database.Intact) ∧ Passed R before after) ∨
      ∃ after, complete inside = .error (.fault .transactionAborted) after ∧ Passed Holdings.Kept before after := by
  obtain ⟨group, hgroup, hmarked, hrest⟩ := group_of_opened h.levels
  cases hbefore : before.database.group with
  | none =>
    simp only [hbefore] at hrest
    cases hunbroken : group.unbroken with
    | false =>
      refine .inr ⟨_, complete_broken hgroup hrest.2 hunbroken, ?_⟩
      have hdatabase : inside.database.rollBack group = before.database :=
        Database.rollBack_of_opened hbefore hrest.1
      exact Passed.of_same course_kept hdatabase h.blobs (h.quiet (group_opened before))
    | true =>
      have hintact : inside.database.Intact := (Database.intact_iff hgroup).mpr hunbroken
      have hsame : Writer.holdings { inside with
          database := { inside.database with group := none }, feed := inside.feed.publish group.staged }
            = inside.holdings := by
        simp only [Writer.holdings, Database.staged, hgroup, Feed.publish_nil]
      refine .inl ⟨_, complete_unbroken hgroup hrest.2 hunbroken (by simp [hrest.1]), hsame, fun _ => hintact, ?_⟩
      exact ⟨by simp [Database.SameLevels, hbefore], h.blobs, fun hopen => absurd hbefore hopen, fun _ =>
        hsame ▸ holdings_opened before ▸ h.holdings hintact⟩
  | some old =>
    simp only [hbefore] at hrest
    have hintact : ∀ marked outer, Database.Intact
          { inside.database with group := some { group with marked, outer } } → inside.database.Intact :=
      fun marked outer hafter => (Database.intact_iff hgroup).mpr (hafter { group with marked, outer } rfl)
    have hsame : ∀ marked outer, Writer.holdings { inside with
        database := { inside.database with group := some { group with marked, outer } } } = inside.holdings := by
      intro marked outer
      simp only [Writer.holdings, Database.staged, hgroup]
    refine .inl ⟨_, complete_inner hgroup hrest.2.1, hsame _ _, hintact _ _, ?_⟩
    refine ⟨?_, h.blobs, fun _ => h.quiet (group_opened before), fun hafter =>
      hsame _ _ ▸ holdings_opened before ▸ h.holdings (hintact _ _ hafter)⟩
    simp only [Database.SameLevels, hbefore]
    exact ⟨hrest.1, trivial, trivial, hrest.2.2⟩

theorem transact_eq (action : Action α) (writer : Writer) :
    transact action writer = match action (opened writer) with
      | .ok value inside => match complete inside with
        | .ok () outside => .ok value outside
        | .error halt outside => .error halt outside
      | .error (.fault error) inside => .error (.fault error) (close inside)
      | .error .panic inside => .error .panic inside := by
  have hbegin : (transaction Transaction.begin *> action) writer = action (opened writer) := by
    simp [SeqRight.seqRight, EStateM.seqRight, begin_eq]
  rw [← hbegin]
  rfl

/-- Whatever an action does when it fails, inside a level of its own it leaves the tables as they were. -/
theorem EndsAt.transact (h : EndsAt R (fun _ _ => True) action (opened writer)) :
    EndsAt R Holdings.Kept (transact action) writer := by
  unfold EndsAt at *
  rw [transact_eq]
  cases hresult : action (opened writer) with
  | ok value inside =>
    rw [hresult] at h
    rcases complete_ends h with ⟨after, hcomplete, -, -, hpassed⟩ | ⟨after, hcomplete, hpassed⟩
    · simp only [hcomplete]
      exact hpassed
    · simp only [hcomplete]
      exact hpassed
  | error halt inside =>
    rw [hresult] at h
    cases halt with
    | fault error => exact passed_close course_kept h
    | panic =>
      have hfloor := h.inner (group_opened writer)
      rw [floor_opened] at hfloor
      exact ⟨h.anchored, fun _ => hfloor, fun _ => hfloor⟩

theorem Ends.transact (h : Strives R action) : Ends R Holdings.Kept (transact action) :=
  fun writer hanchored => .transact (h (opened writer) (anchored_opened hanchored))

theorem transact_ok {value : α} (hends : EndsAt R Q action (opened before))
    (hresult : transact action before = .ok value after) :
    ∃ inside, action (opened before) = .ok value inside ∧ after.holdings = inside.holdings ∧
      (after.database.Intact → inside.database.Intact) := by
  unfold EndsAt at hends
  rw [transact_eq] at hresult
  cases hinside : action (opened before) with
  | error halt inside =>
    rw [hinside] at hresult
    cases halt <;> nomatch hresult
  | ok found inside =>
    rw [hinside] at hresult hends
    rcases complete_ends hends with ⟨_, hcomplete, hsame, hintact, -⟩ | ⟨_, hcomplete, -⟩
    · simp only [hcomplete] at hresult
      obtain ⟨rfl, rfl⟩ := EStateM.Result.ok.inj hresult
      exact ⟨inside, rfl, hsame, hintact⟩
    · simp only [hcomplete] at hresult
      nomatch hresult

/-! ### An edit as a level -/

theorem EndsAt.transact_edit {work : Edit α} (h : work.RunsFrom R writer.holdings) :
    EndsAt R Holdings.Kept (Action.transact (Action.edit work)) writer := by
  rw [← holdings_opened] at h
  exact .transact (.edit (group_opened writer) h)

theorem Ends.transact_edit {work : Edit α} (h : work.Runs R) :
    Ends R Holdings.Kept (Action.transact (Action.edit work)) :=
  fun writer _ => .transact_edit (h.runsFrom writer.holdings)

theorem transact_edit_ok {work : Edit α} {value : α} (hgrows : work.Grows)
    (h : transact (edit work) before = .ok value after) :
    ∃ draft, work ⟨before.database.tables, before.blobs, []⟩ = .ok value draft ∧
      after.holdings = draft.holdings before.holdings.feed := by
  have hends : EndsAt (fun _ _ => True) (fun _ _ => True) (edit work) (opened before) :=
    .edit (group_opened before) ⟨hgrows, fun _ _ _ => trivial⟩
  obtain ⟨inside, hinside, hsame, -⟩ := transact_ok hends h
  obtain ⟨draft, hwork, rfl⟩ := edit_ok hinside
  refine ⟨draft, hwork, ?_⟩
  rw [hsame, holdings_install (group_opened before), holdings_opened]

theorem transact_edit_of_ok {work : Edit α} {value : α} {draft : Draft} (hrest : before.database.group = none)
    (h : work ⟨before.database.tables, before.blobs, []⟩ = .ok value draft) :
    transact (edit work) before = .ok value { before with
      database := ⟨draft.tables, none⟩, blobs := draft.blobs, feed := before.feed.publish draft.events } := by
  rcases before with ⟨⟨tables, _⟩, blobs, feed, clock⟩
  obtain rfl := hrest
  have hedit : edit work (opened ⟨⟨tables, none⟩, blobs, feed, clock⟩)
      = .ok value ⟨⟨draft.tables, some ⟨some tables, false, [], true, draft.events⟩⟩, draft.blobs, feed, clock⟩ := by
    simp only [Action.edit, opened, h]
    rfl
  have hgroup : (⟨⟨draft.tables, some ⟨some tables, false, [], true, draft.events⟩⟩, draft.blobs, feed, clock⟩ :
      Writer).database.group = some ⟨some tables, false, [], true, draft.events⟩ := rfl
  simp only [transact_eq, hedit, complete_unbroken hgroup rfl rfl rfl]

theorem transact_edit_of_error {work : Edit α} {error : StoreError} {draft : Draft}
    (hrest : before.database.group = none)
    (h : work ⟨before.database.tables, before.blobs, []⟩ = .error error draft) :
    transact (edit work) before = .error (.fault error) { before with blobs := draft.blobs } := by
  rcases before with ⟨⟨tables, _⟩, blobs, feed, clock⟩
  obtain rfl := hrest
  have hedit : edit work (opened ⟨⟨tables, none⟩, blobs, feed, clock⟩)
      = .error (.fault error)
        ⟨⟨draft.tables, some ⟨some tables, false, [], true, draft.events⟩⟩, draft.blobs, feed, clock⟩ := by
    simp only [Action.edit, opened, h]
    rfl
  have hgroup : (⟨⟨draft.tables, some ⟨some tables, false, [], true, draft.events⟩⟩, draft.blobs, feed, clock⟩ :
      Writer).database.group = some ⟨some tables, false, [], true, draft.events⟩ := rfl
  simp only [transact_eq, hedit, close_outermost hgroup rfl rfl]
  rfl

end Action

end RevisionForest
