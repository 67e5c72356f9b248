import RevisionForest.Proofs.Batches
import RevisionForest.Proofs.Errands
import RevisionForest.Proofs.Nesting
/-!
# Stores that are twins

Two stores are twins as to a document if they hold the same of it, up to a renaming, and have published the same of it (`Store.Twin`). They remain twins when both run an errand that concerns the document, and are answered alike; and also when one of them runs any other errand. So a run is answered about the document as if it had no other errands (`Store.Twin.attemptEach`). The same holds of stores with the same local documents (`Store.LocalTwin.attemptEach`).
-/

namespace RevisionForest

open Tables

variable {doc : String} {names wide : Renaming} {feed : Feed} {store store' : Store} {errand : Errand}

/-! ### Answers under other numbers -/

/-- The answer to a mutation, under other numbers. -/
inductive Answer.Renamed (names : Renaming) : Answer → Answer → Prop
  | outcome {outcome outcome' : Outcome} (h : outcome.Renamed names outcome') :
    Renamed names (.outcome outcome) (.outcome outcome')

/-- The same errand with the same answer, up to the renaming, or with the same error. -/
structure Errand.Entry.Renamed (names : Renaming) (entry entry' : Errand.Entry) : Prop where
  errand : entry.errand = entry'.errand
  result : Agree (Answer.Renamed names) entry.result entry'.result

theorem Outcome.Renamed.mono {outcome outcome' : Outcome} (hwidens : names.Widens wide)
    (h : outcome.Renamed names outcome') : outcome.Renamed wide outcome' := by
  cases h with
  | revision h => exact .revision (h.mono hwidens)
  | tombstones h => exact .tombstones (h.imp fun _ _ => Revision.Renamed.mono hwidens)
  | alreadyPresent => exact .alreadyPresent

theorem Errand.Entry.Renamed.mono {entry entry' : Errand.Entry} (hwidens : names.Widens wide)
    (h : entry.Renamed names entry') : entry.Renamed wide entry' := by
  refine ⟨h.errand, h.result.mono ?_⟩
  rintro _ _ ⟨houtcome⟩
  exact .outcome (houtcome.mono hwidens)

theorem filter_own {events events' : List ChangeEvent} (h : List.Forall₂ (ChangeEvent.Renamed doc names) events events') :
    events.filter (·.doc = doc) = events := by
  induction h with
  | nil => rfl
  | cons hevent _ ih =>
    obtain ⟨-, -⟩ := hevent
    rw [List.filter_cons, if_pos (by exact decide_eq_true rfl), ih]

/-! ### Stores to compare -/

namespace Store

/-- A store that can be written and holds what its rows describe. -/
structure Equipped (store : Store) : Prop extends store.Ready where
  stocked : store.writer.holdings.Stocked

theorem Equipped.attempt (equipped : store.Equipped) (errand : Errand) : (errand.attempt store).2.Equipped := by
  have hfollows : ∀ mutation doc hnamed, errand = .mutate mutation doc hnamed →
      Action.Follows Holdings.Furnished mutation.run := fun mutation _ _ _ => mutation.run_follows covers_furnished
  obtain ⟨hrest, hgrown, hstocks⟩ := errand.run_follows course_furnished (fun _ _ _ haside => furnished_of_aside haside.tables haside.blobs) hfollows equipped.rest
  obtain ⟨healthy, hstocked⟩ := hstocks equipped.healthy equipped.stocked
  rw [Errand.attempt_snd]
  exact ⟨⟨errand.run_closed false equipped.opened, hrest, healthy, hgrown.unlimited equipped.unlimited⟩, hstocked⟩

/-- The stores hold the same of a document, up to the renaming, and have published the same of it since. -/
structure Twin (doc : String) (names : Renaming) (feed : Feed) (store store' : Store) : Prop where
  equipped : store.Equipped
  equipped' : store'.Equipped
  tables : Tables.Twin doc names store.writer.database.tables store'.writer.database.tables
  published : ∃ events events', store.writer.feed = feed.publish events ∧ store'.writer.feed = feed.publish events' ∧
    List.Forall₂ (ChangeEvent.Renamed doc names) (events.filter (·.doc = doc)) events'

theorem execute_concurs {α β : Type} {action : Action α} {action' : Action β} {R Q R' Q' : Holdings → Holdings → Prop}
    {post : α → β → Writer → Writer → Prop} (ready : store.Ready) (ready' : store'.Ready)
    (hends : Action.EndsAt R Q action store.writer) (hends' : Action.EndsAt R' Q' action' store'.writer)
    (h : Concurs post (action store.writer) (action' store'.writer)) :
    Concurs (fun value value' after after' => ∃ writer writer', post value value' writer writer' ∧
        after = { store with writer } ∧ after' = { store' with writer := writer' })
      (execute action store) (execute action' store') := by
  unfold Action.EndsAt at hends hends'
  generalize hresult : action store.writer = result at h hends
  generalize hresult' : action' store'.writer = result' at h hends'
  cases h with
  | @ok value value' writer writer' hpost =>
    have hgroup := hends.levels.none_iff.mp ready.rest
    have hgroup' := hends'.levels.none_iff.mp ready'.rest
    rw [execute_ok_iff.mpr ⟨ready.opened, writer, hresult, hgroup, rfl⟩,
      execute_ok_iff.mpr ⟨ready'.opened, writer', hresult', hgroup', rfl⟩]
    exact .ok ⟨writer, writer', hpost, rfl, rfl⟩
  | error halt writer writer' =>
    cases halt with
    | fault error =>
      rw [execute_of_fault ready.opened hresult (hends.levels.none_iff.mp ready.rest),
        execute_of_fault ready'.opened hresult' (hends'.levels.none_iff.mp ready'.rest)]
      exact .error error _ _
    | panic =>
      simp only [execute, ready.opened, ready'.opened, Writer.run, hresult, hresult', Writer.settle]
      exact .error _ _ _

/-! ### Errands of the document -/

section Own

variable {mutation : Mutation} {hnamed : mutation.doc? = some doc}

theorem attempt_of_ok {outcome : Outcome} {after : Store} (h : execute mutation.run store = .ok outcome after) :
    (Errand.mutate mutation doc hnamed).attempt store = (⟨.mutate mutation doc hnamed, .ok (.outcome outcome)⟩, after) := by
  simp only [Errand.attempt, Errand.run, bind_of_ok h]
  rfl

theorem attempt_of_error {error : StoreError} {after : Store} (h : execute mutation.run store = .error error after) :
    (Errand.mutate mutation doc hnamed).attempt store = (⟨.mutate mutation doc hnamed, .error error⟩, after) := by
  have hrun : (Errand.mutate mutation doc hnamed).run store = .error error after := error_bind_pure_iff.mpr h
  simp only [Errand.attempt, hrun]

theorem Twin.attempt (twin : store.Twin doc names feed store') (hown : errand.concerns doc = true) :
    ∃ wide, names.Widens wide ∧ (errand.attempt store).1.Renamed wide (errand.attempt store').1 ∧
      (errand.attempt store).2.Twin doc wide feed (errand.attempt store').2 := by
  cases errand with
  | putLocal | getLocal | deleteLocal => nomatch hown
  | mutate mutation home hnamed =>
    obtain rfl : home = doc := of_decide_eq_true hown
    have hequipped := twin.equipped.attempt (.mutate mutation home hnamed)
    have hequipped' := twin.equipped'.attempt (.mutate mutation home hnamed)
    obtain ⟨events, events', hfeed, hfeed', hevents⟩ := twin.published
    have hends : ∀ {start : Store}, start.AtRest → Action.EndsAt (fun _ _ => True) Holdings.Kept mutation.run start.writer :=
      fun hrest => mutation.run_ends covers_any.toCourse (covers_any.runs mutation _) (Writer.anchored_of_rest hrest)
    have hconcurs := execute_concurs twin.equipped.toReady twin.equipped'.toReady (hends twin.equipped.rest)
      (hends twin.equipped'.rest) (Mutation.run_concurs hnamed twin.equipped.rest twin.equipped'.rest
        ⟨twin.tables, twin.equipped.unlimited, twin.equipped'.unlimited, .nil⟩)
    generalize hexecute : execute mutation.run store = result at hconcurs
    generalize hexecute' : execute mutation.run store' = result' at hconcurs
    -- Both have committed their drafts, or both have failed, and then nothing but blobs is different.
    cases hconcurs with
    | ok hcommitted =>
      obtain ⟨_, _, ⟨draft, draft', ⟨wide, hwidens, houtcome, hdrafts⟩, rfl, rfl⟩, rfl, rfl⟩ := hcommitted
      rw [attempt_of_ok hexecute] at hequipped ⊢
      rw [attempt_of_ok hexecute'] at hequipped' ⊢
      refine ⟨wide, hwidens, ⟨rfl, .ok (.outcome houtcome)⟩, hequipped, hequipped', hdrafts.tables,
        events ++ draft.events, events' ++ draft'.events, ?_, ?_, ?_⟩
      · rw [Feed.publish_append, ← hfeed]
        rfl
      · rw [Feed.publish_append, ← hfeed']
        rfl
      · rw [List.filter_append, filter_own hdrafts.events]
        exact List.rel_append (hevents.imp fun _ _ => ChangeEvent.Renamed.mono hwidens) hdrafts.events
    | error error after after' =>
      have huntouched := execute_untouched twin.equipped.rest (hends twin.equipped.rest) hexecute
      have huntouched' := execute_untouched twin.equipped'.rest (hends twin.equipped'.rest) hexecute'
      rw [attempt_of_error hexecute] at hequipped ⊢
      rw [attempt_of_error hexecute'] at hequipped' ⊢
      refine ⟨names, .refl names, ⟨rfl, .error error⟩, hequipped, hequipped', ?_, events, events',
        huntouched.feed.trans hfeed, huntouched'.feed.trans hfeed', hevents⟩
      rw [huntouched.database, huntouched'.database]
      exact twin.tables

end Own

/-! ### Other errands -/

theorem Twin.spared (twin : store.Twin doc names feed store') (hother : errand.concerns doc = false) :
    (errand.attempt store).2.Twin doc names feed store' := by
  have hequipped := twin.equipped.attempt errand
  have hfollows : ∀ mutation home hnamed, errand = .mutate mutation home hnamed →
      Action.Follows (Holdings.Spared doc) mutation.run := by
    rintro mutation home hnamed rfl
    have hne : home ≠ doc := of_decide_eq_false hother
    exact Action.Ends.follows (fun _ => Mutation.run_spares hnamed hne) (course_spared doc)
  obtain ⟨hrest, hspared⟩ := errand.run_follows (course_spared doc) (fun _ _ _ => (·.spared doc)) hfollows twin.equipped.rest
  rw [← Errand.attempt_snd, Writer.holdings_of_rest twin.equipped.rest, Writer.holdings_of_rest hequipped.rest] at hspared
  obtain ⟨healthy, hspares, others, hpublished, hothers⟩ := hspared twin.equipped.healthy
  obtain ⟨events, events', hfeed, hfeed', hevents⟩ := twin.published
  refine ⟨hequipped, twin.equipped', twin.tables.spared hspares healthy, events ++ others, events', ?_, hfeed', ?_⟩
  · rw [Feed.publish_append, ← hfeed]
    exact hpublished
  · have hnone : others.filter (·.doc = doc) = [] :=
      List.filter_eq_nil_iff.mpr fun event hevent htest => hothers event hevent (of_decide_eq_true htest)
    rwa [List.filter_append, hnone, List.append_nil]

/-- Twins of which one runs some errands, and the other only those of the document, remain twins, and log the same of it. -/
theorem Twin.attemptEach (twin : store.Twin doc names feed store') (run : List Errand) :
    ∃ wide, names.Widens wide ∧
      List.Forall₂ (Errand.Entry.Renamed wide) ((Errand.attemptEach run store).1.filter (·.errand.concerns doc))
        (Errand.attemptEach (run.filter (·.concerns doc)) store').1 ∧
      (Errand.attemptEach run store).2.Twin doc wide feed (Errand.attemptEach (run.filter (·.concerns doc)) store').2 := by
  induction run generalizing names store store' with
  | nil => exact ⟨names, .refl names, .nil, twin⟩
  | cons errand rest ih =>
    -- An errand of the document is run on both sides, any other one on the first side only.
    cases hconcerns : errand.concerns doc with
    | true =>
      obtain ⟨wide, hwidens, hfirst, hbetween⟩ := twin.attempt hconcerns
      obtain ⟨wider, hwidens', hlog, hlast⟩ := ih hbetween
      rw [List.filter_cons_of_pos hconcerns, Errand.attemptEach_cons_of_pos hconcerns]
      exact ⟨wider, hwidens.trans hwidens', .cons (hfirst.mono hwidens') hlog, hlast⟩
    | false =>
      rw [List.filter_cons_of_neg (by simp [hconcerns]), Errand.attemptEach_cons_of_neg hconcerns]
      exact ih (twin.spared hconcerns)

/-! ### Local documents -/

/-- The stores hold the same local documents. -/
structure LocalTwin (store store' : Store) : Prop where
  equipped : store.Equipped
  equipped' : store'.Equipped
  locals : store'.writer.database.tables.locals = store.writer.database.tables.locals

theorem LocalTwin.putLocal_concurs (twin : store.LocalTwin store') (body : Bytes) :
    Concurs (fun document document' after after' => document = document' ∧
        after'.writer.database.tables.locals = after.writer.database.tables.locals)
      (putLocal doc body store) (putLocal doc body store') := by
  have hends : ∀ start : Store, start.AtRest → Action.EndsAt (fun _ _ => True) Holdings.Kept
      (Action.transact (Action.transaction (Transaction.statement (Tables.putLocal doc body)))) start.writer :=
    fun start hrest => Action.Ends.transact (Action.Follows.statement (Tables.putLocal doc body)).strives _
      (Writer.anchored_of_rest hrest)
  have hstatement := Tables.putLocal_concurs twin.locals doc body
  unfold putLocal
  cases (Body.validate body).mapError StoreError.ofData with
  | error error => exact .error error _ _
  | ok =>
    refine (execute_concurs twin.equipped.toReady twin.equipped'.toReady (hends store twin.equipped.rest)
      (hends store' twin.equipped'.rest)
      (Action.statement_concurs twin.equipped.rest twin.equipped'.rest hstatement)).mono ?_
    rintro document document' _ _ ⟨_, _, hsame, rfl, rfl⟩
    exact hsame

theorem LocalTwin.deleteLocal_concurs (twin : store.LocalTwin store') :
    Concurs (fun _ _ after after' => after'.writer.database.tables.locals = after.writer.database.tables.locals)
      (deleteLocal doc store) (deleteLocal doc store') := by
  refine (execute_concurs twin.equipped.toReady twin.equipped'.toReady (Action.deleteLocal_ends doc)
    (Action.deleteLocal_ends doc)
    (Action.deleteLocal_concurs twin.equipped.rest twin.equipped'.rest twin.locals doc)).mono ?_
  rintro _ _ _ _ ⟨_, _, hsame, rfl, rfl⟩
  exact hsame

theorem LocalTwin.getLocal_eq (twin : store.LocalTwin store') (doc : String) : store'.getLocal doc = store.getLocal doc := by
  simp only [getLocal, ask, twin.equipped.opened, twin.equipped'.opened, Tables.getLocal_congr twin.locals]

theorem LocalTwin.run_concurs (twin : store.LocalTwin store') (hlocal : errand.isLocal = true) :
    Concurs (fun answer answer' after after' => answer = answer' ∧
        after'.writer.database.tables.locals = after.writer.database.tables.locals)
      (errand.run store) (errand.run store') := by
  cases errand with
  | mutate => nomatch hlocal
  | putLocal doc body =>
    refine (twin.putLocal_concurs body).bind ?_
    rintro document _ after after' ⟨rfl, hsame⟩
    exact .ok ⟨rfl, hsame⟩
  | getLocal doc =>
    rw [Errand.run_getLocal, Errand.run_getLocal, twin.getLocal_eq]
    cases store.getLocal doc with
    | ok document => exact .ok ⟨rfl, twin.locals⟩
    | error error => exact .error _ _ _
  | deleteLocal doc => exact twin.deleteLocal_concurs.bind fun _ _ _ _ hsame => .ok ⟨rfl, hsame⟩

theorem LocalTwin.attempt (twin : store.LocalTwin store') (hlocal : errand.isLocal = true) :
    (errand.attempt store).1 = (errand.attempt store').1 ∧
      (errand.attempt store).2.LocalTwin (errand.attempt store').2 := by
  have hequipped := twin.equipped.attempt errand
  have hequipped' := twin.equipped'.attempt errand
  have hconcurs := twin.run_concurs hlocal
  unfold Errand.attempt at hequipped hequipped' ⊢
  generalize hrun : errand.run store = result at hconcurs hequipped
  generalize hrun' : errand.run store' = result' at hconcurs hequipped'
  cases hconcurs with
  | ok hafter =>
    obtain ⟨rfl, hsame⟩ := hafter
    exact ⟨rfl, hequipped, hequipped', hsame⟩
  | error error after after' =>
    refine ⟨rfl, hequipped, hequipped', ?_⟩
    rw [(Errand.run_untouched twin.equipped.rest hrun).database,
      (Errand.run_untouched twin.equipped'.rest hrun').database]
    exact twin.locals

theorem LocalTwin.spared (twin : store.LocalTwin store') (hother : errand.isLocal = false) :
    (errand.attempt store).2.LocalTwin store' := by
  cases errand with
  | putLocal | getLocal | deleteLocal => nomatch hother
  | mutate mutation doc hnamed =>
    refine ⟨twin.equipped.attempt _, twin.equipped', ?_⟩
    have hfollows : Action.Follows Holdings.Detached mutation.run := mutation.run_follows covers_detached
    obtain ⟨-, hsame⟩ := (Errand.mutate mutation doc hnamed).run_follows covers_detached.toCourse
      (fun hlocal => nomatch hlocal) (fun _ _ _ heq => (Errand.mutate.inj heq).1 ▸ hfollows) twin.equipped.rest
    rw [Errand.attempt_snd]
    exact twin.locals.trans hsame.symm

theorem LocalTwin.attemptEach (twin : store.LocalTwin store') (run : List Errand) :
    (Errand.attemptEach run store).1.filter (·.errand.isLocal) = (Errand.attemptEach (run.filter (·.isLocal)) store').1 := by
  induction run generalizing store store' with
  | nil => rfl
  | cons errand rest ih =>
    cases hlocal : errand.isLocal with
    | true =>
      obtain ⟨hfirst, hbetween⟩ := twin.attempt hlocal
      rw [List.filter_cons_of_pos hlocal, Errand.attemptEach_cons_of_pos hlocal, ih hbetween, hfirst]
      rfl
    | false =>
      rw [List.filter_cons_of_neg (by simp [hlocal]), Errand.attemptEach_cons_of_neg hlocal]
      exact ih (twin.spared hlocal)

end Store

end RevisionForest
