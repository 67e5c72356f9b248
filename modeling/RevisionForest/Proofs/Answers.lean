import RevisionForest.Proofs.Burials
import RevisionForest.Proofs.TwinMutations
/-!
# Answers

A mutation answers revisions, and they are stored (`Tables.Answers`). What is answered last is read back as it is. Only the deletion of all live leaves answers more than one revision, and it takes each answer before the later leaves are buried. As long as one of these is live, no tombstone is shown of the document, so no answer but the last shows a tombstone that is flagged. But when all leaves are deleted, any of the tombstones may be the one elected, and the answer does not tell if it is not the last (`Store.Onward.answers_read`).
-/

namespace RevisionForest

open Tables

/-- The revisions that a mutation has answered. -/
def Outcome.revisions : Outcome → List Revision
  | .revision made => [made]
  | .tombstones made => made
  | .alreadyPresent => []

namespace Tables

variable {before between after : Tables} {doc : String} {revs : List RevId} {revision : Revision}
  {revisions : List Revision}

/-- What was answered of a document is stored: the last as it was answered, the others but for their flags. Of these no tombstone was answered with a flag. -/
structure Answers (tables : Tables) (doc : String) (revisions : List Revision) : Prop where
  home : ∀ revision ∈ revisions, revision.doc = doc
  kept : ∀ revision ∈ revisions, ∃ current, tables.Has { revision with current := current }
  last : ∀ revision, revisions.getLast? = some revision → tables.Has revision
  unflagged : ∀ revision ∈ revisions.dropLast, revision.deleted = true → revision.current = false

theorem Answers.nil (tables : Tables) (doc : String) : tables.Answers doc [] :=
  ⟨nofun, nofun, nofun, nofun⟩

theorem Answers.single (h : after.Has revision ∧ revision.doc = doc) : after.Answers doc [revision] where
  home := List.forall_mem_singleton.mpr h.2
  kept := List.forall_mem_singleton.mpr ⟨revision.current, h.1⟩
  last := fun _ hlast => Option.some.inj hlast ▸ h.1
  unflagged := nofun

theorem Healthy.unflagged (healthy : after.Healthy) (h : after.Has revision) {other : RevId}
    (hlive : after.Live revision.doc other) (hdeleted : revision.deleted = true) : revision.current = false := by
  obtain ⟨winner, hwinner, halive⟩ := healthy.exists_live_iff.mp ⟨other, hlive⟩
  rw [Bool.eq_false_iff]
  intro hcurrent
  obtain ⟨row, hrow, hnumber, -, hread⟩ := h.exists_row
  obtain ⟨_, _, -, -, hrevision⟩ := readRevision_ok_iff.mp hread
  have hflag : row.current = true := by rw [← hcurrent, hrevision]
  have hshown := healthy.currentRevision_of_row hnumber hrow hflag hread
  rw [hwinner] at hshown
  obtain rfl := Option.some.inj (Except.ok.inj hshown)
  rw [hdeleted] at halive
  nomatch halive

theorem BuriesEach.answers (h : BuriesEach doc before revs revisions after) (healthy : before.Healthy)
    (hdistinct : revs.Nodup) (hlive : ∀ rev ∈ revs, before.Live doc rev) : after.Answers doc revisions := by
  induction h with
  | nil tables => exact .nil tables doc
  | @cons before between after rev revs revision revisions hfirst hrest ih =>
    obtain ⟨hother, hdistinct⟩ := List.nodup_cons.mp hdistinct
    have hstays := hfirst.keeps_live healthy hother (List.forall_mem_cons.mp hlive).2
    have hlater := ih hfirst.healthy hdistinct hstays
    obtain ⟨_, hgains⟩ := hrest.gains
    cases hrest with
    | nil => exact .single ⟨hfirst.has, hfirst.home⟩
    | @cons _ _ _ next rest second others hsecond hthird =>
      exact {
        home := List.forall_mem_cons.mpr ⟨hfirst.home, hlater.home⟩
        kept := List.forall_mem_cons.mpr ⟨hfirst.has.kept (hthird.healthy hsecond.healthy) hgains, hlater.kept⟩
        last := fun _ hlast => hlater.last _ (List.getLast?_cons_cons ▸ hlast)
        unflagged := by
          rw [List.dropLast_cons_cons, List.forall_mem_cons]
          have hthere : between.Live revision.doc next := hfirst.home ▸ hstays next List.mem_cons_self
          exact ⟨hfirst.healthy.unflagged hfirst.has hthere, hlater.unflagged⟩ }

end Tables

/-- What a mutation has answered is stored. -/
theorem Mutation.run_answers {mutation : Mutation} {writer after : Writer} {outcome : Outcome}
    (hanchored : writer.database.Anchored) (healthy : writer.database.tables.Healthy)
    (h : mutation.run writer = .ok outcome after) :
    ∃ doc, (∀ named, mutation.doc? = some named → named = doc) ∧ after.database.tables.Answers doc outcome.revisions ∧
      after.database.tables.Healthy := by
  cases mutation with
  | create given body attachments =>
    obtain ⟨revision, between, hcreated, hvalue⟩ := ok_bind_iff.mp h
    obtain ⟨rfl, rfl⟩ := ok_pure_iff.mp hvalue
    obtain ⟨doc, draft, hnamed, hwork, htables⟩ := Action.create_ok hcreated
    obtain ⟨-, healthy', -⟩ := Edit.create_effect healthy hwork
    exact ⟨doc, hnamed, htables ▸ .single (Edit.create_has healthy hwork), htables ▸ healthy'⟩
  | update doc expected body changes =>
    obtain ⟨revision, between, hupdated, hvalue⟩ := ok_bind_iff.mp h
    obtain ⟨rfl, rfl⟩ := ok_pure_iff.mp hvalue
    obtain ⟨draft, hwork, htables⟩ := Action.update_ok hupdated
    obtain ⟨_, _, _, _, -, healthy', -⟩ := Edit.update_effect healthy hwork
    exact ⟨doc, fun _ hsome => (Option.some.inj hsome).symm, htables ▸ .single (Edit.update_has healthy hwork),
      htables ▸ healthy'⟩
  | delete doc rev =>
    obtain ⟨revision, between, hdeleted, hvalue⟩ := ok_bind_iff.mp h
    obtain ⟨rfl, rfl⟩ := ok_pure_iff.mp hvalue
    have hburied := Action.delete_buries healthy hdeleted
    exact ⟨doc, fun _ hsome => (Option.some.inj hsome).symm, .single ⟨hburied.has, hburied.home⟩, hburied.healthy⟩
  | deleteAllLeaves doc =>
    obtain ⟨revisions, between, hdeleted, hvalue⟩ := ok_bind_iff.mp h
    obtain ⟨rfl, rfl⟩ := ok_pure_iff.mp hvalue
    have hburied := Action.deleteAllLeaves_buries hanchored healthy hdeleted
    obtain ⟨_, -, -, hdistinct, hlive⟩ := healthy.liveLeaves_spec doc
    exact ⟨doc, fun _ hsome => (Option.some.inj hsome).symm,
      hburied.answers healthy hdistinct fun rev => (hlive rev).mp, hburied.healthy healthy⟩
  | graft item =>
    obtain ⟨found, between, hgrafted, h⟩ := ok_bind_iff.mp h
    obtain ⟨hcheck, draft, hwork, htables⟩ := Action.graft_ok hgrafted
    have hgap := (Graft.check_ok_iff.mp hcheck).2.2.1
    obtain ⟨_, _, _, ⟨-, -, healthy'⟩, -⟩ := Edit.graft_effect healthy hgap hwork
    refine ⟨item.doc, fun _ hsome => (Option.some.inj hsome).symm, ?_⟩
    cases found with
    | some revision =>
      obtain ⟨rfl, rfl⟩ := ok_pure_iff.mp h
      obtain ⟨hhas, hhome, -⟩ := Edit.graft_has healthy hgap hwork
      exact ⟨htables ▸ .single ⟨hhas, hhome⟩, htables ▸ healthy'⟩
    | none =>
      obtain ⟨rfl, rfl⟩ := ok_pure_iff.mp h
      exact ⟨.nil _ _, htables ▸ healthy'⟩

/-! ### Stores -/

namespace Store

variable {store after : Store} {mutation : Mutation} {outcome : Outcome}

/-- A revision of this id is shown of its document. -/
def Presents (store : Store) (revision : Revision) : Prop :=
  ∃ winner, store.read revision.doc none = .ok winner ∧ winner.rev = revision.rev

/-- What a mutation answers is read back as it was answered, except for the flag of a tombstone that is shown of the document although others were made after it. -/
theorem Onward.answers_read {config : Config} {blobs : BlobStore} (h : (openWith config blobs).Onward store)
    (hrun : execute mutation.run store = .ok outcome after) :
    (∀ revision ∈ outcome.revisions, (∀ doc, mutation.doc? = some doc → doc = revision.doc) ∧
      ∃ current, after.read revision.doc (some revision.rev) = .ok { revision with current := current } ∧
        (current = true ↔ after.Presents revision)) ∧
    (∀ revision, outcome.revisions.getLast? = some revision →
      after.read revision.doc (some revision.rev) = .ok revision) ∧
    ∀ revision ∈ outcome.revisions.dropLast, revision.deleted = true → revision.current = false ∧
      (after.read revision.doc (some revision.rev) = .ok revision ↔ ¬after.Presents revision) := by
  obtain ⟨hrest, healthy, -⟩ := h.preserved rfl healthy_empty
  obtain ⟨hopen, writer, hwriter, -, rfl⟩ := execute_ok_iff.mp hrun
  have hopen' : ({ store with writer } : Store).closed = false := hopen
  obtain ⟨doc, hnamed, hanswers, healthy'⟩ :=
    mutation.run_answers (Writer.anchored_of_rest hrest) healthy hwriter
  have hflag : ∀ {revision}, writer.database.tables.Has revision →
      (revision.current = true ↔ ({ store with writer } : Store).Presents revision) := by
    intro revision hhas
    simp only [Presents, read_winner_iff hopen', healthy'.current_iff hhas]
  have hkept : ∀ revision ∈ outcome.revisions, ∃ current,
      ({ store with writer } : Store).read revision.doc (some revision.rev) = .ok { revision with current := current } ∧
        (current = true ↔ ({ store with writer } : Store).Presents revision) := by
    intro revision hmem
    obtain ⟨current, hhas⟩ := hanswers.kept revision hmem
    exact ⟨current, (read_iff hopen').mpr hhas, hflag hhas⟩
  refine ⟨fun revision hmem => ⟨fun named hsome => ?_, hkept revision hmem⟩, fun revision hlast => ?_, ?_⟩
  · exact (hnamed named hsome).trans (hanswers.home revision hmem).symm
  · exact (read_iff hopen').mpr (hanswers.last revision hlast)
  · intro revision hmem hdeleted
    have hunflagged := hanswers.unflagged revision hmem hdeleted
    obtain ⟨current, hread, hshown⟩ := hkept revision ((List.dropLast_sublist _).subset hmem)
    refine ⟨hunflagged, ?_⟩
    rw [hread, ← hshown, Except.ok.injEq, Bool.not_eq_true]
    constructor
    · intro heq
      exact (congrArg Revision.current heq).trans hunflagged
    · rintro rfl
      rw [← hunflagged]

/-- Of two roots that are deleted, the tombstone of the last one is read back as it was answered. -/
theorem answers_read_last :
    let items : List Graft := [{ doc := "d", history := [⟨3, "x", by decide, by decide⟩], body := some Body.empty },
      { doc := "d", history := [⟨1, "b", by decide, by decide⟩], body := some Body.empty }]
    let store := stateAfter (graftAll items) (new {})
    ∃ outcome after last, execute (Mutation.deleteAllLeaves "d").run store = .ok outcome after ∧
      outcome.revisions.getLast? = some last ∧ after.read last.doc (some last.rev) = .ok last := by
  intro items store
  have hstart : (openWith {} {}).Onward store := .graftAll items .start
  obtain ⟨outcome, hrun⟩ := exists_ok_of_succeeds
    (show succeeds (execute (Mutation.deleteAllLeaves "d").run) store = true by decide +kernel)
  have hlast : (((execute (Mutation.deleteAllLeaves "d").run).run' store).bind (·.revisions.getLast?)).isSome = true := by
    decide +kernel
  rw [run'_of_ok hrun, Option.bind_some, Option.isSome_iff_exists] at hlast
  obtain ⟨last, hlast⟩ := hlast
  exact ⟨outcome, _, last, hrun, hlast, (hstart.answers_read hrun).2.1 last hlast⟩

/-- The tombstone of the winner is answered without a flag, and elected when the other leaf is deleted as well. -/
theorem answers_read_stale :
    let items : List Graft := [{ doc := "d", history := [⟨3, "x", by decide, by decide⟩], body := some Body.empty },
      { doc := "d", history := [⟨1, "b", by decide, by decide⟩], body := some Body.empty }]
    let store := stateAfter (graftAll items) (new {})
    ∃ outcome after first, execute (Mutation.deleteAllLeaves "d").run store = .ok outcome after ∧
      first ∈ outcome.revisions ∧ first.current = false ∧
      after.read first.doc (some first.rev) = .ok { first with current := true } := by
  intro items store
  obtain ⟨outcome, hrun⟩ := exists_ok_of_succeeds
    (show succeeds (execute (Mutation.deleteAllLeaves "d").run) store = true by decide +kernel)
  have hstale : (((execute (Mutation.deleteAllLeaves "d").run).run' store).any fun outcome =>
      outcome.revisions.any fun first => first.current = false &&
        (stateAfter (execute (Mutation.deleteAllLeaves "d").run) store).read first.doc (some first.rev)
          = .ok { first with current := true }) = true := by decide +kernel
  rw [run'_of_ok hrun, Option.any_some, List.any_eq_true] at hstale
  obtain ⟨first, hmem, htest⟩ := hstale
  simp only [Bool.and_eq_true, decide_eq_true_eq] at htest
  exact ⟨outcome, _, first, hrun, hmem, htest⟩

end Store

end RevisionForest
