import RevisionForest.Proofs.Progress
import RevisionForest.Proofs.Reachable
/-!
# No lost update

An update and a deletion name the revision they were based on. One that gives this revision a child supersedes it for good: rows are never taken away again, so every later update or deletion that names it finds it no leaf any more and fails without a trace (`Superseded.update_refused`, `Superseded.bury_refused`). So of all the successes on one revision in a run only the last can have made a child of it.

A success makes no child if the id derived from the parent and the new content is already stored elsewhere in the tree, where only a peer with a history of its own can have put it. Then nothing is written but attachments, the revision stays a live leaf, and it can be deleted again. So a success is the last one exactly if the id it answers was not stored before (`Store.refuses_iff`).
-/

namespace RevisionForest

namespace Tables

/-- A revision is stored and has a child. -/
def Superseded (tables : Tables) (doc : String) (rev : RevId) : Prop :=
  ∃ sequence, tables.place? doc rev = some sequence ∧ tables.isLeaf sequence = false

/-- What was answered stands right below a stored revision. -/
def ChildOf (tables : Tables) (doc : String) (rev : RevId) (revision : Revision) : Prop :=
  ∃ sequence, tables.place? doc rev = some sequence ∧ revision.parent = some sequence

variable {before after tables : Tables} {doc : String} {rev : RevId} {number sequence : Int} {revision : Revision}

theorem Superseded.mono (h : before.Superseded doc rev) (hextends : before.Extends after) :
    after.Superseded doc rev := by
  obtain ⟨sequence, hplace, hleaf⟩ := h
  exact ⟨sequence, hextends.place? hplace, hextends.isLeaf_eq_false hleaf⟩

theorem ChildOf.of_extends (h : after.ChildOf doc rev revision) (hextends : before.Extends after)
    (hthere : (before.place? doc rev).isSome = true) : before.ChildOf doc rev revision := by
  obtain ⟨sequence, hplace⟩ := Option.isSome_iff_exists.mp hthere
  obtain ⟨found, hfound, hparent⟩ := h
  rw [hextends.place? hplace] at hfound
  exact ⟨sequence, hplace, hfound ▸ hparent⟩

/-! ### Successes -/

/-- What the successes of updates and deletions of one revision come to, in their order: none if it had a child before, and only the last one can have made a child of it. -/
structure Tally (before after : Tables) (doc : String) (rev : RevId) (revisions : List Revision) : Prop where
  grown : before.Extends after
  refused : before.Superseded doc rev → revisions = []
  placed : revisions ≠ [] → (after.place? doc rev).isSome = true
  early : ∀ revision ∈ revisions.dropLast, ¬after.ChildOf doc rev revision
  settled : ∀ revision ∈ revisions, after.ChildOf doc rev revision → after.Superseded doc rev

theorem Tally.nil (h : before.Extends after) : before.Tally after doc rev [] :=
  ⟨h, fun _ => rfl, fun hne => absurd rfl hne, fun _ hmem => absurd hmem List.not_mem_nil,
    fun _ hmem => absurd hmem List.not_mem_nil⟩

/-- What a success on a revision comes to: a revision below it was derived, which was a live leaf. -/
def DerivedBelow (before after : Tables) (doc : String) (rev : RevId) (revision : Revision) : Prop :=
  ∃ (child : NewRevision) (attachments : List Attachment) (row : RevisionRow),
    before.LiveLeaf doc rev row ∧
      (child.document = row.document ∧ child.parent = some row.sequence ∧ child.rev.generation = rev.generation + 1) ∧
      before.Derives after child attachments revision

theorem Tally.single (shape : before.Shape) (h : before.DerivedBelow after doc rev revision) :
    before.Tally after doc rev [revision] := by
  obtain ⟨child, attachments, row, hlive, ⟨-, hparent, -⟩, hderives⟩ := h
  have hplace := hlive.place? shape
  have hafter := hderives.extends.place? hplace
  refine ⟨hderives.extends, ?_, fun _ => by rw [hafter]; rfl, fun _ hmem => absurd hmem List.not_mem_nil, ?_⟩
  · rintro ⟨found, hfound, hchild⟩
    rw [hplace] at hfound
    rw [← Option.some.inj hfound, (mem_leafRows_iff.mp hlive.leaf).2.2] at hchild
    exact absurd hchild (by decide)
  · rintro _ hmem ⟨found, hfound, hchild⟩
    rw [List.mem_singleton.mp hmem] at hchild
    rw [hafter] at hfound
    obtain rfl := Option.some.inj hfound
    cases hderives with
    | grown _ hgains =>
      refine ⟨row.sequence, hafter, isLeaf_eq_false_iff.mpr ⟨(child.row (before.lastSequence + 1)).bare, ?_, hparent⟩⟩
      rw [hgains.bones]
      exact List.mem_append_right _ (List.mem_singleton.mpr rfl)
    | stored _ _ _ _ hother => exact absurd (hchild.trans hparent.symm) hother

/-- A success makes a child of the revision it names exactly if the id of what it answers was not stored before. -/
theorem DerivedBelow.childOf_iff (h : before.DerivedBelow after doc rev revision) (shape : before.Shape) :
    after.ChildOf doc rev revision ↔ before.place? doc revision.rev = none := by
  obtain ⟨child, attachments, row, hlive, ⟨hdocument, hparent, -⟩, hderives⟩ := h
  have hplace := hderives.extends.place? (hlive.place? shape)
  have hlookup : before.place? doc child.rev = before.sequenceOf? child.document child.rev := by
    rw [place?, hlive.number, hdocument, Option.bind_some]
  cases hderives with
  | grown hfresh hgains hrev hchild =>
    rw [hrev, hlookup, hfresh]
    exact iff_of_true ⟨row.sequence, hplace, hchild.trans hparent⟩ rfl
  | stored found hfound hgains hrev hchild =>
    rw [hrev, hlookup, hfound]
    refine iff_of_false ?_ (by simp)
    rintro ⟨other, hother, heq⟩
    rw [hplace] at hother
    exact hchild (heq.trans (hother.symm.trans hparent.symm))

theorem DerivedBelow.stays (h : before.DerivedBelow after doc rev revision) (shape : before.Shape)
    (legible : before.Legible) (hstored : before.place? doc revision.rev ≠ none) :
    (∃ row, after.LiveLeaf doc rev row) ∧ rev.generation + 1 < RevId.generationBound := by
  obtain ⟨child, attachments, row, hlive, ⟨hdocument, -, hgeneration⟩, hderives⟩ := h
  cases hderives with
  | grown hfresh hgains hrev hchild =>
    rw [hrev, place?, hlive.number, Option.bind_some, ← hdocument, hfresh] at hstored
    exact absurd rfl hstored
  | stored found hfound hgains hrev hchild =>
    obtain ⟨holder, hholder, -, htext, -⟩ := shape.sequenceOf?_eq_some_iff.mp hfound
    refine ⟨hlive.of_gains hgains, ?_⟩
    rw [← hgeneration]
    exact (legible.reads hholder htext).2

theorem Tally.append {between : Tables} {revisions revisions' : List Revision} (h : before.Tally between doc rev revisions)
    (h' : between.Tally after doc rev revisions') : before.Tally after doc rev (revisions ++ revisions') where
  grown := h.grown.trans h'.grown
  refused := by
    intro hsuperseded
    rw [h.refused hsuperseded, h'.refused (hsuperseded.mono h.grown)]
    rfl
  placed := by
    intro hne
    by_cases hlater : revisions' = []
    · rw [hlater, List.append_nil] at hne
      obtain ⟨sequence, hplace⟩ := Option.isSome_iff_exists.mp (h.placed hne)
      rw [h'.grown.place? hplace]
      rfl
    · exact h'.placed hlater
  early := by
    intro revision hmem hchild
    by_cases hlater : revisions' = []
    · rw [hlater, List.append_nil] at hmem
      have hne : revisions ≠ [] := List.ne_nil_of_mem (List.dropLast_subset _ hmem)
      exact h.early revision hmem (hchild.of_extends h'.grown (h.placed hne))
    · -- A child that was there before the later successes would have refused them.
      rw [List.dropLast_append_of_ne_nil hlater] at hmem
      rcases List.mem_append.mp hmem with hmem | hmem
      · have hsuperseded := h.settled revision hmem (hchild.of_extends h'.grown (h.placed (List.ne_nil_of_mem hmem)))
        exact hlater (h'.refused hsuperseded)
      · exact h'.early revision hmem hchild
  settled := by
    intro revision hmem hchild
    rcases List.mem_append.mp hmem with hmem | hmem
    · have hbefore := hchild.of_extends h'.grown (h.placed (List.ne_nil_of_mem hmem))
      exact (h.settled revision hmem hbefore).mono h'.grown
    · exact h'.settled revision hmem hchild

end Tables

open Tables

variable {doc : String} {rev : RevId}

/-! ### Refusals -/

theorem Tables.Superseded.update_refused {draft : Draft} (h : draft.tables.Superseded doc rev)
    (healthy : draft.tables.Healthy) (body : Bytes) (changes : AttachmentChanges) :
    ∃ error, Edit.update doc rev body changes draft = .error error draft := by
  obtain ⟨sequence, hplace, hleaf⟩ := h
  obtain ⟨number, hnumber, hsequence⟩ := place?_eq_some_iff.mp hplace
  obtain ⟨row, hrow, rfl, -⟩ := healthy.shape.sequenceOf?_eq_some_iff.mp hsequence
  obtain ⟨winner, hwinner, hwinnerLeaf⟩ := healthy.exists_winner hrow
  have hne : winner.sequence ≠ sequence := by
    intro heq
    rw [heq, hleaf] at hwinnerLeaf
    exact absurd hwinnerLeaf (by decide)
  refine ⟨.conflict (.notWinner doc rev winner.rev), ?_⟩
  rw [Edit.update, bind_of_ok (Edit.documentNumber_ok_iff.mpr ⟨hnumber, rfl⟩),
    bind_of_ok (Edit.sequence_ok_iff.mpr ⟨hsequence, rfl⟩), bind_of_ok (Edit.query_ok_iff.mpr ⟨hwinner, rfl⟩),
    bind_of_ok (Edit.require_ok_iff.mpr ⟨rfl, rfl⟩)]
  simp only [if_pos hne]
  rfl

theorem Tables.Superseded.bury_refused {draft : Draft} (h : draft.tables.Superseded doc rev)
    (healthy : draft.tables.Healthy) : ∃ error, Edit.bury doc rev draft = .error error draft := by
  obtain ⟨sequence, hplace, hleaf⟩ := h
  obtain ⟨number, hnumber, hsequence⟩ := place?_eq_some_iff.mp hplace
  obtain ⟨target, htarget, rfl⟩ := healthy.getRevision_ok hnumber hsequence
  rw [Edit.bury, bind_of_ok (Edit.documentNumber_ok_iff.mpr ⟨hnumber, rfl⟩),
    bind_of_ok (Edit.query_ok_iff.mpr ⟨htarget, rfl⟩), bind_of_ok (Edit.require_ok_iff.mpr ⟨rfl, rfl⟩)]
  cases hdeleted : target.deleted with
  | true => exact ⟨.notFound (.deletedRevision doc rev), rfl⟩
  | false =>
    refine ⟨.conflict (.notLeaf doc rev), ?_⟩
    simp only [Bool.false_eq_true, ↓reduceIte]
    rw [bind_of_ok (ok_get_iff.mpr ⟨rfl, rfl⟩)]
    simp only [hleaf, Bool.not_false, ↓reduceIte]
    rfl

/-! ### Commands -/

mutual

/-- What the updates and deletions of one revision in a command have answered, given the answer of the command. -/
def Command.settled (doc : String) (rev : RevId) : Command → Answer → List Revision
  | .mutate (.update named expected _ _), .outcome (.revision revision) =>
    if named = doc ∧ expected = rev then [revision] else []
  | .mutate (.delete named target), .outcome (.revision revision) =>
    if named = doc ∧ target = rev then [revision] else []
  | .attempt command, answer => command.settled doc rev answer
  | .transact script, .script answers => Command.settledAll doc rev script answers
  | _, _ => []

def Command.settledAll (doc : String) (rev : RevId) : List Command → List Answer → List Revision
  | command :: rest, answer :: answers => command.settled doc rev answer ++ Command.settledAll doc rev rest answers
  | _, _ => []

end

theorem Command.settled_failed (error : StoreError) : ∀ command : Command, command.settled doc rev (.failed error) = []
  | .mutate (.create ..) | .mutate (.update ..) | .mutate (.delete ..) | .mutate (.deleteAllLeaves ..)
  | .mutate (.graft ..) | .operate _ | .putBlob _ | .fail _ | .panic | .transact _ => by simp [Command.settled]
  | .attempt command => by
    rw [Command.settled]
    exact Command.settled_failed error command

namespace Action

variable {writer after : Writer} {revision : Revision}

theorem update_derives {body : Bytes} {changes : AttachmentChanges}
    (healthy : writer.database.tables.Healthy) (h : update doc rev body changes writer = .ok revision after) :
    after.database.tables.Healthy ∧ writer.database.tables.DerivedBelow after.database.tables doc rev revision := by
  obtain ⟨draft, hwork, htables⟩ := update_ok h
  obtain ⟨number, row, _, _, ⟨hnumber, hrow, htext, ⟨-, hlive⟩, -⟩, healthy', -, hderives⟩ :=
    Edit.update_effect healthy hwork
  rw [htables]
  obtain ⟨-, rfl, -⟩ := mem_leafRows_iff.mp hrow
  exact ⟨healthy', _, _, row, ⟨hnumber, hrow, htext, hlive⟩, ⟨rfl, rfl, rfl⟩, hderives⟩

theorem delete_derives (healthy : writer.database.tables.Healthy)
    (h : delete doc rev writer = .ok revision after) :
    after.database.tables.Healthy ∧ writer.database.tables.DerivedBelow after.database.tables doc rev revision := by
  obtain ⟨draft, hwork, htables⟩ := delete_ok h
  obtain ⟨number, row, ⟨hnumber, hrow, htext, hlive⟩, healthy', -, hderives⟩ := Edit.bury_effect healthy hwork
  rw [htables]
  obtain ⟨-, rfl, -⟩ := mem_leafRows_iff.mp hrow
  exact ⟨healthy', _, _, row, ⟨hnumber, hrow, htext, hlive⟩, ⟨rfl, rfl, rfl⟩, hderives⟩

end Action

variable {writer after : Writer}

theorem Command.run_sound {command : Command} {answer : Answer} (hplain : command.Plain)
    (hanchored : writer.database.Anchored) (healthy : writer.database.tables.Healthy)
    (h : command.run writer = .ok answer after) :
    writer.database.SameLevels after.database ∧
      (after.database.Intact → after.database.tables.Healthy ∧
        writer.database.tables.Extends after.database.tables) := by
  have hpassed := (command.run_follows covers_sound hplain writer hanchored).passed h
  exact ⟨hpassed.levels, fun hintact => hpassed.holdings hintact healthy⟩

theorem Mutation.run_tally {mutation : Mutation} {outcome : Outcome}
    (healthy : writer.database.tables.Healthy) (h : mutation.run writer = .ok outcome after)
    (hgrown : writer.database.tables.Extends after.database.tables) :
    writer.database.tables.Tally after.database.tables doc rev
      ((Command.mutate mutation).settled doc rev (.outcome outcome)) := by
  cases mutation with
  | update named expected body changes =>
    obtain ⟨revision, _, hupdate, hvalue⟩ := ok_bind_iff.mp h
    obtain ⟨rfl, rfl⟩ := ok_pure_iff.mp hvalue
    simp only [Command.settled]
    split
    · rename_i hsame
      obtain ⟨rfl, rfl⟩ := hsame
      exact .single healthy.shape (Action.update_derives healthy hupdate).2
    · exact .nil hgrown
  | delete named target =>
    obtain ⟨revision, _, hdelete, hvalue⟩ := ok_bind_iff.mp h
    obtain ⟨rfl, rfl⟩ := ok_pure_iff.mp hvalue
    simp only [Command.settled]
    split
    · rename_i hsame
      obtain ⟨rfl, rfl⟩ := hsame
      exact .single healthy.shape (Action.delete_derives healthy hdelete).2
    · exact .nil hgrown
  | create doc body attachments => exact .nil hgrown
  | deleteAllLeaves doc => exact .nil hgrown
  | graft item => exact .nil hgrown

mutual

theorem Command.run_tally : ∀ (command : Command) {writer after : Writer} {answer : Answer}, command.Plain →
    writer.database.Anchored → writer.database.tables.Healthy → command.run writer = .ok answer after →
    after.database.Intact →
    writer.database.tables.Tally after.database.tables doc rev (command.settled doc rev answer)
  | .mutate mutation, writer, after, answer, hplain, hanchored, healthy, h, hintact => by
    have hgrown := ((Command.run_sound hplain hanchored healthy h).2 hintact).2
    obtain ⟨outcome, _, hrun, hvalue⟩ := ok_bind_iff.mp h
    obtain ⟨rfl, rfl⟩ := ok_pure_iff.mp hvalue
    exact Mutation.run_tally healthy hrun hgrown
  | .operate _, _, _, _, hplain, _, _, _, _ => hplain.elim
  | .putBlob data, _, _, _, hplain, hanchored, healthy, h, hintact =>
    .nil ((Command.run_sound hplain hanchored healthy h).2 hintact).2
  | .fail error, _, _, _, hplain, hanchored, healthy, h, hintact =>
    .nil ((Command.run_sound hplain hanchored healthy h).2 hintact).2
  | .panic, _, _, _, hplain, hanchored, healthy, h, hintact =>
    .nil ((Command.run_sound hplain hanchored healthy h).2 hintact).2
  | .attempt command, writer, after, answer, hplain, hanchored, healthy, h, hintact => by
    have hgrown := ((Command.run_sound hplain hanchored healthy h).2 hintact).2
    simp only [Command.run, Action.attempt] at h
    rw [Command.settled]
    cases hrun : command.run writer with
    | ok found between =>
      rw [hrun] at h
      obtain ⟨rfl, rfl⟩ := EStateM.Result.ok.inj h
      exact Command.run_tally command hplain hanchored healthy hrun hintact
    | error halt between =>
      rw [hrun] at h
      cases halt with
      | panic => nomatch h
      | fault error =>
        obtain ⟨rfl, rfl⟩ := EStateM.Result.ok.inj h
        rw [Command.settled_failed]
        exact .nil hgrown
  | .transact script, writer, after, answer, hplain, hanchored, healthy, h, hintact => by
    obtain ⟨answers, closed, hrun, hvalue⟩ := ok_bind_iff.mp h
    obtain ⟨rfl, rfl⟩ := ok_pure_iff.mp hvalue
    obtain ⟨inside, hinside, hsame, hintact'⟩ := Action.transact_ok
      ((Command.runAll_follows covers_sound script hplain).strives _ (Action.anchored_opened hanchored)) hrun
    have htally := Command.runAll_tally script hplain (Action.anchored_opened hanchored) healthy hinside
      (hintact' hintact)
    have hcommitted : closed.database.tables = inside.database.tables := congrArg Holdings.tables hsame
    rw [Command.settled, hcommitted]
    exact htally

theorem Command.runAll_tally : ∀ (script : List Command) {writer after : Writer} {answers : List Answer},
    Command.AllPlain script → writer.database.Anchored → writer.database.tables.Healthy →
    Command.runAll script writer = .ok answers after → after.database.Intact →
    writer.database.tables.Tally after.database.tables doc rev (Command.settledAll doc rev script answers)
  | [], writer, after, answers, _, _, _, h, _ => by
    obtain ⟨rfl, rfl⟩ := ok_pure_iff.mp h
    exact .nil (.refl writer.database.tables)
  | command :: rest, writer, after, answers, hplain, hanchored, healthy, h, hintact => by
    obtain ⟨answer, between, hfirst, h⟩ := ok_bind_iff.mp h
    obtain ⟨later, _, hrest, hvalue⟩ := ok_bind_iff.mp h
    obtain ⟨rfl, rfl⟩ := ok_pure_iff.mp hvalue
    obtain ⟨hlevels, hsound⟩ := Command.run_sound hplain.1 hanchored healthy hfirst
    have hlater := (Command.runAll_follows covers_sound rest hplain.2 between (hlevels.anchored hanchored)).passed hrest
    have hbetween := hlater.levels.intact hintact
    rw [Command.settledAll]
    exact (Command.run_tally command hplain.1 hanchored healthy hfirst hbetween).append
      (Command.runAll_tally rest hplain.2 (hlevels.anchored hanchored) (hsound hbetween).1 hrest hintact)

end

/-! ### Runs -/

namespace Store

variable {store after : Store}

/-- What the updates and deletions of one revision in a list of submissions have answered. -/
def settledEach (doc : String) (rev : RevId) : List Command → List (Except StoreError Answer) → List Revision
  | command :: rest, .ok answer :: results => command.settled doc rev answer ++ settledEach doc rev rest results
  | _ :: rest, .error _ :: results => settledEach doc rev rest results
  | _, _ => []

/-- Every update and every deletion of a revision fails and changes nothing. -/
def Refuses (store : Store) (doc : String) (rev : RevId) : Prop :=
  (∀ body changes, ∃ error, update doc rev body changes store = .error error store) ∧
    ∃ error, delete doc rev store = .error error store

theorem refuses_of_superseded (hrest : store.AtRest) (healthy : store.writer.database.tables.Healthy)
    (h : store.writer.database.tables.Superseded doc rev) : store.Refuses doc rev := by
  have hdraft : (⟨store.writer.database.tables, store.writer.blobs, []⟩ : Draft).tables.Superseded doc rev := h
  constructor
  · intro body changes
    apply execute_error_of_unchanged hrest
    obtain ⟨error, hedit⟩ := hdraft.update_refused healthy body changes
    have hlevel := Action.transact_edit_of_error hrest hedit
    unfold Action.update
    cases (Body.validate body).mapError StoreError.ofData with
    | error error => exact ⟨error, rfl⟩
    | ok =>
      cases (Attachment.checkNames [] changes.put).mapError StoreError.invalidInput with
      | error error => exact ⟨error, rfl⟩
      | ok => exact ⟨error, hlevel⟩
  · obtain ⟨error, hedit⟩ := hdraft.bury_refused healthy
    exact execute_error_of_unchanged hrest ⟨error, Action.transact_edit_of_error hrest hedit⟩

theorem delete_ok {row : RevisionRow} (hopen : store.closed = false) (hrest : store.AtRest)
    (healthy : store.writer.database.tables.Healthy) (hlive : store.writer.database.tables.LiveLeaf doc rev row)
    (hrange : rev.generation + 1 < RevId.generationBound) :
    ∃ revision after, delete doc rev store = .ok revision after := by
  let draft : Draft := ⟨store.writer.database.tables, store.writer.blobs, []⟩
  have hdraft : draft.tables.LiveLeaf doc rev row := hlive
  obtain ⟨revision, draft', hbury⟩ := Edit.bury_progress healthy hdraft hrange
  exact ⟨revision, _, execute_ok_iff.mpr ⟨hopen, _, Action.transact_edit_of_ok hrest hbury, rfl, rfl⟩⟩

/-- A success is the last one exactly if the id it answers was not stored before. -/
theorem refuses_iff {before : Tables} {revision : Revision} (hopen : store.closed = false) (hrest : store.AtRest)
    (hbefore : before.Healthy) (healthy : store.writer.database.tables.Healthy)
    (h : before.DerivedBelow store.writer.database.tables doc rev revision) :
    store.Refuses doc rev ↔ before.place? doc revision.rev = none := by
  constructor
  · intro hrefuses
    by_contra hstored
    obtain ⟨⟨row, hlive⟩, hrange⟩ := h.stays hbefore.shape hbefore.legible hstored
    obtain ⟨found, after, hdelete⟩ := delete_ok hopen hrest healthy hlive hrange
    obtain ⟨error, hrefused⟩ := hrefuses.2
    rw [hdelete] at hrefused
    nomatch hrefused
  · intro hfresh
    have hchild := (h.childOf_iff hbefore.shape).mpr hfresh
    exact refuses_of_superseded hrest healthy
      ((Tally.single hbefore.shape h).settled revision (List.mem_singleton.mpr rfl) hchild)

/-- A run of submissions of any number of callers, in the order in which they reach the store. -/
theorem submitEach_tally {commands : List Command} {results : List (Except StoreError Answer)}
    (hplain : Command.AllPlain commands) (hrest : store.AtRest) (healthy : store.writer.database.tables.Healthy)
    (h : submitEach commands store = .ok results after) :
    (after.AtRest ∧ after.writer.database.tables.Healthy) ∧
      store.writer.database.tables.Tally after.writer.database.tables doc rev
        (settledEach doc rev commands results) := by
  induction commands generalizing store results with
  | nil =>
    obtain ⟨rfl, rfl⟩ := ok_pure_iff.mp h
    exact ⟨⟨hrest, healthy⟩, .nil (.refl store.writer.database.tables)⟩
  | cons command rest ih =>
    obtain ⟨result, between, hfirst, h⟩ := ok_bind_iff.mp h
    obtain ⟨later, _, hlater, hvalue⟩ := ok_bind_iff.mp h
    obtain ⟨rfl, rfl⟩ := ok_pure_iff.mp hvalue
    have hbetween : between = stateAfter (execute command.run) store := by
      rw [← stateAfter_submit, stateAfter_of_ok hfirst]
    obtain ⟨hrest', hsound⟩ := execute_follows covers_sound.toCourse (command.run_follows covers_sound hplain.1) hrest
    rw [← hbetween] at hrest' hsound
    obtain ⟨healthy', hgrown⟩ := hsound healthy
    obtain ⟨hafter, htally⟩ := ih hplain.2 hrest' healthy' hlater
    refine ⟨hafter, ?_⟩
    cases result with
    | error error => exact Tally.append (.nil hgrown) htally
    | ok answer =>
      refine Tally.append ?_ htally
      obtain ⟨-, writer, hrun, hgroup, hstore⟩ := execute_ok_iff.mp (submit_ok_iff.mp hfirst)
      rw [← hstore]
      exact Command.run_tally command hplain.1 (Writer.anchored_of_rest hrest) healthy hrun
        (Writer.intact_of_rest hgroup)

/-- In a run only the last success on a revision can have made a child of it, and it has exactly if the id it answers was not stored before. -/
theorem Reachable.no_lost_update (h : store.Reachable) (doc : String) (rev : RevId) :
    (∀ commands results after, Command.AllPlain commands → submitEach commands store = .ok results after →
      let successes := settledEach doc rev commands results
      ((∀ revision ∈ successes, after.writer.database.tables.ChildOf doc rev revision) → successes.length ≤ 1) ∧
      (∀ revision ∈ successes.dropLast, ¬after.writer.database.tables.ChildOf doc rev revision) ∧
      ∀ revision ∈ successes, after.writer.database.tables.ChildOf doc rev revision → after.Refuses doc rev) ∧
    (∀ body changes revision after, update doc rev body changes store = .ok revision after →
      (after.writer.database.tables.ChildOf doc rev revision ↔
        store.writer.database.tables.place? doc revision.rev = none) ∧
      (after.Refuses doc rev ↔ store.writer.database.tables.place? doc revision.rev = none)) ∧
    ∀ revision after, delete doc rev store = .ok revision after →
      (after.writer.database.tables.ChildOf doc rev revision ↔
        store.writer.database.tables.place? doc revision.rev = none) ∧
      (after.Refuses doc rev ↔ store.writer.database.tables.place? doc revision.rev = none) := by
  obtain ⟨hrest, healthy⟩ := h.healthy
  have hanchored := Writer.anchored_of_rest hrest
  refine ⟨fun commands results after hplain hrun => ?_, fun body changes revision after hupdate => ?_,
    fun revision after hdelete => ?_⟩
  · obtain ⟨⟨hrest', healthy'⟩, htally⟩ := submitEach_tally hplain hrest healthy hrun
    refine ⟨fun hall => ?_, htally.early, fun revision hmem hchild =>
      refuses_of_superseded hrest' healthy' (htally.settled revision hmem hchild)⟩
    match hsuccesses : settledEach doc rev commands results with
    | [] | [_] => simp
    | first :: second :: rest =>
      rw [hsuccesses] at hall
      have hfirst : first ∈ (settledEach doc rev commands results).dropLast := by
        rw [hsuccesses]
        exact List.mem_cons_self
      exact absurd (hall first List.mem_cons_self) (htally.early first hfirst)
  · obtain ⟨hopen, writer, hwriter, hgroup, rfl⟩ := execute_ok_iff.mp hupdate
    obtain ⟨healthy', hderived⟩ := Action.update_derives healthy hwriter
    exact ⟨hderived.childOf_iff healthy.shape, refuses_iff hopen hgroup healthy healthy' hderived⟩
  · obtain ⟨hopen, writer, hwriter, hgroup, rfl⟩ := execute_ok_iff.mp hdelete
    obtain ⟨healthy', hderived⟩ := Action.delete_derives healthy hwriter
    exact ⟨hderived.childOf_iff healthy.shape, refuses_iff hopen hgroup healthy healthy' hderived⟩

/-- The second of two deletions of one leaf is refused, and so is everything after it. -/
theorem no_lost_update_deleted :
    let root : RevId := ⟨1, "a", by decide, by decide⟩
    let store := stateAfter (submit (.mutate (.graft { doc := "d", history := [root] }))) (new {})
    let commands : List Command := [.mutate (.delete "d" root), .mutate (.delete "d" root)]
    ∃ results after, submitEach commands store = .ok results after ∧
      (settledEach "d" root commands results).length = 1 ∧ after.Refuses "d" root := by
  intro root store commands
  have hreachable : store.Reachable := ⟨by decide +kernel, {}, {}, .command _ trivial .start⟩
  have hfacts : (match submitEach commands store with
      | .ok results after => ((settledEach "d" root commands results).map (·.parent),
          after.writer.database.tables.place? "d" root)
      | .error _ _ => ([], none)) = ([some 1], some 1) := by decide +kernel
  cases hrun : submitEach commands store with
  | error error after =>
    rw [hrun] at hfacts
    nomatch hfacts
  | ok results after =>
    rw [hrun] at hfacts
    obtain ⟨hparents, hplace⟩ := Prod.mk.inj hfacts
    obtain ⟨revision, hsuccesses, hparent⟩ := List.map_eq_singleton_iff.mp hparents
    have hrefuses := ((hreachable.no_lost_update "d" root).1 commands results after ⟨trivial, trivial, trivial⟩ hrun).2.2
      revision (by rw [hsuccesses]; exact List.mem_singleton.mpr rfl) ⟨1, hplace, hparent⟩
    exact ⟨results, after, rfl, by rw [hsuccesses]; rfl, hrefuses⟩

/-- A revision can be deleted twice, since another peer has stored its tombstone as a root. -/
theorem deleted_twice :
    let root : RevId := ⟨1, "a", by decide, by decide⟩
    let tombstone : RevId := ⟨2, "a1fa2550a265d1985537b464989458e9", by decide, by decide⟩
    let commands : List Command :=
      [.mutate (.graft { doc := "d", history := [root], body := some Body.empty }),
        .mutate (.graft { doc := "d", history := [tombstone], body := some Body.empty, deleted := true }),
        .mutate (.delete "d" root), .mutate (.delete "d" root)]
    ∃ results after, submitEach commands (new {}) = .ok results after ∧
      (settledEach "d" root commands results).length = 2 := by
  intro root tombstone commands
  have hcount : (match submitEach commands (new {}) with
      | .ok results _ => (settledEach "d" root commands results).length
      | .error _ _ => 0) = 2 := by decide +kernel
  cases hrun : submitEach commands (new {}) with
  | ok results after =>
    rw [hrun] at hcount
    exact ⟨results, after, rfl, hcount⟩
  | error error after =>
    rw [hrun] at hcount
    nomatch hcount

end Store

end RevisionForest
