import RevisionForest.Proofs.Levels
import RevisionForest.Store.Batch
/-!
# What is submitted

A relation that covers the edits (`Covers`) covers the mutations, and with them every command that is made of mutations, blobs, failures and panics, grouped in levels in whatever way; a relation that holds along some mutations only covers the commands that make no others. When a submitted command has ended, no level is open, and the tables have gone along the relation, be it that it succeeded, failed or panicked.
-/

namespace RevisionForest

/-- A relation that holds along every edit that a mutation makes. -/
structure Covers (R : Holdings → Holdings → Prop) : Prop extends Course R where
  create : ∀ doc body attachments, doc ≠ "" → Body.validate body = .ok () → (Edit.create doc body attachments).Runs R
  update : ∀ doc expected body changes, Body.validate body = .ok () → Attachment.checkNames [] changes.put = .ok () →
    (Edit.update doc expected body changes).Runs R
  bury : ∀ doc rev, (Edit.bury doc rev).Runs R
  graft : ∀ item : Graft, item.check = .ok () → (Edit.graft item).Runs R

variable {R : Holdings → Holdings → Prop}

theorem Edit.liveLeaves_runs (course : Course R) (doc : String) : (Edit.liveLeaves doc).Runs R := by
  refine ⟨Edit.liveLeaves_grows doc, fun draft leaves draft' h feed => ?_⟩
  obtain ⟨_, _, hquery, hvalue⟩ := ok_bind_iff.mp h
  obtain ⟨-, rfl⟩ := Edit.query_ok_iff.mp hquery
  obtain ⟨-, rfl⟩ := ok_pure_iff.mp hvalue
  exact course.refl _ _ (.refl draft.blobs)

/-! ### Mutations -/

/-- A relation holds along the edits that a mutation can make of some holdings. -/
def Mutation.Runs (R : Holdings → Holdings → Prop) (holdings : Holdings) : Mutation → Prop
  | .create _ body attachments =>
    ∀ doc, doc ≠ "" → Body.validate body = .ok () → (Edit.create doc body attachments).Runs R
  | .update doc expected body changes =>
    Body.validate body = .ok () → Attachment.checkNames [] changes.put = .ok () →
      (Edit.update doc expected body changes).RunsFrom R holdings
  | .delete doc rev => (Edit.bury doc rev).Runs R
  | .deleteAllLeaves doc =>
    ∀ revs draft, Edit.liveLeaves doc ⟨holdings.tables, holdings.blobs, []⟩ = .ok revs draft →
      ∀ rev ∈ revs, (Edit.bury doc rev).Runs R
  | .graft item => item.check = .ok () → (Edit.graft item).Runs R

theorem Covers.runs (covers : Covers R) (mutation : Mutation) (holdings : Holdings) : mutation.Runs R holdings := by
  cases mutation with
  | create doc body attachments => exact fun doc => covers.create doc body attachments
  | update doc expected body changes =>
    exact fun hbody hnames => (covers.update doc expected body changes hbody hnames).runsFrom holdings
  | delete doc rev => exact covers.bury doc rev
  | deleteAllLeaves doc => exact fun _ _ _ rev _ => covers.bury doc rev
  | graft item => exact covers.graft item

namespace Action

variable {writer : Writer} {doc : String} {body : Bytes}

theorem createAs_ends {attachments : List NewAttachment}
    (h : doc ≠ "" → Body.validate body = .ok () → (Edit.create doc body attachments).Runs R) :
    Ends R Holdings.Kept (createAs doc body attachments) := fun writer hanchored =>
  .check course_kept fun hbody => .guard course_kept fun hdoc =>
    Ends.transact_edit (h hdoc (mapError_ok_iff.mp hbody)) writer hanchored

theorem create_none (body : Bytes) (attachments : List NewAttachment) (writer : Writer) :
    create none body attachments writer
      = (createAs (idAt writer.clock) body attachments >>= fun revision => tick >>= fun _ => Pure.pure revision) writer := by
  have hread : (get : Action Writer) writer = .ok writer writer := rfl
  exact bind_of_ok hread

theorem create_ends {attachments : List NewAttachment} (course : Course R)
    (h : ∀ doc, doc ≠ "" → Body.validate body = .ok () → (Edit.create doc body attachments).Runs R)
    (doc : Option String) : Ends R Holdings.Kept (create doc body attachments) := by
  cases doc with
  | some doc => exact createAs_ends (h doc)
  | none =>
    have hlast : ∀ revision : Revision, Ends R (fun _ _ => False) (tick >>= fun _ => (Pure.pure revision : Action Revision)) :=
      fun revision writer hanchored => (Ends.tick course writer hanchored).bind_of_total hanchored course fun _ =>
        .pure course revision
    intro writer hanchored
    have hmade := (createAs_ends (h (idAt writer.clock)) writer hanchored).bind_of_total hanchored course hlast
    unfold EndsAt at hmade ⊢
    rw [create_none]
    exact hmade

theorem create_ok {given : Option String} {attachments : List NewAttachment} {revision : Revision} {after : Writer}
    (h : create given body attachments writer = .ok revision after) :
    ∃ doc draft, (∀ named, given = some named → named = doc) ∧
      Edit.create doc body attachments ⟨writer.database.tables, writer.blobs, []⟩ = .ok revision draft ∧
      after.database.tables = draft.tables := by
  have hmade : ∀ {doc between}, createAs doc body attachments writer = .ok revision between →
      ∃ draft, Edit.create doc body attachments ⟨writer.database.tables, writer.blobs, []⟩ = .ok revision draft ∧
        between.database.tables = draft.tables := by
    intro doc between hmade
    obtain ⟨_, _, hbody, hmade⟩ := ok_bind_iff.mp hmade
    obtain ⟨-, rfl⟩ := check_ok_iff.mp hbody
    obtain ⟨-, hmade⟩ := ok_guard_iff.mp hmade
    obtain ⟨draft, hwork, hsame⟩ := transact_edit_ok (Edit.create_grows doc body attachments) hmade
    exact ⟨draft, hwork, congrArg Holdings.tables hsame⟩
  cases given with
  | some doc =>
    obtain ⟨draft, hwork, hsame⟩ := hmade h
    exact ⟨doc, draft, fun _ heq => (Option.some.inj heq).symm, hwork, hsame⟩
  | none =>
    rw [create_none] at h
    obtain ⟨made, between, hcreated, h⟩ := ok_bind_iff.mp h
    obtain ⟨_, ticked, htick, hvalue⟩ := ok_bind_iff.mp h
    obtain ⟨rfl, rfl⟩ := ok_pure_iff.mp hvalue
    obtain ⟨-, rfl⟩ := EStateM.Result.ok.inj htick
    obtain ⟨draft, hwork, hsame⟩ := hmade hcreated
    exact ⟨_, draft, nofun, hwork, hsame⟩

theorem update_ends {expected : RevId} {changes : AttachmentChanges}
    (h : Body.validate body = .ok () → Attachment.checkNames [] changes.put = .ok () →
      (Edit.update doc expected body changes).RunsFrom R writer.holdings) :
    EndsAt R Holdings.Kept (update doc expected body changes) writer :=
  .check course_kept fun hbody => .check course_kept fun hnames =>
    .transact_edit (h (mapError_ok_iff.mp hbody) (mapError_ok_iff.mp hnames))

theorem update_ok {expected : RevId} {changes : AttachmentChanges} {revision : Revision} {after : Writer}
    (h : update doc expected body changes writer = .ok revision after) :
    ∃ draft, Edit.update doc expected body changes ⟨writer.database.tables, writer.blobs, []⟩ = .ok revision draft ∧
      after.database.tables = draft.tables := by
  obtain ⟨_, _, hbody, h⟩ := ok_bind_iff.mp h
  obtain ⟨-, rfl⟩ := check_ok_iff.mp hbody
  obtain ⟨_, _, hnames, h⟩ := ok_bind_iff.mp h
  obtain ⟨-, rfl⟩ := check_ok_iff.mp hnames
  obtain ⟨draft, hwork, hsame⟩ := transact_edit_ok (Edit.update_grows doc expected body changes) h
  exact ⟨draft, hwork, congrArg Holdings.tables hsame⟩

theorem delete_ok {rev : RevId} {revision : Revision} {after : Writer} (h : delete doc rev writer = .ok revision after) :
    ∃ draft, Edit.bury doc rev ⟨writer.database.tables, writer.blobs, []⟩ = .ok revision draft ∧
      after.database.tables = draft.tables := by
  obtain ⟨draft, hwork, hsame⟩ := transact_edit_ok (Edit.bury_grows doc rev) h
  exact ⟨draft, hwork, congrArg Holdings.tables hsame⟩

theorem delete_ends {rev : RevId} (h : (Edit.bury doc rev).Runs R) : Ends R Holdings.Kept (delete doc rev) :=
  .transact_edit h

theorem deleteEach_follows {revs : List RevId} (course : Course R) (h : ∀ rev ∈ revs, (Edit.bury doc rev).Runs R) :
    Follows R (deleteEach doc revs) := by
  induction revs with
  | nil => exact .pure course []
  | cons rev rest ih =>
    have hfirst := (delete_ends (h rev List.mem_cons_self)).follows course
    apply Follows.bind hfirst course
    intro tombstone
    exact Follows.bind (ih fun other hother => h other (List.mem_cons_of_mem _ hother)) course fun tombstones =>
      .pure course (tombstone :: tombstones)

theorem deleteLiveLeaves_ends (course : Course R) (hanchored : writer.database.Anchored)
    (h : ∀ revs draft, Edit.liveLeaves doc ⟨writer.database.tables, writer.blobs, []⟩ = .ok revs draft →
      ∀ rev ∈ revs, (Edit.bury doc rev).Runs R) :
    EndsAt R (fun _ _ => True) (edit (Edit.liveLeaves doc) >>= deleteEach doc) (opened writer) := by
  have hread : EndsAt R (fun _ _ => True) (edit (Edit.liveLeaves doc)) (opened writer) :=
    .edit (group_opened writer) ((Edit.liveLeaves_runs course doc).runsFrom _)
  have hdelete : ∀ revs between, edit (Edit.liveLeaves doc) (opened writer) = .ok revs between →
      between.database.Anchored → EndsAt R (fun _ _ => True) (deleteEach doc revs) between := by
    intro revs between hrevs hbetween
    obtain ⟨draft, hleaves, -⟩ := edit_ok hrevs
    exact (deleteEach_follows course (h revs draft hleaves)).strives between hbetween
  exact hread.bind (anchored_opened hanchored) (fun _ _ _ => course.trans) (fun _ _ _ _ _ => trivial) hdelete

theorem deleteAllLeaves_ends (course : Course R) (hanchored : writer.database.Anchored)
    (h : ∀ revs draft, Edit.liveLeaves doc ⟨writer.database.tables, writer.blobs, []⟩ = .ok revs draft →
      ∀ rev ∈ revs, (Edit.bury doc rev).Runs R) : EndsAt R Holdings.Kept (deleteAllLeaves doc) writer :=
  .transact (deleteLiveLeaves_ends course hanchored h)

theorem graft_ends {item : Graft} (h : item.check = .ok () → (Edit.graft item).Runs R) :
    Ends R Holdings.Kept (graft item) := fun writer hanchored =>
  .check course_kept fun hcheck => Ends.transact_edit (h hcheck) writer hanchored

theorem graft_ok {item : Graft} {found : Option Revision} {after : Writer} (h : graft item writer = .ok found after) :
    item.check = .ok () ∧ ∃ draft, Edit.graft item ⟨writer.database.tables, writer.blobs, []⟩ = .ok found draft ∧
      after.database.tables = draft.tables := by
  obtain ⟨_, _, hpassed, h⟩ := ok_bind_iff.mp h
  obtain ⟨hcheck, rfl⟩ := check_ok_iff.mp hpassed
  obtain ⟨draft, hwork, hsame⟩ := transact_edit_ok (Edit.graft_grows item) h
  exact ⟨hcheck, draft, hwork, congrArg Holdings.tables hsame⟩

end Action

/-- A mutation goes along the relation if it succeeds, and leaves the tables as they were if it fails. -/
theorem Mutation.run_ends {mutation : Mutation} {writer : Writer} (course : Course R)
    (h : mutation.Runs R writer.holdings) (hanchored : writer.database.Anchored) :
    Action.EndsAt R Holdings.Kept mutation.run writer := by
  cases mutation with
  | create doc body attachments =>
    exact (Action.create_ends course h doc writer hanchored).bind_of_total hanchored course fun _ => .pure course _
  | update doc expected body changes =>
    exact (Action.update_ends h).bind_of_total hanchored course fun _ => .pure course _
  | delete doc rev =>
    exact (Action.delete_ends h writer hanchored).bind_of_total hanchored course fun _ => .pure course _
  | deleteAllLeaves doc =>
    exact (Action.deleteAllLeaves_ends course hanchored h).bind_of_total hanchored course fun _ => .pure course _
  | graft item =>
    apply (Action.graft_ends h writer hanchored).bind_of_total hanchored course
    intro found
    cases found with
    | some revision => exact .pure course _
    | none => exact .pure course _

theorem Mutation.run_follows_of {mutation : Mutation} (course : Course R) (h : ∀ holdings, mutation.Runs R holdings) :
    Action.Follows R mutation.run :=
  Action.Ends.follows (fun _ hanchored => mutation.run_ends course (h _) hanchored) course

theorem Mutation.run_follows (covers : Covers R) (mutation : Mutation) : Action.Follows R mutation.run :=
  mutation.run_follows_of covers.toCourse (covers.runs mutation)

/-! ### Commands -/

mutual

/-- Commands that do not reach below the mutations. -/
def Command.Plain : Command → Prop
  | .operate _ => False
  | .attempt command => command.Plain
  | .transact script => Command.AllPlain script
  | _ => True

def Command.AllPlain : List Command → Prop
  | [] => True
  | command :: rest => command.Plain ∧ Command.AllPlain rest

end

mutual

/-- The mutations that a command makes, in whatever groups. -/
def Command.Makes (mutation : Mutation) : Command → Prop
  | .mutate other => other = mutation
  | .attempt command => command.Makes mutation
  | .transact script => Command.AnyMakes mutation script
  | _ => False

def Command.AnyMakes (mutation : Mutation) : List Command → Prop
  | [] => False
  | command :: rest => command.Makes mutation ∨ Command.AnyMakes mutation rest

end

mutual

theorem Command.run_follows_of (course : Course R) : ∀ command : Command, command.Plain →
    (∀ mutation, command.Makes mutation → ∀ holdings, mutation.Runs R holdings) → Action.Follows R command.run
  | .mutate mutation, _, hruns =>
    Action.Follows.bind (mutation.run_follows_of course (hruns mutation rfl)) course fun _ => .pure course _
  | .operate _, hplain, _ => hplain.elim
  | .putBlob data, _, _ => .bind (.putBlob course data) course fun _ => .pure course _
  | .fail error, _, _ => .fail course error
  | .panic, _, _ => .panic course
  | .attempt command, hplain, hruns => .attempt (Command.run_follows_of course command hplain hruns)
  | .transact script, hplain, hruns =>
    .bind ((Action.Ends.transact (Command.runAll_follows_of course script hplain hruns).strives).follows course)
      course fun _ => .pure course _

theorem Command.runAll_follows_of (course : Course R) : ∀ script : List Command, Command.AllPlain script →
    (∀ mutation, Command.AnyMakes mutation script → ∀ holdings, mutation.Runs R holdings) →
    Action.Follows R (Command.runAll script)
  | [], _, _ => .pure course []
  | command :: rest, hplain, hruns =>
    .bind (Command.run_follows_of course command hplain.1 fun mutation hmakes => hruns mutation (.inl hmakes)) course
      fun _ => .bind (Command.runAll_follows_of course rest hplain.2 fun mutation hmakes => hruns mutation (.inr hmakes))
        course fun _ => .pure course _

end

theorem Command.run_follows (covers : Covers R) (command : Command) (hplain : command.Plain) :
    Action.Follows R command.run :=
  command.run_follows_of covers.toCourse hplain fun mutation _ => covers.runs mutation

theorem Command.runAll_follows (covers : Covers R) (script : List Command) (hplain : Command.AllPlain script) :
    Action.Follows R (Command.runAll script) :=
  Command.runAll_follows_of covers.toCourse script hplain fun mutation _ => covers.runs mutation

theorem Command.group_ends (covers : Covers R) {script : List Command} (hplain : Command.AllPlain script) :
    Action.Ends R Holdings.Kept (Command.transact script).run := fun writer hanchored =>
  (Action.Ends.transact (Command.runAll_follows covers script hplain).strives writer hanchored).bind_of_total hanchored
    covers.toCourse fun _ => .pure covers.toCourse _

end RevisionForest
