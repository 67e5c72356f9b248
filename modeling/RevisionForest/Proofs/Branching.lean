import RevisionForest.Proofs.Merging
import RevisionForest.Proofs.Keeping
/-!
# Branches

Seen from the tables, every edit does one of two things: it leaves documents and rows as they are, apart from flags and descriptions of attachments, or it gives one document, opened if it was new, a branch of stubs with a revision below them (`Tables.Branches`). Each row of a branch is one generation below the one before it, and the first one is a root or one generation below a row that was there: a derived id counts one from its parent, and a graft is refused if its history leaves out a generation. Every edit comes to a chain of such steps (`covers_branched`), so what a step keeps holds of every store: every child stays one generation below its parent (`Tables.Graded`), and every document has a revision (`Tables.Inhabited`).
-/

namespace RevisionForest

/-- From nothing to any id, and from an id to those of the next generation. -/
def RevId.Follows : Option RevId → RevId → Prop
  | none, _ => True
  | some older, newer => newer.generation = older.generation + 1

namespace Tables

/-- What an edit does to the rows. -/
inductive Branches (before after : Tables) : Prop
  | kept {attachments : List AttachmentRow} (hgains : before.Gains after [] attachments)
  | grown {doc : String} {number : Int} {opened : Tables} {parent : Option Int} {missing : List RevId} {rev : RevId}
    {tip : RevisionRow} {attachments : List AttachmentRow} (hopen : Edit.openTables doc before = .ok number opened)
    (hgains : opened.Gains after (stubRows number parent (opened.lastSequence + 1) missing ++ [tip]) attachments)
    (hdocument : tip.document = number) (htext : tip.revText = rev.text)
    (hparent : tip.parent = lastStub parent (opened.lastSequence + 1) missing)
    (hchain : (missing ++ [rev]).IsChain fun older newer => RevId.Follows (some older) newer)
    (hfirst : ∀ first, (missing ++ [rev]).head? = some first → opened.Joins RevId.Follows number parent first)

/-- Each row is one generation below the row of its parent. -/
def Graded (tables : Tables) : Prop :=
  ∀ bone ∈ tables.bones, ∃ rev : RevId, bone.revText = rev.text ∧
    tables.Joins RevId.Follows bone.document bone.parent rev

/-- Every document has a revision. -/
def Inhabited (tables : Tables) : Prop :=
  ∀ document ∈ tables.documents, ∃ bone ∈ tables.bones, bone.document = document.number

variable {before after opened : Tables} {rows : List RevisionRow} {attachments : List AttachmentRow} {number : Int}
  {doc : String}

/-! ### What a branch keeps -/

theorem Graded.grow (h : before.Graded) (hgains : before.Gains after rows attachments)
    (hrows : ∀ row ∈ rows, ∃ rev : RevId, row.revText = rev.text ∧
      after.Joins RevId.Follows row.document row.parent rev) : after.Graded := by
  intro bone hbone
  rw [hgains.bones] at hbone
  rcases List.mem_append.mp hbone with hold | hnew
  · obtain ⟨rev, htext, hjoins⟩ := h bone hold
    exact ⟨rev, htext, hjoins.mono hgains.extends⟩
  · exact hrows bone hnew

theorem openTables_bones (h : Edit.openTables doc before = .ok number opened) :
    opened.bones = before.bones ∧ opened.attachments = before.attachments := by
  rcases openTables_ok_iff.mp h with ⟨-, rfl⟩ | ⟨-, -, rfl⟩
  · exact ⟨rfl, rfl⟩
  · exact ⟨rfl, rfl⟩

theorem Inhabited.exists_row {document : DocumentRow} (h : before.Inhabited) (hdocument : document ∈ before.documents) :
    ∃ row ∈ before.revisions, row.document = document.number := by
  obtain ⟨bone, hbone, hhome⟩ := h document hdocument
  obtain ⟨row, hrow, rfl⟩ := mem_bones_iff.mp hbone
  exact ⟨row, hrow, hhome⟩

theorem Graded.of_bones (h : before.Graded) (hbones : after.bones = before.bones) : after.Graded := by
  intro bone hbone
  rw [hbones] at hbone
  obtain ⟨rev, htext, hjoins⟩ := h bone hbone
  refine ⟨rev, htext, hjoins.imp_right ?_⟩
  rintro ⟨older, sequence, hstep, hparent, hstored⟩
  refine ⟨older, sequence, hstep, hparent, ?_⟩
  rwa [sequenceOf?_eq_bones, hbones, ← sequenceOf?_eq_bones]

theorem exists_rev_of_stubRows {parent : Option Int} {sequence : Int} {missing : List RevId} {row : RevisionRow}
    (hrow : row ∈ stubRows number parent sequence missing) : ∃ rev : RevId, row.revText = rev.text := by
  induction missing generalizing parent sequence with
  | nil => exact absurd hrow List.not_mem_nil
  | cons stubbed rest ih =>
    rcases List.mem_cons.mp hrow with rfl | hrow
    · exact ⟨stubbed, rfl⟩
    · exact ih hrow

theorem Branches.graded (h : before.Branches after) (shape : after.Shape) (hgraded : before.Graded) : after.Graded := by
  cases h with
  | kept hgains => exact hgraded.grow hgains fun row hrow => absurd hrow List.not_mem_nil
  | @grown _ number opened parent missing rev tip _ hopen hgains hdocument htext hparent hchain hfirst =>
    have hadded : ∀ row ∈ stubRows number parent (opened.lastSequence + 1) missing ++ [tip], row ∈ after.bones := by
      intro row hrow
      rw [hgains.bones]
      exact List.mem_append_right _ hrow
    obtain ⟨hstubs, hlast⟩ := joins_stubRows shape hchain (fun first hhead => (hfirst first hhead).mono hgains.extends)
      fun row hrow => hadded row (List.mem_append_left _ hrow)
    refine (hgraded.of_bones (openTables_bones hopen).1).grow hgains fun row hrow => ?_
    rcases List.mem_append.mp hrow with hstub | htip
    · obtain ⟨other, hother⟩ := exists_rev_of_stubRows hstub
      rw [document_of_mem_branch hdocument row hrow]
      exact ⟨other, hother, hstubs row hstub other hother⟩
    · obtain rfl := List.mem_singleton.mp htip
      rw [hdocument, hparent]
      exact ⟨rev, htext, hlast⟩

theorem Branches.inhabited (h : before.Branches after) (hinhabited : before.Inhabited) : after.Inhabited := by
  cases h with
  | kept hgains =>
    intro document hdocument
    rw [hgains.documents] at hdocument
    obtain ⟨bone, hbone, hhome⟩ := hinhabited document hdocument
    exact ⟨bone, hgains.extends.bones.subset hbone, hhome⟩
  | @grown _ number opened parent missing rev tip _ hopen hgains hdocument =>
    have hold : ∀ document ∈ before.documents, ∃ bone ∈ after.bones, bone.document = document.number := by
      intro document hmem
      obtain ⟨bone, hbone, hhome⟩ := hinhabited document hmem
      rw [← (openTables_bones hopen).1] at hbone
      exact ⟨bone, hgains.extends.bones.subset hbone, hhome⟩
    intro document hmem
    rw [hgains.documents] at hmem
    rcases openTables_ok_iff.mp hopen with ⟨-, rfl⟩ | ⟨-, hnumber, rfl⟩
    · exact hold document hmem
    · rcases List.mem_append.mp hmem with hmem | hnew
      · exact hold document hmem
      · rw [List.mem_singleton.mp hnew]
        refine ⟨tip, ?_, hdocument.trans hnumber.symm⟩
        rw [hgains.bones]
        exact List.mem_append_right _ (List.mem_append_right _ (List.mem_singleton.mpr rfl))

/-! ### What edits do -/

theorem branches_of_row {new : NewRevision} {sequence : Int} (hopen : Edit.openTables doc before = .ok number opened)
    (hgains : opened.Gains after [(new.row sequence).bare] attachments) (hhome : new.document = number)
    (hjoins : opened.Joins RevId.Follows number new.parent new.rev) : before.Branches after := by
  have hbranch : opened.Gains after
      (stubRows number new.parent (opened.lastSequence + 1) [] ++ [(new.row sequence).bare]) attachments := hgains
  refine .grown hopen hbranch hhome rfl rfl (List.isChain_singleton _) fun first hfirst => ?_
  obtain rfl := Option.some.inj hfirst
  exact hjoins

theorem Derives.branches {child : NewRevision} {described : List Attachment} {revision : Revision} {row : RevisionRow}
    {expected : RevId} (h : before.Derives after child described revision) (shape : before.Shape)
    (hnumber : before.documentNumber? doc = some child.document) (hrow : row ∈ before.leafRows child.document)
    (htext : row.revText = expected.text) (hparent : child.parent = some row.sequence)
    (hrev : child.rev.generation = expected.generation + 1) : before.Branches after := by
  cases h with
  | stored _ _ hgains => exact .kept hgains
  | grown _ hgains =>
    obtain ⟨hmem, hhome, -⟩ := mem_leafRows_iff.mp hrow
    have hstored := shape.sequenceOf?_eq_some_iff.mpr ⟨row, hmem, hhome, htext, rfl⟩
    exact branches_of_row (openTables_ok_iff.mpr (.inl ⟨hnumber, rfl⟩)) hgains rfl
      (.inr ⟨expected, row.sequence, hrev, hparent, hstored⟩)

theorem openTables_of_known {rev : RevId} (shape : before.Shape) (hopen : Edit.openTables doc before = .ok number opened)
    (hthere : (opened.sequenceOf? number rev).isSome = true) : opened = before := by
  rcases openTables_ok_iff.mp hopen with ⟨-, rfl⟩ | ⟨-, rfl, rfl⟩
  · rfl
  · obtain ⟨bone, hbone, hhome, -⟩ := stores_iff.mpr hthere
    exact absurd hhome (shape.fresh_lastNumber bone hbone)

end Tables

open Tables

variable {draft draft' : Draft} {doc : String} {body : Bytes} {revision : Revision}

theorem Edit.create_branches {new : List NewAttachment} (h : Edit.create doc body new draft = .ok revision draft')
    (healthy : draft.tables.Healthy) : draft'.tables.Healthy ∧ draft.tables.Branches draft'.tables := by
  obtain ⟨⟨hnamed, hfree, -⟩, hafter, hgains⟩ := Edit.create_effect healthy h
  exact ⟨hafter, branches_of_row (openTables_of_free hnamed hfree) hgains rfl (.inl ⟨trivial, rfl⟩)⟩

theorem Edit.update_branches {expected : RevId} {changes : AttachmentChanges}
    (h : Edit.update doc expected body changes draft = .ok revision draft') (healthy : draft.tables.Healthy) :
    draft'.tables.Healthy ∧ draft.tables.Branches draft'.tables := by
  obtain ⟨number, row, _, _, ⟨hnumber, hrow, htext, -⟩, hafter, -, hderives⟩ := Edit.update_effect healthy h
  exact ⟨hafter, hderives.branches healthy.shape hnumber hrow htext rfl rfl⟩

theorem Edit.bury_branches {rev : RevId} (h : Edit.bury doc rev draft = .ok revision draft')
    (healthy : draft.tables.Healthy) : draft'.tables.Healthy ∧ draft.tables.Branches draft'.tables := by
  obtain ⟨number, row, ⟨hnumber, hrow, htext, -⟩, hafter, -, hderives⟩ := Edit.bury_effect healthy h
  exact ⟨hafter, hderives.branches healthy.shape hnumber hrow htext rfl rfl⟩

theorem Edit.graft_branches {item : Graft} {found : Option Revision} (hcheck : item.check = .ok ())
    (h : Edit.graft item draft = .ok found draft') (healthy : draft.tables.Healthy) :
    draft'.tables.Healthy ∧ draft.tables.Branches draft'.tables := by
  obtain ⟨-, -, hgap, -⟩ := Graft.check_ok_iff.mp hcheck
  obtain ⟨rev, number, opened, ⟨hrev, hopen, hafter⟩, hcases⟩ := Edit.graft_effect healthy hgap h
  refine ⟨hafter, ?_⟩
  rcases hcases with ⟨hthere, -, heq, -⟩ | ⟨-, -, hgains⟩
  · rw [heq, openTables_of_known healthy.shape hopen hthere]
    exact .kept (Gains.refl _)
  · obtain ⟨hchain, hfirst⟩ := joins_missing RevId.Follows (Graft.gap?_eq_none_iff.mp hgap) (fun _ _ => trivial) hrev
    exact .grown hopen hgains rfl rfl rfl hchain hfirst

/-! ### Chains of branches -/

/-- A chain of branches, along which the tables stay healthy. -/
def Tables.BranchesTo : Tables → Tables → Prop :=
  Relation.ReflTransGen fun before after => before.Branches after ∧ after.Healthy

/-- Healthy tables stay healthy and change by branches only. -/
def Holdings.Branched (before after : Holdings) : Prop :=
  before.tables.Healthy → after.tables.Healthy ∧ before.tables.BranchesTo after.tables

theorem course_branched : Course Holdings.Branched where
  refl := fun _ _ _ _ _ healthy => ⟨healthy, .refl⟩
  trans := by
    intro first second third hfirst hsecond healthy
    obtain ⟨hbetween, hbranches⟩ := hfirst healthy
    obtain ⟨hafter, hbranches'⟩ := hsecond hbetween
    exact ⟨hafter, hbranches.trans hbranches'⟩

theorem branched_of_step {α : Type} {work : Edit α} (hgrows : work.Grows)
    (h : ∀ draft value draft', work draft = .ok value draft' → draft.tables.Healthy →
      draft'.tables.Healthy ∧ draft.tables.Branches draft'.tables) : work.Runs Holdings.Branched := by
  refine ⟨hgrows, fun draft value draft' hwork feed healthy => ?_⟩
  obtain ⟨hafter, hstep⟩ := h draft value draft' hwork healthy
  exact ⟨hafter, .single ⟨hstep, hafter⟩⟩

theorem covers_branched : Covers Holdings.Branched where
  toCourse := course_branched
  create := fun doc body new _ _ => branched_of_step (Edit.create_grows doc body new) fun _ _ _ => Edit.create_branches
  update := fun doc expected body changes _ _ =>
    branched_of_step (Edit.update_grows doc expected body changes) fun _ _ _ => Edit.update_branches
  bury := fun doc rev => branched_of_step (Edit.bury_grows doc rev) fun _ _ _ => Edit.bury_branches
  graft := fun item hcheck => branched_of_step (Edit.graft_grows item) fun _ _ _ => Edit.graft_branches hcheck

/-- What a step keeps holds of the tables after a chain of steps. -/
theorem Tables.BranchesTo.keeps {property : Tables → Prop} {before after : Tables} (h : before.BranchesTo after)
    (hstep : ∀ before after : Tables, before.Branches after → after.Healthy → property before → property after)
    (hbefore : property before) : property after := by
  induction h with
  | refl => exact hbefore
  | tail _ hlast ih => exact hstep _ _ hlast.1 hlast.2 ih

theorem covers_graded : Covers (Holdings.Keeping Tables.Graded) := by
  refine covers_branched.imp (course_keeping Tables.Graded) fun before after hbranched healthy hgraded => ?_
  obtain ⟨healthy', hbranches⟩ := hbranched healthy
  exact ⟨healthy', hbranches.keeps (fun _ _ hstep healthy => hstep.graded healthy.shape) hgraded⟩

/-- No edit leaves a document without a revision. -/
theorem covers_inhabited : Covers (Holdings.Keeping Tables.Inhabited) := by
  refine covers_branched.imp (course_keeping Tables.Inhabited) fun before after hbranched healthy hinhabited => ?_
  obtain ⟨healthy', hbranches⟩ := hbranched healthy
  exact ⟨healthy', hbranches.keeps (fun _ _ hstep _ => hstep.inhabited) hinhabited⟩

namespace Store

variable {store : Store} {config : Config} {blobs : BlobStore}

theorem Onward.graded (h : (openWith config blobs).Onward store) : store.writer.database.tables.Graded := by
  refine h.keeps covers_graded (fun before after haside hgraded => ?_) rfl healthy_empty fun _ hbone => absurd hbone List.not_mem_nil
  exact hgraded.of_bones haside.bones

theorem Onward.inhabited (h : (openWith config blobs).Onward store) : store.writer.database.tables.Inhabited := by
  refine h.keeps covers_inhabited (fun before after haside hinhabited => ?_) rfl healthy_empty
    fun _ hmem => absurd hmem List.not_mem_nil
  rwa [← haside]

end Store

end RevisionForest
