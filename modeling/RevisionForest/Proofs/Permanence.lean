import RevisionForest.Proofs.Views
import RevisionForest.Proofs.Reachable
/-!
# Stored revisions stay as they are

No mutation takes a stored revision away or changes what is stored of it besides its winner flag, with one exception. An update that derives an id which its document has already does not notice, and describes its attachments to the revision that is there. So whatever a command does, a revision is retained as it was unless some update in it derives its id with attachments (`Store.Reachable.append_only`), and a batch of grafts retains all.

The attachments of all other edits belong to a row that is new. This is what makes the exception the only one (`Tables.Extends.retains`).
-/

namespace RevisionForest

/-- An update of a document derives the id of this text, if it finds certain attachments, and has some to describe. -/
def Mutation.Describes (mutation : Mutation) (doc text : String) : Prop :=
  ∃ expected body changes found kept,
    let described := kept ++ changes.put.map (·.stored (expected.generation + 1))
    mutation = .update doc expected body changes ∧ Edit.keptAttachments found changes = .ok kept ∧ described ≠ [] ∧
      text = (RevId.derive (some expected) false body (Attachment.digests described)).text

namespace Tables

/-- What is described as attached to a revision. -/
def attachmentRows (tables : Tables) (sequence : Int) : List AttachmentRow :=
  tables.attachments.filter fun row => row.sequence = sequence

/-- A stored revision is still there in its document, the same up to its winner flag, with the same attachments; only a revision of one of some ids may have got further ones. -/
structure Retains (exempt : String → String → Prop) (before after : Tables) (row : RevisionRow) : Prop where
  home : after.documentId? row.document = before.documentId? row.document
  stored : ∃ kept ∈ after.revisions, kept.bare = row.bare
  prior : before.attachmentRows row.sequence <+: after.attachmentRows row.sequence
  described : after.attachmentRows row.sequence = before.attachmentRows row.sequence ∨
    ∃ doc, before.documentId? row.document = some doc ∧ exempt doc row.revText

/-- All stored revisions are still there as they were, up to their winner flags. -/
def RetainsAll (before after : Tables) : Prop :=
  ∀ row ∈ before.revisions, before.Retains (fun _ _ => False) after row

variable {exempt : String → String → Prop} {before between after : Tables} {row : RevisionRow} {added : List AttachmentRow}

theorem Retains.refl (hrow : row ∈ before.revisions) : before.Retains exempt before row :=
  ⟨rfl, ⟨row, hrow, rfl⟩, List.prefix_rfl, .inl rfl⟩

theorem Retains.trans (h : before.Retains exempt between row)
    (h' : ∀ kept ∈ between.revisions, between.Retains exempt after kept) : before.Retains exempt after row := by
  obtain ⟨kept, hkept, hbare⟩ := h.stored
  obtain ⟨hsequence, hdocument, -, -, -, htext, -⟩ := RevisionRow.bare_eq_iff.mp hbare
  obtain ⟨home, ⟨last, hlast, hsame⟩, hprior, hdescribed⟩ := h' kept hkept
  rw [hdocument] at home hdescribed
  rw [hsequence] at hprior hdescribed
  rw [h.home, htext] at hdescribed
  refine ⟨home.trans h.home, ⟨last, hlast, hsame.trans hbare⟩, h.prior.trans hprior, ?_⟩
  rcases hdescribed with heq | hexempt
  · exact h.described.imp_left heq.trans
  · exact .inr hexempt

theorem attachmentRows_append (hattachments : after.attachments = before.attachments ++ added) (sequence : Int) :
    after.attachmentRows sequence = before.attachmentRows sequence ++ added.filter fun row => row.sequence = sequence := by
  rw [attachmentRows, hattachments, List.filter_append]
  rfl

theorem Extends.retains (h : before.Extends after) (shape : before.Shape) (hrow : row ∈ before.revisions)
    (hattachments : after.attachments = before.attachments ++ added)
    (hadded : ∀ attachment ∈ added, attachment.sequence = row.sequence →
      ∃ doc, before.documentId? row.document = some doc ∧ exempt doc row.revText) :
    before.Retains exempt after row := by
  obtain ⟨⟨number, doc⟩, hhome, rfl⟩ := shape.homes row hrow
  have hfound := shape.documentId?_eq_some_iff.mpr hhome
  have hrows := attachmentRows_append hattachments row.sequence
  refine ⟨(h.documentId? hfound).trans hfound.symm, h.exists_row hrow, hrows ▸ List.prefix_append _ _, ?_⟩
  cases hnew : added.filter fun row' => row'.sequence = row.sequence with
  | nil => exact .inl (by rw [hrows, hnew, List.append_nil])
  | cons attachment rest =>
    obtain ⟨hmem, htest⟩ := List.mem_filter.mp (hnew ▸ List.mem_cons_self : attachment ∈ _)
    exact .inr (hadded attachment hmem (of_decide_eq_true htest))

theorem Extends.retains_of_fresh {sequence : Int} {described : List Attachment} (h : before.Extends after)
    (shape : before.Shape) (hrow : row ∈ before.revisions)
    (hattachments : after.attachments = before.attachments ++ described.map (attachmentRow sequence))
    (hfresh : before.lastSequence < sequence) : before.Retains exempt after row := by
  refine h.retains shape hrow hattachments fun attachment hmem heq => ?_
  obtain ⟨_, -, rfl⟩ := List.mem_map.mp hmem
  exact absurd (heq ▸ hfresh) (Int.not_lt.mpr (sequence_le_lastSequence hrow))

theorem Derives.retains {child : NewRevision} {described : List Attachment} {revision : Revision} {doc : String}
    (h : before.Derives after child described revision) (shape : before.Shape)
    (hnumber : before.documentNumber? doc = some child.document) (hexempt : described ≠ [] → exempt doc child.rev.text)
    (hrow : row ∈ before.revisions) : before.Retains exempt after row := by
  cases h with
  | grown _ hgains =>
    exact hgains.extends.retains_of_fresh shape hrow hgains.attachments (Int.lt_add_one_iff.mpr (Int.le_refl _))
  | stored sequence hfound hgains =>
    refine hgains.extends.retains shape hrow hgains.attachments fun attachment hmem heq => ?_
    obtain ⟨_, hdescribed, rfl⟩ := List.mem_map.mp hmem
    obtain ⟨found, hmem, hdocument, htext, hsequence⟩ := shape.sequenceOf?_eq_some_iff.mp hfound
    obtain rfl := shape.eq_of_sequence hmem hrow (hsequence.trans heq)
    have hhome := shape.documentId?_eq_some_iff.mpr (shape.documentNumber?_eq_some_iff.mp hnumber)
    exact ⟨doc, hdocument ▸ hhome, htext ▸ hexempt (List.ne_nil_of_mem hdescribed)⟩

/-- All revisions are retained as they were exactly if the one that was wanted is new or comes without attachments. -/
theorem Derives.retains_iff {child : NewRevision} {described : List Attachment} {revision : Revision} {doc : String}
    (h : before.Derives after child described revision) (shape : before.Shape)
    (hnumber : before.documentNumber? doc = some child.document) :
    before.RetainsAll after ↔ before.sequenceOf? child.document child.rev = none ∨ described = [] := by
  cases h with
  | grown hfresh hgains =>
    refine iff_of_true (fun row hrow => ?_) (.inl hfresh)
    exact hgains.extends.retains_of_fresh shape hrow hgains.attachments (Int.lt_add_one_iff.mpr (Int.le_refl _))
  | stored sequence hfound hgains hrev hparent =>
    rw [hfound, or_iff_right (Option.some_ne_none _)]
    constructor
    · intro hall
      obtain ⟨row, hrow, -, -, rfl⟩ := shape.sequenceOf?_eq_some_iff.mp hfound
      have hrows := attachmentRows_append hgains.attachments row.sequence
      have hown : (described.map (attachmentRow row.sequence)).filter (fun row' => row'.sequence = row.sequence)
          = described.map (attachmentRow row.sequence) := by
        refine List.filter_eq_self.mpr fun attachment hmem => ?_
        obtain ⟨_, -, rfl⟩ := List.mem_map.mp hmem
        exact decide_eq_true rfl
      rcases (hall row hrow).described with heq | ⟨_, -, hnever⟩
      · rw [hrows, hown] at heq
        exact List.map_eq_nil_iff.mp (List.append_right_eq_self.mp heq)
      · exact hnever.elim
    · intro hnone row hrow
      exact (Derives.stored sequence hfound hgains hrev hparent).retains shape hnumber (absurd hnone) hrow

end Tables

/-! ### Mutations -/

/-- Healthy tables stay healthy and retain all their revisions. -/
def Holdings.Retains (exempt : String → String → Prop) (before after : Holdings) : Prop :=
  before.tables.Healthy →
    after.tables.Healthy ∧ ∀ row ∈ before.tables.revisions, before.tables.Retains exempt after.tables row

variable {exempt : String → String → Prop}

theorem course_retains (exempt : String → String → Prop) : Course (Holdings.Retains exempt) where
  refl := fun _ _ _ _ _ healthy => ⟨healthy, fun _ hrow => .refl hrow⟩
  trans := by
    intro first second third hfirst hsecond healthy
    obtain ⟨hbetween, hretains⟩ := hfirst healthy
    obtain ⟨hafter, hretains'⟩ := hsecond hbetween
    exact ⟨hafter, fun row hrow => (hretains row hrow).trans hretains'⟩

namespace Edit

variable {doc : String} {body : Bytes}

theorem create_retains (doc : String) (body : Bytes) (attachments : List NewAttachment) :
    (create doc body attachments).Runs (Holdings.Retains exempt) := by
  refine ⟨create_grows doc body attachments, fun draft value draft' h _ healthy => ?_⟩
  obtain ⟨-, hafter, hgains⟩ := create_effect healthy h
  have hextends := (Tables.Extends.register draft.tables doc).trans hgains.extends
  exact ⟨hafter, fun row hrow => hextends.retains_of_fresh healthy.shape hrow hgains.attachments
    (Int.lt_add_one_iff.mpr (Int.le_refl _))⟩

theorem update_retains {expected : RevId} {changes : AttachmentChanges}
    (hexempt : ∀ text, (Mutation.update doc expected body changes).Describes doc text → exempt doc text) :
    (update doc expected body changes).Runs (Holdings.Retains exempt) := by
  refine ⟨update_grows doc expected body changes, fun draft value draft' h _ healthy => ?_⟩
  obtain ⟨number, row, attachments, kept, ⟨hnumber, -, -, -, -, hkept⟩, hafter, -, hderives⟩ := update_effect healthy h
  refine ⟨hafter, fun row hrow => hderives.retains healthy.shape hnumber (fun hsome => ?_) hrow⟩
  exact hexempt _ ⟨expected, body, changes, attachments, kept, rfl, hkept, hsome, rfl⟩

theorem bury_retains (doc : String) (rev : RevId) : (bury doc rev).Runs (Holdings.Retains exempt) := by
  refine ⟨bury_grows doc rev, fun draft value draft' h _ healthy => ?_⟩
  obtain ⟨number, row, ⟨hnumber, -⟩, hafter, -, hderives⟩ := bury_effect healthy h
  exact ⟨hafter, fun row hrow => hderives.retains healthy.shape hnumber (fun hsome => absurd rfl hsome) hrow⟩

theorem graft_retains {item : Graft} (hcheck : item.check = .ok ()) : (graft item).Runs (Holdings.Retains exempt) := by
  refine ⟨graft_grows item, fun draft value draft' h _ (healthy : draft.tables.Healthy) => ?_⟩
  obtain ⟨rev, number, opened, ⟨-, hopen, hafter⟩, hcases⟩ :=
    graft_effect healthy (Graft.check_ok_iff.mp hcheck).2.2.1 h
  obtain ⟨-, -, hopened, hrevisions, hattachments⟩ := Tables.openTables_ok healthy hopen
  refine ⟨hafter, fun row hrow => ?_⟩
  rcases hcases with ⟨-, -, heq, -⟩ | ⟨-, -, hgains⟩
  · rw [← heq] at hopened hattachments
    exact hopened.retains healthy.shape hrow (hattachments.trans (List.append_nil _).symm) (List.forall_mem_nil _)
  · have hlast : draft.tables.lastSequence = opened.lastSequence := by rw [Tables.lastSequence, ← hrevisions]; rfl
    refine (hopened.trans hgains.extends).retains_of_fresh healthy.shape hrow (hattachments ▸ hgains.attachments) ?_
    omega

end Edit

/-- A mutation retains every revision but those that it describes attachments to. -/
theorem Mutation.runs_retains (mutation : Mutation) (hexempt : ∀ doc text, mutation.Describes doc text → exempt doc text)
    (holdings : Holdings) : mutation.Runs (Holdings.Retains exempt) holdings := by
  cases mutation with
  | create _ body attachments => exact fun doc _ _ => Edit.create_retains doc body attachments
  | update doc expected body changes => exact fun _ _ => (Edit.update_retains (hexempt doc)).runsFrom holdings
  | delete doc rev => exact Edit.bury_retains doc rev
  | deleteAllLeaves doc => exact fun _ _ _ rev _ => Edit.bury_retains doc rev
  | graft item => exact Edit.graft_retains

namespace Store

variable {store : Store}

theorem update_retains_iff {doc : String} {expected : RevId} {body : Bytes} {changes : AttachmentChanges}
    {revision : Revision} {after : Store} (healthy : store.writer.database.tables.Healthy)
    (h : update doc expected body changes store = .ok revision after) :
    ∃ attachments kept, store.attachments doc expected = .ok attachments ∧
      Edit.keptAttachments attachments changes = .ok kept ∧
      (store.writer.database.tables.RetainsAll after.writer.database.tables ↔
        store.writer.database.tables.place? doc revision.rev = none ∨ (kept = [] ∧ changes.put = [])) := by
  obtain ⟨hopen, writer, hwriter, -, rfl⟩ := execute_ok_iff.mp h
  obtain ⟨draft, hwork, htables⟩ := Action.update_ok hwriter
  obtain ⟨number, row, attachments, kept, ⟨hnumber, hrow, htext, -, hattachments, hkept⟩, -, -, hderives⟩ :=
    Edit.update_effect healthy hwork
  obtain ⟨hmem, hdocument, -⟩ := Tables.mem_leafRows_iff.mp hrow
  refine ⟨attachments, kept, attachments_of_row hopen healthy hnumber hmem hdocument htext hattachments, hkept, ?_⟩
  have hplace : store.writer.database.tables.place? doc revision.rev
      = store.writer.database.tables.sequenceOf? number revision.rev := by
    rw [Tables.place?, hnumber]
    rfl
  have hiff := hderives.retains_iff healthy.shape hnumber
  rw [← htables, List.append_eq_nil_iff, List.map_eq_nil_iff] at hiff
  rw [hplace, hderives.rev_eq]
  exact hiff

/-- A command retains every revision as it was, unless an update in it derives the id of this revision and brings attachments. -/
theorem Reachable.append_only (h : store.Reachable) :
    (∀ command : Command, command.Plain → ∀ row ∈ store.writer.database.tables.revisions,
      store.writer.database.tables.Retains
        (fun doc text => ∃ mutation, command.Makes mutation ∧ mutation.Describes doc text)
        (stateAfter (submit command) store).writer.database.tables row) ∧
    (∀ script : Script, Command.AllPlain script → ∀ row ∈ store.writer.database.tables.revisions,
      store.writer.database.tables.Retains
        (fun doc text => ∃ mutation, Command.AnyMakes mutation script ∧ mutation.Describes doc text)
        (executeScript script store).2.writer.database.tables row) ∧
    (∀ items, store.writer.database.tables.RetainsAll
      (stateAfter (Store.graftAll items) store).writer.database.tables) ∧
    ∀ doc expected body changes revision after, update doc expected body changes store = .ok revision after →
      ∃ attachments kept, store.attachments doc expected = .ok attachments ∧
        Edit.keptAttachments attachments changes = .ok kept ∧
        (store.writer.database.tables.RetainsAll after.writer.database.tables ↔
          store.writer.database.tables.place? doc revision.rev = none ∨ (kept = [] ∧ changes.put = [])) := by
  obtain ⟨hrest, healthy⟩ := h.healthy
  refine ⟨fun command hplain => ?_, fun script hplain => ?_, fun items => ?_,
    fun doc expected body changes revision after hupdate => update_retains_iff healthy hupdate⟩
  · have hfollows : Action.Follows (Holdings.Retains fun doc text =>
        ∃ mutation, command.Makes mutation ∧ mutation.Describes doc text) command.run :=
      command.run_follows_of (course_retains _) hplain fun mutation hmakes =>
        mutation.runs_retains fun doc text hdescribes => ⟨mutation, hmakes, hdescribes⟩
    rw [stateAfter_submit]
    exact ((execute_follows (course_retains _) hfollows hrest).2 healthy).2
  · have hfollows : Action.Follows (Holdings.Retains fun doc text =>
        ∃ mutation, Command.AnyMakes mutation script ∧ mutation.Describes doc text) (Command.runAll script) :=
      Command.runAll_follows_of (course_retains _) script hplain fun mutation hmakes =>
        mutation.runs_retains fun doc text hdescribes => ⟨mutation, hmakes, hdescribes⟩
    rw [executeScript_eq]
    split
    · exact fun row hrow => .refl hrow
    · exact ((Writer.run_follows hfollows hrest).2 healthy).2
  · rw [stateAfter_graftAll]
    split
    · exact fun row hrow => .refl hrow
    · exact ((graftEach_follows_of (course_retains _) (fun item => Edit.graft_retains) items hrest).2 healthy).2

/-- An update that brings an attachment and derives a new id. -/
theorem append_only_updated :
    let root : RevId := ⟨1, "a", by decide, by decide⟩
    let store := stateAfter (Store.graftAll [{ doc := "d", history := [root], body := some Body.empty }]) (new {})
    ∃ revision after, update "d" root Body.empty { put := [.plain "x" "text/plain" []] } store = .ok revision after ∧
      store.writer.database.tables.RetainsAll after.writer.database.tables := by
  intro root store
  have hreachable : store.Reachable := ⟨by decide +kernel, {}, {}, Onward.graftAll _ .start⟩
  have hfresh : (match update "d" root Body.empty { put := [.plain "x" "text/plain" []] } store with
      | .ok revision _ => store.writer.database.tables.place? "d" revision.rev
      | .error _ _ => some 0) = none := by decide +kernel
  cases hupdate : update "d" root Body.empty { put := [.plain "x" "text/plain" []] } store with
  | error error after =>
    rw [hupdate] at hfresh
    nomatch hfresh
  | ok revision after =>
    rw [hupdate] at hfresh
    obtain ⟨_, _, -, -, hiff⟩ := hreachable.append_only.2.2.2 "d" root _ _ revision after hupdate
    exact ⟨revision, after, rfl, hiff.mpr (.inl hfresh)⟩

/-- A tombstone that another peer has stored under the id that an update derives gets the attachment of the update. -/
theorem tombstone_described :
    let root : RevId := ⟨1, "a", by decide, by decide⟩
    let taken : RevId := ⟨2, "0a8cc3209c47b7e0e216463137715389", by decide, by decide⟩
    let grafts : List Graft := [{ doc := "d", history := [root], body := some Body.empty },
      { doc := "d", history := [taken], body := some Body.empty, deleted := true }]
    let store := stateAfter (Store.graftAll grafts) (new {})
    let after := stateAfter (update "d" root Body.empty { put := [.plain "x" "text/plain" []] }) store
    (store.attachments "d" taken).map (·.map (·.name)) = .ok [] ∧
      (after.attachments "d" taken).map (·.map (·.name)) = .ok ["x"] := by
  decide +kernel

end Store

end RevisionForest
