import RevisionForest.Proofs.Peers
import RevisionForest.Proofs.Stubs
/-!
# What grafts leave in an empty store

A graft adds the revision at the end of its history, with its content, and stubs for the ids above it that were missing. Rows are not written twice, and the descriptions of attachments are added in the same graft as the row that they belong to. So in a store that was filled by grafts only, each row is what the graft that brought it says of it (`Tables.SownBy`): the tip, with the content that was sent, or a stub.
-/

namespace RevisionForest

namespace Tables

/-- The descriptions that belong to a row. -/
def described (tables : Tables) (sequence : Int) : List AttachmentRow :=
  tables.attachments.filter fun row => row.sequence = sequence

/-- A graft has brought a row: as its tip, with its content, or as a stub above the tip. -/
inductive Sown (tables : Tables) (item : Graft) (bone : RevisionRow) : Prop
  | tip {rev : RevId} (hlast : item.history.getLast? = some rev) (htext : bone.revText = rev.text)
    (hdeleted : bone.deleted = item.deleted) (havailable : bone.available = (item.body.isSome || item.deleted))
    (hbody : bone.body = item.body.getD Body.empty)
    (hattachments : tables.described bone.sequence
      = (item.attachments.map (·.stored rev.generation)).map (attachmentRow bone.sequence))
  | above {rev : RevId} (hprior : rev ∈ item.history.dropLast) (htext : bone.revText = rev.text) (hstub : bone.Stub)
    (hattachments : tables.described bone.sequence = [])

/-- Every row was brought by one of some grafts of its document. -/
def SownBy (tables : Tables) (items : List Graft) : Prop :=
  ∀ bone ∈ tables.bones, ∃ item ∈ items,
    tables.documentNumber? item.doc = some bone.document ∧ tables.Sown item bone

variable {before after tables : Tables} {item : Graft} {items : List Graft} {bone : RevisionRow}
  {rows : List RevisionRow} {attachments : List Attachment} {sequence : Int}

theorem Sown.congr (h : before.Sown item bone)
    (hsame : after.described bone.sequence = before.described bone.sequence) : after.Sown item bone := by
  cases h with
  | tip hlast htext hdeleted havailable hbody hattachments =>
    exact .tip hlast htext hdeleted havailable hbody (hsame.trans hattachments)
  | above hprior htext hstub hattachments => exact .above hprior htext hstub (hsame.trans hattachments)

/-! ### Descriptions -/

theorem described_map (attachments : List Attachment) (sequence : Int) :
    (attachments.map (attachmentRow sequence)).filter (fun row => row.sequence = sequence)
      = attachments.map (attachmentRow sequence) := by
  refine List.filter_eq_self.mpr fun row hrow => ?_
  obtain ⟨attachment, -, rfl⟩ := List.mem_map.mp hrow
  exact decide_eq_true rfl

theorem described_append (h : after.attachments = before.attachments ++ attachments.map (attachmentRow sequence))
    (other : Int) :
    after.described other
      = before.described other ++ if sequence = other then attachments.map (attachmentRow sequence) else [] := by
  rw [described, h, List.filter_append]
  by_cases hsame : sequence = other
  · rw [if_pos hsame, ← hsame, described_map, described]
  · rw [if_neg hsame, described, List.append_cancel_left_eq, List.filter_eq_nil_iff]
    intro row hrow
    obtain ⟨attachment, -, rfl⟩ := List.mem_map.mp hrow
    exact fun heq => hsame (of_decide_eq_true heq)

theorem described_describe (other : Int) :
    (tables.describe sequence attachments).described other
      = tables.described other ++ if sequence = other then attachments.map (attachmentRow sequence) else [] :=
  described_append rfl other

theorem described_of_ne {other : Int}
    (h : after.attachments = before.attachments ++ attachments.map (attachmentRow sequence)) (hne : other ≠ sequence) :
    after.described other = before.described other := by
  rw [described_append h, if_neg hne.symm, List.append_nil]

theorem Gains.described_of_ne {other : Int}
    (h : before.Gains after rows (attachments.map (attachmentRow sequence))) (hne : other ≠ sequence) :
    after.described other = before.described other :=
  Tables.described_of_ne h.attachments hne

theorem Shape.described_eq_nil (shape : tables.Shape) (hbeyond : tables.lastSequence < sequence) :
    tables.described sequence = [] := by
  refine List.filter_eq_nil_iff.mpr fun row hrow => ?_
  obtain ⟨owner, howner, hsequence⟩ := shape.owners row hrow
  have hle := sequence_le_lastSequence howner
  simp only [decide_eq_true_eq]
  omega

theorem Shape.described_fresh (shape : before.Shape) (hbeyond : before.lastSequence < sequence)
    (h : after.attachments = before.attachments ++ attachments.map (attachmentRow sequence)) :
    after.described sequence = attachments.map (attachmentRow sequence) := by
  rw [described_append h, shape.described_eq_nil hbeyond, if_pos rfl, List.nil_append]

/-! ### Grafts -/

/-- After a graft each row was there, with the descriptions that it has, or the graft has brought it. -/
theorem graft_sown {draft draft' : Draft} {found : Option Revision} (healthy : draft.tables.Healthy)
    (hcheck : item.check = .ok ()) (hgraft : Edit.graft item draft = .ok found draft') :
    draft'.tables.Healthy ∧ draft.tables.Extends draft'.tables ∧ ∀ bone ∈ draft'.tables.bones,
      (bone ∈ draft.tables.bones ∧ draft'.tables.described bone.sequence = draft.tables.described bone.sequence) ∨
      (draft'.tables.documentNumber? item.doc = some bone.document ∧ draft'.tables.Sown item bone) := by
  obtain ⟨rev, number, opened, ⟨hrev, hopen, healthy'⟩, hcases⟩ :=
    Edit.graft_effect healthy (Graft.check_ok_iff.mp hcheck).2.2.1 hgraft
  obtain ⟨hopened, hnumber, hextends, -, -⟩ := openTables_ok healthy hopen
  obtain ⟨hbones, hattachments⟩ := openTables_bones hopen
  have hsame : ∀ sequence, opened.described sequence = draft.tables.described sequence := fun sequence => by
    rw [described, hattachments, described]
  rcases hcases with ⟨-, -, htables, -⟩ | ⟨-, -, hgains⟩
  · rw [htables] at healthy' ⊢
    exact ⟨healthy', hextends, fun bone hbone => .inl ⟨hbones ▸ hbone, hsame bone.sequence⟩⟩
  refine ⟨healthy', hextends.trans hgains.extends, fun bone hbone => ?_⟩
  rw [hgains.bones] at hbone
  rcases List.mem_append.mp hbone with hold | hnew
  · -- Rows that were there keep their descriptions, since the new ones belong to the tip.
    obtain ⟨row, hmem, rfl⟩ := mem_bones_iff.mp hold
    have hle : row.sequence ≤ opened.lastSequence := sequence_le_lastSequence hmem
    refine .inl ⟨hbones ▸ hold, (hgains.described_of_ne ?_).trans (hsame _)⟩
    show row.sequence ≠ _
    omega
  · have hhome : bone.document = number := by
      apply document_of_mem_branch _ bone hnew
      rfl
    refine .inr ⟨(hgains.documentNumber? item.doc).trans (hhome ▸ hnumber), ?_⟩
    rcases List.mem_append.mp hnew with hstubbed | htip
    · obtain ⟨⟨stubbed, hmissing, htext⟩, hstub, hlow, hhigh⟩ := mem_stubRows hstubbed
      obtain ⟨prior, hprior, -⟩ := Graft.splitKnown_spec (opened.sequenceOf? number) item.history.dropLast
      refine .above (hprior ▸ List.mem_append_right prior hmissing) htext hstub ?_
      rw [hgains.described_of_ne (by omega)]
      exact hopened.shape.described_eq_nil (by omega)
    · rw [List.mem_singleton.mp htip]
      have hdescribed := hopened.shape.described_fresh (by omega) hgains.attachments
      exact .tip hrev rfl rfl rfl rfl hdescribed

theorem SownBy.graft {draft draft' : Draft} {found : Option Revision} (h : draft.tables.SownBy items)
    (healthy : draft.tables.Healthy) (hitem : item ∈ items) (hcheck : item.check = .ok ())
    (hgraft : Edit.graft item draft = .ok found draft') : draft'.tables.Healthy ∧ draft'.tables.SownBy items := by
  obtain ⟨healthy', hextends, hrows⟩ := graft_sown healthy hcheck hgraft
  refine ⟨healthy', fun bone hbone => ?_⟩
  rcases hrows bone hbone with ⟨hold, hsame⟩ | ⟨hhome, hrow⟩
  · obtain ⟨other, hother, hhome, hrow⟩ := h bone hold
    exact ⟨other, hother, hextends.documentNumber? hhome, hrow.congr hsame⟩
  · exact ⟨item, hitem, hhome, hrow⟩

end Tables

/-- Healthy tables stay healthy, and hold nothing but what some grafts bring. -/
def Holdings.SownBy (items : List Graft) (before after : Holdings) : Prop :=
  before.tables.Healthy → before.tables.SownBy items → after.tables.Healthy ∧ after.tables.SownBy items

theorem course_sown (items : List Graft) : Course (Holdings.SownBy items) where
  refl := fun _ _ _ _ _ healthy hsown => ⟨healthy, hsown⟩
  trans := by
    intro first second third hfirst hsecond healthy hsown
    obtain ⟨healthy', hsown'⟩ := hfirst healthy hsown
    exact hsecond healthy' hsown'

theorem Edit.graft_sows {item : Graft} {items : List Graft} (hitem : item ∈ items) (hcheck : item.check = .ok ()) :
    (Edit.graft item).Runs (Holdings.SownBy items) :=
  ⟨Edit.graft_grows item, fun _ _ _ h _ healthy hsown => Tables.SownBy.graft hsown healthy hitem hcheck h⟩

end RevisionForest
