import RevisionForest.Proofs.Merging
import RevisionForest.Proofs.Keeping
/-!
# What is known by its id only

A revision comes with its content, or as a stub. A stub has no body and is no tombstone, and no mutation makes a row that is neither available nor a stub (`Tables.Candid`, `covers_candid`). So when a leaf is sent without its body because it is not available, nothing is left out.
-/

namespace RevisionForest

/-- A row known by its id only: nothing of its content is there. -/
structure RevisionRow.Stub (row : RevisionRow) : Prop where
  available : row.available = false
  deleted : row.deleted = false
  body : row.body = Body.empty

open Tables

namespace Tables

variable {before after : Tables} {rows : List RevisionRow} {attachments : List AttachmentRow}

/-- What is not available is a stub. -/
def Candid (tables : Tables) : Prop :=
  ∀ bone ∈ tables.bones, bone.available = false → bone.Stub

theorem Candid.grow (h : before.Candid) (hgains : before.Gains after rows attachments)
    (hrows : ∀ row ∈ rows, row.available = false → row.Stub) : after.Candid := by
  intro bone hbone
  rw [hgains.bones] at hbone
  rcases List.mem_append.mp hbone with hold | hnew
  · exact h bone hold
  · exact hrows bone hnew

theorem Candid.derive {child : NewRevision} {described : List Attachment} {revision : Revision} (h : before.Candid)
    (hderives : before.Derives after child described revision) (havailable : child.available = true) : after.Candid := by
  cases hderives with
  | grown _ hgains =>
    refine h.grow hgains fun row hrow hmissing => ?_
    rw [List.mem_singleton.mp hrow] at hmissing
    exact absurd (havailable.symm.trans hmissing) (by decide)
  | stored _ _ hgains => exact h.grow hgains fun row hrow => absurd hrow List.not_mem_nil

theorem mem_stubRows {document sequence : Int} {parent : Option Int} {missing : List RevId} {row : RevisionRow}
    (h : row ∈ stubRows document parent sequence missing) :
    (∃ rev ∈ missing, row.revText = rev.text) ∧ row.Stub ∧
      sequence ≤ row.sequence ∧ row.sequence < sequence + missing.length := by
  induction missing generalizing parent sequence with
  | nil => exact absurd h List.not_mem_nil
  | cons stubbed rest ih =>
    rcases List.mem_cons.mp h with rfl | h
    · refine ⟨⟨stubbed, List.mem_cons_self, rfl⟩, ⟨rfl, rfl, rfl⟩, Int.le_refl sequence, ?_⟩
      show sequence < _
      rw [List.length_cons]
      omega
    · obtain ⟨⟨rev, hrev, htext⟩, hstub, hlow, hhigh⟩ := ih h
      refine ⟨⟨rev, List.mem_cons_of_mem _ hrev, htext⟩, hstub, by omega, ?_⟩
      rw [List.length_cons]
      omega

/-- A revision that is merged without a body is a stub, unless it is a tombstone. -/
theorem tip_candid {item : Graft} {number sequence : Int} {parent : Option Int} {rev : RevId}
    (h : ((Edit.tip item number parent rev).row sequence).available = false) :
    ((Edit.tip item number parent rev).row sequence).Stub := by
  have hmissing : (item.body.isSome || item.deleted) = false := h
  obtain ⟨hbody, hdeleted⟩ := Bool.or_eq_false_iff.mp hmissing
  refine ⟨h, hdeleted, ?_⟩
  show item.body.getD Body.empty = Body.empty
  rw [Option.isSome_eq_false_iff.mp hbody |> Option.isNone_iff_eq_none.mp]
  rfl

end Tables

theorem covers_candid : Covers (Holdings.Keeping Tables.Candid) where
  toCourse := course_keeping Tables.Candid
  create := by
    refine fun doc body new _ _ => ⟨Edit.create_grows doc body new, fun draft value draft' h feed healthy hcandid => ?_⟩
    obtain ⟨-, hafter, hgains⟩ := Edit.create_effect healthy h
    have hregistered : (draft.tables.register doc).Candid := hcandid
    refine ⟨hafter, hregistered.grow hgains fun row hrow hmissing => ?_⟩
    rw [List.mem_singleton.mp hrow] at hmissing
    nomatch hmissing
  update := by
    refine fun doc expected body changes _ _ =>
      ⟨Edit.update_grows doc expected body changes, fun draft value draft' h feed healthy hcandid => ?_⟩
    obtain ⟨_, _, _, _, -, hafter, -, hderives⟩ := Edit.update_effect healthy h
    exact ⟨hafter, Candid.derive hcandid hderives rfl⟩
  bury := by
    refine fun doc rev => ⟨Edit.bury_grows doc rev, fun draft value draft' h feed healthy hcandid => ?_⟩
    obtain ⟨_, _, -, hafter, -, hderives⟩ := Edit.bury_effect healthy h
    exact ⟨hafter, Candid.derive hcandid hderives rfl⟩
  graft := by
    refine fun item hcheck => ⟨Edit.graft_grows item, fun draft value draft' h feed healthy hcandid => ?_⟩
    obtain ⟨rev, number, opened, ⟨-, hopen, hafter⟩, hcases⟩ :=
      Edit.graft_effect healthy (Graft.check_ok_iff.mp hcheck).2.2.1 h
    obtain ⟨-, -, -, hrevisions, -⟩ := openTables_ok healthy hopen
    have hopened : opened.Candid := by
      intro bone hbone
      rw [bones, hrevisions] at hbone
      exact hcandid bone hbone
    refine ⟨hafter, ?_⟩
    rcases hcases with ⟨-, -, htables, -⟩ | ⟨-, -, hgains⟩
    · show draft'.tables.Candid
      rw [htables]
      exact hopened
    · refine hopened.grow hgains fun row hrow hmissing => ?_
      rcases List.mem_append.mp hrow with hstub | htip
      · exact (mem_stubRows hstub).2.1
      · rw [List.mem_singleton.mp htip] at hmissing ⊢
        obtain ⟨-, hdeleted, hbody⟩ := tip_candid hmissing
        exact ⟨hmissing, hdeleted, hbody⟩

theorem Store.Onward.candid {store : Store} {config : Config} {blobs : BlobStore}
    (h : (Store.openWith config blobs).Onward store) : store.writer.database.tables.Candid := by
  refine h.keeps covers_candid (fun before after haside hcandid => ?_) rfl healthy_empty
    fun _ hbone => absurd hbone List.not_mem_nil
  rwa [Candid, haside.bones]

end RevisionForest
