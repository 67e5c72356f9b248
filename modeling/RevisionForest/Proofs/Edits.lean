import RevisionForest.Edit.Author
import RevisionForest.Edit.Graft
import RevisionForest.Edit.Tombstone
import RevisionForest.Proofs.Blobs
import RevisionForest.Proofs.Growth
/-!
# What an edit does

An edit that succeeds is taken apart into its statements once (`create_ok`, `update_ok`, `bury_ok_iff`, `graft_ok_iff`).
-/

namespace RevisionForest.Edit

open Tables

variable {draft draft' : Draft} {doc : String} {body : Bytes} {revision : Revision}

/-! ### Attachments -/

theorem putBlob_ok_iff {bytes : Bytes} {digest : Digest} :
    putBlob bytes draft = .ok digest draft' ↔
      ∃ blobs, BlobStore.put bytes draft.blobs = .ok digest blobs ∧ { draft with blobs } = draft' := by
  simp only [putBlob]
  cases BlobStore.put bytes draft.blobs with
  | ok found blobs =>
    simp only [EStateM.Result.ok.injEq]
    constructor
    · rintro ⟨rfl, rfl⟩
      exact ⟨blobs, ⟨rfl, rfl⟩, rfl⟩
    · rintro ⟨_, ⟨rfl, rfl⟩, rfl⟩
      exact ⟨rfl, rfl⟩
  | error error blobs => simp

theorem storeAttachment_ok_iff {revpos : Nat} {attachment : NewAttachment} {stored : Attachment} :
    storeAttachment revpos attachment draft = .ok stored draft' ↔
      ∃ digest blobs, BlobStore.put attachment.data draft.blobs = .ok digest blobs ∧
        attachment.stored revpos = stored ∧ { draft with blobs } = draft' := by
  simp only [storeAttachment, ok_bind_iff, putBlob_ok_iff, ok_pure_iff]
  constructor
  · rintro ⟨digest, _, ⟨blobs, hput, rfl⟩, hstored, hdraft⟩
    exact ⟨digest, blobs, hput, hstored, hdraft⟩
  · rintro ⟨digest, blobs, hput, hstored, hdraft⟩
    exact ⟨digest, _, ⟨blobs, hput, rfl⟩, hstored, hdraft⟩

theorem storeAttachments_ok_iff {revpos : Nat} {attachments : List NewAttachment} {stored : List Attachment} :
    storeAttachments revpos attachments draft = .ok stored draft' ↔
      ∃ blobs, BlobStore.putAll (attachments.map (·.data)) draft.blobs = .ok () blobs ∧
        attachments.map (·.stored revpos) = stored ∧ { draft with blobs } = draft' := by
  induction attachments generalizing draft draft' stored with
  | nil =>
    simp only [storeAttachments, ok_pure_iff, List.map_nil, BlobStore.putAll, true_and]
    constructor
    · rintro ⟨rfl, rfl⟩
      exact ⟨_, rfl, rfl, rfl⟩
    · rintro ⟨_, rfl, rfl, rfl⟩
      exact ⟨rfl, rfl⟩
  | cons attachment rest ih =>
    simp only [storeAttachments, ok_bind_iff, storeAttachment_ok_iff, ih, ok_pure_iff, List.map_cons, BlobStore.putAll]
    constructor
    · rintro ⟨_, _, ⟨digest, blobs, hput, rfl, rfl⟩, _, _, ⟨_, hrest, rfl, rfl⟩, rfl, rfl⟩
      exact ⟨_, ⟨digest, blobs, hput, hrest⟩, rfl, rfl⟩
    · rintro ⟨_, ⟨digest, blobs, hput, hrest⟩, rfl, rfl⟩
      exact ⟨_, _, ⟨digest, blobs, hput, rfl, rfl⟩, _, _, ⟨_, hrest, rfl, rfl⟩, rfl, rfl⟩

theorem attach_ok_iff {sequence : Int} {revpos : Nat} {attachments : List NewAttachment} {done : Unit} :
    attach sequence revpos attachments draft = .ok done draft' ↔
      ∃ blobs tables, BlobStore.putAll (attachments.map (·.data)) draft.blobs = .ok () blobs ∧
        insertAttachments sequence (attachments.map (·.stored revpos)) draft.tables = .ok () tables ∧
        { draft with tables, blobs } = draft' := by
  induction attachments generalizing draft with
  | nil =>
    simp only [attach, ok_pure_iff, List.map_nil, BlobStore.putAll, insertAttachments, true_and]
    constructor
    · rintro rfl
      exact ⟨_, _, rfl, rfl, rfl⟩
    · rintro ⟨_, _, rfl, rfl, rfl⟩
      rfl
  | cons attachment rest ih =>
    simp only [attach, ok_bind_iff, storeAttachment_ok_iff, statement_ok_iff, ih, List.map_cons, BlobStore.putAll,
      insertAttachments]
    constructor
    · rintro ⟨_, _, ⟨digest, _, hput, rfl, rfl⟩, _, _, ⟨_, hinsert, rfl⟩, _, _, hblobs, htables, rfl⟩
      exact ⟨_, _, ⟨digest, _, hput, hblobs⟩, ⟨_, _, hinsert, htables⟩, rfl⟩
    · rintro ⟨_, _, ⟨digest, _, hput, hblobs⟩, ⟨_, _, hinsert, htables⟩, rfl⟩
      exact ⟨_, _, ⟨digest, _, hput, rfl, rfl⟩, _, _, ⟨_, hinsert, rfl⟩, _, _, hblobs, htables, rfl⟩

/-! ### The statements of an edit -/

theorem create_ok {attachments : List NewAttachment} (h : create doc body attachments draft = .ok revision draft') :
    let stored := attachments.map (·.stored 1)
    let rev := RevId.derive none false body (Attachment.digests stored)
    Attachment.checkNames [] attachments = .ok () ∧
    ∃ number registered blobs insertion inserted described,
      insertDocument doc draft.tables = .ok number registered ∧
      BlobStore.putAll (attachments.map (·.data)) draft.blobs = .ok () blobs ∧
      insertRevision ⟨number, rev, none, false, true, true, body⟩ registered = .ok insertion inserted ∧
      insertAttachments insertion.sequence stored inserted = .ok () described ∧
      described.getBySequence insertion.sequence = .ok (some revision) ∧
      draft' = ⟨described, blobs, draft.events ++ [⟨doc, none, some ⟨rev, insertion.sequence, false⟩⟩]⟩ := by
  simp only [create, ok_bind_iff, ok_get_iff] at h
  obtain ⟨_, _, ⟨rfl, rfl⟩, h⟩ := h
  obtain ⟨-, h⟩ := ok_guard_iff.mp h
  obtain ⟨number, _, hstatement, h⟩ := ok_bind_iff.mp h
  obtain ⟨registered, hdocument, rfl⟩ := statement_ok_iff.mp hstatement
  cases hnames : Attachment.checkNames [] attachments with
  | error fault =>
    rw [hnames] at h
    obtain ⟨_, _, hthrow, -⟩ := ok_bind_iff.mp h
    exact absurd hthrow not_ok_throw
  | ok =>
    rw [hnames] at h
    simp only [ok_bind_iff, storeAttachments_ok_iff, statement_ok_iff, announce_ok_iff, snapshot_ok_iff] at h
    obtain ⟨_, _, ⟨blobs, hblobs, rfl, rfl⟩, insertion, _, ⟨inserted, hinsert, rfl⟩, _, _, ⟨described, hdescribe, rfl⟩,
      _, _, rfl, hread, rfl⟩ := h
    exact ⟨rfl, number, registered, blobs, insertion, inserted, described, hdocument, hblobs, hinsert, hdescribe, hread,
      rfl⟩

theorem ofExcept_ok_iff {α : Type} {found : Except StoreError α} {value : α} :
    (MonadExcept.ofExcept found : Edit α) draft = .ok value draft' ↔ found = .ok value ∧ draft = draft' := by
  cases found with
  | ok found => simp [MonadExcept.ofExcept, ok_pure_iff]
  | error error => simp [MonadExcept.ofExcept, not_ok_throw]

theorem update_ok {expected : RevId} {changes : AttachmentChanges}
    (h : update doc expected body changes draft = .ok revision draft') :
    ∃ number parent winner attachments kept,
      (draft.tables.documentNumber? doc = some number ∧ draft.tables.sequenceOf? number expected = some parent ∧
        draft.tables.currentWinner number = .ok (some winner) ∧ winner.sequence = parent ∧ winner.deleted = false ∧
        draft.tables.attachmentsFor parent = .ok attachments ∧ keptAttachments attachments changes = .ok kept) ∧
      let fresh := changes.put.map (·.stored (expected.generation + 1))
      let rev := RevId.derive (some expected) false body (Attachment.digests (kept ++ fresh))
      ∃ blobs lowered insertion inserted copied described elected crowned,
        BlobStore.putAll (changes.put.map (·.data)) draft.blobs = .ok () blobs ∧
        setCurrent parent false draft.tables = .ok () lowered ∧
        insertRevision ⟨number, rev, some parent, false, true, true, body⟩ lowered = .ok insertion inserted ∧
        copyAttachments parent insertion.sequence (changes.remove ++ changes.put.map (·.name)) inserted
          = .ok kept.length copied ∧
        insertAttachments insertion.sequence fresh copied = .ok () described ∧
        pickWinner number described = .ok elected crowned ∧
        crowned.getBySequence insertion.sequence = .ok (some revision) ∧
        draft' = ⟨crowned, blobs, draft.events ++ [⟨doc, some winner, elected⟩]⟩ := by
  simp only [update, ok_bind_iff, documentNumber_ok_iff, sequence_ok_iff, query_ok_iff, require_ok_iff] at h
  obtain ⟨number, _, ⟨hnumber, rfl⟩, parent, _, ⟨hparent, rfl⟩, _, _, ⟨hwinner, rfl⟩, winner, _, ⟨rfl, rfl⟩, h⟩ := h
  obtain ⟨hcurrent, h⟩ := ok_guard_iff.mp h
  obtain ⟨hlive, h⟩ := ok_guard_iff.mp h
  simp only [ok_bind_iff, query_ok_iff, ofExcept_ok_iff, storeAttachments_ok_iff, statement_ok_iff] at h
  obtain ⟨attachments, _, ⟨hattachments, rfl⟩, kept, _, ⟨hkept, rfl⟩, _, _, ⟨blobs, hblobs, rfl, rfl⟩, _, _,
    ⟨lowered, hlower, rfl⟩, insertion, _, ⟨inserted, hinsert, rfl⟩, count, _, ⟨copied, hcopy, rfl⟩, h⟩ := h
  obtain ⟨hcount, h⟩ := ok_guard_iff.mp h
  simp only [ok_bind_iff, statement_ok_iff, announce_ok_iff, snapshot_ok_iff] at h
  obtain ⟨_, _, ⟨described, hdescribe, rfl⟩, elected, _, ⟨crowned, hpick, rfl⟩, _, _, rfl, hread, rfl⟩ := h
  obtain rfl := not_not.mp hcount
  exact ⟨number, parent, winner, attachments, kept,
    ⟨hnumber, hparent, hwinner, not_not.mp hcurrent, by simpa using hlive, hattachments, hkept⟩,
    blobs, lowered, insertion, inserted, copied, described, elected, crowned, hblobs, hlower, hinsert, hcopy, hdescribe,
    hpick, hread, rfl⟩

/-- The tombstone of a winner takes its flag away and holds the election again; that of a loser is only inserted. -/
theorem bury_ok_iff {rev : RevId} :
    bury doc rev draft = .ok revision draft' ↔
      ∃ number target prev,
        (draft.tables.documentNumber? doc = some number ∧ draft.tables.getRevision doc rev = .ok (some target) ∧
          target.deleted = false ∧ draft.tables.isLeaf target.sequence = true ∧
          draft.tables.currentWinner number = .ok prev) ∧
        let tombstone : NewRevision := ⟨number, RevId.derive (some rev) true Body.empty [], some target.sequence, true,
          target.current, true, Body.empty⟩
        ∃ insertion inserted new crowned,
          ((target.current = true ∧ ∃ lowered, setCurrent target.sequence false draft.tables = .ok () lowered ∧
              insertRevision tombstone lowered = .ok insertion inserted ∧
              pickWinner number inserted = .ok new crowned) ∨
            (target.current = false ∧ insertRevision tombstone draft.tables = .ok insertion inserted ∧
              new = prev ∧ crowned = inserted)) ∧
          crowned.getBySequence insertion.sequence = .ok (some revision) ∧
          draft' = ⟨crowned, draft.blobs, draft.events ++ [⟨doc, prev, new⟩]⟩ := by
  simp only [bury, ok_bind_iff, documentNumber_ok_iff, query_ok_iff, require_ok_iff]
  constructor
  · rintro ⟨number, _, ⟨hnumber, rfl⟩, _, _, ⟨htarget, rfl⟩, target, _, ⟨rfl, rfl⟩, h⟩
    obtain ⟨hlive, h⟩ := ok_guard_iff.mp h
    simp only [ok_bind_iff, ok_get_iff] at h
    obtain ⟨_, _, ⟨rfl, rfl⟩, h⟩ := h
    obtain ⟨hleaf, h⟩ := ok_guard_iff.mp h
    simp only [ok_bind_iff, query_ok_iff] at h
    obtain ⟨prev, _, ⟨hprev, rfl⟩, h⟩ := h
    refine ⟨number, target, prev, ⟨hnumber, htarget, by simpa using hlive, by simpa using hleaf, hprev⟩, ?_⟩
    cases hcurrent : target.current with
    | true =>
      simp only [hcurrent, ↓reduceIte, ok_bind_iff, statement_ok_iff, announce_ok_iff, snapshot_ok_iff] at h
      obtain ⟨_, _, ⟨lowered, hlower, rfl⟩, insertion, _, ⟨inserted, hinsert, rfl⟩, new, _, ⟨crowned, hpick, rfl⟩, _, _,
        rfl, hread, rfl⟩ := h
      exact ⟨insertion, inserted, new, crowned, .inl ⟨rfl, lowered, hlower, hinsert, hpick⟩, hread, rfl⟩
    | false =>
      simp only [hcurrent, Bool.false_eq_true, ↓reduceIte, ok_bind_iff, statement_ok_iff, ok_pure_iff, announce_ok_iff,
        snapshot_ok_iff] at h
      obtain ⟨insertion, _, ⟨inserted, hinsert, rfl⟩, _, _, ⟨rfl, rfl⟩, _, _, rfl, hread, rfl⟩ := h
      exact ⟨insertion, inserted, prev, inserted, .inr ⟨rfl, hinsert, rfl, rfl⟩, hread, rfl⟩
  · rintro ⟨number, target, prev, ⟨hnumber, htarget, hlive, hleaf, hprev⟩, insertion, inserted, new, crowned, hwork, hread,
      rfl⟩
    refine ⟨number, _, ⟨hnumber, rfl⟩, _, _, ⟨htarget, rfl⟩, target, _, ⟨rfl, rfl⟩, ok_guard_iff.mpr ⟨by simp [hlive], ?_⟩⟩
    refine ok_bind_iff.mpr ⟨_, _, ok_get_iff.mpr ⟨rfl, rfl⟩, ok_guard_iff.mpr ⟨by simp [hleaf], ?_⟩⟩
    refine ok_bind_iff.mpr ⟨prev, _, query_ok_iff.mpr ⟨hprev, rfl⟩, ?_⟩
    rcases hwork with ⟨hcurrent, lowered, hlower, hinsert, hpick⟩ | ⟨hcurrent, hinsert, rfl, rfl⟩
    · rw [hcurrent] at hinsert
      simp only [hcurrent, ↓reduceIte, ok_bind_iff, statement_ok_iff, announce_ok_iff, snapshot_ok_iff]
      exact ⟨(), _, ⟨lowered, hlower, rfl⟩, insertion, _, ⟨inserted, hinsert, rfl⟩, new, _, ⟨crowned, hpick, rfl⟩, (), _,
        rfl, hread, rfl⟩
    · rw [hcurrent] at hinsert
      simp only [hcurrent, Bool.false_eq_true, ↓reduceIte, ok_bind_iff, statement_ok_iff, ok_pure_iff, announce_ok_iff,
        snapshot_ok_iff]
      exact ⟨insertion, _, ⟨_, hinsert, rfl⟩, _, _, ⟨rfl, rfl⟩, (), _, rfl, hread, rfl⟩

/-! ### The statements of a graft -/

/-- The number of a document, which is registered if it is new. -/
def openTables (doc : String) : Statement Int := fun tables =>
  match tables.documentNumber? doc with
  | some number => .ok number tables
  | none => insertDocument doc tables

/-- A chain of stubs below a row. -/
def plant (number : Int) (parent : Option Int) : List RevId → Statement (Option Int)
  | [] => return parent
  | rev :: rest => do
    let inserted ← insertRevision ⟨number, rev, parent, false, false, false, Body.empty⟩
    plant number (some inserted.sequence) rest

theorem openDocument_ok_iff {number : Int} :
    openDocument doc draft = .ok number draft' ↔
      ∃ tables, openTables doc draft.tables = .ok number tables ∧ { draft with tables } = draft' := by
  simp only [openDocument, ok_bind_iff, ok_get_iff]
  constructor
  · rintro ⟨_, _, ⟨rfl, rfl⟩, h⟩
    cases hfound : draft.tables.documentNumber? doc with
    | some found =>
      rw [hfound] at h
      obtain ⟨rfl, rfl⟩ := ok_pure_iff.mp h
      exact ⟨draft.tables, by rw [openTables, hfound], rfl⟩
    | none =>
      rw [hfound] at h
      obtain ⟨tables, hinsert, rfl⟩ := statement_ok_iff.mp h
      exact ⟨tables, by rw [openTables, hfound, hinsert], rfl⟩
  · rintro ⟨tables, hopen, rfl⟩
    refine ⟨_, _, ⟨rfl, rfl⟩, ?_⟩
    rw [openTables] at hopen
    cases hfound : draft.tables.documentNumber? doc with
    | some found =>
      rw [hfound] at hopen
      obtain ⟨rfl, rfl⟩ := EStateM.Result.ok.inj hopen
      rfl
    | none =>
      rw [hfound] at hopen
      exact statement_ok_iff.mpr ⟨tables, hopen, rfl⟩

theorem plantStubs_ok_iff {number : Int} {parent last : Option Int} {missing : List RevId} :
    plantStubs number parent missing draft = .ok last draft' ↔
      ∃ tables, plant number parent missing draft.tables = .ok last tables ∧ { draft with tables } = draft' := by
  induction missing generalizing draft parent with
  | nil =>
    simp only [plantStubs, plant, ok_pure_iff]
    constructor
    · rintro ⟨rfl, rfl⟩
      exact ⟨_, ⟨rfl, rfl⟩, rfl⟩
    · rintro ⟨_, ⟨rfl, rfl⟩, rfl⟩
      exact ⟨rfl, rfl⟩
  | cons rev rest ih =>
    simp only [plantStubs, plant, ok_bind_iff, statement_ok_iff, ih]
    constructor
    · rintro ⟨insertion, _, ⟨tables, hinsert, rfl⟩, planted, hrest, rfl⟩
      exact ⟨planted, ⟨insertion, tables, hinsert, hrest⟩, rfl⟩
    · rintro ⟨planted, ⟨insertion, tables, hinsert, hrest⟩, rfl⟩
      exact ⟨insertion, _, ⟨tables, hinsert, rfl⟩, planted, hrest, rfl⟩

/-- The revision that a graft brings, below its stubs. -/
def tip (item : Graft) (number : Int) (parent : Option Int) (rev : RevId) : NewRevision :=
  ⟨number, rev, parent, item.deleted, false, item.body.isSome || item.deleted, item.body.getD Body.empty⟩

theorem graft_ok_iff {item : Graft} {found : Option Revision} :
    graft item draft = .ok found draft' ↔
      ∃ rev number opened, item.history.getLast? = some rev ∧
        openTables item.doc draft.tables = .ok number opened ∧
        (((opened.sequenceOf? number rev).isSome = true ∧ none = found ∧ { draft with tables := opened } = draft') ∨
          (opened.sequenceOf? number rev = none ∧
            let split := Graft.splitKnown (opened.sequenceOf? number) item.history.dropLast
            ∃ prev parent planted insertion inserted blobs attached elected crowned revision,
              opened.currentWinner number = .ok prev ∧
              plant number split.1 split.2 opened = .ok parent planted ∧
              insertRevision (tip item number parent rev) planted = .ok insertion inserted ∧
              BlobStore.putAll (item.attachments.map (·.data)) draft.blobs = .ok () blobs ∧
              insertAttachments insertion.sequence (item.attachments.map (·.stored rev.generation)) inserted
                = .ok () attached ∧
              pickWinner number attached = .ok elected crowned ∧
              crowned.getBySequence insertion.sequence = .ok (some revision) ∧
              some revision = found ∧ ⟨crowned, blobs, draft.events ++ [⟨item.doc, prev, elected⟩]⟩ = draft')) := by
  simp only [graft, ok_bind_iff, require_ok_iff, openDocument_ok_iff, ok_get_iff]
  constructor
  · rintro ⟨rev, _, ⟨hrev, rfl⟩, number, _, ⟨opened, hopen, rfl⟩, _, _, ⟨rfl, rfl⟩, h⟩
    refine ⟨rev, number, opened, hrev, hopen, ?_⟩
    cases hsequence : opened.sequenceOf? number rev with
    | some sequence =>
      rw [if_pos (by simp [hsequence])] at h
      obtain ⟨rfl, rfl⟩ := ok_pure_iff.mp h
      exact .inl ⟨rfl, rfl, rfl⟩
    | none =>
      rw [if_neg (by simp [hsequence])] at h
      simp only [ok_bind_iff, query_ok_iff, ok_get_iff, plantStubs_ok_iff, statement_ok_iff, attach_ok_iff,
        announce_ok_iff, snapshot_ok_iff, ok_pure_iff] at h
      obtain ⟨prev, _, ⟨hprev, rfl⟩, _, _, ⟨rfl, rfl⟩, parent, _, ⟨planted, hplant, rfl⟩, insertion, _,
        ⟨inserted, hinsert, rfl⟩, _, _, ⟨blobs, attached, hblobs, hattach, rfl⟩, elected, _, ⟨crowned, hpick, rfl⟩, _, _,
        rfl, revision, _, ⟨hread, rfl⟩, rfl, rfl⟩ := h
      exact .inr ⟨rfl, prev, parent, planted, insertion, inserted, blobs, attached, elected, crowned, revision, hprev,
        hplant, hinsert, hblobs, hattach, hpick, hread, rfl, rfl⟩
  · rintro ⟨rev, number, opened, hrev, hopen, ⟨hsequence, rfl, rfl⟩ | ⟨hsequence, h⟩⟩
    · exact ⟨rev, _, ⟨hrev, rfl⟩, number, _, ⟨opened, hopen, rfl⟩, _, _, ⟨rfl, rfl⟩, by rw [if_pos hsequence]; rfl⟩
    · obtain ⟨prev, parent, planted, insertion, inserted, blobs, attached, elected, crowned, revision, hprev, hplant,
        hinsert, hblobs, hattach, hpick, hread, rfl, rfl⟩ := h
      refine ⟨rev, _, ⟨hrev, rfl⟩, number, _, ⟨opened, hopen, rfl⟩, _, _, ⟨rfl, rfl⟩, ?_⟩
      rw [if_neg (by simp [hsequence])]
      simp only [ok_bind_iff, query_ok_iff, ok_get_iff, plantStubs_ok_iff, statement_ok_iff, attach_ok_iff,
        announce_ok_iff, snapshot_ok_iff, ok_pure_iff]
      exact ⟨prev, _, ⟨hprev, rfl⟩, _, _, ⟨rfl, rfl⟩, parent, _, ⟨planted, hplant, rfl⟩, insertion, _,
        ⟨inserted, hinsert, rfl⟩, (), _, ⟨blobs, attached, hblobs, hattach, rfl⟩, elected, _, ⟨crowned, hpick, rfl⟩, (), _,
        rfl, revision, _, ⟨hread, rfl⟩, rfl, rfl⟩

end RevisionForest.Edit
