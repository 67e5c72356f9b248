import RevisionForest.Proofs.Effects
import RevisionForest.Proofs.Merging
/-!
# How an edit can fail

An edit runs into an error that its own checks raise, into a blob that cannot be written, or into a rule of the tables about names that are taken. The other ways to fail are there for tables that are damaged: that a stored text does not read, that a document has no winner, that a parent is in another document, that fewer attachments are copied than the revision had, or that a row is gone right after it was inserted. On healthy tables none of them is met (`Edit.create_fails`, `Edit.update_fails`, `Edit.bury_fails`, `Edit.graft_fails`), as long as no generation reaches the bound.
-/

namespace RevisionForest

/-- If a run fails, it is with an error that may be. -/
def FailsWith {ε σ α : Type} (may : ε → Prop) (action : EStateM ε σ α) (state : σ) : Prop :=
  ∀ error after, action state = .error error after → may error

namespace FailsWith

variable {ε σ α β : Type} {may may' : ε → Prop} {action : EStateM ε σ α} {state state' : σ}

theorem mono (h : FailsWith may action state) (himplies : ∀ error, may error → may' error) :
    FailsWith may' action state :=
  fun error after hfails => himplies error (h error after hfails)

theorem of_ok {value : α} (h : action state = .ok value state') : FailsWith may action state := by
  intro error after hfails
  rw [h] at hfails
  nomatch hfails

theorem pure (value : α) : FailsWith may (Pure.pure value) state :=
  of_ok rfl

theorem throw {error : ε} (h : may error) : FailsWith may (throw error : EStateM ε σ α) state := by
  intro found after hfails
  obtain ⟨rfl, -⟩ := EStateM.Result.error.inj hfails
  exact h

theorem bind {next : α → EStateM ε σ β} (h : FailsWith may action state)
    (hnext : ∀ value between, action state = .ok value between → FailsWith may (next value) between) :
    FailsWith may (action >>= next) state := by
  intro error after hfails
  rcases error_bind_iff.mp hfails with hfirst | ⟨value, between, hvalue, hlast⟩
  · exact h error after hfirst
  · exact hnext value between hvalue error after hlast

theorem bind_of_ok {next : α → EStateM ε σ β} {value : α} (h : action state = .ok value state')
    (hnext : FailsWith may (next value) state') : FailsWith may (action >>= next) state := by
  unfold FailsWith
  rwa [RevisionForest.bind_of_ok h]

theorem get_bind {next : σ → EStateM ε σ β} (h : FailsWith may (next state) state) :
    FailsWith may (get >>= next) state :=
  h

theorem answer {view : α → β} (h : FailsWith may action state) :
    FailsWith may (action >>= fun value => Pure.pure (view value)) state :=
  h.bind fun _ _ _ => .pure _

theorem guard {condition : Prop} [Decidable condition] {error : ε} {next : PUnit → EStateM ε σ β}
    (hmay : condition → may error) (hnext : ¬condition → FailsWith may (next ⟨⟩) state) :
    FailsWith may (if condition then MonadExcept.throw error >>= next else next ⟨⟩) state := by
  split
  · rename_i hcondition
    exact (FailsWith.throw (hmay hcondition)).bind fun _ _ hvalue => absurd hvalue not_ok_throw
  · rename_i hcondition
    exact hnext hcondition

end FailsWith

/-! ### Statements -/

namespace Tables

variable {tables lowered inserted : Tables} {sequence source : Int}

theorem insertDocument_fails {doc : String} : FailsWith (· = .collision doc) (insertDocument doc) tables :=
  .get_bind (.guard (fun _ => rfl) fun _ => .of_ok rfl)

theorem insertAttachment_fails {attachment : Attachment} :
    FailsWith (fun error => ∃ fault, error = .table fault) (insertAttachment sequence attachment) tables :=
  .get_bind (.guard (fun _ => ⟨_, rfl⟩) fun _ => .guard (fun _ => ⟨_, rfl⟩) fun _ => .of_ok rfl)

theorem insertAttachments_fails {attachments : List Attachment} :
    FailsWith (fun error => ∃ fault, error = .table fault) (insertAttachments sequence attachments) tables := by
  induction attachments generalizing tables with
  | nil => exact .pure ()
  | cons attachment rest ih => exact insertAttachment_fails.bind fun _ _ _ => ih

theorem Legible.copyAttachments_fails {skip : List String} (legible : tables.Legible) :
    FailsWith (fun error => ∃ fault, error = .table fault) (copyAttachments source sequence skip) tables := by
  obtain ⟨attachments, hread, -⟩ := legible.attachmentsFor_ok source
  exact .bind_of_ok (Statement.query_ok_iff.mpr ⟨hread, rfl⟩) insertAttachments_fails.answer

theorem attachmentsFor_of_insertRevision {new : NewRevision} {insertion : Insertion} {current : Bool} {done : Unit}
    (hlower : setCurrent sequence current tables = .ok done lowered)
    (hinsert : insertRevision new lowered = .ok insertion inserted) :
    inserted.attachmentsFor source = tables.attachmentsFor source := by
  obtain ⟨-, rfl⟩ := setCurrent_ok_iff.mp hlower
  rcases insertRevision_ok_iff.mp hinsert with ⟨_, _, _, rfl⟩ | ⟨_, _, rfl⟩ <;> rfl

theorem Healthy.lower_ok {row : RevisionRow} (healthy : tables.Healthy) (hrow : row ∈ tables.revisions) :
    ∃ lowered, setCurrent row.sequence false tables = .ok () lowered ∧ lowered.Sturdy row.document ∧
      ∀ new : NewRevision, new.document = row.document → new.parent = some row.sequence → lowered.Accepts new := by
  have hlower : setCurrent row.sequence false tables = .ok () (tables.flag row.sequence false) :=
    setCurrent_ok_iff.mpr ⟨⟨row, hrow, rfl⟩, rfl⟩
  have hlowered := (healthy.sturdy row.document).setCurrent
    (fun other hother heq => healthy.shape.eq_of_sequence hother hrow heq ▸ rfl) hlower
  obtain ⟨above, habove, hbare⟩ := (setCurrent_gains hlower).extends.exists_row hrow
  obtain ⟨hsequence, hdocument, -⟩ := RevisionRow.bare_eq_iff.mp hbare
  exact ⟨_, hlower, hlowered, fun new hhome hparent =>
    accepts_of_parent habove (hparent.trans (congrArg some hsequence.symm)) (hdocument.trans hhome.symm)⟩

end Tables

theorem BlobStore.put_fails {bytes : Bytes} {store : BlobStore} :
    FailsWith (· = .io .blobWrite) (BlobStore.put bytes) store := by
  intro error after h
  rw [put_eq] at h
  split at h
  · exact (EStateM.Result.error.inj h).1.symm
  · nomatch h
  · nomatch h

/-! ### Steps of an edit -/

/-- An error after which it is reasonable to read again and retry. -/
abbrev StoreError.Recoverable (error : StoreError) : Prop :=
  error.recoverable = true

namespace Edit

open Tables

variable {α : Type} {may : StoreError → Prop} {draft draft' : Draft} {doc : String} {rev : RevId} {number sequence : Int}
  {body : Bytes}

theorem statement_fails {action : Statement α} (h : FailsWith (fun error => may (.ofStorage error)) action draft.tables) :
    FailsWith may (statement action) draft := by
  intro error after hfails
  unfold statement at hfails
  cases hresult : action draft.tables with
  | ok value tables =>
    rw [hresult] at hfails
    nomatch hfails
  | error found tables =>
    rw [hresult] at hfails
    obtain ⟨rfl, -⟩ := EStateM.Result.error.inj hfails
    exact h found tables hresult

theorem statement_table_fails {action : Statement α}
    (h : FailsWith (fun error => ∃ fault, error = .table fault) action draft.tables)
    (hmay : ∀ error : StoreError, error.Recoverable → may error) : FailsWith may (statement action) draft := by
  refine statement_fails (h.mono ?_)
  rintro _ ⟨fault, rfl⟩
  exact hmay _ rfl

theorem require_fails {found : Option α} {error : StoreError} (h : error.Recoverable) :
    FailsWith StoreError.Recoverable (require found error) draft := by
  cases found with
  | none => exact .throw h
  | some value => exact .pure value

theorem documentNumber_fails : FailsWith StoreError.Recoverable (documentNumber doc) draft :=
  .get_bind (require_fails rfl)

theorem sequence_fails : FailsWith StoreError.Recoverable (Edit.sequence doc number rev) draft :=
  .get_bind (require_fails rfl)

theorem ofExcept_fails {found : Except StoreError α} (h : ∀ error, found = .error error → may error) :
    FailsWith may (MonadExcept.ofExcept found : Edit α) draft := by
  cases found with
  | ok value => exact .pure value
  | error error => exact .throw (h error rfl)

theorem putBlob_fails {bytes : Bytes} (hmay : ∀ error : StoreError, error.Recoverable → may error) :
    FailsWith may (putBlob bytes) draft := by
  intro error after hfails
  unfold putBlob at hfails
  cases hresult : BlobStore.put bytes draft.blobs with
  | ok digest blobs =>
    rw [hresult] at hfails
    nomatch hfails
  | error found blobs =>
    rw [hresult] at hfails
    obtain ⟨rfl, -⟩ := EStateM.Result.error.inj hfails
    obtain rfl := BlobStore.put_fails found blobs hresult
    exact hmay _ rfl

theorem storeAttachments_fails {revpos : Nat} {attachments : List NewAttachment}
    (hmay : ∀ error : StoreError, error.Recoverable → may error) :
    FailsWith may (storeAttachments revpos attachments) draft := by
  induction attachments generalizing draft with
  | nil => exact .pure []
  | cons attachment rest ih => exact (putBlob_fails hmay).answer.bind fun _ _ _ => ih.answer

theorem attach_fails {revpos : Nat} {attachments : List NewAttachment} :
    FailsWith StoreError.Recoverable (attach sequence revpos attachments) draft := by
  induction attachments generalizing draft with
  | nil => exact .pure ()
  | cons attachment rest ih =>
    exact (putBlob_fails fun _ => id).answer.bind fun _ _ _ =>
      (statement_table_fails insertAttachment_fails fun _ => id).bind fun _ _ _ => ih

theorem keptAttachments_fails {parent : List Attachment} {changes : AttachmentChanges} {error : StoreError}
    (h : keptAttachments parent changes = .error error) : error.Recoverable := by
  unfold keptAttachments at h
  split at h
  · obtain rfl := Except.error.inj h
    rfl
  · nomatch h

theorem copyAttachments_kept {source : Int} {parent kept : List Attachment} {changes : AttachmentChanges} {tables copied : Tables}
    {count : Nat} (hattachments : tables.attachmentsFor source = .ok parent) (hkept : keptAttachments parent changes = .ok kept)
    (hcopy : copyAttachments source sequence (changes.remove ++ changes.put.map (·.name)) tables = .ok count copied) :
    insertAttachments sequence kept tables = .ok () copied ∧ kept.length = count := by
  obtain ⟨again, hagain, hcopied, hcount⟩ := copyAttachments_ok_iff.mp hcopy
  obtain rfl := Except.ok.inj (hattachments.symm.trans hagain)
  rw [keptAttachments_ok hkept]
  exact ⟨hcopied, hcount⟩

theorem snapshot_fails (hread : ∃ revision, draft.tables.getBySequence sequence = .ok (some revision)) :
    FailsWith may (snapshot sequence) draft := by
  obtain ⟨revision, hrevision⟩ := hread
  exact .of_ok (snapshot_ok_iff.mpr ⟨hrevision, rfl⟩)

theorem announced_fails {event : ChangeEvent} (hread : ∃ revision, draft.tables.getBySequence sequence = .ok (some revision)) :
    FailsWith may (announce event >>= fun _ => snapshot sequence) draft :=
  .bind_of_ok (show announce event draft = .ok () _ from rfl) (snapshot_fails hread)

/-! ### Edits -/

theorem create_fails {attachments : List NewAttachment} (healthy : draft.tables.Healthy) :
    FailsWith (fun error => error.Recoverable ∨ (Attachment.checkNames [] attachments).mapError .invalidInput = .error error)
      (create doc body attachments) draft := by
  refine .get_bind (.guard (fun _ => .inl rfl) fun _ => ?_)
  refine (statement_fails (insertDocument_fails.mono ?_)).bind fun number between hnumber => ?_
  · rintro _ rfl
    exact .inl rfl
  obtain ⟨registered, hdocument, rfl⟩ := statement_ok_iff.mp hnumber
  obtain ⟨⟨hnamed, hfree⟩, rfl, rfl⟩ := insertDocument_ok_iff.mp hdocument
  have hregistered := healthy.register hnamed hfree
  cases hnames : Attachment.checkNames [] attachments with
  | error fault => exact (FailsWith.throw (.inr rfl)).bind fun _ _ hvalue => absurd hvalue not_ok_throw
  | ok =>
    refine (storeAttachments_fails fun _ => .inl).bind fun stored _ hstored => ?_
    obtain ⟨blobs, -, -, rfl⟩ := storeAttachments_ok_iff.mp hstored
    let root : NewRevision := ⟨draft.tables.lastNumber + 1, RevId.derive none false body (Attachment.digests stored), none,
      false, true, true, body⟩
    have haccepts : (draft.tables.register doc).Accepts root :=
      ⟨nofun, fun _ => ⟨_, List.mem_append_right _ (List.mem_singleton.mpr rfl), rfl⟩⟩
    obtain ⟨insertion, inserted, hinsert, hinserted, hthere⟩ :=
      Sturdy.insertRevision_ok (hregistered.sturdy root.document) haccepts (show 1 < RevId.generationBound by decide)
    refine .bind_of_ok (statement_ok_iff.mpr ⟨inserted, hinsert, rfl⟩) ?_
    refine (statement_table_fails insertAttachments_fails fun _ => .inl).bind fun _ _ hdescribed => ?_
    obtain ⟨described, hdescribe, rfl⟩ := statement_ok_iff.mp hdescribed
    have hsturdy := hinserted.insertAttachments hdescribe
    obtain rfl := insertAttachments_ok hdescribe
    obtain ⟨row, hrow, hsequence⟩ := hthere
    have hkept : row ∈ (inserted.describe insertion.sequence stored).revisions := hrow
    obtain ⟨revision, hread⟩ := hsturdy.legible.getBySequence_ok hsturdy.shape hkept
    exact announced_fails ⟨revision, hsequence ▸ hread⟩

/-- An update fails if its document or revision is not there, if this is not the winner or deleted, if an attachment to remove is not there, or as blobs and names of attachments do. -/
theorem update_fails {expected : RevId} {changes : AttachmentChanges} (healthy : draft.tables.Healthy)
    (hrange : draft.tables.Knows doc expected → expected.generation + 1 < RevId.generationBound) :
    FailsWith StoreError.Recoverable (update doc expected body changes) draft := by
  refine documentNumber_fails.bind fun number _ hfound => ?_
  obtain ⟨hnumber, rfl⟩ := documentNumber_ok_iff.mp hfound
  refine sequence_fails.bind fun parent _ hplaced => ?_
  obtain ⟨hparent, rfl⟩ := sequence_ok_iff.mp hplaced
  have hbound := hrange ⟨number, hnumber, .of_sequence hparent⟩
  obtain ⟨row, hrow, rfl, htext, rfl⟩ := healthy.shape.sequenceOf?_eq_some_iff.mp hparent
  obtain ⟨winner, hwinner, -⟩ := healthy.exists_winner hrow
  refine .bind_of_ok (query_ok_iff.mpr ⟨hwinner, rfl⟩) (.bind_of_ok (require_ok_iff.mpr ⟨rfl, rfl⟩) ?_)
  refine .guard (fun _ => rfl) fun _ => .guard (fun _ => rfl) fun _ => ?_
  obtain ⟨attachments, hattachments, -⟩ := healthy.legible.attachmentsFor_ok row.sequence
  refine .bind_of_ok (query_ok_iff.mpr ⟨hattachments, rfl⟩) ?_
  refine (ofExcept_fails fun _ => keptAttachments_fails).bind fun kept _ hchosen => ?_
  obtain ⟨hkept, rfl⟩ := ofExcept_ok_iff.mp hchosen
  refine (storeAttachments_fails fun _ => id).bind fun fresh _ hfresh => ?_
  obtain ⟨blobs, -, -, rfl⟩ := storeAttachments_ok_iff.mp hfresh
  obtain ⟨lowered, hlower, hlowered, haccepts⟩ := healthy.lower_ok hrow
  refine .bind_of_ok (statement_ok_iff.mpr ⟨lowered, hlower, rfl⟩) ?_
  let child : NewRevision := ⟨row.document, RevId.derive (some expected) false body (Attachment.digests (kept ++ fresh)),
    some row.sequence, false, true, true, body⟩
  obtain ⟨insertion, inserted, hinsert, hinserted, hthere⟩ :=
    hlowered.insertRevision_ok (haccepts child rfl rfl) hbound
  refine .bind_of_ok (statement_ok_iff.mpr ⟨inserted, hinsert, rfl⟩) ?_
  refine (statement_table_fails hinserted.legible.copyAttachments_fails fun _ => id).bind fun count _ hcopied => ?_
  obtain ⟨copied, hcopy, rfl⟩ := statement_ok_iff.mp hcopied
  rw [← attachmentsFor_of_insertRevision hlower hinsert] at hattachments
  obtain ⟨hcopied, hcount⟩ := copyAttachments_kept hattachments hkept hcopy
  refine .guard (fun hother => absurd hcount.symm hother) fun _ => ?_
  refine (statement_table_fails insertAttachments_fails fun _ => id).bind fun _ _ hdescribed => ?_
  obtain ⟨described, hdescribe, rfl⟩ := statement_ok_iff.mp hdescribed
  have hsturdy := (hinserted.insertAttachments hcopied).insertAttachments hdescribe
  obtain rfl := insertAttachments_ok hcopied
  obtain rfl := insertAttachments_ok hdescribe
  obtain ⟨elected, crowned, revision, hpick, hread⟩ := hsturdy.election_ok hthere
  exact .bind_of_ok (statement_ok_iff.mpr ⟨crowned, hpick, rfl⟩) (announced_fails ⟨revision, hread⟩)

theorem bury_fails (healthy : draft.tables.Healthy)
    (hrange : draft.tables.Knows doc rev → rev.generation + 1 < RevId.generationBound) :
    FailsWith StoreError.Recoverable (bury doc rev) draft := by
  by_cases hburied : ∃ row, draft.tables.LiveLeaf doc rev row
  · obtain ⟨row, hleaf⟩ := hburied
    have hbound := hrange ⟨row.document, hleaf.number, .of_sequence (hleaf.sequenceOf? healthy.shape)⟩
    obtain ⟨revision, draft', hdone⟩ := bury_progress healthy hleaf hbound
    exact .of_ok hdone
  · refine documentNumber_fails.bind fun number _ hfound => ?_
    obtain ⟨hnumber, rfl⟩ := documentNumber_ok_iff.mp hfound
    obtain ⟨revisions, hselect, -⟩ := healthy.select_ok hnumber fun row => row.revText = rev.text
    have hget : draft.tables.getRevision doc rev = .ok revisions.head? := by
      simp only [getRevision, hselect]
      rfl
    refine .bind_of_ok (query_ok_iff.mpr ⟨hget, rfl⟩) ?_
    refine (require_fails rfl).bind fun target _ hnamed => ?_
    obtain ⟨htarget, rfl⟩ := require_ok_iff.mp hnamed
    refine .guard (fun _ => rfl) fun hlive => .get_bind (.guard (fun _ => rfl) fun hleaf => ?_)
    -- What has passed these checks is a live leaf.
    obtain ⟨row, hrow, rfl, htext, hread⟩ := getRevision_ok_some hnumber (htarget ▸ hget)
    obtain ⟨_, _, _, _, rfl⟩ := readRevision_ok_iff.mp hread
    refine absurd ⟨row, hnumber, mem_leafRows_iff.mpr ⟨hrow, rfl, ?_⟩, htext, ?_⟩ hburied
    · simpa using hleaf
    · simpa using hlive

theorem liveLeaves_fails (healthy : draft.tables.Healthy) : FailsWith may (liveLeaves doc) draft := by
  obtain ⟨leaves, hleaves⟩ : ∃ leaves, draft.tables.leafRevisions doc = .ok leaves := by
    cases hnumber : draft.tables.documentNumber? doc with
    | none => exact ⟨[], by simp only [leafRevisions, select, hnumber]⟩
    | some number =>
      obtain ⟨leaves, hselect, -⟩ := healthy.select_ok hnumber fun row => draft.tables.isLeaf row.sequence
      exact ⟨leaves, hselect⟩
  exact .bind_of_ok (query_ok_iff.mpr ⟨hleaves, rfl⟩) (.pure _)

theorem openDocument_fails : FailsWith StoreError.Recoverable (openDocument doc) draft := by
  refine .get_bind ?_
  cases draft.tables.documentNumber? doc with
  | some number => exact .pure number
  | none =>
    refine statement_fails (insertDocument_fails.mono ?_)
    rintro _ rfl
    rfl

/-- A graft fails if its document id is empty to the tables, or if a blob cannot be written. -/
theorem graft_fails {item : Graft} (healthy : draft.tables.Healthy) (hcheck : item.check = .ok ())
    (hrange : ∀ rev ∈ item.history, rev.generation < RevId.generationBound) :
    FailsWith StoreError.Recoverable (graft item) draft := by
  obtain ⟨-, hhistory, hgap, -⟩ := Graft.check_ok_iff.mp hcheck
  obtain ⟨rev, hrev⟩ : ∃ rev, item.history.getLast? = some rev := ⟨_, List.getLast?_eq_some_getLast hhistory⟩
  have hbound := hrange rev (List.mem_of_getLast? hrev)
  refine .bind_of_ok (require_ok_iff.mpr ⟨hrev, rfl⟩) (openDocument_fails.bind fun number _ hplaced => ?_)
  obtain ⟨opened, hopen, rfl⟩ := openDocument_ok_iff.mp hplaced
  obtain ⟨hopened, hnumber, -⟩ := openTables_ok healthy hopen
  refine .get_bind ?_
  split
  · exact .pure none
  · obtain ⟨leaves, -, hprev⟩ := (hopened.crowned number).currentWinner hopened.shape
    refine .bind_of_ok (query_ok_iff.mpr ⟨hprev, rfl⟩) (.get_bind ?_)
    obtain ⟨planted, hplant, -, -, -, haccepts, -⟩ := plant_missing hopened hnumber hgap
    have haccepted := haccepts rev
    generalize lastStub _ _ _ = last at hplant haccepted
    have hmissing := Graft.missing_lt (opened.sequenceOf? number) hgap hrev
    have hplanted : planted.Sturdy number :=
      (hopened.sturdy number).plant (fun stub hstub => (hmissing stub hstub).trans hbound) hplant
    refine .bind_of_ok (plantStubs_ok_iff.mpr ⟨planted, hplant, rfl⟩) ?_
    obtain ⟨insertion, inserted, hinsert, hinserted, hthere⟩ :=
      (show planted.Sturdy (tip item number last rev).document from hplanted).insertRevision_ok haccepted hbound
    refine .bind_of_ok (statement_ok_iff.mpr ⟨inserted, hinsert, rfl⟩) (attach_fails.bind fun _ _ hattached => ?_)
    obtain ⟨blobs, attached, -, hattach, rfl⟩ := attach_ok_iff.mp hattached
    have hsturdy := hinserted.insertAttachments hattach
    obtain rfl := insertAttachments_ok hattach
    obtain ⟨elected, crowned, revision, hpick, hread⟩ := hsturdy.election_ok hthere
    refine .bind_of_ok (statement_ok_iff.mpr ⟨crowned, hpick, rfl⟩) ?_
    exact .bind_of_ok (show announce _ _ = .ok () _ from rfl) (snapshot_fails ⟨revision, hread⟩).answer

end Edit

end RevisionForest
