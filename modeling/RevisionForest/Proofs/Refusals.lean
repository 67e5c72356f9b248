import RevisionForest.Proofs.Burials
/-!
# Refused deletions

A deletion names a revision and is refused if this is deleted itself, or if a child stands below it; each is told in an error of its own kind (`Tables.Refusal`). A live leaf is not refused. Its deletion can fail only if a text does not read, which is so if the generation of the tombstone is out of range, and that is told in yet other words. So the kind of the error tells what the revision is (`Store.delete_error_iff`).
-/

namespace RevisionForest

open Tables

/-- A stored text does not read. -/
def StorageError.Unreadable (error : StorageError) : Prop :=
  ∃ fault, error = .data fault

/-- The error is about the arguments in themselves, or about a state that should not be. -/
def StoreError.Internal (error : StoreError) : Prop :=
  (∃ fault, error = .invalidInput fault) ∨ ∃ what, error = .invariantViolation what

theorem StorageError.Unreadable.internal {error : StorageError} (h : error.Unreadable) :
    (StoreError.ofStorage error).Internal := by
  obtain ⟨fault, rfl⟩ := h
  cases fault with
  | serialization detail => exact .inr ⟨_, rfl⟩
  | revisionId text => exact .inl ⟨_, rfl⟩
  | body fault => exact .inl ⟨_, rfl⟩
  | content fault => exact .inr ⟨_, rfl⟩

theorem mapM_error {ε α β : Type} {read : α → Except ε β} {list : List α} {error : ε} (h : list.mapM read = .error error) :
    ∃ item ∈ list, read item = .error error := by
  induction list with
  | nil => nomatch h
  | cons first rest ih =>
    rw [List.mapM_cons] at h
    rcases except_bind_error_iff.mp h with hfirst | ⟨_, -, hlater⟩
    · exact ⟨first, List.mem_cons_self, hfirst⟩
    · rcases except_bind_error_iff.mp hlater with hrest | ⟨_, -, hvalue⟩
      · obtain ⟨item, hitem, hread⟩ := ih hrest
        exact ⟨item, List.mem_cons_of_mem _ hitem, hread⟩
      · nomatch hvalue

namespace Tables

variable {tables : Tables} {doc : String} {rev : RevId} {sequence number : Int} {row : RevisionRow}
  {target : Revision} {error : StorageError}

/-! ### Queries -/

theorem readStored_error {α : Type} {read : Except DataError α} (h : readStored read = .error error) : error.Unreadable := by
  cases read with
  | ok value => nomatch h
  | error fault => exact ⟨fault, (Except.error.inj h).symm⟩

theorem attachmentsFor_error (h : tables.attachmentsFor sequence = .error error) : error.Unreadable := by
  obtain ⟨stored, -, hread⟩ := mapM_error h
  rcases except_bind_error_iff.mp hread with hencoding | ⟨_, -, hlater⟩
  · exact readStored_error hencoding
  · rcases except_bind_error_iff.mp hlater with hdigest | ⟨_, -, hvalue⟩
    · exact readStored_error hdigest
    · nomatch hvalue

theorem readRevision_error (h : tables.readRevision doc row = .error error) : error.Unreadable := by
  rcases except_bind_error_iff.mp h with hattachments | ⟨_, -, hlater⟩
  · exact attachmentsFor_error hattachments
  · rcases except_bind_error_iff.mp hlater with hrev | ⟨_, -, hvalue⟩
    · exact readStored_error hrev
    · nomatch hvalue

theorem getBySequence_error (h : tables.getBySequence sequence = .error error) : error.Unreadable := by
  unfold getBySequence at h
  split at h
  · nomatch h
  · split at h
    · nomatch h
    · rename_i row _ _ doc _
      cases hread : tables.readRevision doc row with
      | ok revision =>
        rw [hread] at h
        nomatch h
      | error fault =>
        rw [hread] at h
        obtain rfl := Except.error.inj h
        exact readRevision_error hread

theorem leaves_error (h : tables.leaves number = .error error) : error.Unreadable := by
  obtain ⟨leaf, -, hread⟩ := mapM_error h
  rcases except_bind_error_iff.mp hread with hrev | ⟨_, -, hvalue⟩
  · exact readStored_error hrev
  · nomatch hvalue

/-! ### Statements -/

theorem query_fails {α : Type} {read : Tables → Query α} {may : StorageError → Prop}
    (h : ∀ error, read tables = .error error → may error) : FailsWith may (Statement.query read) tables := by
  refine .get_bind ?_
  cases hread : read tables with
  | ok value => exact .pure value
  | error error => exact .throw (h error hread)

theorem pickWinner_fails : FailsWith StorageError.Unreadable (pickWinner number) tables := by
  refine (query_fails fun _ => leaves_error).bind fun leaves _ _ => ?_
  cases Election.winner? leaves with
  | none => exact .pure _
  | some leaf => exact .of_ok rfl

theorem Shape.insertRevision_ok {new : NewRevision} (shape : tables.Shape) (hfertile : tables.barren = [])
    (haccepts : tables.Accepts new) : ∃ insertion inserted, insertRevision new tables = .ok insertion inserted := by
  cases hfound : tables.sequenceOf? new.document new.rev with
  | some sequence => exact ⟨_, _, insertRevision_ok_iff.mpr (.inl ⟨sequence, hfound, rfl, rfl⟩)⟩
  | none =>
    have hrefusal : tables.refusal? new = none :=
      shape.refusal?_eq_none_iff.mpr ⟨haccepts, fun _ _ => by simp [hfertile]⟩
    exact ⟨_, _, insertRevision_ok_iff.mpr (.inr ⟨⟨hfound, hrefusal⟩, rfl, rfl⟩)⟩

theorem place_of_readRevision (h : tables.readRevision doc row = .ok target) :
    target.sequence = row.sequence ∧ target.deleted = row.deleted := by
  obtain ⟨_, _, -, -, rfl⟩ := readRevision_ok_iff.mp h
  exact ⟨rfl, rfl⟩

/-- What the deletion of a stored revision fails with. -/
def Refusal (tables : Tables) (target : Revision) (error : StoreError) : Prop :=
  if target.deleted then error = .notFound (.deletedRevision target.doc target.rev)
  else if tables.isLeaf target.sequence then error.Internal
  else error = .conflict (.notLeaf target.doc target.rev)

theorem Has.live_iff (h : tables.Has target) (shape : tables.Shape) :
    tables.Live target.doc target.rev ↔ target.deleted = false ∧ tables.isLeaf target.sequence = true := by
  obtain ⟨row, hrow, hnumber, htext, hread⟩ := h.exists_row
  obtain ⟨hsequence, hdeleted⟩ := place_of_readRevision hread
  rw [hdeleted, hsequence]
  constructor
  · rintro ⟨other, hnumber', hleaf, htext', hlive⟩
    obtain ⟨hother, -, hchildless⟩ := mem_leafRows_iff.mp hleaf
    obtain rfl := shape.eq_of_revText hrow hother (Option.some.inj (hnumber.symm.trans hnumber')) (htext.trans htext'.symm)
    exact ⟨hlive, hchildless⟩
  · rintro ⟨hlive, hchildless⟩
    exact ⟨row, hnumber, mem_leafRows_iff.mpr ⟨hrow, rfl, hchildless⟩, htext, hlive⟩

end Tables

/-! ### Edits -/

namespace Edit

variable {draft : Draft} {target : Revision}

theorem snapshot_internal {sequence : Int} : FailsWith StoreError.Internal (snapshot sequence) draft := by
  have hquery : FailsWith StorageError.Unreadable (Statement.query (·.getBySequence sequence)) draft.tables :=
    query_fails fun _ => getBySequence_error
  refine (statement_fails (hquery.mono fun _ => StorageError.Unreadable.internal)).bind fun found _ _ => ?_
  cases found with
  | some revision => exact .pure revision
  | none => exact .throw (.inr ⟨_, rfl⟩)

theorem bury_refuses (healthy : draft.tables.Healthy) (hhas : draft.tables.Has target) :
    FailsWith (draft.tables.Refusal target) (bury target.doc target.rev) draft := by
  obtain ⟨row, hrow, hnumber, -, hread⟩ := hhas.exists_row
  refine .bind_of_ok (documentNumber_ok_iff.mpr ⟨hnumber, rfl⟩) (.bind_of_ok (query_ok_iff.mpr ⟨hhas, rfl⟩) ?_)
  refine .bind_of_ok (require_ok_iff.mpr ⟨rfl, rfl⟩) (.guard (fun hdeleted => ?_) fun hlive =>
    .get_bind (.guard (fun hinner => ?_) fun hleaf => ?_))
  · rw [Refusal, if_pos hdeleted]
  · rw [Refusal, if_neg hlive, if_neg (by simpa using hinner)]
  have hinternal : draft.tables.Refusal target = StoreError.Internal := by
    funext error
    rw [Refusal, if_neg hlive, if_pos (by simpa using hleaf)]
  rw [hinternal]
  obtain ⟨leaves, -, hprev⟩ := (healthy.crowned row.document).currentWinner healthy.shape
  refine .bind_of_ok (query_ok_iff.mpr ⟨hprev, rfl⟩) ?_
  rw [(place_of_readRevision hread).1]
  let buried (current : Bool) : NewRevision :=
    ⟨row.document, (Content.tombstone target.rev).rev, some row.sequence, true, current, true, Body.empty⟩
  cases target.current with
  | true =>
    obtain ⟨lowered, hlower, hlowered, haccepts⟩ := healthy.lower_ok hrow
    obtain ⟨insertion, inserted, hinsert⟩ := hlowered.shape.insertRevision_ok hlowered.fertile
      (haccepts (buried true) rfl rfl)
    refine .bind_of_ok (statement_ok_iff.mpr ⟨lowered, hlower, rfl⟩) ?_
    refine .bind_of_ok (statement_ok_iff.mpr ⟨inserted, hinsert, rfl⟩) ?_
    refine (statement_fails (pickWinner_fails.mono fun _ => StorageError.Unreadable.internal)).bind fun _ _ _ => ?_
    exact .bind_of_ok (show announce _ _ = .ok () _ from rfl) snapshot_internal
  | false =>
    have haccepts : draft.tables.Accepts (buried false) := accepts_of_parent hrow rfl rfl
    obtain ⟨insertion, inserted, hinsert⟩ := healthy.shape.insertRevision_ok healthy.fertile haccepts
    refine .bind_of_ok (statement_ok_iff.mpr ⟨inserted, hinsert, rfl⟩) (.bind_of_ok (ok_pure_iff.mpr ⟨rfl, rfl⟩) ?_)
    exact .bind_of_ok (show announce _ _ = .ok () _ from rfl) snapshot_internal

end Edit

/-! ### Stores -/

namespace Store

variable {store : Store} {target : Revision}

theorem delete_refuses (hopen : store.closed = false) (hrest : store.AtRest)
    (healthy : store.writer.database.tables.Healthy) (hhas : store.writer.database.tables.Has target) :
    FailsWith (store.writer.database.tables.Refusal target) (delete target.doc target.rev) store :=
  execute_fails hopen hrest
    (Action.delete_ends (covers_any.bury target.doc target.rev) store.writer (Writer.anchored_of_rest hrest))
    (Action.transact_edit_fails (Writer.intact_of_rest hrest) (Edit.bury_grows _ _) (Edit.bury_refuses healthy hhas))

/-- The kind of the error tells whether a stored revision is deleted or has a child. -/
theorem delete_error_iff (hopen : store.closed = false) (hrest : store.AtRest)
    (healthy : store.writer.database.tables.Healthy) (hhas : store.writer.database.tables.Has target) :
    ((∃ missing after, delete target.doc target.rev store = .error (.notFound missing) after) ↔ target.deleted = true) ∧
      ((∃ what after, delete target.doc target.rev store = .error (.conflict what) after) ↔
        target.deleted = false ∧ store.writer.database.tables.isLeaf target.sequence = false) := by
  cases hresult : delete target.doc target.rev store with
  | ok revision after =>
    obtain ⟨-, writer, hwriter, -, -⟩ := execute_ok_iff.mp hresult
    obtain ⟨row, hlive, -⟩ := (Action.delete_buries healthy hwriter).below
    obtain ⟨hlive, hleaf⟩ := (hhas.live_iff healthy.shape).mp ⟨row, hlive⟩
    simp [hlive, hleaf]
  | error error after =>
    have hrefused := delete_refuses hopen hrest healthy hhas error after hresult
    unfold Refusal at hrefused
    split at hrefused
    · rename_i hdeleted
      simp [hrefused, hdeleted]
    · rename_i hlive
      split at hrefused
      · rename_i hleaf
        rcases hrefused with ⟨fault, rfl⟩ | ⟨what, rfl⟩ <;> simp [hlive, hleaf]
      · rename_i hinner
        simp [hrefused, hlive, hinner]

end Store

end RevisionForest
