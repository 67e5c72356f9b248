import RevisionForest.Proofs.Locals
import RevisionForest.Proofs.Pedigree
import RevisionForest.Proofs.SideBySide
/-!
# Local documents by themselves

No mutation touches the table of local documents (`covers_detached`), and what a request for a local document answers and leaves can be told from this table alone (`Action.statement_concurs`). So two stores with the same local documents answer such requests alike, whatever else they hold.
-/

namespace RevisionForest

namespace Tables

variable {tables tables' : Tables} {number : Int}

/-! ### Statements on documents -/

theorem insertDocument_locals {doc : String} (h : insertDocument doc tables = .ok number tables') :
    tables'.locals = tables.locals := by
  obtain ⟨-, -, rfl⟩ := insertDocument_ok_iff.mp h
  rfl

theorem insertRevision_locals {new : NewRevision} {insertion : Insertion}
    (h : insertRevision new tables = .ok insertion tables') : tables'.locals = tables.locals := by
  rcases insertRevision_ok_iff.mp h with ⟨_, -, -, rfl⟩ | ⟨-, -, rfl⟩ <;> rfl

theorem setCurrent_locals {sequence : Int} {current : Bool} {done : Unit}
    (h : setCurrent sequence current tables = .ok done tables') : tables'.locals = tables.locals := by
  obtain ⟨-, rfl⟩ := setCurrent_ok_iff.mp h
  rfl

theorem pickWinner_locals {elected : Option Winner} (h : pickWinner number tables = .ok elected tables') :
    tables'.locals = tables.locals := by
  obtain ⟨_, -, ⟨-, -, rfl⟩ | ⟨_, -, -, rfl⟩⟩ := pickWinner_ok_iff.mp h <;> rfl

theorem insertAttachments_locals {sequence : Int} {attachments : List Attachment} {done : Unit}
    (h : insertAttachments sequence attachments tables = .ok done tables') : tables'.locals = tables.locals := by
  obtain rfl := insertAttachments_ok h
  rfl

theorem copyAttachments_locals {source target : Int} {skip : List String} {count : Nat}
    (h : copyAttachments source target skip tables = .ok count tables') : tables'.locals = tables.locals := by
  obtain ⟨_, -, hinsert, -⟩ := copyAttachments_ok_iff.mp h
  exact insertAttachments_locals hinsert

theorem openTables_locals {doc : String} (h : Edit.openTables doc tables = .ok number tables') :
    tables'.locals = tables.locals := by
  rcases openTables_ok_iff.mp h with ⟨-, rfl⟩ | ⟨-, -, rfl⟩ <;> rfl

theorem plant_locals {parent last : Option Int} {missing : List RevId}
    (h : Edit.plant number parent missing tables = .ok last tables') : tables'.locals = tables.locals := by
  induction missing generalizing tables parent with
  | nil =>
    obtain ⟨-, rfl⟩ := ok_pure_iff.mp h
    rfl
  | cons rev rest ih =>
    obtain ⟨_, _, hinsert, hrest⟩ := ok_bind_iff.mp h
    rw [ih hrest, insertRevision_locals hinsert]

/-! ### Statements on local documents -/

theorem getLocal_congr (h : tables'.locals = tables.locals) (doc : String) : tables'.getLocal doc = tables.getLocal doc := by
  rw [getLocal, getLocal, h]

theorem writeLocal_congr (h : tables'.locals = tables.locals) (row : LocalRow) :
    (tables'.writeLocal row).locals = (tables.writeLocal row).locals := by
  simp only [writeLocal, mapLocals, h]
  split <;> rfl

theorem putLocal_concurs (h : tables'.locals = tables.locals) (doc : String) (body : Bytes) :
    Concurs (fun document document' after after' => document = document' ∧ after'.locals = after.locals)
      (putLocal doc body tables) (putLocal doc body tables') := by
  have hread : Agree Eq (tables.nextLocalRev doc) (tables'.nextLocalRev doc) := by
    rw [nextLocalRev, nextLocalRev, getLocal_congr h]
    exact .refl _
  refine (Statement.query_concurs hread).bind ?_
  rintro rev _ _ _ ⟨rfl, rfl, rfl⟩
  exact .ok ⟨rfl, writeLocal_congr h ⟨doc, rev.text, body⟩⟩

theorem deleteLocal_concurs (h : tables'.locals = tables.locals) (doc : String) :
    Concurs (fun removed removed' after after' => removed = removed' ∧ after'.locals = after.locals)
      (deleteLocal doc tables) (deleteLocal doc tables') := by
  unfold deleteLocal
  rw [bind_of_ok get_eq, bind_of_ok get_eq, h]
  exact .ok ⟨rfl, rfl⟩

end Tables

/-! ### Mutations -/

/-- The local documents are the same. -/
def Holdings.Detached (before after : Holdings) : Prop :=
  after.tables.locals = before.tables.locals

namespace Edit

open Tables

variable {draft draft' : Draft} {doc : String} {body : Bytes} {revision : Revision}

theorem create_locals {attachments : List NewAttachment} (h : create doc body attachments draft = .ok revision draft') :
    draft'.tables.locals = draft.tables.locals := by
  obtain ⟨-, _, _, _, _, _, _, hdocument, -, hinsert, hdescribe, -, rfl⟩ := create_ok h
  rw [insertAttachments_locals hdescribe, insertRevision_locals hinsert, insertDocument_locals hdocument]

theorem update_locals {expected : RevId} {changes : AttachmentChanges}
    (h : update doc expected body changes draft = .ok revision draft') : draft'.tables.locals = draft.tables.locals := by
  obtain ⟨_, _, _, _, _, -, _, _, _, _, _, _, _, _, -, hlower, hinsert, hcopy, hdescribe, hpick, -, rfl⟩ := update_ok h
  rw [pickWinner_locals hpick, insertAttachments_locals hdescribe, copyAttachments_locals hcopy,
    insertRevision_locals hinsert, setCurrent_locals hlower]

theorem bury_locals {rev : RevId} (h : bury doc rev draft = .ok revision draft') :
    draft'.tables.locals = draft.tables.locals := by
  obtain ⟨_, _, _, -, _, _, _, _, ⟨-, _, hlower, hinsert, hpick⟩ | ⟨-, hinsert, -, rfl⟩, -, rfl⟩ := bury_ok_iff.mp h
  · rw [pickWinner_locals hpick, insertRevision_locals hinsert, setCurrent_locals hlower]
  · exact insertRevision_locals hinsert

theorem graft_locals {item : Graft} {found : Option Revision} (h : graft item draft = .ok found draft') :
    draft'.tables.locals = draft.tables.locals := by
  obtain ⟨_, _, _, -, hopen, ⟨-, -, rfl⟩ | ⟨-, _, _, _, _, _, _, _, _, _, _, -, hplant, hinsert, -, hattach, hpick, -, -,
    rfl⟩⟩ := graft_ok_iff.mp h
  · exact openTables_locals hopen
  · rw [pickWinner_locals hpick, insertAttachments_locals hattach, insertRevision_locals hinsert, plant_locals hplant,
      openTables_locals hopen]

end Edit

theorem covers_detached : Covers Holdings.Detached where
  refl := fun _ _ _ _ _ => rfl
  trans := fun h h' => Eq.trans h' h
  create := fun doc body attachments _ _ =>
    ⟨Edit.create_grows doc body attachments, fun _ _ _ h _ => Edit.create_locals h⟩
  update := fun doc expected body changes _ _ =>
    ⟨Edit.update_grows doc expected body changes, fun _ _ _ h _ => Edit.update_locals h⟩
  bury := fun doc rev => ⟨Edit.bury_grows doc rev, fun _ _ _ h _ => Edit.bury_locals h⟩
  graft := fun item _ => ⟨Edit.graft_grows item, fun _ _ _ h _ => Edit.graft_locals h⟩

/-! ### Requests for local documents -/

namespace Action

variable {α : Type} {start start' : Writer}

theorem statement_concurs {work : Statement α} {post : α → α → Tables → Tables → Prop} (hrest : start.database.group = none)
    (hrest' : start'.database.group = none) (h : Concurs post (work start.database.tables) (work start'.database.tables)) :
    Concurs (fun value value' after after' => post value value' after.database.tables after'.database.tables)
      (transact (transaction (Transaction.statement work)) start)
      (transact (transaction (Transaction.statement work)) start') := by
  rw [transaction_statement]
  generalize hwork : work start.database.tables = result at h
  generalize hwork' : work start'.database.tables = result' at h
  cases h with
  | @ok value value' tables tables' hpost =>
    have hedit : Edit.statement work ⟨start.database.tables, start.blobs, []⟩ = .ok value ⟨tables, start.blobs, []⟩ := by
      simp only [Edit.statement, hwork]
    have hedit' : Edit.statement work ⟨start'.database.tables, start'.blobs, []⟩
        = .ok value' ⟨tables', start'.blobs, []⟩ := by
      simp only [Edit.statement, hwork']
    rw [transact_edit_of_ok hrest hedit, transact_edit_of_ok hrest' hedit']
    exact .ok hpost
  | error error tables tables' =>
    have hedit : Edit.statement work ⟨start.database.tables, start.blobs, []⟩
        = .error (.ofStorage error) ⟨tables, start.blobs, []⟩ := by
      simp only [Edit.statement, hwork]
    have hedit' : Edit.statement work ⟨start'.database.tables, start'.blobs, []⟩
        = .error (.ofStorage error) ⟨tables', start'.blobs, []⟩ := by
      simp only [Edit.statement, hwork']
    rw [transact_edit_of_error hrest hedit, transact_edit_of_error hrest' hedit']
    exact .error _ _ _

theorem deleteLocal_concurs (hrest : start.database.group = none) (hrest' : start'.database.group = none)
    (h : start'.database.tables.locals = start.database.tables.locals) (doc : String) :
    let deletion : Action Unit := do
      let removed ← transact (transaction (Transaction.statement (Tables.deleteLocal doc)))
      if !removed then
        fail (.notFound (.localDocument doc))
    Concurs (fun _ _ after after' => after'.database.tables.locals = after.database.tables.locals) (deletion start)
      (deletion start') := by
  refine (statement_concurs hrest hrest' (Tables.deleteLocal_concurs h doc)).bind ?_
  rintro removed _ between between' ⟨rfl, hsame⟩
  cases removed with
  | true => exact .ok hsame
  | false => exact .error _ _ _

end Action

end RevisionForest
