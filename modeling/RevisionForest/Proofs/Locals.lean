import RevisionForest.Proofs.Integrity
import RevisionForest.Proofs.Submission
/-!
# Local documents stand apart

Local documents have a table of their own, and no statement on them touches another one (`Tables.Aside`). So the documents of a store are the same after every request for local documents, and what holds of their trees still holds.
-/

namespace RevisionForest

namespace Tables

variable {before between after : Tables}

/-- Nothing but local documents differs. -/
def Aside (before after : Tables) : Prop :=
  { before with locals := after.locals } = after

theorem Aside.refl (tables : Tables) : tables.Aside tables :=
  rfl

theorem Aside.healthy (h : before.Aside after) (healthy : before.Healthy) : after.Healthy := by
  rw [← show { before with locals := after.locals } = after from h]
  exact ⟨healthy.shape.aside _ _, ⟨healthy.legible.revisions, healthy.legible.attachments⟩, healthy.crowned,
    healthy.fertile⟩

theorem Aside.extends (h : before.Aside after) : before.Extends after := by
  rw [← show { before with locals := after.locals } = after from h]
  exact ⟨List.prefix_rfl, List.prefix_rfl⟩

theorem Aside.bones (h : before.Aside after) : after.bones = before.bones := by
  rw [← show { before with locals := after.locals } = after from h]
  rfl

theorem putLocal_aside (doc : String) (body : Bytes) : Keeps (Aside before) (putLocal doc body) := by
  refine (query_keeps _).bind fun rev => Keeps.answer (.modify fun tables h => ?_) _
  rw [← show { before with locals := tables.locals } = tables from h, writeLocal_eq]
  rfl

theorem deleteLocal_aside (doc : String) : Keeps (Aside before) (deleteLocal doc) := by
  intro tables h
  rw [← show { before with locals := tables.locals } = tables from h]
  rfl

end Tables

/-- Nothing but local documents differs, and nothing is announced. -/
structure Holdings.Aside (before after : Holdings) : Prop where
  tables : before.tables.Aside after.tables
  blobs : before.blobs.Grown after.blobs
  feed : after.feed = before.feed

variable {R : Holdings → Holdings → Prop}

theorem Tables.runs_of_aside {α : Type} {work : Statement α}
    (haside : ∀ {before after : Holdings}, before.Aside after → R before after)
    (h : ∀ tables, Keeps (Aside tables) work) : (Edit.statement work).Runs R := by
  refine ⟨.statement work, fun draft value draft' hwork feed => haside ?_⟩
  obtain ⟨tables, hstatement, rfl⟩ := Edit.statement_ok_iff.mp hwork
  exact ⟨stateAfter_of_ok hstatement ▸ h draft.tables (.refl draft.tables), .refl draft.blobs, rfl⟩

namespace Action

theorem transaction_statement {α : Type} (work : Statement α) : transaction (Transaction.statement work) = edit (Edit.statement work) := by
  funext writer
  rcases writer with ⟨⟨tables, group⟩, blobs, feed, clock⟩
  unfold transaction Transaction.statement edit Edit.statement
  cases hwork : work tables <;> cases group <;> simp [install, Database.stage]

section Aside

variable (course : Course R) (haside : ∀ {before after : Holdings}, before.Aside after → R before after)

include course haside

theorem putLocal_follows (doc : String) (body : Bytes) :
    Follows R (transact (transaction (Transaction.statement (Tables.putLocal doc body)))) := by
  rw [transaction_statement]
  exact (Ends.transact_edit (Tables.runs_of_aside haside fun _ => Tables.putLocal_aside doc body)).follows course

theorem deleteLocal_follows (doc : String) :
    Follows R (do
      let removed ← transact (transaction (Transaction.statement (Tables.deleteLocal doc)))
      if !removed then
        fail (.notFound (.localDocument doc))) := by
  rw [transaction_statement]
  have hends := Ends.transact_edit (Tables.runs_of_aside haside fun _ => Tables.deleteLocal_aside doc)
  refine (hends.follows course).bind course fun removed => ?_
  cases removed with
  | true => exact .pure course PUnit.unit
  | false => exact .fail course _

end Aside

theorem vacuum_follows (course : Course R) : Follows R (transaction Transaction.vacuum) := by
  intro writer _
  have hsame : stateAfter Transaction.vacuum writer.database = writer.database := by
    unfold Transaction.vacuum
    rw [stateAfter_get_bind]
    split <;> rfl
  unfold EndsAt transaction
  cases hresult : Transaction.vacuum writer.database with
  | ok value database =>
    rw [stateAfter_of_ok hresult] at hsame
    exact .of_same course hsame (.refl writer.blobs) rfl
  | error error database =>
    rw [stateAfter_of_error hresult] at hsame
    exact .of_same course hsame (.refl writer.blobs) rfl

end Action

end RevisionForest
