import RevisionForest.Proofs.Branching
import RevisionForest.Proofs.Histories
import RevisionForest.Proofs.Idempotence
import RevisionForest.Proofs.Luggage
import RevisionForest.Proofs.Snapshots
import RevisionForest.Proofs.Spared
/-!
# What a graft adds

A history that is merged is in three parts: the ids up to the deepest one above the revision that is stored, the missing ones after it, and the revision itself. A graft that was not there before adds the missing ids as a chain of stubs below that deepest one, the revision with its content below them, and its attachments; nothing else is added, and a document only if it was absent (`Tables.Scion`). The new rows continue the stored history of the row they hang off, whatever the history that came with the graft says above it (`Store.Onward.graft_inserts`).
-/

namespace RevisionForest

open Tables

namespace Tables

variable {tables before after : Tables} {item : Graft} {prior missing : List RevId} {rev : RevId} {number sequence : Int}
  {above : Option Int} {attachments : List Attachment}

/-- A graft has added the tip of its history and the ids that were missing between it and the deepest one known. -/
structure Scion (before after : Tables) (item : Graft) (prior missing : List RevId) (rev : RevId) (number : Int)
    (above : Option Int) : Prop where
  history : item.history = prior ++ missing ++ [rev]
  /-- What is added hangs off the deepest id above the tip that was stored, or starts with a root. -/
  known : prior = [] ∧ above = none ∨
    ∃ deepest sequence, prior.getLast? = some deepest ∧ before.place? item.doc deepest = some sequence ∧
      above = some sequence
  unknown : ∀ other ∈ missing ++ [rev], ¬before.Knows item.doc other
  home : after.documentNumber? item.doc = some number
  documents : after.documents
    = before.documents ++ if (before.documentNumber? item.doc).isSome then [] else [⟨number, item.doc⟩]
  bones : after.bones = before.bones ++ (stubRows number above (before.lastSequence + 1) missing
    ++ [((Edit.tip item number (lastStub above (before.lastSequence + 1) missing) rev).row
      (before.lastSequence + missing.length + 1)).bare])
  attachments : after.attachments = before.attachments
    ++ (item.attachments.map (·.stored rev.generation)).map (attachmentRow (before.lastSequence + missing.length + 1))

theorem exists_stubRow {parent : Option Int} {stubbed : RevId} (h : stubbed ∈ missing) :
    ∃ row ∈ stubRows number parent sequence missing, row.revText = stubbed.text ∧ row.document = number := by
  induction missing generalizing parent sequence with
  | nil => exact absurd h List.not_mem_nil
  | cons first rest ih =>
    rcases List.mem_cons.mp h with rfl | h
    · exact ⟨_, List.mem_cons_self, rfl, rfl⟩
    · obtain ⟨row, hrow, hnamed⟩ := ih h
      exact ⟨row, List.mem_cons_of_mem _ hrow, hnamed⟩

/-! ### Reading what was added -/

theorem Scion.extends (h : before.Scion after item prior missing rev number above) : before.Extends after :=
  ⟨h.documents ▸ List.prefix_append _ _, h.bones ▸ List.prefix_append _ _⟩

theorem Scion.stub_has (h : before.Scion after item prior missing rev number above) (shape : before.Shape)
    (healthy : after.Healthy) {stubbed : RevId} (hstubbed : stubbed ∈ missing) :
    ∃ revision, after.Has revision ∧ revision.doc = item.doc ∧ revision.rev = stubbed ∧ revision.available = false ∧
      revision.deleted = false ∧ revision.body = Body.empty ∧ revision.attachments = [] := by
  obtain ⟨bone, hbone, htext, hhome⟩ : ∃ bone ∈ stubRows number above (before.lastSequence + 1) missing,
      bone.revText = stubbed.text ∧ bone.document = number := exists_stubRow hstubbed
  obtain ⟨-, hstub, hlow, hhigh⟩ := mem_stubRows hbone
  have hmem : bone ∈ after.bones := by
    rw [h.bones]
    exact List.mem_append_right _ (List.mem_append_left _ hbone)
  obtain ⟨current, attachments, hattachments, hhas⟩ := healthy.exists_has hmem (hhome ▸ h.home) htext
  have hnone : after.described bone.sequence = ([] : List Attachment).map (attachmentRow bone.sequence) := by
    rw [described_of_ne h.attachments (by omega), shape.described_eq_nil (by omega), List.map_nil]
  obtain rfl := Except.ok.inj (hattachments.symm.trans (attachmentsFor_of_described hnone .nil))
  exact ⟨_, hhas, rfl, rfl, hstub.available, hstub.deleted, hstub.body, rfl⟩

theorem Scion.tip_has (h : before.Scion after item prior missing rev number above) (shape : before.Shape)
    (healthy : after.Healthy) :
    ∃ current attachments, attachments.Perm (item.attachments.map (·.stored rev.generation)) ∧
      after.Has ⟨item.doc, number, rev, before.lastSequence + missing.length + 1,
        lastStub above (before.lastSequence + 1) missing, item.deleted, current, item.body.isSome || item.deleted,
        item.body.getD Body.empty, attachments⟩ := by
  have hmem : ((Edit.tip item number (lastStub above (before.lastSequence + 1) missing) rev).row
      (before.lastSequence + missing.length + 1)).bare ∈ after.bones := by
    rw [h.bones]
    exact List.mem_append_right _ (List.mem_append_right _ (List.mem_singleton.mpr rfl))
  obtain ⟨current, attachments, hattachments, hhas⟩ := healthy.exists_has hmem h.home rfl
  obtain ⟨listed, hlisted, hperm⟩ := attachmentsFor_perm (shape.described_fresh (by omega) h.attachments)
  obtain rfl := Except.ok.inj (hattachments.symm.trans hlisted)
  exact ⟨current, attachments, hperm, hhas⟩

theorem Scion.revisionHistory_eq (h : before.Scion after item prior missing rev number above) (healthy : before.Healthy)
    (healthy' : after.Healthy) :
    ∃ history, prior.getLast?.elim (.ok []) (before.revisionHistory item.doc) = .ok history ∧
      after.revisionHistory item.doc rev = .ok (history ++ missing ++ [rev]) := by
  obtain ⟨history, hprior, htrunk⟩ : ∃ history,
      prior.getLast?.elim (.ok []) (before.revisionHistory item.doc) = .ok history ∧
        before.Trunk item.doc above history := by
    rcases h.known with ⟨rfl, rfl⟩ | ⟨deepest, sequence, hdeepest, hplace, rfl⟩
    · exact ⟨[], rfl, .root⟩
    · obtain ⟨found, hfound, hsequence⟩ := place?_eq_some_iff.mp hplace
      obtain ⟨row, hrow, rfl, htext, -⟩ := healthy.shape.sequenceOf?_eq_some_iff.mp hsequence
      obtain ⟨_, history, hread, -⟩ := healthy.revisionHistory_ok hrow hfound htext
      exact ⟨history, by rw [hdeepest, Option.elim_some, hread], .below hplace hread⟩
  refine ⟨history, hprior, ?_⟩
  have hadded : ∀ row ∈ stubRows number above (before.lastSequence + 1) missing
      ++ [((Edit.tip item number (lastStub above (before.lastSequence + 1) missing) rev).row
        (before.lastSequence + missing.length + 1)).bare], row ∈ after.bones := by
    intro row hrow
    rw [h.bones]
    exact List.mem_append_right _ hrow
  exact (htrunk.mono h.extends healthy.shape healthy'.shape).branch healthy' h.home hadded rfl rfl rfl

end Tables

/-! ### Grafts -/

/-- A graft that was not there before adds its scion, and spares all other documents. -/
theorem Edit.graft_scion {draft draft' : Draft} {item : Graft} {revision : Revision} (healthy : draft.tables.Healthy)
    (hgap : Graft.gap? item.history = none) (h : Edit.graft item draft = .ok (some revision) draft') :
    draft'.tables.Healthy ∧
      (∃ prior missing number above,
        draft.tables.Scion draft'.tables item prior missing revision.rev number above) ∧
      ∀ doc, doc ≠ item.doc → draft.tables.Spares doc draft'.tables := by
  obtain ⟨-, -, hname⟩ := graft_has healthy hgap h
  obtain ⟨rev, number, opened, ⟨hrev, hopen, healthy'⟩, ⟨-, hnone, -⟩ | ⟨⟨hnew, -, -⟩, -, hgains⟩⟩ :=
    graft_effect healthy hgap h
  · nomatch hnone
  obtain rfl := Option.some.inj (hname.symm.trans hrev)
  obtain ⟨hopened, hnumber, -⟩ := openTables_ok healthy hopen
  obtain ⟨hbones, hattachments⟩ := openTables_bones hopen
  obtain ⟨prior, hprior, hunknown, habove⟩ := Graft.splitKnown_spec (opened.sequenceOf? number) item.history.dropLast
  have hlast : opened.lastSequence = draft.tables.lastSequence := lastSequence_of_bones hbones
  rw [hlast] at hgains
  generalize Graft.splitKnown (opened.sequenceOf? number) item.history.dropLast = split at hprior hunknown habove hgains
  refine ⟨healthy', ⟨prior, split.2, number, split.1, ?_⟩, fun doc hne => (graft_spares healthy hne.symm hgap h).1⟩
  exact {
    history := by rw [hprior, List.dropLast_append_getLast? _ hname]
    known := by
      refine habove.imp And.symm ?_
      rintro ⟨deepest, sequence, hdeepest, hfound, hsome⟩
      have hsame := openTables_of_known healthy.shape hopen (Option.isSome_iff_exists.mpr ⟨sequence, hfound⟩)
      subst hsame
      exact ⟨deepest, sequence, hdeepest, place?_eq_some_iff.mpr ⟨number, hnumber, hfound⟩, hsome⟩
    unknown := by
      intro other hother
      rw [← openTables_knows healthy.shape hopen, knows_iff_of_number hnumber]
      rcases List.mem_append.mp hother with hmissing | hlast
      · simp [hunknown other hmissing]
      · rw [List.mem_singleton.mp hlast, hnew]
        simp
    home := (hgains.documentNumber? item.doc).trans hnumber
    documents := by
      rw [hgains.documents]
      rcases openTables_ok_iff.mp hopen with ⟨hthere, rfl⟩ | ⟨⟨-, hfree⟩, rfl, rfl⟩
      · rw [hthere, Option.isSome_some, if_pos rfl, List.append_nil]
      · rw [hfree, Option.isSome_none, if_neg Bool.false_ne_true]
        rfl
    bones := by rw [hgains.bones, hbones]
    attachments := by rw [hgains.attachments, hattachments] }

namespace Store

variable {store after : Store} {item : Graft} {revision : Revision}

/-- A graft that inserts its revision adds the missing ids of its history as stubs and the revision with its content, all below the deepest stored one, and nothing else. -/
theorem Onward.graft_inserts {config : Config} {blobs : BlobStore} (h : (openWith config blobs).Onward store)
    (hgraft : graft item store = .ok (some revision) after) :
    let before := store.writer.database.tables
    ∃ prior missing rev number above,
      before.Scion after.writer.database.tables item prior missing rev number above ∧
      (∀ stubbed ∈ missing, ∃ found, after.read item.doc (some stubbed) = .ok found ∧ found.available = false ∧
        found.deleted = false ∧ found.body = Body.empty ∧ found.attachments = []) ∧
      (∃ current attachments, attachments.Perm (item.attachments.map (·.stored rev.generation)) ∧
        revision = ⟨item.doc, number, rev, before.lastSequence + missing.length + 1,
          lastStub above (before.lastSequence + 1) missing, item.deleted, current, item.body.isSome || item.deleted,
          item.body.getD Body.empty, attachments⟩ ∧
        after.read item.doc (some rev) = .ok revision) ∧
      (∃ history, prior.getLast?.elim (.ok []) (store.revisionHistory item.doc) = .ok history ∧
        after.revisionHistory item.doc rev = .ok (history ++ missing ++ [rev])) ∧
      ∀ doc, doc ≠ item.doc → before.Spares doc after.writer.database.tables := by
  intro before
  obtain ⟨-, healthy, -⟩ := h.preserved rfl healthy_empty
  obtain ⟨hopen, writer, hwriter, -, rfl⟩ := execute_ok_iff.mp hgraft
  have hopen' : ({ store with writer } : Store).closed = false := hopen
  obtain ⟨hcheck, draft, hwork, htables⟩ := Action.graft_ok hwriter
  have hgap := (Graft.check_ok_iff.mp hcheck).2.2.1
  obtain ⟨healthy', ⟨prior, missing, number, above, hscion⟩, hspares⟩ := Edit.graft_scion healthy hgap hwork
  obtain ⟨hhas, hhome, -⟩ := Edit.graft_has healthy hgap hwork
  rw [← htables] at healthy' hscion hspares hhas
  refine ⟨prior, missing, revision.rev, number, above, hscion, fun stubbed hstubbed => ?_, ?_, ?_, hspares⟩
  · obtain ⟨found, hfound, hdoc, hrev, hstub⟩ := hscion.stub_has healthy.shape healthy' hstubbed
    exact ⟨found, hdoc ▸ hrev ▸ (read_iff hopen').mpr hfound, hstub⟩
  · obtain ⟨current, attachments, hperm, htip⟩ := hscion.tip_has healthy.shape healthy'
    refine ⟨current, attachments, hperm, (hhas.unique htip hhome.symm rfl).symm, ?_⟩
    rw [← hhome]
    exact (read_iff hopen').mpr hhas
  · obtain ⟨history, hprior, hhistory⟩ := hscion.revisionHistory_eq healthy healthy'
    refine ⟨history, ?_, ask_of_open hopen' hhistory⟩
    cases hdeepest : prior.getLast? with
    | none =>
      rw [hdeepest] at hprior
      exact congrArg Except.ok (Except.ok.inj hprior)
    | some deepest =>
      rw [hdeepest] at hprior
      have hread : store.revisionHistory item.doc deepest = .ok history := ask_of_open hopen hprior
      exact hread

/-- A child of a missing child of a stored root, with an attachment. -/
theorem graft_inserts_attached :
    let root : RevId := ⟨1, "a", by decide, by decide⟩
    let tip : RevId := ⟨3, "c", by decide, by decide⟩
    let packed : NewAttachment := .plain "x" "text/plain" [1]
    let item : Graft :=
      { doc := "d", history := [root, ⟨2, "b", by decide, by decide⟩, tip], body := some Body.empty, attachments := [packed] }
    let store := stateAfter (graftAll [{ doc := "d", history := [root], body := some Body.empty }]) (new {})
    ∃ revision after, graft item store = .ok (some revision) after ∧ revision.rev = tip ∧ revision.available = true ∧
      revision.attachments = [packed.stored 3] := by
  intro root tip packed item store
  have hstart : (openWith {} {}).Onward store := .graftAll _ .start
  have hnew : ((graft item).run' store).any Option.isSome = true := by decide +kernel
  cases hgraft : graft item store with
  | error error after =>
    rw [run'_of_error hgraft] at hnew
    cases hnew
  | ok found after =>
    rw [run'_of_ok hgraft, Option.any_some, Option.isSome_iff_exists] at hnew
    obtain ⟨revision, rfl⟩ := hnew
    obtain ⟨prior, missing, rev, _, _, hscion, -, ⟨_, attachments, hperm, hrevision, -⟩, -, -⟩ := hstart.graft_inserts hgraft
    have hlast := congrArg List.getLast? hscion.history
    rw [List.getLast?_concat] at hlast
    obtain rfl : tip = rev := Option.some.inj hlast
    refine ⟨revision, after, rfl, ?_⟩
    rw [hrevision]
    exact ⟨rfl, rfl, List.perm_singleton.mp hperm⟩

end Store

end RevisionForest
