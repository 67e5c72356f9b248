import RevisionForest.Proofs.Effects
import Mathlib.Data.List.Chain
/-!
# Grafts keep the tables healthy

A history without a gap rises by one generation a step, so no id is in it twice and all ids before the last one have smaller generations. The ids above the deepest known one are new to the document; each becomes a stub below the one before (`Tables.stubRows`), and the revision itself the child of the last. Its election reads it, so its generation is in range, and with it are those of the stubs.
-/

namespace RevisionForest

/-! ### Histories -/

namespace Graft

variable {known? : RevId → Option Int} {history missing : List RevId} {rev : RevId}

theorem gap?_eq_none_iff :
    gap? history = none ↔ history.IsChain fun older newer => newer.generation = older.generation + 1 := by
  induction history with
  | nil => simp [gap?]
  | cons older rest ih =>
    cases rest with
    | nil => simp [gap?]
    | cons newer rest =>
      by_cases hstep : newer.generation = older.generation + 1
      · simp [gap?, hstep, ih, List.isChain_cons_cons]
      · simp [gap?, hstep, List.isChain_cons_cons]

theorem ascending_of_gap? (h : gap? history = none) :
    history.Pairwise fun older newer => older.generation < newer.generation := by
  refine List.isChain_iff_pairwise.mp ((gap?_eq_none_iff.mp h).imp fun older newer hstep => ?_)
  omega

theorem generation_lt_last (h : gap? history = none) (hlast : history.getLast? = some rev) :
    ∀ older ∈ history.dropLast, older.generation < rev.generation := by
  intro older holder
  have hsplit := List.dropLast_append_getLast? rev hlast
  have hascending := ascending_of_gap? h
  rw [← hsplit, List.pairwise_append] at hascending
  exact hascending.2.2 older holder rev (List.mem_singleton.mpr rfl)

theorem check_ok_iff {item : Graft} :
    item.check = .ok () ↔
      item.doc ≠ "" ∧ item.history ≠ [] ∧ gap? item.history = none ∧
        (∀ body, item.body = some body → Body.validate body = .ok ()) ∧
        Attachment.checkNames [] item.attachments = .ok () := by
  have hraise : ∀ (error : StoreError) (next : PUnit → Except StoreError Unit), (throw error >>= next) ≠ .ok () :=
    fun _ _ h => nomatch h
  unfold check
  by_cases hdoc : item.doc = ""
  · simp only [if_pos hdoc]
    exact iff_of_false (hraise _ _) fun h => h.1 hdoc
  rw [if_neg hdoc]
  by_cases hhistory : item.history = []
  · simp only [if_pos hhistory]
    exact iff_of_false (hraise _ _) fun h => h.2.1 hhistory
  rw [if_neg hhistory]
  cases hgap : gap? item.history with
  | some pair => exact iff_of_false (hraise _ _) fun h => nomatch h.2.2.1
  | none =>
    cases hbody : item.body with
    | none => simp [hdoc, hhistory, mapError_ok_iff]
    | some body =>
      have hunit : (∃ done : Unit, Body.validate body = .ok done) ↔ Body.validate body = .ok () :=
        ⟨fun ⟨_, h⟩ => h, fun h => ⟨(), h⟩⟩
      simp [hdoc, hhistory, except_bind_ok_iff, mapError_ok_iff, hunit]

theorem splitKnown_spec (known? : RevId → Option Int) (history : List RevId) :
    ∃ prior, prior ++ (splitKnown known? history).2 = history ∧
      (∀ rev ∈ (splitKnown known? history).2, known? rev = none) ∧
      ((splitKnown known? history).1 = none ∧ prior = [] ∨
        ∃ rev sequence, prior.getLast? = some rev ∧ known? rev = some sequence ∧
          (splitKnown known? history).1 = some sequence) := by
  induction history with
  | nil => exact ⟨[], rfl, by simp [splitKnown], .inl ⟨rfl, rfl⟩⟩
  | cons rev rest ih =>
    obtain ⟨prior, hrest, hunknown, hknown⟩ := ih
    cases hsplit : splitKnown known? rest with
    | mk found missing =>
      simp only [hsplit] at hrest hunknown hknown
      cases found with
      | some sequence =>
        simp only [splitKnown, hsplit]
        refine ⟨rev :: prior, by simp [hrest], hunknown, .inr ?_⟩
        rcases hknown with ⟨hnone, -⟩ | ⟨last, found, hlast, hfound, heq⟩
        · nomatch hnone
        · refine ⟨last, found, ?_, hfound, heq⟩
          rw [List.getLast?_cons, hlast]
          rfl
      | none =>
        rcases hknown with ⟨-, rfl⟩ | ⟨_, _, _, _, hnone⟩
        · cases hrev : known? rev with
          | some sequence =>
            simp only [splitKnown, hsplit, hrev]
            exact ⟨[rev], by simpa using hrest, hunknown, .inr ⟨rev, sequence, rfl, hrev, rfl⟩⟩
          | none =>
            simp only [splitKnown, hsplit, hrev]
            refine ⟨[], by simpa using hrest, fun other hother => ?_, .inl (by simp)⟩
            rcases List.mem_cons.mp hother with rfl | hother
            · exact hrev
            · exact hunknown other hother
        · nomatch hnone

theorem missing_lt (known? : RevId → Option Int) (hgap : gap? history = none) (hlast : history.getLast? = some rev) :
    ∀ stub ∈ (splitKnown known? history.dropLast).2, stub.generation < rev.generation := by
  obtain ⟨prior, hprior, -⟩ := splitKnown_spec known? history.dropLast
  intro stub hstub
  exact generation_lt_last hgap hlast stub (hprior ▸ List.mem_append_right prior hstub)

end Graft

namespace Tables

variable {tables planted : Tables} {number : Int} {parent : Option Int} {missing : List RevId} {rev : RevId}

/-- A revision known by its id only. -/
def stub (number : Int) (parent : Option Int) (rev : RevId) : NewRevision :=
  ⟨number, rev, parent, false, false, false, Body.empty⟩

/-- Stubs in a chain, from some sequence on. -/
def stubRows (number : Int) (parent : Option Int) (sequence : Int) : List RevId → List RevisionRow
  | [] => []
  | rev :: rest => (stub number parent rev).row sequence :: stubRows number (some sequence) (sequence + 1) rest

/-- The sequence of the last stub of a chain, or the parent of all if there is none. -/
def lastStub (parent : Option Int) (sequence : Int) : List RevId → Option Int
  | [] => parent
  | _ :: rest => lastStub (some sequence) (sequence + 1) rest

theorem length_stubRows (sequence : Int) : (stubRows number parent sequence missing).length = missing.length := by
  induction missing generalizing parent sequence with
  | nil => rfl
  | cons rev rest ih => rw [stubRows, List.length_cons, ih, List.length_cons]

theorem sequenceOf?_push_eq_none {new : NewRevision} (h : tables.sequenceOf? number rev = none)
    (hother : rev ≠ new.rev) : (tables.push new).sequenceOf? number rev = none := by
  refine sequenceOf?_eq_none_iff.mpr fun row hrow hdocument htext => ?_
  rcases mem_push_iff.mp hrow with hold | rfl
  · exact sequenceOf?_eq_none_iff.mp h row hold hdocument htext
  · exact hother (RevId.text_injective htext.symm)

theorem plant_ok (shape : tables.Shape) (fertile : tables.barren = [])
    (haccepts : ∀ rev, tables.Accepts (stub number parent rev))
    (hfresh : ∀ rev ∈ missing, tables.sequenceOf? number rev = none) (hdistinct : missing.Nodup) :
    ∃ planted, Edit.plant number parent missing tables
        = .ok (lastStub parent (tables.lastSequence + 1) missing) planted ∧
      tables.Gains planted (stubRows number parent (tables.lastSequence + 1) missing) [] ∧ planted.Shape ∧
      planted.barren = [] ∧
      (∀ rev, planted.Accepts (stub number (lastStub parent (tables.lastSequence + 1) missing) rev)) ∧
      ∀ rev, rev ∉ missing → tables.sequenceOf? number rev = none → planted.sequenceOf? number rev = none := by
  induction missing generalizing tables parent with
  | nil => exact ⟨tables, rfl, Gains.refl tables, shape, fertile, haccepts, fun _ _ hnone => hnone⟩
  | cons rev rest ih =>
    have hrefusal : tables.refusal? (stub number parent rev) = none :=
      shape.refusal?_eq_none_iff.mpr ⟨haccepts rev, fun _ _ => by simp [fertile]⟩
    have hnew : tables.sequenceOf? number rev = none := hfresh rev List.mem_cons_self
    have hinsert : insertRevision (stub number parent rev) tables
        = .ok (.inserted (tables.lastSequence + 1)) (tables.push (stub number parent rev)) :=
      insertRevision_ok_iff.mpr (.inr ⟨⟨hnew, hrefusal⟩, rfl, rfl⟩)
    have hshape := shape.push (haccepts rev) hnew
    have hlast : (tables.push (stub number parent rev)).lastSequence = tables.lastSequence + 1 := by
      rw [hshape.lastSequence_eq, shape.lastSequence_eq]
      simp [push]
    obtain ⟨hother, hrest⟩ := List.nodup_cons.mp hdistinct
    have hbelow : ∀ next, (tables.push (stub number parent rev)).Accepts
        (stub number (some (tables.lastSequence + 1)) next) := fun next =>
      ⟨fun sequence hsequence => ⟨_, mem_push_iff.mpr (.inr rfl), Option.some.inj hsequence, rfl⟩,
        fun hnone => absurd hnone (Option.some_ne_none _)⟩
    have hlater : ∀ next ∈ rest, (tables.push (stub number parent rev)).sequenceOf? number next = none := by
      intro next hmem
      have hne : next ≠ rev := fun heq => hother (heq ▸ hmem)
      exact sequenceOf?_push_eq_none (hfresh next (List.mem_cons_of_mem _ hmem)) hne
    obtain ⟨planted, hplant, hgains, hplanted, hfertile, hnext, hunknown⟩ := ih hshape fertile hbelow hlater hrest
    rw [hlast] at hplant hgains hnext
    refine ⟨planted, ok_bind_iff.mpr ⟨_, _, hinsert, hplant⟩, ?_, hplanted, hfertile, hnext, fun other hmem hnone => ?_⟩
    · have hpush : tables.Gains (tables.push (stub number parent rev))
          [((stub number parent rev).row (tables.lastSequence + 1)).bare] [] :=
        ⟨rfl, bones_push, (List.append_nil _).symm⟩
      exact hpush.trans hgains
    · obtain ⟨hne, hmem⟩ := List.ne_and_not_mem_of_not_mem_cons hmem
      exact hunknown other hmem (sequenceOf?_push_eq_none hnone hne)

theorem Sturdy.plant {last : Option Int} (sturdy : tables.Sturdy number)
    (hrange : ∀ rev ∈ missing, rev.generation < RevId.generationBound)
    (h : Edit.plant number parent missing tables = .ok last planted) : planted.Sturdy number := by
  induction missing generalizing tables parent with
  | nil =>
    obtain ⟨-, rfl⟩ := ok_pure_iff.mp h
    exact sturdy
  | cons rev rest ih =>
    obtain ⟨insertion, between, hinsert, hrest⟩ := ok_bind_iff.mp h
    have hbetween : between.Sturdy number :=
      Sturdy.insertRevision sturdy (hrange rev List.mem_cons_self) hinsert
    exact ih hbetween (fun other hother => hrange other (List.mem_cons_of_mem _ hother)) hrest

theorem openTables_ok {doc : String} (healthy : tables.Healthy)
    (h : Edit.openTables doc tables = .ok number planted) :
    planted.Healthy ∧ planted.documentNumber? doc = some number ∧ tables.Extends planted ∧
      planted.revisions = tables.revisions ∧ planted.attachments = tables.attachments := by
  unfold Edit.openTables at h
  cases hfound : tables.documentNumber? doc with
  | some found =>
    rw [hfound] at h
    obtain ⟨rfl, rfl⟩ := EStateM.Result.ok.inj h
    exact ⟨healthy, hfound, Extends.refl tables, rfl, rfl⟩
  | none =>
    rw [hfound] at h
    obtain ⟨⟨hnamed, hfree⟩, rfl, rfl⟩ := insertDocument_ok_iff.mp h
    have hregistered := healthy.register hnamed hfree
    refine ⟨hregistered, ?_, .register tables doc, rfl, rfl⟩
    exact hregistered.shape.documentNumber?_eq_some_iff.mpr (List.mem_append_right _ (List.mem_singleton.mpr rfl))

end Tables

namespace Edit

open Tables

variable {draft draft' : Draft} {item : Graft} {found : Option Revision} {number : Int} {rev : RevId} {opened : Tables}

theorem plant_missing (healthy : opened.Healthy) (hnumber : opened.documentNumber? item.doc = some number)
    (hgap : Graft.gap? item.history = none) :
    let split := Graft.splitKnown (opened.sequenceOf? number) item.history.dropLast
    let last := lastStub split.1 (opened.lastSequence + 1) split.2
    ∃ planted, plant number split.1 split.2 opened = .ok last planted ∧
      opened.Gains planted (stubRows number split.1 (opened.lastSequence + 1) split.2) [] ∧ planted.Shape ∧
      planted.barren = [] ∧ (∀ rev, planted.Accepts (stub number last rev)) ∧
      ∀ rev, rev ∉ split.2 → opened.sequenceOf? number rev = none → planted.sequenceOf? number rev = none := by
  obtain ⟨prior, hprior, hunknown, hknown⟩ :=
    Graft.splitKnown_spec (opened.sequenceOf? number) item.history.dropLast
  have hascending := (Graft.ascending_of_gap? hgap).sublist (List.dropLast_sublist item.history)
  rw [← hprior, List.pairwise_append] at hascending
  have hdistinct : (Graft.splitKnown (opened.sequenceOf? number) item.history.dropLast).2.Nodup :=
    hascending.2.1.imp fun hlt heq => absurd (heq ▸ hlt) (Nat.lt_irrefl _)
  refine plant_ok healthy.shape healthy.fertile (fun rev => ⟨fun parent hparent => ?_, fun hnone => ?_⟩) hunknown
    hdistinct
  · rcases hknown with ⟨hnone, -⟩ | ⟨known, sequence, -, hfound, hsome⟩
    · exact absurd (hnone.symm.trans hparent) (by simp)
    · obtain ⟨row, hrow, hdocument, -, hsequence⟩ := healthy.shape.sequenceOf?_eq_some_iff.mp hfound
      exact ⟨row, hrow, hsequence.trans (Option.some.inj (hsome.symm.trans hparent)), hdocument⟩
  · exact ⟨_, healthy.shape.documentNumber?_eq_some_iff.mp hnumber, rfl⟩

/-- A graft of a new revision adds the chain of stubs that was missing and the revision below it. -/
theorem graft_effect (healthy : draft.tables.Healthy) (hgap : Graft.gap? item.history = none)
    (h : graft item draft = .ok found draft') :
    ∃ rev number opened,
      (item.history.getLast? = some rev ∧ openTables item.doc draft.tables = .ok number opened ∧
        draft'.tables.Healthy) ∧
      (((opened.sequenceOf? number rev).isSome = true ∧ found = none ∧ draft'.tables = opened ∧
          draft'.blobs = draft.blobs) ∨
        let split := Graft.splitKnown (opened.sequenceOf? number) item.history.dropLast
        let last := lastStub split.1 (opened.lastSequence + 1) split.2
        let sequence := opened.lastSequence + split.2.length + 1
        (opened.sequenceOf? number rev = none ∧ rev.generation < RevId.generationBound ∧
          BlobStore.putAll (item.attachments.map (·.data)) draft.blobs = .ok () draft'.blobs) ∧
        (∃ revision, found = some revision) ∧
        opened.Gains draft'.tables
          (stubRows number split.1 (opened.lastSequence + 1) split.2 ++ [((tip item number last rev).row sequence).bare])
          ((item.attachments.map (·.stored rev.generation)).map (attachmentRow sequence))) := by
  obtain ⟨rev, number, opened, hrev, hopen, hcases⟩ := graft_ok_iff.mp h
  obtain ⟨hopened, hnumber, -⟩ := openTables_ok healthy hopen
  refine ⟨rev, number, opened, ?_⟩
  rcases hcases with ⟨hthere, rfl, rfl⟩ | ⟨hnew, prev, parent, planted, insertion, inserted, blobs, attached, elected,
    crowned, revision, -, hplant, hinsert, hblobs, hattach, hpick, hread, rfl, rfl⟩
  · exact ⟨⟨hrev, hopen, hopened⟩, .inl ⟨hthere, rfl, rfl, rfl⟩⟩
  obtain ⟨again, hagain, hstubs, hshape, hfertile, haccepts, hunknown⟩ := plant_missing hopened hnumber hgap
  rw [hplant] at hagain
  obtain ⟨rfl, rfl⟩ := EStateM.Result.ok.inj hagain
  have hmissing := Graft.missing_lt (opened.sequenceOf? number) hgap hrev
  have hfresh : planted.sequenceOf? number rev = none :=
    hunknown rev (fun hmem => absurd (hmissing rev hmem) (Nat.lt_irrefl _)) hnew
  have hlast : planted.lastSequence
      = opened.lastSequence + (Graft.splitKnown (opened.sequenceOf? number) item.history.dropLast).2.length := by
    have hlength := congrArg List.length hstubs.bones
    rw [hshape.lastSequence_eq, hopened.shape.lastSequence_eq]
    simp only [bones, List.length_map, List.length_append, length_stubRows] at hlength
    omega
  rcases insertRevision_gains hinsert with ⟨_, hfound, _⟩ | ⟨_, hsequence, hpush⟩
  · exact absurd (hfound.symm.trans hfresh) (by simp)
  rw [hsequence] at hattach hread
  have htip := hpush.trans ((insertAttachments_gains hattach).trans (pickWinner_gains hpick))
  simp only [List.append_nil, List.nil_append] at htip
  obtain ⟨hrange, -⟩ := getBySequence_of_push htip.bones rfl rfl hread
  have hplanted : planted.Sturdy number :=
    (hopened.sturdy number).plant (fun stub hstub => (hmissing stub hstub).trans hrange) hplant
  have hinserted : inserted.Sturdy number := Sturdy.insertRevision hplanted hrange hinsert
  refine ⟨⟨hrev, hopen, (hinserted.insertAttachments hattach).pickWinner hpick⟩,
    .inr ⟨⟨hnew, hrange, hblobs⟩, ⟨revision, rfl⟩, ?_⟩⟩
  rw [← hlast]
  simpa only [List.nil_append] using hstubs.trans htip

end Edit

end RevisionForest
