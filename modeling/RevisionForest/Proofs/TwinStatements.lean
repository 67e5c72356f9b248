import RevisionForest.Proofs.Twins
/-!
# Statements on twins

The changes that statements make, made to both of two twins, leave them twins. What is new gets a new number on both sides, and as it is the greatest on both, the renaming goes on in order. So each statement on twins concurs: both do the same up to a renaming that has grown, or both are refused for the same reason, in which no number occurs.
-/

namespace RevisionForest

namespace Renaming

/-- The renaming with one more document. -/
def addNumber (names : Renaming) (n n' : Int) : Renaming :=
  { names with number := fun a a' => names.number a a' ∨ (a = n ∧ a' = n') }

/-- The renaming with one more sequence. -/
def addSequence (names : Renaming) (s s' : Int) : Renaming :=
  { names with sequence := fun a a' => names.sequence a a' ∨ (a = s ∧ a' = s') }

theorem widens_addNumber (names : Renaming) (n n' : Int) : names.Widens (names.addNumber n n') :=
  ⟨fun _ _ => .inl, fun _ _ => id⟩

theorem widens_addSequence (names : Renaming) (s s' : Int) : names.Widens (names.addSequence s s') :=
  ⟨fun _ _ => id, fun _ _ => .inl⟩

end Renaming

/-- A revision about to be inserted, under other numbers. -/
inductive NewRevision.Renamed (names : Renaming) (new : NewRevision) : NewRevision → Prop
  | intro {document : Int} {parent : Option Int} (hdocument : names.number new.document document)
      (hparent : Option.Rel names.sequence new.parent parent) : Renamed names new { new with document, parent }

theorem NewRevision.Renamed.document {names : Renaming} {new new' : NewRevision} (h : new.Renamed names new') :
    names.number new.document new'.document := by
  obtain ⟨hdocument, -⟩ := h
  exact hdocument

theorem NewRevision.Renamed.parent {names : Renaming} {new new' : NewRevision} (h : new.Renamed names new') :
    Option.Rel names.sequence new.parent new'.parent := by
  obtain ⟨-, hparent⟩ := h
  exact hparent

namespace Tables

variable {doc : String} {names : Renaming} {tables tables' : Tables} {n n' s s' : Int} {new new' : NewRevision}
  {row row' : RevisionRow} {flagged flagged' : RevisionRow → Bool} {attachments : List Attachment}

/-! ### Rows and descriptions after a change -/

theorem rowsOf_push (number : Int) :
    (tables.push new).rowsOf number
      = tables.rowsOf number ++ if new.document = number then [new.row (tables.lastSequence + 1)] else [] := by
  rw [rowsOf, push, List.filter_append, List.filter_singleton]
  by_cases h : new.document = number
  · simp [NewRevision.row, rowsOf, h]
  · simp [NewRevision.row, rowsOf, h]

theorem rowsOf_reflag (number : Int) :
    (tables.reflag flagged).rowsOf number
      = (tables.rowsOf number).map fun row => { row with current := flagged row } := by
  simp only [rowsOf, reflag, mapRevisions, List.filter_map, Function.comp_def]

theorem Shape.rowsOf_fresh (shape : tables.Shape) : tables.rowsOf (tables.lastNumber + 1) = [] :=
  List.filter_eq_nil_iff.mpr fun row hrow htest =>
    shape.fresh_lastNumber row.bare (mem_bones_iff.mpr ⟨row, hrow, rfl⟩) (of_decide_eq_true htest)

theorem Shape.documentNumber?_register_self (shape : tables.Shape) (hnamed : isBlankId doc = false)
    (hfree : tables.documentNumber? doc = none) :
    (tables.register doc).documentNumber? doc = some (tables.lastNumber + 1) :=
  (shape.register hnamed hfree).documentNumber?_eq_some_iff.mpr (List.mem_append_right _ (List.mem_singleton.mpr rfl))

namespace Twin

/-! ### Changes on both sides -/

theorem not_sequence (twin : Twin doc names tables tables') (hfree : tables.documentNumber? doc = none) :
    ¬names.sequence s s' := by
  intro h
  obtain ⟨row, -, row', -, hrenamed, -⟩ := twin.placed _ _ h
  have hfound := (twin.known _ _ hrenamed.document).1
  rw [hfree] at hfound
  nomatch hfound

theorem register (twin : Twin doc names tables tables') (hnamed : isBlankId doc = false)
    (hfree : tables.documentNumber? doc = none) (hfree' : tables'.documentNumber? doc = none) :
    Twin doc (names.addNumber (tables.lastNumber + 1) (tables'.lastNumber + 1)) (tables.register doc)
      (tables'.register doc) := by
  have hnone : ∀ {a a'}, ¬names.number a a' := by
    intro a a' h
    have hfound := (twin.known _ _ h).1
    rw [hfree] at hfound
    nomatch hfound
  have hself := twin.shape.documentNumber?_register_self hnamed hfree
  have hself' := twin.shape'.documentNumber?_register_self hnamed hfree'
  exact
    { shape := twin.shape.register hnamed hfree
      shape' := twin.shape'.register hnamed hfree'
      fertile := twin.fertile
      fertile' := twin.fertile'
      found := by
        rw [hself, hself']
        exact .some (.inr ⟨rfl, rfl⟩)
      known := by
        rintro n n' (h | ⟨rfl, rfl⟩)
        · exact absurd h hnone
        · exact ⟨hself, hself'⟩
      rows := by
        rintro n n' (h | ⟨rfl, rfl⟩)
        · exact absurd h hnone
        · have hrows : (tables.register doc).rowsOf (tables.lastNumber + 1) = [] := twin.shape.rowsOf_fresh
          have hrows' : (tables'.register doc).rowsOf (tables'.lastNumber + 1) = [] := twin.shape'.rowsOf_fresh
          rw [hrows, hrows']
          exact .nil
      placed := fun s s' h => absurd h (twin.not_sequence hfree)
      ordered := fun a a' b b' h => absurd h (twin.not_sequence hfree)
      described := fun s s' h => absurd h (twin.not_sequence hfree) }

theorem parent_row (twin : Twin doc names tables tables') (hnumber : names.number n n') (hsequence : names.sequence s s') :
    (∃ row ∈ tables.revisions, row.sequence = s ∧ row.document = n) ∧
      ∃ row' ∈ tables'.revisions, row'.sequence = s' ∧ row'.document = n' := by
  obtain ⟨row, hrow, row', hrow', hrenamed, rfl, rfl⟩ := twin.placed _ _ hsequence
  obtain ⟨heq, heq'⟩ := twin.names_ordered.number hrenamed.document hnumber
  exact ⟨⟨row, hrow, rfl, heq⟩, row', hrow', rfl, heq'⟩

theorem accepts (twin : Twin doc names tables tables') (hnew : new.Renamed names new') :
    tables.Accepts new ∧ tables'.Accepts new' := by
  obtain ⟨hnumber, hnumber'⟩ := twin.known _ _ hnew.document
  have hhome := twin.shape.documentNumber?_eq_some_iff.mp hnumber
  have hhome' := twin.shape'.documentNumber?_eq_some_iff.mp hnumber'
  have hparent := hnew.parent
  refine ⟨⟨fun parent heq => ?_, fun _ => ⟨_, hhome, rfl⟩⟩, fun parent heq => ?_, fun _ => ⟨_, hhome', rfl⟩⟩
  · rw [heq] at hparent
    generalize new'.parent = parent' at hparent
    cases hparent with
    | some hsequence => exact (twin.parent_row hnew.document hsequence).1
  · rw [heq] at hparent
    generalize new.parent = found at hparent
    cases hparent with
    | some hsequence => exact (twin.parent_row hnew.document hsequence).2

theorem push (twin : Twin doc names tables tables') (hnew : new.Renamed names new')
    (hfresh : tables.sequenceOf? new.document new.rev = none) (hfresh' : tables'.sequenceOf? new'.document new'.rev = none) :
    Twin doc (names.addSequence (tables.lastSequence + 1) (tables'.lastSequence + 1)) (tables.push new)
      (tables'.push new') := by
  obtain ⟨haccepts, haccepts'⟩ := twin.accepts hnew
  have hwidens := names.widens_addSequence (tables.lastSequence + 1) (tables'.lastSequence + 1)
  have hbound : ∀ {a a'}, names.sequence a a' → a < tables.lastSequence + 1 ∧ a' < tables'.lastSequence + 1 := by
    intro a a' h
    obtain ⟨row, hrow, row', hrow', -, rfl, rfl⟩ := twin.placed _ _ h
    have hle := sequence_le_lastSequence hrow
    have hle' := sequence_le_lastSequence hrow'
    omega
  have hrow : (new.row (tables.lastSequence + 1)).Renamed
      (names.addSequence (tables.lastSequence + 1) (tables'.lastSequence + 1)) (new'.row (tables'.lastSequence + 1)) := by
    obtain ⟨hdocument, hparent⟩ := hnew
    exact ⟨hdocument, .inr ⟨rfl, rfl⟩, optionRel_mono hparent hwidens.sequence⟩
  exact
    { shape := twin.shape.push haccepts hfresh
      shape' := twin.shape'.push haccepts' hfresh'
      fertile := twin.fertile
      fertile' := twin.fertile'
      found := twin.found
      known := twin.known
      rows := by
        intro n n' hnumber
        obtain ⟨heq, heq'⟩ := twin.names_ordered.number hnew.document hnumber
        rw [rowsOf_push, rowsOf_push, if_pos heq, if_pos heq']
        have hold := (twin.rows _ _ hnumber).imp fun _ _ => RevisionRow.Renamed.mono hwidens
        exact List.rel_append hold (.cons hrow .nil)
      placed := by
        rintro s s' (h | ⟨rfl, rfl⟩)
        · obtain ⟨row, hrow, row', hrow', hrenamed, hs, hs'⟩ := twin.placed _ _ h
          exact ⟨row, mem_push_iff.mpr (.inl hrow), row', mem_push_iff.mpr (.inl hrow'), hrenamed.mono hwidens, hs, hs'⟩
        · exact ⟨_, mem_push_iff.mpr (.inr rfl), _, mem_push_iff.mpr (.inr rfl), hrow, rfl, rfl⟩
      ordered := by
        rintro a a' b b' (h | ⟨rfl, rfl⟩) (h' | ⟨rfl, rfl⟩)
        · exact twin.ordered _ _ _ _ h h'
        · exact iff_of_true (hbound h).1 (hbound h).2
        · obtain ⟨hlt, hlt'⟩ := hbound h'
          omega
        · simp
      described := by
        rintro s s' (h | ⟨rfl, rfl⟩)
        · exact twin.described _ _ h
        · have hnone : (tables.push new).described (tables.lastSequence + 1) = [] :=
            twin.shape.described_eq_nil (by omega)
          have hnone' : (tables'.push new').described (tables'.lastSequence + 1) = [] :=
            twin.shape'.described_eq_nil (by omega)
          rw [hnone, hnone']
          rfl }

theorem reflag (twin : Twin doc names tables tables')
    (hsame : ∀ row row', row.Renamed names row' → flagged row = flagged' row') :
    Twin doc names (tables.reflag flagged) (tables'.reflag flagged') := by
  have hrow : ∀ row row' : RevisionRow, row.Renamed names row' →
      RevisionRow.Renamed names { row with current := flagged row } { row' with current := flagged' row' } := by
    intro row row' hrenamed
    rw [hsame row row' hrenamed]
    obtain ⟨hdocument, hsequence, hparent⟩ := hrenamed
    exact ⟨hdocument, hsequence, hparent⟩
  exact
    { shape := twin.shape.reflag flagged
      shape' := twin.shape'.reflag flagged'
      fertile := twin.fertile
      fertile' := twin.fertile'
      found := twin.found
      known := twin.known
      rows := by
        intro n n' hnumber
        rw [rowsOf_reflag, rowsOf_reflag]
        exact map_rel (twin.rows _ _ hnumber) hrow
      placed := by
        intro s s' hsequence
        obtain ⟨row, hmem, row', hmem', hrenamed, rfl, rfl⟩ := twin.placed _ _ hsequence
        exact ⟨_, mem_reflag_iff.mpr ⟨row, hmem, rfl⟩, _, mem_reflag_iff.mpr ⟨row', hmem', rfl⟩, hrow _ _ hrenamed, rfl, rfl⟩
      ordered := twin.ordered
      described := twin.described }

theorem describe (twin : Twin doc names tables tables') (hsequence : names.sequence s s')
    (shape : (tables.describe s attachments).Shape) (shape' : (tables'.describe s' attachments).Shape) :
    Twin doc names (tables.describe s attachments) (tables'.describe s' attachments) where
  shape := shape
  shape' := shape'
  fertile := twin.fertile
  fertile' := twin.fertile'
  found := twin.found
  known := twin.known
  rows := twin.rows
  placed := twin.placed
  ordered := twin.ordered
  described := by
    intro t t' h
    rw [described_describe, described_describe, twin.described _ _ h, List.map_append, List.append_cancel_left_eq]
    by_cases heq : s = t
    · have heq' : s' = t' := (twin.names_ordered.eq_iff hsequence h).mp heq
      rw [if_pos heq, if_pos heq', List.map_map, ← heq']
      rfl
    · have hne : s' ≠ t' := fun heq' => heq ((twin.names_ordered.eq_iff hsequence h).mpr heq')
      rw [if_neg heq, if_neg hne]
      rfl

/-! ### Statements on both sides -/

/-- The tables are left twins under a wider renaming, and the values are related by it. -/
def Later {α β : Type} (doc : String) (names : Renaming) (values : Renaming → α → β → Prop) (value : α) (value' : β)
    (tables tables' : Tables) : Prop :=
  ∃ wide, names.Widens wide ∧ values wide value value' ∧ Twin doc wide tables tables'

theorem insertDocument_concurs (twin : Twin doc names tables tables') :
    Concurs (Later doc names fun wide => wide.number) (insertDocument doc tables) (insertDocument doc tables') := by
  unfold insertDocument
  rw [bind_of_ok get_eq, bind_of_ok get_eq]
  have hsome := isSome_eq_of_rel twin.found
  refine .guard (by rw [hsome]) fun h => ?_
  simp only [Bool.or_eq_true, not_or, Bool.not_eq_true] at h
  have hfree : tables.documentNumber? doc = none := by simpa using h.2
  have hfree' : tables'.documentNumber? doc = none := by simpa [hsome] using h.2
  exact .ok ⟨_, names.widens_addNumber _ _, .inr ⟨rfl, rfl⟩, twin.register h.1 hfree hfree'⟩

theorem refusal?_eq_none (twin : Twin doc names tables tables') (hnew : new.Renamed names new') :
    tables.refusal? new = none ∧ tables'.refusal? new' = none := by
  obtain ⟨haccepts, haccepts'⟩ := twin.accepts hnew
  exact ⟨twin.shape.refusal?_eq_none_iff.mpr ⟨haccepts, by simp [twin.fertile]⟩,
    twin.shape'.refusal?_eq_none_iff.mpr ⟨haccepts', by simp [twin.fertile']⟩⟩

theorem insertRevision_concurs (twin : Twin doc names tables tables') (hnew : new.Renamed names new') :
    Concurs (Later doc names fun wide insertion insertion' => wide.sequence insertion.sequence insertion'.sequence)
      (insertRevision new tables) (insertRevision new' tables') := by
  have hfound : Option.Rel names.sequence (tables.sequenceOf? new.document new.rev)
      (tables'.sequenceOf? new'.document new'.rev) := by
    obtain ⟨hdocument, -⟩ := hnew
    exact twin.sequenceOf?_rel hdocument new.rev
  obtain ⟨haccepted, haccepted'⟩ := twin.refusal?_eq_none hnew
  unfold insertRevision
  rw [bind_of_ok get_eq, bind_of_ok get_eq]
  cases hsequence : tables.sequenceOf? new.document new.rev with
  | some sequence =>
    rw [hsequence] at hfound
    generalize tables'.sequenceOf? new'.document new'.rev = sequence' at hfound
    cases hfound with
    | some h => exact .ok ⟨names, .refl names, h, twin⟩
  | none =>
    rw [hsequence] at hfound
    cases hsequence' : tables'.sequenceOf? new'.document new'.rev with
    | some sequence' =>
      rw [hsequence'] at hfound
      nomatch hfound
    | none =>
      simp only [haccepted, haccepted']
      exact .ok ⟨_, names.widens_addSequence _ _, .inr ⟨rfl, rfl⟩, twin.push hnew hsequence hsequence'⟩

theorem setCurrent_concurs (twin : Twin doc names tables tables') (hsequence : names.sequence s s') (current : Bool) :
    Concurs (fun _ _ => Twin doc names) (setCurrent s current tables) (setCurrent s' current tables') := by
  obtain ⟨row, row', hrow, hrow', -⟩ := twin.rowAt?_rel hsequence
  unfold setCurrent
  rw [bind_of_ok get_eq, bind_of_ok get_eq]
  rw [if_neg (by simp [hrow]), if_neg (by simp [hrow'])]
  refine .ok ?_
  rw [flag_eq_reflag, flag_eq_reflag]
  refine twin.reflag fun row row' hrenamed => ?_
  obtain ⟨-, hplace, -⟩ := hrenamed
  simp only [twin.names_ordered.eq_iff hplace hsequence]

theorem pickWinner_concurs (twin : Twin doc names tables tables') (hnumber : names.number n n') :
    Concurs (fun winner winner' after after' => Option.Rel (Winner.Renamed names) winner winner' ∧ Twin doc names after after')
      (pickWinner n tables) (pickWinner n' tables') := by
  refine (Statement.query_concurs (twin.leaves_agree hnumber)).bind ?_
  rintro leaves leaves' _ _ ⟨hleaves, rfl, rfl⟩
  have hwinner := Election.winner?_rel hleaves
  generalize Election.winner? leaves = winner at hwinner
  generalize Election.winner? leaves' = winner' at hwinner
  cases hwinner with
  | none => exact .ok ⟨.none, twin⟩
  | some hleaf =>
    obtain ⟨hsequence⟩ := hleaf
    refine .ok ⟨.some ⟨hsequence⟩, ?_⟩
    show Twin doc names (crown _ _ _) (crown _ _ _)
    rw [crown_eq_reflag, crown_eq_reflag]
    refine twin.reflag fun row row' hrenamed => ?_
    obtain ⟨hdocument, hplace, -⟩ := hrenamed
    obtain ⟨heq, heq'⟩ := twin.names_ordered.number hdocument hnumber
    simp only [twin.names_ordered.eq_iff hplace hsequence, heq, heq']

theorem insertAttachment_concurs (twin : Twin doc names tables tables') (hsequence : names.sequence s s')
    (attachment : Attachment) :
    Concurs (fun _ _ => Twin doc names) (insertAttachment s attachment tables) (insertAttachment s' attachment tables') := by
  have htaken : ∀ (tables : Tables) (sequence : Int),
      (tables.attachments.any fun row => row.sequence = sequence && row.name = attachment.name)
        = (Tables.described tables sequence).any fun row => row.name = attachment.name := by
    intro tables sequence
    rw [Tables.described, List.any_filter]
  obtain ⟨row, row', hrow, hrow', -⟩ := twin.rowAt?_rel hsequence
  have hshape : ∀ after, insertAttachment s attachment tables = .ok () after → after.Shape :=
    fun _ h => twin.shape.insertAttachment h
  have hshape' : ∀ after, insertAttachment s' attachment tables' = .ok () after → after.Shape :=
    fun _ h => twin.shape'.insertAttachment h
  unfold insertAttachment at hshape hshape' ⊢
  rw [bind_of_ok get_eq] at hshape hshape'
  rw [bind_of_ok get_eq, bind_of_ok get_eq]
  have hsame : (tables.attachments.any fun row => row.sequence = s && row.name = attachment.name)
      = tables'.attachments.any fun row => row.sequence = s' && row.name = attachment.name := by
    rw [htaken, htaken, twin.described _ _ hsequence, List.any_map]
    rfl
  refine .guard (by rw [hsame]) fun hfree => .guard (iff_of_eq (by rw [hrow, hrow']; rfl)) fun hthere => .ok ?_
  have hthere' : ¬(tables'.rowAt? s').isNone = true := by simp [hrow']
  show Twin doc names (tables.describe s [attachment]) (tables'.describe s' [attachment])
  refine twin.describe hsequence (hshape _ ?_) (hshape' _ ?_)
  · rw [if_neg hfree, if_neg hthere]
    rfl
  · rw [if_neg (by rwa [← hsame]), if_neg hthere']
    rfl

theorem insertAttachments_concurs (twin : Twin doc names tables tables') (hsequence : names.sequence s s')
    (attachments : List Attachment) :
    Concurs (fun _ _ => Twin doc names) (insertAttachments s attachments tables) (insertAttachments s' attachments tables') := by
  induction attachments generalizing tables tables' with
  | nil => exact .ok twin
  | cons attachment rest ih =>
    exact (twin.insertAttachment_concurs hsequence attachment).bind fun _ _ _ _ hbetween => ih hbetween

theorem copyAttachments_concurs (twin : Twin doc names tables tables') {target target' : Int}
    (hsource : names.sequence s s') (htarget : names.sequence target target') (skip : List String) :
    Concurs (fun count count' after after' => count = count' ∧ Twin doc names after after')
      (copyAttachments s target skip tables) (copyAttachments s' target' skip tables') := by
  have hread : Agree Eq (tables.attachmentsFor s) (tables'.attachmentsFor s') := by
    rw [twin.attachmentsFor_eq hsource]
    exact .refl _
  refine (Statement.query_concurs hread).bind ?_
  rintro attachments _ _ _ ⟨rfl, rfl, rfl⟩
  exact (twin.insertAttachments_concurs htarget _).bind fun _ _ _ _ hafter => .ok ⟨rfl, hafter⟩

end Twin

end Tables

end RevisionForest
