import RevisionForest.Proofs.Replay
import RevisionForest.Proofs.TwinMutations
/-!
# Other documents are spared

A mutation of one document leaves every other one as it is: its number, its rows with their flags, and their descriptions (`Tables.Spares`), and it announces nothing of it. Rows are only added, and to the mutated document only. Flags do change, but in healthy tables they follow from the rows of each document (`Healthy.rowsOf_congr`), so they are the same where the rows are.

So tables that are twins as to a document are still twins after something else was changed in one of them (`Twin.spared`).
-/

namespace RevisionForest

namespace Tables

/-- Nothing of a document is different. -/
structure Spares (doc : String) (before after : Tables) : Prop where
  number : after.documentNumber? doc = before.documentNumber? doc
  rows : ∀ number, before.documentNumber? doc = some number → after.rowsOf number = before.rowsOf number
  described : ∀ number, before.documentNumber? doc = some number → ∀ row ∈ before.rowsOf number,
    after.described row.sequence = before.described row.sequence

variable {doc home : String} {before between after tables tables' opened : Tables} {number : Int}
  {rows : List RevisionRow} {attachments : List Attachment} {sequence : Int}

theorem Spares.refl (doc : String) (tables : Tables) : tables.Spares doc tables :=
  ⟨rfl, fun _ _ => rfl, fun _ _ _ _ => rfl⟩

theorem Spares.trans (h : before.Spares doc between) (h' : between.Spares doc after) : before.Spares doc after where
  number := h'.number.trans h.number
  rows := fun number hnumber => (h'.rows number (h.number.trans hnumber)).trans (h.rows number hnumber)
  described := by
    intro number hnumber row hrow
    have hbetween : row ∈ between.rowsOf number := h.rows number hnumber ▸ hrow
    exact (h'.described number (h.number.trans hnumber) row hbetween).trans (h.described number hnumber row hrow)

/-! ### Flags -/

theorem own_eq_map (tables : Tables) (number : Int) : tables.own number = (tables.rowsOf number).map (·.bare) := by
  rw [own, bones, rowsOf, List.filter_map]
  rfl

theorem Crowned.flag_eq {leaves : List Leaf} {row : RevisionRow} (h : tables.Crowned number)
    (hleaves : tables.leaves number = .ok leaves) (hrow : row ∈ tables.revisions) (hdocument : row.document = number) :
    { row.bare with current := (Election.winner? leaves).map (·.sequence) = some row.sequence } = row := by
  obtain ⟨_, hfound, hflags⟩ := h
  obtain rfl := Except.ok.inj (hleaves.symm.trans hfound)
  have hflag : decide ((Election.winner? leaves).map (·.sequence) = some row.sequence) = row.current := by
    rw [Bool.eq_iff_iff, decide_eq_true_eq]
    exact (hflags row hrow hdocument).symm
  exact congrArg (fun current => { row with current }) hflag

theorem Crowned.rowsOf_eq {leaves : List Leaf} (h : tables.Crowned number) (hleaves : tables.leaves number = .ok leaves) :
    tables.rowsOf number = (tables.own number).map fun bone =>
      { bone with current := (Election.winner? leaves).map (·.sequence) = some bone.sequence } := by
  rw [own_eq_map, List.map_map]
  refine ((List.map_congr_left fun row hrow => ?_).trans (List.map_id _)).symm
  obtain ⟨hmem, hdocument⟩ := mem_rowsOf_iff.mp hrow
  exact h.flag_eq hleaves hmem hdocument

/-- Healthy tables with the same rows of a document flag the same of them. -/
theorem Healthy.rowsOf_congr (healthy : before.Healthy) (healthy' : after.Healthy)
    (h : after.own number = before.own number) : after.rowsOf number = before.rowsOf number := by
  obtain ⟨leaves, hleaves, -⟩ := healthy.crowned number
  have hleaves' : after.leaves number = .ok leaves := by
    rw [healthy'.shape.leaves_eq, h, ← healthy.shape.leaves_eq, hleaves]
  rw [(healthy.crowned number).rowsOf_eq hleaves, (healthy'.crowned number).rowsOf_eq hleaves', h]

/-! ### Changes elsewhere -/

theorem Gains.spares (h : before.Gains after rows (attachments.map (attachmentRow sequence))) (healthy : before.Healthy)
    (healthy' : after.Healthy) (hhome : before.documentNumber? home = some number)
    (hrows : ∀ row ∈ rows, row.document = number)
    (hplace : ∀ row ∈ before.revisions, row.sequence = sequence → row.document = number) (hne : home ≠ doc) :
    before.Spares doc after := by
  have hother : ∀ found, before.documentNumber? doc = some found → found ≠ number := by
    rintro found hfound rfl
    exact hne (healthy.shape.doc_eq_of_number hhome hfound)
  refine ⟨h.documentNumber? doc, fun found hfound => ?_, fun found hfound row hrow => ?_⟩
  · refine healthy.rowsOf_congr healthy' (h.own_of_ne fun row hrow heq => hother found hfound ?_)
    exact heq.symm.trans (hrows row hrow)
  · obtain ⟨hmem, hdocument⟩ := mem_rowsOf_iff.mp hrow
    refine h.described_of_ne fun heq => hother found hfound ?_
    exact hdocument.symm.trans (hplace row hmem heq)

theorem Derives.spares {child : NewRevision} {revision : Revision} (h : before.Derives after child attachments revision)
    (healthy : before.Healthy) (healthy' : after.Healthy) (hhome : before.documentNumber? home = some child.document)
    (hne : home ≠ doc) : before.Spares doc after := by
  cases h with
  | grown _ hgains =>
    refine hgains.spares healthy healthy' hhome (List.forall_mem_singleton.mpr rfl) (fun row hrow heq => ?_) hne
    have hle := sequence_le_lastSequence hrow
    omega
  | stored sequence hfound hgains =>
    refine hgains.spares healthy healthy' hhome (List.forall_mem_nil _) (fun row hrow heq => ?_) hne
    obtain ⟨known, hknown, hdocument, -, hplace⟩ := healthy.shape.sequenceOf?_eq_some_iff.mp hfound
    obtain rfl := healthy.shape.eq_of_sequence hrow hknown (heq.trans hplace.symm)
    exact hdocument

theorem Spares.register (tables : Tables) (hne : home ≠ doc) : tables.Spares doc (tables.register home) :=
  ⟨documentNumber?_register hne.symm, fun _ _ => rfl, fun _ _ _ _ => rfl⟩

theorem Spares.openTables (h : Edit.openTables home tables = .ok number opened) (hne : home ≠ doc) :
    tables.Spares doc opened := by
  rcases openTables_ok_iff.mp h with ⟨-, rfl⟩ | ⟨-, -, rfl⟩
  · exact .refl doc tables
  · exact .register tables hne

theorem Twin.spared {names : Renaming} (twin : Twin doc names tables tables') (h : tables.Spares doc after)
    (healthy : after.Healthy) : Twin doc names after tables' where
  shape := healthy.shape
  shape' := twin.shape'
  fertile := healthy.fertile
  fertile' := twin.fertile'
  found := by
    rw [h.number]
    exact twin.found
  known := fun n n' hnumber => ⟨h.number.trans (twin.known n n' hnumber).1, (twin.known n n' hnumber).2⟩
  rows := by
    intro n n' hnumber
    rw [h.rows n (twin.known n n' hnumber).1]
    exact twin.rows n n' hnumber
  placed := by
    intro s s' hsequence
    obtain ⟨row, hrow, row', hrow', hrenamed, hs, hs'⟩ := twin.placed s s' hsequence
    -- What the renaming places is a row of the document, so it is still there.
    have hknown := (twin.known _ _ hrenamed.document).1
    have hafter : row ∈ after.rowsOf row.document := by
      rw [h.rows _ hknown]
      exact mem_rowsOf_iff.mpr ⟨hrow, rfl⟩
    exact ⟨row, (mem_rowsOf_iff.mp hafter).1, row', hrow', hrenamed, hs, hs'⟩
  ordered := twin.ordered
  described := by
    intro s s' hsequence
    obtain ⟨row, hrow, row', -, hrenamed, rfl, rfl⟩ := twin.placed s s' hsequence
    have hknown := (twin.known _ _ hrenamed.document).1
    rw [h.described _ hknown row (mem_rowsOf_iff.mpr ⟨hrow, rfl⟩)]
    exact twin.described _ _ hsequence

end Tables

/-! ### Edits -/

/-- Nothing of a document is different or announced. -/
def Draft.Spares (doc : String) (before after : Draft) : Prop :=
  before.tables.Spares doc after.tables ∧
    ∃ events, after.events = before.events ++ events ∧ ∀ event ∈ events, event.doc ≠ doc

namespace Edit

open Tables

variable {draft draft' : Draft} {doc home : String} {body : Bytes} {revision : Revision}

theorem create_spares {attachments : List NewAttachment} (healthy : draft.tables.Healthy) (hne : home ≠ doc)
    (h : create home body attachments draft = .ok revision draft') : draft.Spares doc draft' := by
  obtain ⟨⟨hnamed, hfree, -, -, hevents⟩, hafter, hgains⟩ := create_effect healthy h
  obtain ⟨hopened, hnumber, -⟩ := openTables_ok healthy (openTables_of_free hnamed hfree)
  have hplace : ∀ row ∈ (draft.tables.register home).revisions, row.sequence = draft.tables.lastSequence + 1 →
      row.document = draft.tables.lastNumber + 1 := by
    intro row hrow heq
    have hle : row.sequence ≤ draft.tables.lastSequence := sequence_le_lastSequence hrow
    omega
  have hspares := hgains.spares hopened hafter hnumber (List.forall_mem_singleton.mpr rfl) hplace hne
  exact ⟨(Spares.register draft.tables hne).trans hspares, _, hevents, List.forall_mem_singleton.mpr hne⟩

theorem update_spares {expected : RevId} {changes : AttachmentChanges} (healthy : draft.tables.Healthy) (hne : home ≠ doc)
    (h : update home expected body changes draft = .ok revision draft') : draft.Spares doc draft' := by
  obtain ⟨number, _, _, _, ⟨hnumber, -⟩, hafter, -, hderives⟩ := update_effect healthy h
  obtain ⟨_, _, _, _, _, -, _, _, _, _, _, _, _, _, -, -, -, -, -, -, -, rfl⟩ := update_ok h
  exact ⟨hderives.spares healthy hafter hnumber hne, _, rfl, List.forall_mem_singleton.mpr hne⟩

theorem bury_spares {rev : RevId} (healthy : draft.tables.Healthy) (hne : home ≠ doc)
    (h : bury home rev draft = .ok revision draft') : draft.Spares doc draft' := by
  obtain ⟨number, _, ⟨hnumber, -⟩, hafter, -, hderives⟩ := bury_effect healthy h
  obtain ⟨_, _, _, -, _, _, _, _, -, -, rfl⟩ := bury_ok_iff.mp h
  exact ⟨hderives.spares healthy hafter hnumber hne, _, rfl, List.forall_mem_singleton.mpr hne⟩

theorem graft_spares {item : Graft} {found : Option Revision} (healthy : draft.tables.Healthy) (hne : item.doc ≠ doc)
    (hgap : Graft.gap? item.history = none) (h : graft item draft = .ok found draft') : draft.Spares doc draft' := by
  obtain ⟨rev, number, opened, ⟨hrev, hopen, hafter⟩, hcases⟩ := graft_effect healthy hgap h
  obtain ⟨hopened, hnumber, -⟩ := openTables_ok healthy hopen
  have hspares : draft.tables.Spares doc opened := .openTables hopen hne
  obtain ⟨rev', number', opened', hrev', hopen', hwork⟩ := graft_ok_iff.mp h
  obtain rfl := Option.some.inj (hrev.symm.trans hrev')
  obtain ⟨rfl, rfl⟩ := EStateM.Result.ok.inj (hopen.symm.trans hopen')
  rcases hwork with ⟨-, -, rfl⟩ | ⟨hnew, _, _, _, _, _, _, _, _, _, _, -, -, -, -, -, -, -, -, rfl⟩
  · exact ⟨hspares, [], (List.append_nil _).symm, List.forall_mem_nil _⟩
  · rcases hcases with ⟨hthere, -⟩ | ⟨-, -, hgains⟩
    · rw [hnew] at hthere
      nomatch hthere
    · refine ⟨hspares.trans (hgains.spares hopened hafter hnumber (document_of_mem_branch rfl) (fun row hrow heq => ?_) hne),
        _, rfl, List.forall_mem_singleton.mpr hne⟩
      have hle := sequence_le_lastSequence hrow
      omega

end Edit

/-! ### Mutations -/

/-- Healthy tables stay healthy, and nothing of a document is different or announced. -/
def Holdings.Spared (doc : String) (before after : Holdings) : Prop :=
  before.tables.Healthy → after.tables.Healthy ∧ before.tables.Spares doc after.tables ∧
    ∃ events, after.feed = before.feed.publish events ∧ ∀ event ∈ events, event.doc ≠ doc

theorem course_spared (doc : String) : Course (Holdings.Spared doc) where
  refl := fun tables _ _ _ _ healthy => ⟨healthy, .refl doc tables, [], rfl, List.forall_mem_nil _⟩
  trans := by
    intro first second third hfirst hsecond healthy
    obtain ⟨hbetween, hspares, early, hearly, hothers⟩ := hfirst healthy
    obtain ⟨hafter, hspares', late, hlate, hothers'⟩ := hsecond hbetween
    refine ⟨hafter, hspares.trans hspares', early ++ late, by rw [hlate, hearly, Feed.publish_append], ?_⟩
    exact List.forall_mem_append.mpr ⟨hothers, hothers'⟩

theorem Edit.Runs.spared {α : Type} {doc : String} {work : Edit α} (hsound : work.Runs Holdings.Sound)
    (h : ∀ draft value draft', draft.tables.Healthy → work draft = .ok value draft' → draft.Spares doc draft') :
    work.Runs (Holdings.Spared doc) := by
  refine ⟨hsound.1, fun draft value draft' hwork feed healthy => ?_⟩
  obtain ⟨hspares, events, hevents, hothers⟩ := h draft value draft' healthy hwork
  refine ⟨(hsound.2 draft value draft' hwork feed healthy).1, hspares, events, ?_, hothers⟩
  rw [Draft.holdings, Draft.holdings, hevents, Feed.publish_append]

theorem Mutation.run_spares {mutation : Mutation} {doc home : String} {writer : Writer} (hhome : mutation.doc? = some home)
    (hne : home ≠ doc) (hanchored : writer.database.Anchored) :
    Action.EndsAt (Holdings.Spared doc) Holdings.Kept mutation.run writer := by
  have hbury : ∀ rev, (Edit.bury home rev).Runs (Holdings.Spared doc) := fun rev =>
    (covers_sound.bury home rev).spared fun _ _ _ healthy => Edit.bury_spares healthy hne
  cases mutation with
  | create given body attachments =>
    obtain rfl : given = some home := hhome
    have hmade := Action.createAs_ends (R := Holdings.Spared doc) fun hdoc hbody =>
      (covers_sound.create home body attachments hdoc hbody).spared fun _ _ _ healthy => Edit.create_spares healthy hne
    exact (hmade writer hanchored).bind_of_total hanchored (course_spared doc) fun _ => .pure (course_spared doc) _
  | update given expected body changes =>
    obtain rfl : given = home := Option.some.inj hhome
    refine Mutation.run_ends (course_spared doc) (fun hbody hnames => ?_) hanchored
    exact ((covers_sound.update given expected body changes hbody hnames).spared fun _ _ _ healthy =>
      Edit.update_spares healthy hne).runsFrom _
  | delete given rev =>
    obtain rfl : given = home := Option.some.inj hhome
    exact Mutation.run_ends (course_spared doc) (hbury rev) hanchored
  | deleteAllLeaves given =>
    obtain rfl : given = home := Option.some.inj hhome
    exact Mutation.run_ends (course_spared doc) (fun _ _ _ rev _ => hbury rev) hanchored
  | graft item =>
    obtain rfl : item.doc = home := Option.some.inj hhome
    refine Mutation.run_ends (course_spared doc) (fun hcheck => ?_) hanchored
    exact (covers_sound.graft item hcheck).spared fun _ _ _ healthy =>
      Edit.graft_spares healthy hne (Graft.check_ok_iff.mp hcheck).2.2.1

end RevisionForest
