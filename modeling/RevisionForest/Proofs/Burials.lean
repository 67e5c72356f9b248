import RevisionForest.Proofs.Recoverable
import RevisionForest.Proofs.Snapshots
import RevisionForest.Proofs.Tips
/-!
# Burying all live leaves

To delete all live leaves of a document is to bury one after the other, each in the tables that the one before has left (`Tables.BuriesEach`). A burial takes a leaf from the live ones exactly if the id of its tombstone was not known before (`Buries.live_iff`), and leaves all other live leaves alone, so each of them can be buried in its turn. So the list comes to its end if every leaf can have a child at all, and it empties the document if and only if the tombstones have different ids that are new to it (`BuriesEach.dead_iff`, `Store.Onward.deleteAllLeaves_empties`).
-/

namespace RevisionForest

open Tables

namespace Tables

variable {before between after tables : Tables} {doc : String} {rev other : RevId} {revs : List RevId}
  {revision : Revision} {revisions : List Revision} {number : Int}

/-- What is inserted to bury a leaf. -/
def tombstone (leaf : RevisionRow) (rev : RevId) : NewRevision :=
  ⟨leaf.document, (Content.tombstone rev).rev, some leaf.sequence, true, leaf.current, true, Body.empty⟩

/-- A live leaf was buried: its tombstone was wanted below it, and this was answered. -/
structure Buries (before : Tables) (doc : String) (rev : RevId) (revision : Revision) (after : Tables) : Prop where
  healthy : after.Healthy
  has : after.Has revision
  home : revision.doc = doc
  below : ∃ row, before.LiveLeaf doc rev row ∧ before.Derives after (tombstone row rev) [] revision

namespace Buries

/-- Either a new tombstone stands below the leaf, or its id was known before and nothing was added. -/
theorem cases (h : before.Buries doc rev revision after) :
    (∃ row, before.LiveLeaf doc rev row ∧ ¬before.Knows doc (Content.tombstone rev).rev ∧
        before.Gains after [((tombstone row rev).row (before.lastSequence + 1)).bare] [] ∧
        revision.parent = some row.sequence) ∨
      (before.Knows doc (Content.tombstone rev).rev ∧ before.Gains after [] []) := by
  obtain ⟨row, hlive, hderives⟩ := h.below
  have hknows : before.Knows doc (Content.tombstone rev).rev ↔
      (before.sequenceOf? (tombstone row rev).document (tombstone row rev).rev).isSome = true :=
    knows_iff_of_number hlive.number
  cases hderives with
  | grown hfresh hgains _ hchild => exact .inl ⟨row, hlive, by simp [hknows, hfresh], hgains, hchild⟩
  | stored _ hfound hgains => exact .inr ⟨by simp [hknows, hfound], hgains⟩

theorem gains (h : before.Buries doc rev revision after) : ∃ rows, before.Gains after rows [] := by
  rcases h.cases with ⟨_, -, -, hgains, -⟩ | ⟨-, hgains⟩ <;> exact ⟨_, hgains⟩

theorem rev_eq (h : before.Buries doc rev revision after) : revision.rev = (Content.tombstone rev).rev := by
  obtain ⟨row, -, hderives⟩ := h.below
  exact hderives.rev_eq

theorem knows_iff (h : before.Buries doc rev revision after) (healthy : before.Healthy) :
    after.Knows doc other ↔ before.Knows doc other ∨ other = (Content.tombstone rev).rev := by
  rcases h.cases with ⟨row, hlive, -, hgains, -⟩ | ⟨hknown, hgains⟩
  · rw [hgains.knows_iff healthy.shape hlive.number (List.forall_mem_singleton.mpr rfl)]
    refine or_congr Iff.rfl ?_
    constructor
    · rintro ⟨-, _, hmem, htext⟩
      rw [List.mem_singleton.mp hmem] at htext
      exact RevId.text_injective htext.symm
    · rintro rfl
      exact ⟨rfl, _, List.mem_singleton.mpr rfl, rfl⟩
  · have hsame : after.Knows doc other ↔ before.Knows doc other := by
      simp only [Knows, hgains.documentNumber?, Stores, hgains.bones, List.append_nil]
    rw [hsame]
    constructor
    · exact .inl
    · rintro (hold | rfl)
      · exact hold
      · exact hknown

theorem live_iff (h : before.Buries doc rev revision after) (healthy : before.Healthy) (other : RevId) :
    after.Live doc other ↔ before.Live doc other ∧ (other = rev → before.Knows doc (Content.tombstone rev).rev) := by
  rcases h.cases with ⟨row, hlive, hfresh, hgains, -⟩ | ⟨hknown, hgains⟩
  · have hnumber := hlive.number
    have htip : row.bare ∈ before.tips row.document := mem_tips_iff.mpr ⟨row, hlive.leaf, rfl⟩
    have htips : after.tips row.document = (before.tips row.document).erase row.bare
        ++ [((tombstone row rev).row (before.lastSequence + 1)).bare] :=
      hgains.tips_grown healthy.shape h.healthy.shape rfl rfl htip rfl
    simp only [Tables.live_iff, hgains.documentNumber?, hfresh, imp_false]
    constructor
    · rintro ⟨found, hfound, bone, hbone, htext, halive⟩
      obtain rfl := Option.some.inj (hnumber.symm.trans hfound)
      rw [htips] at hbone
      rcases List.mem_append.mp hbone with hold | hlast
      · obtain ⟨hne, hold⟩ := (healthy.shape.nodup_tips _).mem_erase_iff.mp hold
        refine ⟨⟨_, hnumber, bone, hold, htext, halive⟩, ?_⟩
        rintro rfl
        obtain ⟨leaf, hleaf, rfl⟩ := mem_tips_iff.mp hold
        obtain ⟨hmem, hdocument, -⟩ := mem_leafRows_iff.mp hleaf
        have hsame := healthy.shape.eq_of_revText hmem (mem_leafRows_iff.mp hlive.leaf).1 hdocument
          (htext.trans hlive.text.symm)
        exact hne (congrArg RevisionRow.bare hsame)
      · rw [List.mem_singleton.mp hlast] at halive
        nomatch halive
    · rintro ⟨⟨found, hfound, bone, hbone, htext, halive⟩, hne⟩
      obtain rfl := Option.some.inj (hnumber.symm.trans hfound)
      refine ⟨_, hnumber, bone, ?_, htext, halive⟩
      rw [htips]
      refine List.mem_append_left _ ((healthy.shape.nodup_tips _).mem_erase_iff.mpr ⟨?_, hbone⟩)
      rintro rfl
      exact hne (RevId.text_injective (htext.symm.trans hlive.text))
  · have hsame : after.Live doc other ↔ before.Live doc other := by
      simp only [Tables.live_iff, hgains.documentNumber?, hgains.tips_eq]
    rw [hsame, and_iff_left fun _ => hknown]

theorem length_tips (h : before.Buries doc rev revision after) (healthy : before.Healthy)
    (hnumber : before.documentNumber? doc = some number) : (after.tips number).length = (before.tips number).length := by
  rcases h.cases with ⟨row, hlive, -, hgains, -⟩ | ⟨-, hgains⟩
  · obtain rfl := Option.some.inj (hnumber.symm.trans hlive.number)
    exact hgains.length_tips healthy.shape h.healthy.shape rfl rfl (mem_tips_iff.mpr ⟨row, hlive.leaf, rfl⟩) rfl
  · rw [hgains.tips_eq]

theorem keeps_live (h : before.Buries doc rev revision after) (healthy : before.Healthy) (hother : rev ∉ revs)
    (hlive : ∀ other ∈ revs, before.Live doc other) : ∀ other ∈ revs, after.Live doc other :=
  fun other hmem => (h.live_iff healthy other).mpr ⟨hlive other hmem, fun heq => absurd (heq ▸ hmem) hother⟩

theorem range (h : before.Buries doc rev revision after) : rev.generation + 1 < RevId.generationBound := by
  obtain ⟨row, hrow, -, htext, -⟩ := h.has.exists_row
  have hreads := (h.healthy.legible.reads hrow htext).2
  rwa [h.rev_eq] at hreads

theorem made (h : before.Buries doc rev revision after) (healthy : before.Healthy)
    (hfresh : ¬before.Knows doc (Content.tombstone rev).rev) :
    revision.deleted = true ∧ before.ChildOf doc rev revision := by
  rcases h.cases with ⟨row, hlive, -, hgains, hchild⟩ | ⟨hknown, -⟩
  · refine ⟨?_, row.sequence, hlive.place? healthy.shape, hchild⟩
    obtain ⟨stored, hstored, hhome, htext, hread⟩ := h.has.exists_row
    have hnew : ((tombstone row rev).row (before.lastSequence + 1)).bare ∈ after.bones := by
      rw [hgains.bones]
      exact List.mem_append_right _ (List.mem_singleton.mpr rfl)
    obtain ⟨kept, hkept, hbare⟩ := mem_bones_iff.mp hnew
    obtain ⟨-, hdocument, -, hdeleted, -, hname, -⟩ := RevisionRow.bare_eq_iff.mp hbare
    rw [h.home, hgains.documentNumber?, hlive.number] at hhome
    have hsame := h.healthy.shape.eq_of_revText hstored hkept ((Option.some.inj hhome).symm.trans hdocument.symm)
      (htext.trans ((congrArg RevId.text h.rev_eq).trans hname.symm))
    obtain ⟨_, _, -, -, heq⟩ := readRevision_ok_iff.mp hread
    rw [heq]
    exact (congrArg RevisionRow.deleted hsame).trans hdeleted
  · exact absurd hknown hfresh

end Buries

/-! ### One after the other -/

/-- Leaves were buried in the order of a list, each with its answer. -/
inductive BuriesEach (doc : String) : Tables → List RevId → List Revision → Tables → Prop
  | nil (tables : Tables) : BuriesEach doc tables [] [] tables
  | cons {before between after : Tables} {rev : RevId} {revs : List RevId} {revision : Revision} {revisions : List Revision}
    (hfirst : before.Buries doc rev revision between) (hrest : BuriesEach doc between revs revisions after) :
    BuriesEach doc before (rev :: revs) (revision :: revisions) after

namespace BuriesEach

theorem gains (h : BuriesEach doc before revs revisions after) : ∃ rows, before.Gains after rows [] := by
  induction h with
  | nil tables => exact ⟨[], .refl tables⟩
  | cons hfirst _ ih =>
    obtain ⟨_, hgains⟩ := hfirst.gains
    obtain ⟨_, hlater⟩ := ih
    exact ⟨_, hgains.trans hlater⟩

theorem healthy (h : BuriesEach doc before revs revisions after) (healthy : before.Healthy) : after.Healthy := by
  induction h with
  | nil => exact healthy
  | cons hfirst _ ih => exact ih hfirst.healthy

theorem revs_eq (h : BuriesEach doc before revs revisions after) :
    revisions.map (·.rev) = revs.map fun rev => (Content.tombstone rev).rev := by
  induction h with
  | nil => rfl
  | cons hfirst _ ih => rw [List.map_cons, List.map_cons, hfirst.rev_eq, ih]

theorem range (h : BuriesEach doc before revs revisions after) :
    ∀ rev ∈ revs, rev.generation + 1 < RevId.generationBound := by
  induction h with
  | nil => exact List.forall_mem_nil _
  | cons hfirst _ ih => exact List.forall_mem_cons.mpr ⟨hfirst.range, ih⟩

theorem length_tips (h : BuriesEach doc before revs revisions after) (healthy : before.Healthy)
    (hnumber : before.documentNumber? doc = some number) : (after.tips number).length = (before.tips number).length := by
  induction h with
  | nil => rfl
  | cons hfirst _ ih =>
    obtain ⟨_, hgains⟩ := hfirst.gains
    rw [ih hfirst.healthy ((hgains.documentNumber? doc).trans hnumber), hfirst.length_tips healthy hnumber]

theorem live_before (h : BuriesEach doc before revs revisions after) (healthy : before.Healthy)
    (hlive : after.Live doc other) : before.Live doc other := by
  induction h with
  | nil => exact hlive
  | cons hfirst _ ih => exact ((hfirst.live_iff healthy _).mp (ih hfirst.healthy hlive)).1

theorem live_after (h : BuriesEach doc before revs revisions after) (healthy : before.Healthy)
    (hlive : before.Live doc other) (hother : other ∉ revs) : after.Live doc other := by
  induction h with
  | nil => exact hlive
  | cons hfirst _ ih =>
    obtain ⟨hne, hrest⟩ := List.ne_and_not_mem_of_not_mem_cons hother
    exact ih hfirst.healthy ((hfirst.live_iff healthy _).mpr ⟨hlive, fun heq => absurd heq hne⟩) hrest

/-- No leaf of the list is live afterwards exactly if the tombstones have different ids that were not known before. -/
theorem dead_iff (h : BuriesEach doc before revs revisions after) (healthy : before.Healthy) (hdistinct : revs.Nodup)
    (hlive : ∀ rev ∈ revs, before.Live doc rev) :
    (∀ rev ∈ revs, ¬after.Live doc rev) ↔
      (revs.map fun rev => (Content.tombstone rev).rev).Nodup ∧
        ∀ rev ∈ revs, ¬before.Knows doc (Content.tombstone rev).rev := by
  induction h with
  | nil => simp
  | @cons before between after rev revs revision revisions hfirst hrest ih =>
    obtain ⟨hother, hdistinct⟩ := List.nodup_cons.mp hdistinct
    obtain ⟨hthere, hlive⟩ := List.forall_mem_cons.mp hlive
    have hlater := ih hfirst.healthy hdistinct (hfirst.keeps_live healthy hother hlive)
    -- The first leaf is in none of the later burials, so what the first one has made of it stays.
    have hhead : ¬after.Live doc rev ↔ ¬before.Knows doc (Content.tombstone rev).rev := by
      have hstep := hfirst.live_iff healthy rev
      constructor
      · intro hdead hknown
        exact hdead (hrest.live_after hfirst.healthy (hstep.mpr ⟨hthere, fun _ => hknown⟩) hother)
      · intro hfresh hagain
        exact hfresh ((hstep.mp (hrest.live_before hfirst.healthy hagain)).2 rfl)
    have hknown : ∀ other, between.Knows doc (Content.tombstone other).rev ↔
        before.Knows doc (Content.tombstone other).rev ∨ (Content.tombstone other).rev = (Content.tombstone rev).rev :=
      fun other => hfirst.knows_iff healthy
    simp only [hknown, not_or] at hlater
    rw [List.forall_mem_cons, hhead, hlater, List.map_cons, List.nodup_cons, List.forall_mem_cons, List.mem_map]
    constructor
    · rintro ⟨hfresh, hnodup, hrest⟩
      refine ⟨⟨?_, hnodup⟩, hfresh, fun other hmem => (hrest other hmem).1⟩
      rintro ⟨other, hmem, heq⟩
      exact (hrest other hmem).2 heq
    · rintro ⟨⟨hnew, hnodup⟩, hfresh, hrest⟩
      exact ⟨hfresh, hnodup, fun other hmem => ⟨hrest other hmem, fun heq => hnew ⟨other, hmem, heq⟩⟩⟩

theorem made (h : BuriesEach doc before revs revisions after) (healthy : before.Healthy)
    (hlive : ∀ rev ∈ revs, before.Live doc rev) (hdistinct : (revs.map fun rev => (Content.tombstone rev).rev).Nodup)
    (hfresh : ∀ rev ∈ revs, ¬before.Knows doc (Content.tombstone rev).rev) :
    List.Forall₂ (fun rev revision => revision.deleted = true ∧ before.ChildOf doc rev revision) revs revisions := by
  induction h with
  | nil => exact .nil
  | @cons before between after rev revs revision revisions hfirst hrest ih =>
    rw [List.map_cons, List.nodup_cons] at hdistinct
    obtain ⟨hnew, hdistinct⟩ := hdistinct
    obtain ⟨hfirstFresh, hrestFresh⟩ := List.forall_mem_cons.mp hfresh
    obtain ⟨-, hlive⟩ := List.forall_mem_cons.mp hlive
    have hother : rev ∉ revs := fun hmem => hnew (List.mem_map_of_mem hmem)
    have hstays := hfirst.keeps_live healthy hother hlive
    have hunknown : ∀ other ∈ revs, ¬between.Knows doc (Content.tombstone other).rev := by
      intro other hmem hknown
      rcases (hfirst.knows_iff healthy).mp hknown with hold | hsame
      · exact hrestFresh other hmem hold
      · exact hnew (List.mem_map.mpr ⟨other, hmem, hsame⟩)
    refine .cons (hfirst.made healthy hfirstFresh) ?_
    refine (forall₂_with_mem (ih hfirst.healthy hstays hdistinct hunknown)).imp fun other tombstone hmade => ?_
    obtain ⟨hmem, -, hdeleted, hchild⟩ := hmade
    obtain ⟨row, hrow⟩ := hlive other hmem
    obtain ⟨_, hgains⟩ := hfirst.gains
    exact ⟨hdeleted, hchild.of_extends hgains.extends (by rw [hrow.place? healthy.shape]; rfl)⟩

end BuriesEach

end Tables

/-! ### Actions -/

theorem Edit.bury_buries {draft draft' : Draft} {doc : String} {rev : RevId} {revision : Revision}
    (healthy : draft.tables.Healthy) (h : Edit.bury doc rev draft = .ok revision draft') :
    draft.tables.Buries doc rev revision draft'.tables := by
  obtain ⟨number, row, ⟨hnumber, hrow, htext, hlive⟩, hafter, -, hderives⟩ := Edit.bury_effect healthy h
  obtain ⟨hhas, hhome⟩ := Edit.bury_has healthy h
  obtain ⟨-, rfl, -⟩ := mem_leafRows_iff.mp hrow
  exact ⟨hafter, hhas, hhome, row, ⟨hnumber, hrow, htext, hlive⟩, hderives⟩

namespace Action

variable {writer after : Writer} {doc : String} {rev : RevId} {revs : List RevId} {revision : Revision}
  {revisions : List Revision}

theorem delete_buries (healthy : writer.database.tables.Healthy) (h : delete doc rev writer = .ok revision after) :
    writer.database.tables.Buries doc rev revision after.database.tables := by
  obtain ⟨draft, hwork, htables⟩ := delete_ok h
  rw [htables]
  exact Edit.bury_buries healthy hwork

theorem deleteEach_buries (healthy : writer.database.tables.Healthy)
    (h : deleteEach doc revs writer = .ok revisions after) :
    BuriesEach doc writer.database.tables revs revisions after.database.tables := by
  induction revs generalizing writer revisions with
  | nil =>
    obtain ⟨rfl, rfl⟩ := ok_pure_iff.mp h
    exact .nil _
  | cons rev rest ih =>
    obtain ⟨revision, between, hfirst, h⟩ := ok_bind_iff.mp h
    obtain ⟨later, _, hrest, hvalue⟩ := ok_bind_iff.mp h
    obtain ⟨rfl, rfl⟩ := ok_pure_iff.mp hvalue
    have hburied := delete_buries healthy hfirst
    exact .cons hburied (ih hburied.healthy hrest)

/-- What is deleted when all live leaves are: those of the beginning, one after the other. -/
theorem deleteAllLeaves_buries (hanchored : writer.database.Anchored) (healthy : writer.database.tables.Healthy)
    (h : deleteAllLeaves doc writer = .ok revisions after) :
    BuriesEach doc writer.database.tables (writer.database.tables.liveLeaves doc) revisions after.database.tables := by
  obtain ⟨inside, hinside, hsame, -⟩ := transact_ok
    (deleteLiveLeaves_ends covers_any.toCourse hanchored fun _ _ _ rev _ => covers_any.bury doc rev) h
  obtain ⟨revs, between, hlisted, hdeleted⟩ := ok_bind_iff.mp hinside
  obtain ⟨draft, hleaves, rfl⟩ := edit_ok hlisted
  obtain ⟨_, _, hquery, hvalue⟩ := ok_bind_iff.mp hleaves
  obtain ⟨-, rfl⟩ := Edit.query_ok_iff.mp hquery
  obtain ⟨-, rfl⟩ := ok_pure_iff.mp hvalue
  have hrevs : writer.database.tables.liveLeaves doc = revs := Edit.liveLeaves_ok hleaves
  have hopened : (install (opened writer) ⟨writer.database.tables, writer.blobs, []⟩).database.tables.Healthy := healthy
  have hburied := deleteEach_buries hopened hdeleted
  rw [hrevs, show after.database.tables = inside.database.tables from congrArg Holdings.tables hsame]
  exact hburied

theorem deleteEach_progress (hintact : writer.database.Intact) (healthy : writer.database.tables.Healthy)
    (hdistinct : revs.Nodup) (hlive : ∀ rev ∈ revs, writer.database.tables.Live doc rev)
    (hrange : ∀ rev ∈ revs, rev.generation + 1 < RevId.generationBound) :
    FailsWith (Halt.May fun _ => False) (deleteEach doc revs) writer := by
  induction revs generalizing writer with
  | nil => exact .pure []
  | cons rev rest ih =>
    obtain ⟨hother, hdistinct⟩ := List.nodup_cons.mp hdistinct
    obtain ⟨⟨row, hrow⟩, hlive⟩ := List.forall_mem_cons.mp hlive
    have hdraft : (⟨writer.database.tables, writer.blobs, []⟩ : Draft).tables.LiveLeaf doc rev row := hrow
    obtain ⟨revision, draft, hburied⟩ := Edit.bury_progress healthy hdraft (hrange rev List.mem_cons_self)
    refine (transact_edit_fails hintact (Edit.bury_grows doc rev) (.of_ok hburied)).bind fun tombstone between hdeleted => ?_
    have hsteady := (Matches.transact_edit (Edit.bury doc rev) ⟨rfl, rfl⟩ tombstone between hdeleted).1
    have hstep := delete_buries healthy hdeleted
    exact (ih (hsteady.intact_iff.mp hintact) hstep.healthy hdistinct (hstep.keeps_live healthy hother hlive)
      fun other hmem => hrange other (List.mem_cons_of_mem _ hmem)).answer

theorem deleteAllLeaves_progress (hanchored : writer.database.Anchored) (hintact : writer.database.Intact)
    (healthy : writer.database.tables.Healthy)
    (hrange : ∀ rev ∈ writer.database.tables.liveLeaves doc, rev.generation + 1 < RevId.generationBound) :
    FailsWith (Halt.May fun _ => False) (deleteAllLeaves doc) writer := by
  obtain ⟨leaves, hleaves, hlist, hdistinct, hlive⟩ := healthy.liveLeaves_spec doc
  have hread : Edit.liveLeaves doc ⟨writer.database.tables, writer.blobs, []⟩
      = .ok (writer.database.tables.liveLeaves doc) ⟨writer.database.tables, writer.blobs, []⟩ := by
    rw [hlist]
    exact ok_bind_iff.mpr ⟨leaves, _, Edit.query_ok_iff.mpr ⟨hleaves, rfl⟩, rfl⟩
  refine transact_fails (deleteLiveLeaves_ends covers_any.toCourse hanchored fun _ _ _ rev _ => covers_any.bury doc rev) ?_ ?_
  · have hask : FailsWith (Halt.May fun _ => False) (edit (Edit.liveLeaves doc)) (opened writer) :=
      edit_fails (.of_ok hread)
    refine hask.bind fun revs between hlisted => ?_
    obtain ⟨draft, hfound, rfl⟩ := edit_ok hlisted
    obtain ⟨rfl, rfl⟩ := EStateM.Result.ok.inj (hread.symm.trans hfound)
    exact deleteEach_progress (intact_install hintact _) healthy hdistinct (fun rev => (hlive rev).mp) hrange
  · intro tombstones inside hdone
    obtain ⟨revs, between, hlisted, hdeleted⟩ := ok_bind_iff.mp hdone
    obtain ⟨draft, -, rfl⟩ := edit_ok hlisted
    have hsteady := (deleteEach_matches revs ⟨rfl, rfl⟩ tombstones inside hdeleted).1
    exact hsteady.intact_iff.mp (intact_install hintact draft)

end Action

/-! ### Stores -/

namespace Store

variable {store after : Store} {doc : String} {revisions : List Revision} {number : Int}

theorem length_leaves (hopen : store.closed = false) (healthy : store.writer.database.tables.Healthy) (doc : String) :
    (store.leaves doc).map List.length
      = match store.writer.database.tables.documentNumber? doc with
        | none => .error (.notFound (.document doc))
        | some number =>
          if (store.writer.database.tables.tips number).length = 0 then .error (.notFound (.document doc))
          else .ok (store.writer.database.tables.tips number).length := by
  cases hnumber : store.writer.database.tables.documentNumber? doc with
  | none =>
    rw [leaves_of_absent hopen hnumber]
    rfl
  | some number =>
    obtain ⟨revisions, hselect, hpairs⟩ :=
      healthy.select_ok hnumber fun row => store.writer.database.tables.isLeaf row.sequence
    have hfound : store.ask (·.leafRevisions doc) = .ok revisions := ask_of_open hopen hselect
    have hlength : (store.writer.database.tables.tips number).length = revisions.length :=
      (length_tips _ _).trans hpairs.length_eq
    simp only [leaves, hfound]
    cases revisions with
    | nil =>
      rw [if_pos (show _ = 0 from hlength)]
      rfl
    | cons first rest =>
      rw [if_neg (by rw [hlength]; exact Nat.succ_ne_zero _), hlength]
      rfl

theorem contains_false_iff (hopen : store.closed = false) (healthy : store.writer.database.tables.Healthy) :
    store.contains doc = .ok false ↔ ∀ rev, ¬store.writer.database.tables.Live doc rev := by
  obtain ⟨found, hfound⟩ : ∃ found, store.writer.database.tables.currentRevision doc = .ok found := by
    cases hnumber : store.writer.database.tables.documentNumber? doc with
    | none => exact ⟨none, by simp only [currentRevision, select, hnumber]; rfl⟩
    | some number =>
      obtain ⟨revisions, hselect, -⟩ := healthy.select_ok hnumber fun row => row.current
      exact ⟨revisions.head?, by simp only [currentRevision, hselect]; rfl⟩
  have hcontains : store.contains doc = .ok (found.any fun winner => !winner.deleted) := by
    rw [contains, ask_of_open hopen hfound]
    rfl
  have hlive : (∃ rev, store.writer.database.tables.Live doc rev) ↔ _ := healthy.exists_live_iff
  rw [hfound] at hlive
  rw [hcontains, ← not_exists, hlive, Except.ok.injEq, Bool.eq_false_iff, ne_eq, Option.any_eq_true]
  simp

theorem deleteAllLeaves_ok_iff (hopen : store.closed = false) (hrest : store.AtRest)
    (healthy : store.writer.database.tables.Healthy) :
    (∃ revisions after, deleteAllLeaves doc store = .ok revisions after) ↔
      ∀ rev ∈ store.writer.database.tables.liveLeaves doc, rev.generation + 1 < RevId.generationBound := by
  have hanchored := Writer.anchored_of_rest hrest
  constructor
  · rintro ⟨revisions, after, hdeleted⟩
    obtain ⟨-, writer, hwriter, -, -⟩ := execute_ok_iff.mp hdeleted
    exact (Action.deleteAllLeaves_buries hanchored healthy hwriter).range
  · intro hrange
    have hruns := Action.deleteAllLeaves_progress hanchored (Writer.intact_of_rest hrest) healthy hrange
    have hnever := execute_fails hopen hrest (Action.deleteAllLeaves_ends covers_any.toCourse hanchored fun _ _ _ rev _ =>
      covers_any.bury doc rev) hruns
    cases hresult : deleteAllLeaves doc store with
    | ok revisions after => exact ⟨revisions, after, rfl⟩
    | error error after => exact (hnever error after hresult).elim

/-- The deletion of all live leaves answers their tombstones, and empties the document exactly if the ids of these are different and new to it. -/
theorem Onward.deleteAllLeaves_empties {config : Config} {blobs : BlobStore} (h : (openWith config blobs).Onward store)
    (hopen : store.closed = false) (doc : String) :
    let tables := store.writer.database.tables
    let live := tables.liveLeaves doc
    let ids := live.map fun rev => (Content.tombstone rev).rev
    (∃ leaves, tables.leafRevisions doc = .ok leaves ∧ live = (leaves.filter fun leaf => !leaf.deleted).map (·.rev)) ∧
    ((∃ revisions after, deleteAllLeaves doc store = .ok revisions after) ↔
      ∀ rev ∈ live, rev.generation + 1 < RevId.generationBound) ∧
    ∀ revisions after, deleteAllLeaves doc store = .ok revisions after →
      revisions.map (·.rev) = ids ∧
      (after.leaves doc).map List.length = (store.leaves doc).map List.length ∧
      (after.contains doc = .ok false ↔ ids.Nodup ∧ ∀ id ∈ ids, ¬tables.Knows doc id) ∧
      (ids.Nodup → (∀ id ∈ ids, ¬tables.Knows doc id) →
        after.writer.database.tables.liveLeaves doc = [] ∧
        (∀ winner, after.read doc none = .ok winner → winner.deleted = true) ∧
        List.Forall₂ (fun rev revision => revision.deleted = true ∧ tables.ChildOf doc rev revision) live revisions) := by
  intro tables live ids
  obtain ⟨hrest, healthy, -⟩ := h.preserved rfl healthy_empty
  obtain ⟨leaves, hleaves, hlist, hdistinct, hlive⟩ := healthy.liveLeaves_spec doc
  refine ⟨⟨leaves, hleaves, hlist⟩, deleteAllLeaves_ok_iff hopen hrest healthy, fun revisions after hdeleted => ?_⟩
  obtain ⟨-, writer, hwriter, -, rfl⟩ := execute_ok_iff.mp hdeleted
  have hburied : BuriesEach doc tables live revisions writer.database.tables :=
    Action.deleteAllLeaves_buries (Writer.anchored_of_rest hrest) healthy hwriter
  have healthy' := hburied.healthy healthy
  obtain ⟨_, hgains⟩ := hburied.gains
  have hdead : (∀ rev, ¬writer.database.tables.Live doc rev) ↔ ∀ rev ∈ live, ¬writer.database.tables.Live doc rev := by
    constructor
    · exact fun hnone rev _ => hnone rev
    · exact fun hnone rev halive => hnone rev ((hlive rev).mpr (hburied.live_before healthy halive)) halive
  have hopen' : ({ store with writer } : Store).closed = false := hopen
  have hempty := hburied.dead_iff healthy hdistinct fun rev => (hlive rev).mp
  have hids : (∀ id ∈ ids, ¬tables.Knows doc id) ↔ ∀ rev ∈ live, ¬tables.Knows doc (Content.tombstone rev).rev :=
    List.forall_mem_map
  refine ⟨hburied.revs_eq, ?_, ?_, fun hnodup hfresh => ?_⟩
  · rw [length_leaves hopen' healthy', length_leaves hopen healthy, hgains.documentNumber?]
    cases hnumber : store.writer.database.tables.documentNumber? doc with
    | none => rfl
    | some number => simp only [hburied.length_tips healthy hnumber, tables]
  · rw [contains_false_iff hopen' healthy', hids]
    exact hdead.trans hempty
  · have hnone := hdead.mpr (hempty.mpr ⟨hnodup, hids.mp hfresh⟩)
    obtain ⟨-, -, -, -, hlive'⟩ := healthy'.liveLeaves_spec doc
    refine ⟨List.eq_nil_iff_forall_not_mem.mpr fun rev hrev => hnone rev ((hlive' rev).mp hrev), fun winner hwinner => ?_, ?_⟩
    · by_contra halive
      obtain ⟨rev, hagain⟩ := healthy'.exists_live_iff.mpr
        ⟨winner, (read_winner_iff hopen').mp hwinner, Bool.eq_false_iff.mpr halive⟩
      exact hnone rev hagain
    · exact hburied.made healthy (fun rev => (hlive rev).mp) hnodup (hids.mp hfresh)

/-- A document in conflict is emptied. -/
theorem deleteAllLeaves_empties_conflict :
    let first : RevId := ⟨1, "a", by decide, by decide⟩
    let second : RevId := ⟨1, "b", by decide, by decide⟩
    let items : List Graft := [{ doc := "d", history := [first], body := some Body.empty },
      { doc := "d", history := [second], body := some Body.empty }]
    let store := stateAfter (graftAll items) (new {})
    ∃ revisions after, deleteAllLeaves "d" store = .ok revisions after ∧ revisions.length = 2 ∧
      after.contains "d" = .ok false := by
  intro first second items store
  have hstart : (openWith {} {}).Onward store := .graftAll items .start
  have hlive : store.writer.database.tables.liveLeaves "d" = [first, second] := by decide +kernel
  have hempties := hstart.deleteAllLeaves_empties (by decide +kernel) "d"
  simp only [hlive] at hempties
  obtain ⟨-, hok, hall⟩ := hempties
  obtain ⟨revisions, after, hdeleted⟩ := hok.mpr (by decide)
  obtain ⟨hids, -, hempty, -⟩ := hall revisions after hdeleted
  refine ⟨revisions, after, hdeleted, ?_, hempty.mpr (by decide +kernel)⟩
  simpa using congrArg List.length hids

/-- A leaf is still there after all live leaves were deleted, since another peer has stored its tombstone as a root. -/
theorem deleteAllLeaves_leaves_one :
    let root : RevId := ⟨1, "a", by decide, by decide⟩
    let tombstone : RevId := ⟨2, "a1fa2550a265d1985537b464989458e9", by decide, by decide⟩
    let items : List Graft := [{ doc := "d", history := [root], body := some Body.empty },
      { doc := "d", history := [tombstone], body := some Body.empty, deleted := true }]
    let store := stateAfter (graftAll items) (new {})
    ∃ revisions after, deleteAllLeaves "d" store = .ok revisions after ∧ after.contains "d" = .ok true := by
  intro root tombstone items store
  have hstays : (match deleteAllLeaves "d" store with
      | .ok _ after => after.contains "d"
      | .error _ _ => .ok false) = .ok true := by decide +kernel
  cases hdeleted : deleteAllLeaves "d" store with
  | ok revisions after =>
    rw [hdeleted] at hstays
    exact ⟨revisions, after, rfl, hstays⟩
  | error error after =>
    rw [hdeleted] at hstays
    nomatch hstays

end Store

end RevisionForest
