import RevisionForest.Proofs.Pedigree
import RevisionForest.Proofs.Progress
/-!
# Grafts merge

An admissible graft into healthy tables succeeds where blobs can be written (`Edit.graft_progress`): the missing part of its history can always be planted, and the row that was just written can be read. If its history is complete, it adds exactly the ids of the history to the document, and the tables mirror the tree as before (`Edit.graft_merges`). So what a document knows after some grafts is the union of their histories, whichever of them came first.
-/

namespace RevisionForest

/-- A graft that every store takes: it is valid, and the tables take its names. -/
structure Graft.Admissible (item : Graft) : Prop where
  valid : item.check = .ok ()
  named : Tables.isBlankId item.doc = false
  bounded : ∀ rev ∈ item.history, rev.generation < RevId.generationBound

/-- A valid graft that fits a tree: its history is complete, and it is a tombstone exactly if the tree says so. -/
structure Graft.Fits (item : Graft) (tree : Pedigree) : Prop where
  valid : item.check = .ok ()
  bounded : ∀ rev ∈ item.history, rev.generation < RevId.generationBound
  line : tree.Line item.history
  deleted : ∀ rev, item.history.getLast? = some rev → item.deleted = tree.deleted rev

/-- A graft that every store takes and that fits a tree. -/
structure Graft.Faithful (item : Graft) (tree : Pedigree) : Prop extends item.Admissible, item.Fits tree

theorem Attachment.checkNames_ok_iff {seen : List String} {attachments : List NewAttachment} :
    Attachment.checkNames seen attachments = .ok () ↔
      (attachments.map (·.name)).Nodup ∧
        ∀ attachment ∈ attachments, attachment.name ≠ "" ∧ attachment.name ∉ seen := by
  induction attachments generalizing seen with
  | nil => simp [checkNames]
  | cons new rest ih =>
    unfold checkNames
    by_cases hempty : new.name = ""
    · simp [hempty]
    · by_cases hseen : new.name ∈ seen
      · simp [hempty, hseen]
      · rw [if_neg hempty, if_neg (by simpa using hseen), ih]
        simp only [List.map_cons, List.nodup_cons, List.mem_map, List.mem_cons, forall_eq_or_imp]
        constructor
        · rintro ⟨hdistinct, hrest⟩
          refine ⟨⟨?_, hdistinct⟩, ⟨hempty, hseen⟩, fun other hother => ?_⟩
          · rintro ⟨other, hother, heq⟩
            exact (hrest other hother).2 (.inl heq)
          · exact ⟨(hrest other hother).1, fun hmem => (hrest other hother).2 (.inr hmem)⟩
        · rintro ⟨⟨hnew, hdistinct⟩, -, hrest⟩
          refine ⟨hdistinct, fun other hother => ⟨(hrest other hother).1, ?_⟩⟩
          rintro (heq | hmem)
          · exact hnew ⟨other, hother, heq⟩
          · exact (hrest other hother).2 hmem

/-! ### What a complete history adds -/

namespace Tables

variable {tables : Tables} {tree : Pedigree} {history missing : List RevId} {rev : RevId} {document sequence : Int}
  {parent : Option Int} {row : RevisionRow}

/-- A history is what is known of it, what is to be planted, and the revision itself. -/
theorem exists_prior (known? : RevId → Option Int) (hlast : history.getLast? = some rev) :
    let split := Graft.splitKnown known? history.dropLast
    ∃ prior, prior ++ (split.2 ++ [rev]) = history ∧
      (split.1 = none ∧ prior = [] ∨
        ∃ known sequence, prior.getLast? = some known ∧ known? known = some sequence ∧ split.1 = some sequence) := by
  intro split
  obtain ⟨prior, hprior, -, hknown⟩ := Graft.splitKnown_spec known? history.dropLast
  refine ⟨prior, ?_, hknown⟩
  rw [← List.append_assoc, hprior]
  exact List.dropLast_append_getLast? rev hlast

theorem joins_missing (step : Option RevId → RevId → Prop)
    (hchain : history.IsChain fun older newer => step (some older) newer)
    (hroot : ∀ first, history.head? = some first → step none first) (hlast : history.getLast? = some rev) :
    let split := Graft.splitKnown (tables.sequenceOf? document) history.dropLast
    (split.2 ++ [rev]).IsChain (fun older newer => step (some older) newer) ∧
      ∀ first, (split.2 ++ [rev]).head? = some first → tables.Joins step document split.1 first := by
  intro split
  obtain ⟨prior, hsplit, hknown⟩ := exists_prior (tables.sequenceOf? document) hlast
  rw [← hsplit] at hchain
  obtain ⟨-, hmissing, hjoint⟩ := List.isChain_append.mp hchain
  refine ⟨hmissing, fun first hfirst => ?_⟩
  rcases hknown with ⟨hnone, rfl⟩ | ⟨known, sequence, hdeepest, hfound, hsome⟩
  · exact .inl ⟨hroot first (by rwa [← hsplit, List.nil_append]), hnone⟩
  · exact .inr ⟨known, sequence, hjoint known hdeepest first hfirst, hsome, hfound⟩

theorem Mirrors.stores_or_missing (h : tables.Mirrors tree document) (hline : tree.Line history)
    (hlast : history.getLast? = some rev) {older : RevId} (holder : older ∈ history) :
    tables.Stores document older ∨
      older ∈ (Graft.splitKnown (tables.sequenceOf? document) history.dropLast).2 ++ [rev] := by
  obtain ⟨prior, hsplit, hknown⟩ := exists_prior (tables.sequenceOf? document) hlast
  rw [← hsplit] at holder
  rcases List.mem_append.mp holder with hold | hnew
  · rcases hknown with ⟨-, rfl⟩ | ⟨known, sequence, hdeepest, hfound, -⟩
    · exact absurd hold List.not_mem_nil
    · have hchain := hline.chain
      rw [← hsplit] at hchain
      exact .inl (h.history_stored hchain.left_of_append hdeepest (.of_sequence hfound) older hold)
  · exact .inr hnew

/-! ### A chain of stubs and the row below it -/

variable {tip : RevisionRow}

theorem document_of_mem_branch (htip : tip.document = document) :
    ∀ row ∈ stubRows document parent sequence missing ++ [tip], row.document = document := by
  induction missing generalizing parent sequence with
  | nil =>
    intro row hrow
    rw [List.mem_singleton.mp hrow]
    exact htip
  | cons stubbed rest ih =>
    intro row hrow
    rcases List.mem_cons.mp hrow with rfl | hrow
    · rfl
    · exact ih row hrow

theorem body_of_mem_stubRows (hrow : row ∈ stubRows document parent sequence missing) : row.body = Body.empty := by
  induction missing generalizing parent sequence with
  | nil => exact absurd hrow List.not_mem_nil
  | cons stubbed rest ih =>
    rcases List.mem_cons.mp hrow with rfl | hrow
    · rfl
    · exact ih hrow

theorem exists_mem_branch_iff (htip : tip.revText = rev.text) {other : RevId} :
    (∃ row ∈ stubRows document parent sequence missing ++ [tip], row.revText = other.text) ↔
      other ∈ missing ++ [rev] := by
  have hsame : ∀ row : RevisionRow, ∀ stored : RevId, row.revText = stored.text →
      (row.revText = other.text ↔ other = stored) := by
    intro row stored htext
    rw [htext]
    constructor
    · exact fun h => (RevId.text_injective h).symm
    · exact fun h => congrArg RevId.text h.symm
  induction missing generalizing parent sequence with
  | nil => simp [stubRows, hsame tip rev htip]
  | cons stubbed rest ih =>
    simp only [stubRows, List.cons_append, List.mem_cons, exists_eq_or_imp, ih]
    rw [hsame _ stubbed rfl]

/-- Planting a chain and a row below it keeps the tables a mirror of the tree, whatever comes as a stub. -/
theorem Mirrors.plant {before after : Tables} {attachments : List AttachmentRow}
    (h : before.Mirrors tree document) (shape : after.Shape)
    (hgains : before.Gains after (stubRows document parent sequence missing ++ [tip]) attachments)
    (hparent : tip.parent = lastStub parent sequence missing) (htext : tip.revText = rev.text)
    (hflag : tip.deleted = tree.deleted rev)
    (hchain : (missing ++ [rev]).IsChain fun older newer => tree.parent newer = some older)
    (hfirst : ∀ first, (missing ++ [rev]).head? = some first →
      before.Joins (fun above rev => tree.parent rev = above) document parent first) :
    after.Mirrors tree document := by
  have hadded : ∀ row ∈ stubRows document parent sequence missing ++ [tip], row ∈ after.bones := by
    intro row hrow
    rw [hgains.bones]
    exact List.mem_append_right _ hrow
  obtain ⟨hstubs, htip⟩ := joins_stubRows shape hchain (fun first hhead => (hfirst first hhead).mono hgains.extends)
    fun row hrow => hadded row (List.mem_append_left _ hrow)
  refine h.grow hgains (fun row hrow _ other hother => ?_) fun row hrow _ other hother => ?_
  · rcases List.mem_append.mp hrow with hstub | hlast
    · exact hstubs row hstub other hother
    · obtain rfl := List.mem_singleton.mp hlast
      obtain rfl := RevId.text_injective (htext.symm.trans hother)
      rw [hparent]
      exact htip
  · rcases List.mem_append.mp hrow with hstub | hlast
    · obtain ⟨child, hchild, heq⟩ := exists_child_of_stubRows hparent hstub
      exact .inr (isLeaf_eq_false_iff.mpr ⟨child, hadded child hchild, heq⟩)
    · obtain rfl := List.mem_singleton.mp hlast
      obtain rfl := RevId.text_injective (htext.symm.trans hother)
      exact .inl hflag

end Tables

namespace Edit

open Tables

variable {draft draft' : Draft} {item : Graft} {found : Option Revision} {tree : Pedigree} {doc : String}

theorem openTables_progress {tables : Tables} (hnamed : isBlankId doc = false) :
    ∃ number opened, openTables doc tables = .ok number opened := by
  cases hfound : tables.documentNumber? doc with
  | some number => exact ⟨number, tables, openTables_ok_iff.mpr (.inl ⟨hfound, rfl⟩)⟩
  | none => exact ⟨_, _, openTables_ok_iff.mpr (.inr ⟨⟨hnamed, hfound⟩, rfl, rfl⟩)⟩

theorem graft_progress (healthy : draft.tables.Healthy) (hbudget : draft.blobs.budget = none)
    (hitem : item.Admissible) : ∃ found draft', graft item draft = .ok found draft' := by
  obtain ⟨-, hhistory, hgap, -, hnames⟩ := Graft.check_ok_iff.mp hitem.valid
  obtain ⟨rev, hrev⟩ : ∃ rev, item.history.getLast? = some rev := ⟨_, List.getLast?_eq_some_getLast hhistory⟩
  obtain ⟨number, opened, hopen⟩ := openTables_progress hitem.named
  obtain ⟨hopened, hnumber, -⟩ := openTables_ok healthy hopen
  by_cases hthere : (opened.sequenceOf? number rev).isSome = true
  · exact ⟨_, _, graft_ok_iff.mpr ⟨rev, number, opened, hrev, hopen, .inl ⟨hthere, rfl, rfl⟩⟩⟩
  have hnew : opened.sequenceOf? number rev = none := by simpa using hthere
  obtain ⟨leaves, -, hprev⟩ := (hopened.crowned number).currentWinner hopened.shape
  obtain ⟨planted, hplant, -, hshape, hfertile, haccepts, hunknown⟩ := plant_missing hopened hnumber hgap
  have hmissing := Graft.missing_lt (opened.sequenceOf? number) hgap hrev
  have htop : rev.generation < RevId.generationBound := hitem.bounded rev (List.mem_of_getLast? hrev)
  have hfresh : planted.sequenceOf? number rev = none :=
    hunknown rev (fun hmem => absurd (hmissing rev hmem) (Nat.lt_irrefl _)) hnew
  have hplanted : planted.Sturdy number :=
    (hopened.sturdy number).plant (fun stub hstub => (hmissing stub hstub).trans htop) hplant
  obtain ⟨blobs, hblobs⟩ := BlobStore.putAll_unlimited (item.attachments.map (·.data)) hbudget
  have hdistinct : ((item.attachments.map (·.stored rev.generation)).map (·.name)).Nodup := by
    rw [List.map_map]
    exact (Attachment.checkNames_ok_iff.mp hnames).1
  have haccepted := haccepts rev
  generalize lastStub _ _ _ = last at hplant haccepted
  obtain ⟨_, _, attached, elected, crowned, revision, hinsert, hattach, hpick, hread⟩ :=
    insert_progress (tip item number last rev) hplanted haccepted hfresh htop hdistinct
  exact ⟨_, _, graft_ok_iff.mpr ⟨rev, number, opened, hrev, hopen, .inr ⟨hnew, _, _, planted, _, _, blobs, attached,
    elected, crowned, revision, hprev, hplant, hinsert, hblobs, hattach, hpick, hread, rfl, rfl⟩⟩⟩

/-- A graft with a complete history adds the ids of the history, and leaves every document a mirror of its tree. -/
theorem graft_merges (forest : String → Pedigree) (healthy : draft.tables.Healthy)
    (hitem : item.Faithful (forest item.doc)) (hhome : draft.tables.Shows (forest item.doc) item.doc)
    (h : graft item draft = .ok found draft') :
    (∀ doc, draft.tables.Shows (forest doc) doc → draft'.tables.Shows (forest doc) doc) ∧
      ∀ doc rev, draft'.tables.Knows doc rev ↔
        draft.tables.Knows doc rev ∨ (doc = item.doc ∧ rev ∈ item.history) := by
  have hline := hitem.line
  obtain ⟨rev, number, opened, ⟨hrev, hopen, healthy'⟩, hcases⟩ :=
    graft_effect healthy (Graft.check_ok_iff.mp hitem.valid).2.2.1 h
  obtain ⟨hopened, hnumber, -⟩ := openTables_ok healthy hopen
  have hknows := openTables_knows healthy.shape hopen
  have hothers : ∀ doc, doc ≠ item.doc → draft.tables.Shows (forest doc) doc → opened.Shows (forest doc) doc :=
    fun doc => (openTables_shows (forest doc) healthy.shape hopen).1 doc
  have hmirror := (openTables_shows (forest item.doc) healthy.shape hopen).2 hhome
  rcases hcases with ⟨hthere, -, heq, -⟩ | ⟨⟨hnew, hrange, -⟩, -, hgains⟩
  · -- The tip is known, and with it all that stands above it in the tree, so the history says nothing new.
    rw [heq]
    have hstored : opened.Stores number rev := stores_iff.mpr hthere
    refine ⟨fun doc hshows => ?_, fun doc other => ?_⟩
    · by_cases hdoc : doc = item.doc
      · intro found hfound
        rw [hdoc, hnumber] at hfound
        obtain rfl := Option.some.inj hfound
        obtain ⟨bone, hbone, hdocument, -⟩ := hstored
        exact ⟨hdoc ▸ hmirror, bone, hbone, hdocument⟩
      · exact hothers doc hdoc hshows
    · rw [hknows]
      constructor
      · exact .inl
      · rintro (hold | ⟨rfl, hmem⟩)
        · exact hold
        · exact (hknows _ _).mp ⟨number, hnumber, hmirror.history_stored hline.chain hrev hstored other hmem⟩
  · obtain ⟨hchain, hfirst⟩ :=
      joins_missing (fun above rev => (forest item.doc).parent rev = above) hline.chain hline.root hrev
    have hmirror' := hmirror.plant healthy'.shape hgains rfl rfl (hitem.deleted rev hrev) hchain hfirst
    refine ⟨fun doc hshows => ?_, fun doc other => ?_⟩
    · by_cases hdoc : doc = item.doc
      · subst hdoc
        exact hgains.shows hopened.shape hnumber (document_of_mem_branch rfl) (by simp) hmirror' (absurd rfl)
      · exact (hothers doc hdoc hshows).beside hgains hopened.shape hnumber (document_of_mem_branch rfl) hdoc
    · rw [hgains.knows_iff hopened.shape hnumber (document_of_mem_branch rfl), hknows, exists_mem_branch_iff rfl]
      constructor
      · rintro (hold | ⟨hdoc, hmem⟩)
        · exact .inl hold
        · obtain ⟨prior, hsplit, -⟩ := exists_prior (opened.sequenceOf? number) hrev
          exact .inr ⟨hdoc, hsplit ▸ List.mem_append_right prior hmem⟩
      · rintro (hold | ⟨rfl, hmem⟩)
        · exact .inl hold
        · rcases hmirror.stores_or_missing hline hrev hmem with hstored | hmissing
          · exact .inl ((hknows _ _).mp ⟨number, hnumber, hstored⟩)
          · exact .inr ⟨rfl, hmissing⟩

end Edit

end RevisionForest
