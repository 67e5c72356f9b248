import RevisionForest.Proofs.Burials
import RevisionForest.Proofs.ByteOrder
import RevisionForest.Proofs.Founding
import RevisionForest.Proofs.Tombstones
import Mathlib.Data.Set.Subsingleton
/-!
# What the views say of the leaves

Some views look at the flag of the winner, others look for the rows that no row has as its parent, each in a way of its own. They agree, since the flag is on the elected leaf, which is live as long as any leaf is. So a document counts as there if it has a live leaf and as conflicted if it has two, whichever view is asked (`Store.Onward.views_agree`). The conflicted documents are listed in the order of their texts, which is the order of their bytes (`Utf8.encode_lt`).
-/

namespace RevisionForest

/-! ### The members of a list -/

theorem nonempty_members_iff {α : Type} {list : List α} : {member | member ∈ list}.Nonempty ↔ 0 < list.length := by
  rw [List.length_pos_iff_exists_mem]
  rfl

theorem nontrivial_members_iff {α : Type} {list : List α} (hnodup : list.Nodup) :
    {member | member ∈ list}.Nontrivial ↔ 1 < list.length := by
  match list with
  | [] => simp
  | [only] => simp
  | first :: second :: rest =>
    have hne : first ≠ second := fun heq => (List.nodup_cons.mp hnodup).1 (heq ▸ List.mem_cons_self)
    refine iff_of_true ⟨first, List.mem_cons_self, second, List.mem_cons_of_mem _ List.mem_cons_self, hne⟩ ?_
    simp

theorem countP_eq_of_forall₂ {α β : Type} {relation : α → β → Prop} {list : List α} {values : List β} {test : α → Bool}
    {test' : β → Bool} (h : List.Forall₂ relation list values)
    (hsame : ∀ item value, relation item value → test item = test' value) : list.countP test = values.countP test' := by
  induction h with
  | nil => rfl
  | cons hvalue _ ih => rw [List.countP_cons, List.countP_cons, ih, hsame _ _ hvalue]

namespace Tables

variable {tables : Tables} {doc : String} {number : Int}

/-- How many live leaves a document has. -/
def liveCount (tables : Tables) (number : Int) : Nat :=
  (tables.leafRows number).countP fun row => !row.deleted

/-! ### Leaves -/

theorem Healthy.isLeaf_iff_childless (healthy : tables.Healthy) (sequence : Int) :
    tables.isLeaf sequence = true ↔ ∀ child, tables.Has child → child.parent ≠ some sequence := by
  rw [isLeaf_iff]
  constructor
  · intro hrows child hchild
    obtain ⟨row, hrow, -, -, hread⟩ := hchild.exists_row
    obtain ⟨_, _, -, -, hshown⟩ := readRevision_ok_iff.mp hread
    rw [hshown]
    exact hrows row hrow
  · intro hchildren row hrow
    obtain ⟨home, hhome, hnumber⟩ := healthy.shape.homes row hrow
    have hfound : tables.documentNumber? home.id = some row.bare.document :=
      healthy.shape.documentNumber?_eq_some_iff.mpr (hnumber ▸ hhome)
    obtain ⟨rev, htext, -⟩ := healthy.legible.revisions row hrow
    obtain ⟨_, _, -, hchild⟩ := healthy.exists_has (mem_bones_iff.mpr ⟨row, hrow, rfl⟩) hfound htext
    exact hchildren _ hchild

theorem Healthy.leaves_spec (healthy : tables.Healthy) (hnumber : tables.documentNumber? doc = some number) :
    ∃ revisions, tables.leafRevisions doc = .ok revisions ∧ tables.leaves number = .ok (revisions.map (·.leaf)) ∧
      revisions.Nodup ∧ tables.liveCount number = revisions.countP (fun leaf => !leaf.deleted) ∧
      ∀ revision, revision ∈ revisions ↔
        tables.Has revision ∧ revision.doc = doc ∧ tables.isLeaf revision.sequence = true := by
  obtain ⟨revisions, hselect, hpairs⟩ := healthy.select_ok hnumber fun row => tables.isLeaf row.sequence
  have hleaves : tables.leaves number = .ok (revisions.map (·.leaf)) :=
    mapM_ok_iff.mpr (List.forall₂_map_right_iff.mpr (hpairs.imp fun _ _ hread => readLeaf_of_readRevision hread))
  refine ⟨revisions, hselect, hleaves, List.Nodup.of_map (·.leaf) (healthy.shape.nodup_leaves hleaves), ?_, fun revision => ?_⟩
  · refine countP_eq_of_forall₂ hpairs fun row revision hread => ?_
    obtain ⟨_, _, -, -, rfl⟩ := readRevision_ok_iff.mp hread
    rfl
  · constructor
    · intro hmem
      obtain ⟨hhas, hdoc⟩ := healthy.has_leaf hselect hmem
      obtain ⟨row, hrow, hread⟩ := exists_mem_left hpairs hmem
      rw [(place_of_readRevision hread).1]
      exact ⟨hhas, hdoc, (mem_leafRows_iff.mp hrow).2.2⟩
    · rintro ⟨hhas, rfl, hleaf⟩
      obtain ⟨row, hrow, hhome, -, hread⟩ := hhas.exists_row
      obtain rfl := Option.some.inj (hnumber.symm.trans hhome)
      rw [(place_of_readRevision hread).1] at hleaf
      obtain ⟨found, hfound, hshown⟩ := exists_mem_right hpairs (mem_leafRows_iff.mpr ⟨hrow, rfl, hleaf⟩)
      rwa [Except.ok.inj (hread.symm.trans hshown)]

/-! ### Documents -/

theorem Healthy.liveCount_pos_iff (healthy : tables.Healthy) (hnumber : tables.documentNumber? doc = some number) :
    0 < tables.liveCount number ↔ ∃ winner, tables.currentRevision doc = .ok (some winner) ∧ winner.deleted = false := by
  rw [← healthy.exists_live_iff, liveCount, List.countP_pos_iff]
  constructor
  · rintro ⟨row, hrow, hlive⟩
    obtain ⟨hmem, rfl, -⟩ := mem_leafRows_iff.mp hrow
    obtain ⟨rev, htext, -⟩ := healthy.legible.revisions row hmem
    exact ⟨rev, row, hnumber, hrow, htext, by simpa using hlive⟩
  · rintro ⟨rev, row, hhome, hrow, -, hlive⟩
    obtain rfl := Option.some.inj (hnumber.symm.trans hhome)
    exact ⟨row, hrow, by simpa using hlive⟩

/-- A document has a live leaf exactly if the row that is flagged in it is live. -/
theorem Healthy.exists_flagged_iff (healthy : tables.Healthy) (hnumber : tables.documentNumber? doc = some number) :
    (∃ row ∈ tables.revisions, row.document = number ∧ row.current = true ∧ row.deleted = false) ↔
      0 < tables.liveCount number := by
  rw [healthy.liveCount_pos_iff hnumber]
  constructor
  · rintro ⟨row, hrow, rfl, hcurrent, hlive⟩
    obtain ⟨rev, hreads⟩ := healthy.legible.revisions row hrow
    obtain ⟨_, -, hread⟩ := healthy.legible.readRevision_ok hreads doc
    exact ⟨_, healthy.currentRevision_of_row hnumber hrow hcurrent hread, hlive⟩
  · rintro ⟨winner, hwinner, hlive⟩
    obtain ⟨row, hrow, hhome, hcurrent, hread⟩ := currentRevision_ok_some hnumber hwinner
    obtain ⟨_, _, -, -, rfl⟩ := readRevision_ok_iff.mp hread
    exact ⟨row, hrow, hhome, hcurrent, hlive⟩

theorem Healthy.documentCount_eq (healthy : tables.Healthy) :
    tables.documentCount = (tables.documents.filter fun home => 0 < tables.liveCount home.number).length := by
  let flagged := tables.revisions.filter fun row => row.current && !row.deleted
  have hflagged : ∀ row, row ∈ flagged ↔ row ∈ tables.revisions ∧ row.current = true ∧ row.deleted = false := by
    intro row
    simp [flagged]
  have hperm : (flagged.map (·.document)).Perm
      ((tables.documents.filter fun home => 0 < tables.liveCount home.number).map (·.number)) := by
    refine (List.perm_ext_iff_of_nodup ?_ ?_).mpr fun number => ?_
    · refine (healthy.shape.nodup.filter _).map_on fun row hrow other hother heq => ?_
      obtain ⟨hmem, hcurrent, -⟩ := (hflagged row).mp hrow
      obtain ⟨hmem', hcurrent', -⟩ := (hflagged other).mp hother
      exact (healthy.crowned other.document).flag_unique healthy.shape hmem' rfl hcurrent' hmem heq hcurrent
    · exact (List.filter_sublist.map _).nodup healthy.shape.numbers
    · simp only [List.mem_map, List.mem_filter, decide_eq_true_eq, hflagged]
      constructor
      · rintro ⟨row, ⟨hrow, hcurrent, hlive⟩, rfl⟩
        obtain ⟨⟨number, doc⟩, hhome, hnumber⟩ := healthy.shape.homes row hrow
        have hfound := healthy.shape.documentNumber?_eq_some_iff.mpr hhome
        exact ⟨_, ⟨hhome, (healthy.exists_flagged_iff hfound).mp ⟨row, hrow, hnumber.symm, hcurrent, hlive⟩⟩, hnumber⟩
      · rintro ⟨home, ⟨hhome, hpositive⟩, rfl⟩
        have hfound := healthy.shape.documentNumber?_eq_some_iff.mpr hhome
        obtain ⟨row, hrow, hnumber, hcurrent, hlive⟩ := (healthy.exists_flagged_iff hfound).mpr hpositive
        exact ⟨row, ⟨hrow, hcurrent, hlive⟩, hnumber⟩
  have hlength := hperm.length_eq
  rwa [List.length_map, List.length_map, ← List.countP_eq_length_filter] at hlength

theorem Shape.conflictedIds_ascending (shape : tables.Shape) :
    tables.conflictedIds.Pairwise fun left right => Utf8.encode left < Utf8.encode right := by
  refine mergeSort_key_ascending ?_
  rw [List.map_id']
  exact (List.filter_sublist.map _).nodup shape.ids

theorem Shape.mem_conflictedIds_iff (shape : tables.Shape) :
    doc ∈ tables.conflictedIds ↔ ∃ number, tables.documentNumber? doc = some number ∧ 1 < tables.liveCount number := by
  simp only [conflictedIds, List.mem_mergeSort, List.mem_map, List.mem_filter, decide_eq_true_eq]
  constructor
  · rintro ⟨home, ⟨hhome, hmany⟩, rfl⟩
    exact ⟨home.number, shape.documentNumber?_eq_some_iff.mpr hhome, hmany⟩
  · rintro ⟨number, hnumber, hmany⟩
    exact ⟨_, ⟨shape.documentNumber?_eq_some_iff.mp hnumber, hmany⟩, rfl⟩

end Tables

/-! ### Stores -/

namespace Store

open Tables

variable {store : Store} {doc : String} {number : Int} {revision : Revision}

/-- A revision is stored just as it stands here. -/
def Holds (store : Store) (revision : Revision) : Prop :=
  store.read revision.doc (some revision.rev) = .ok revision

/-- The revisions of a document that are not the parent of a stored revision. -/
def childless (store : Store) (doc : String) : Set Revision :=
  {revision | store.Holds revision ∧ revision.doc = doc ∧ ∀ child, store.Holds child → child.parent ≠ some revision.sequence}

/-- Those of them that are not deleted. -/
def living (store : Store) (doc : String) : Set Revision :=
  {revision | revision ∈ store.childless doc ∧ revision.deleted = false}

theorem mem_childless_iff (hopen : store.closed = false) (healthy : store.writer.database.tables.Healthy) :
    revision ∈ store.childless doc ↔ store.writer.database.tables.Has revision ∧ revision.doc = doc ∧
      store.writer.database.tables.isLeaf revision.sequence = true := by
  have hholds : ∀ other, store.Holds other ↔ store.writer.database.tables.Has other := fun _ => read_iff hopen
  simp only [childless, Set.mem_ofPred_eq, hholds, healthy.isLeaf_iff_childless]

theorem living_spec (hopen : store.closed = false) (healthy : store.writer.database.tables.Healthy)
    (hnumber : store.writer.database.tables.documentNumber? doc = some number) :
    ((store.living doc).Nonempty ↔ 0 < store.writer.database.tables.liveCount number) ∧
      ((store.living doc).Nontrivial ↔ 1 < store.writer.database.tables.liveCount number) := by
  obtain ⟨revisions, -, -, hnodup, hcount, hmem⟩ := healthy.leaves_spec hnumber
  have hliving : store.living doc = {revision | revision ∈ revisions.filter fun leaf => !leaf.deleted} := by
    ext revision
    simp only [living, Set.mem_ofPred_eq, List.mem_filter, mem_childless_iff hopen healthy, hmem, Bool.not_eq_true']
  rw [hliving, hcount, List.countP_eq_length_filter]
  exact ⟨nonempty_members_iff, nontrivial_members_iff (hnodup.filter _)⟩

theorem documentNumber?_of_living (hopen : store.closed = false) (healthy : store.writer.database.tables.Healthy)
    (h : (store.living doc).Nonempty) : ∃ number, store.writer.database.tables.documentNumber? doc = some number := by
  obtain ⟨revision, hlive⟩ := h
  obtain ⟨hhas, rfl, -⟩ := (mem_childless_iff hopen healthy).mp hlive.1
  obtain ⟨row, -, hnumber, -⟩ := hhas.exists_row
  exact ⟨row.document, hnumber⟩

/-- What is asked of a stored document is answered by its live leaves, and what is asked of its leaves by the revisions that have no stored child. -/
structure Surveyed (store : Store) (doc : String) (number : Int) : Prop where
  contains : ∃ found, store.contains doc = .ok found ∧ (found = true ↔ (store.living doc).Nonempty)
  conflicted : ∃ conflicted, store.isConflicted doc = .ok conflicted ∧ (conflicted = true ↔ (store.living doc).Nontrivial)
  leaves : ∃ revisions, store.leaves doc = .ok revisions ∧
    store.writer.database.tables.leaves number = .ok (revisions.map (·.leaf)) ∧ revisions.Nodup ∧
      ∀ revision, revision ∈ revisions ↔ revision ∈ store.childless doc
  isLeaf : ∀ revision, store.Holds revision → revision.doc = doc →
    (store.writer.database.tables.isLeaf revision.sequence = true ↔ revision ∈ store.childless doc)

theorem surveyed (hopen : store.closed = false) (healthy : store.writer.database.tables.Healthy)
    (hinhabited : store.writer.database.tables.Inhabited)
    (hnumber : store.writer.database.tables.documentNumber? doc = some number) : store.Surveyed doc number := by
  obtain ⟨bone, hbone, hhome⟩ := hinhabited _ (healthy.shape.documentNumber?_eq_some_iff.mp hnumber)
  obtain ⟨row, hrow, rfl⟩ := mem_bones_iff.mp hbone
  have hrow : ∃ row ∈ store.writer.database.tables.revisions, row.document = number := ⟨row, hrow, hhome⟩
  obtain ⟨hnonempty, hnontrivial⟩ := living_spec hopen healthy hnumber
  obtain ⟨revisions, hselect, hleaves, hnodup, hcount, hmem⟩ := healthy.leaves_spec hnumber
  refine ⟨?_, ?_, ⟨revisions, ?_, hleaves, hnodup, fun revision => ?_⟩, fun revision hholds hdoc => ?_⟩
  · obtain ⟨winner, _, _, hwinner, -⟩ := healthy.currentRevision_ok hnumber hrow
    refine ⟨!winner.deleted, by rw [contains, ask_of_open hopen hwinner]; rfl, ?_⟩
    rw [hnonempty, healthy.liveCount_pos_iff hnumber, hwinner]
    simp
  · obtain ⟨found, _, hfound, -, hview⟩ := view_of_stored hopen healthy hnumber hrow
    obtain rfl := Except.ok.inj (hleaves.symm.trans hfound)
    refine ⟨_, congrArg View.conflicted hview, ?_⟩
    rw [hnontrivial, hcount, Election.isConflicted, List.countP_map, decide_eq_true_eq]
    rfl
  · refine leaves_of_ne_nil hopen hselect ?_
    rintro rfl
    obtain ⟨row, hmem, hhome⟩ := hrow
    have hnone := List.forall₂_nil_right_iff.mp (mapM_ok_iff.mp hleaves)
    exact healthy.shape.leafRows_eq_nil_iff.mp hnone row hmem hhome
  · rw [hmem, mem_childless_iff hopen healthy]
  · have hhas : store.writer.database.tables.Has revision := (read_iff hopen).mp hholds
    simp only [mem_childless_iff hopen healthy, hhas, hdoc, true_and]

/-- What the views say of all documents, told by the live leaves of each. -/
structure ViewsAgree (store : Store) : Prop where
  documents : ∀ doc number, store.writer.database.tables.documentNumber? doc = some number → store.Surveyed doc number
  count : ∃ docs : List String, store.documentCount = .ok docs.length ∧ docs.Nodup ∧
    ∀ doc, doc ∈ docs ↔ (store.living doc).Nonempty
  conflicts : ∃ ids, store.conflictedIds = .ok ids ∧
    (ids.Pairwise fun left right => Utf8.encode left < Utf8.encode right) ∧ ∀ doc, doc ∈ ids ↔ (store.living doc).Nontrivial

theorem viewsAgree (hopen : store.closed = false) (healthy : store.writer.database.tables.Healthy)
    (hinhabited : store.writer.database.tables.Inhabited) : store.ViewsAgree where
  documents := fun doc number hnumber => surveyed hopen healthy hinhabited hnumber
  count := by
    refine ⟨(store.writer.database.tables.documents.filter fun home =>
        0 < store.writer.database.tables.liveCount home.number).map (·.id), ask_of_open hopen ?_,
      (List.filter_sublist.map _).nodup healthy.shape.ids, fun doc => ?_⟩
    · rw [healthy.documentCount_eq, List.length_map]
    · simp only [List.mem_map, List.mem_filter, decide_eq_true_eq]
      constructor
      · rintro ⟨home, ⟨hhome, hpositive⟩, rfl⟩
        exact (living_spec hopen healthy (healthy.shape.documentNumber?_eq_some_iff.mpr hhome)).1.mpr hpositive
      · intro halive
        obtain ⟨number, hnumber⟩ := documentNumber?_of_living hopen healthy halive
        have hhome := healthy.shape.documentNumber?_eq_some_iff.mp hnumber
        exact ⟨_, ⟨hhome, (living_spec hopen healthy hnumber).1.mp halive⟩, rfl⟩
  conflicts := by
    refine ⟨_, ask_of_open hopen rfl, healthy.shape.conflictedIds_ascending, fun doc => ?_⟩
    rw [healthy.shape.mem_conflictedIds_iff]
    constructor
    · rintro ⟨number, hnumber, hmany⟩
      exact (living_spec hopen healthy hnumber).2.mpr hmany
    · intro hmany
      obtain ⟨number, hnumber⟩ := documentNumber?_of_living hopen healthy hmany.nonempty
      exact ⟨number, hnumber, (living_spec hopen healthy hnumber).2.mp hmany⟩

/-- The views that look at the flag of the winner agree with those that look at the leaves, amid a group too. -/
theorem Onward.views_agree {config : Config} {blobs : BlobStore} (h : (openWith config blobs).Onward store)
    (hopen : store.closed = false) :
    store.ViewsAgree ∧ ∀ inside, store.writer.Within inside → inside.database.Intact →
      ({ store with writer := inside } : Store).ViewsAgree := by
  obtain ⟨hrest, healthy, -⟩ := h.preserved rfl healthy_empty
  have hinhabited := h.inhabited
  refine ⟨viewsAgree hopen healthy hinhabited, fun inside hinside hintact => ?_⟩
  obtain ⟨healthy', hinhabited'⟩ := (hinside.follows covers_inhabited hrest).2 hintact healthy hinhabited
  exact viewsAgree hopen healthy' hinhabited'

/-- Two documents in conflict, and a third one with a single leaf, which is deleted. -/
theorem views_agree_conflicts :
    let one : RevId := ⟨1, "a", by decide, by decide⟩
    let two : RevId := ⟨1, "b", by decide, by decide⟩
    let items : List Graft := [{ doc := "é", history := [one] }, { doc := "é", history := [two] },
      { doc := "z", history := [one] }, { doc := "z", history := [two] }, { doc := "a", history := [one], deleted := true }]
    let store := stateAfter (graftAll items) (new {})
    ∃ ids, store.conflictedIds = .ok ids ∧ "z" ∈ ids ∧ "é" ∈ ids ∧ "a" ∉ ids ∧ store.documentCount = .ok 2 ∧
      ¬(store.living "a").Nonempty := by
  intro one two items store
  have hstart : (openWith {} {}).Onward store := .graftAll items .start
  obtain ⟨⟨hdocuments, -, ids, hids, -, hmembers⟩, -⟩ := hstart.views_agree (by decide +kernel)
  have hconflicted : ∀ doc number, store.writer.database.tables.documentNumber? doc = some number →
      store.isConflicted doc = .ok true → doc ∈ ids := by
    intro doc number hnumber hanswer
    obtain ⟨found, hfound, hiff⟩ := (hdocuments doc number hnumber).conflicted
    exact (hmembers doc).mpr (hiff.mp (Except.ok.inj (hfound.symm.trans hanswer)))
  have hanswers : store.documentCount = .ok 2 ∧ store.contains "a" = .ok false ∧
      store.writer.database.tables.documentNumber? "a" = some 3 := by decide +kernel
  obtain ⟨hcount, habsent, hnumber⟩ := hanswers
  have hdead : ¬(store.living "a").Nonempty := by
    obtain ⟨found, hfound, hiff⟩ := (hdocuments "a" 3 hnumber).contains
    obtain rfl := Except.ok.inj (habsent.symm.trans hfound)
    exact fun halive => Bool.false_ne_true (hiff.mpr halive)
  exact ⟨ids, hids, hconflicted "z" 2 (by decide +kernel) (by decide +kernel),
    hconflicted "é" 1 (by decide +kernel) (by decide +kernel),
    fun hmem => hdead ((hmembers "a").mp hmem).nonempty, hcount, hdead⟩

end Store

end RevisionForest
