import RevisionForest.Proofs.Merging
import RevisionForest.Proofs.Reading
import RevisionForest.Store.Batch
import Mathlib.Data.Set.Defs
/-!
# What peers agree on

Peers number their documents and revisions each in its own way, and hold different bodies of what came as a stub. What they have to agree on is the tree and what follows from it (`Store.view`): the ids of a document, the id above each, the leaves with their tombstone flags, the winner and whether there is a conflict. Two stores that mirror one tree and know the same ids of a document have the same view of it (`Store.view_eq`), since which ids are leaves is then the same, and the leaves decide the rest.
-/

namespace RevisionForest

/-- The id of the revision above another one, if there is any. -/
def Tables.parentRev? (tables : Tables) (doc : String) (rev : RevId) : Option RevId := do
  let number ← tables.documentNumber? doc
  let row ← tables.rowOf? number rev
  let above ← tables.rowAt? (← row.parent)
  RevId.parse? above.revText

/-- What a store shows of a document, without its own numbers. -/
structure View where
  revisions : RevId → Except StoreError Bool
  parent : RevId → Option RevId
  leaves : Except StoreError (Set (RevId × Bool))
  winner : Except StoreError RevId
  conflicted : Except StoreError Bool

def Store.view (store : Store) (doc : String) : View where
  revisions := store.containsRevision doc
  parent := store.writer.database.tables.parentRev? doc
  leaves := (store.leaves doc).map fun leaves => {shown | ∃ leaf ∈ leaves, (leaf.rev, leaf.deleted) = shown}
  winner := (store.read doc none).map (·.rev)
  conflicted := store.isConflicted doc

/-- Whether a view shows leaves, a winner and whether there is a conflict, as that of every document with a revision does. -/
def View.Whole (view : View) : Prop :=
  ∃ leaves winner conflicted, view.leaves = .ok leaves ∧ view.winner = .ok winner ∧ view.conflicted = .ok conflicted

namespace Tables

variable {tables tables' : Tables} {tree : Pedigree} {doc : String} {rev : RevId} {number number' : Int}
  {row : RevisionRow} {deleted : Bool}

/-! ### Ids and parents -/

theorem knows_iff_any :
    ((tables.documentNumber? doc).any fun number => (tables.sequenceOf? number rev).isSome) = true ↔
      tables.Knows doc rev := by
  cases hnumber : tables.documentNumber? doc with
  | none => simp [Knows, hnumber]
  | some number => simp [Knows, hnumber, stores_iff]

theorem knows_iff_of_number (hnumber : tables.documentNumber? doc = some number) :
    tables.Knows doc rev ↔ (tables.sequenceOf? number rev).isSome = true := by
  rw [← knows_iff_any, hnumber, Option.any_some]

instance (tables : Tables) (doc : String) (rev : RevId) : Decidable (tables.Knows doc rev) :=
  decidable_of_iff _ knows_iff_any

theorem knows_of_row (legible : tables.Legible) (hnumber : tables.documentNumber? doc = some number)
    (hrow : row ∈ tables.revisions) (hdocument : row.document = number) :
    ∃ rev, row.Reads rev ∧ tables.Knows doc rev := by
  obtain ⟨rev, hreads⟩ := legible.revisions row hrow
  exact ⟨rev, hreads, number, hnumber, row.bare, mem_bones_iff.mpr ⟨row, hrow, rfl⟩, hdocument, hreads.1⟩

theorem Shows.inhabited (h : tables.Shows tree doc) (hnumber : tables.documentNumber? doc = some number) :
    ∃ row ∈ tables.revisions, row.document = number := by
  obtain ⟨-, bone, hbone, hdocument⟩ := h number hnumber
  obtain ⟨row, hrow, rfl⟩ := mem_bones_iff.mp hbone
  exact ⟨row, hrow, hdocument⟩

theorem Shows.known_of_number (h : tables.Shows tree doc) (legible : tables.Legible)
    (hnumber : tables.documentNumber? doc = some number) : ∃ rev, tables.Knows doc rev := by
  obtain ⟨row, hrow, hdocument⟩ := h.inhabited hnumber
  obtain ⟨rev, -, hknows⟩ := knows_of_row legible hnumber hrow hdocument
  exact ⟨rev, hknows⟩

theorem Shows.documentNumber?_eq_none (h : tables'.Shows tree doc) (legible : tables'.Legible)
    (hnone : tables.documentNumber? doc = none) (hknows : ∀ rev, tables'.Knows doc rev → tables.Knows doc rev) :
    tables'.documentNumber? doc = none := by
  cases hnumber : tables'.documentNumber? doc with
  | none => rfl
  | some number =>
    obtain ⟨rev, hknown⟩ := h.known_of_number legible hnumber
    obtain ⟨found, hfound, -⟩ := hknows rev hknown
    rw [hnone] at hfound
    nomatch hfound

theorem Shape.parentRev?_eq (shape : tables.Shape) (hnumber : tables.documentNumber? doc = some number)
    (hrow : row ∈ tables.revisions) (hdocument : row.document = number) (htext : row.revText = rev.text) :
    tables.parentRev? doc rev
      = row.parent.bind fun parent => (tables.rowAt? parent).bind fun above => RevId.parse? above.revText := by
  have hfound : tables.rowOf? number rev = some row := shape.rowOf?_eq_some_iff.mpr ⟨hrow, hdocument, htext⟩
  simp only [parentRev?, hnumber, Option.bind_eq_bind, Option.bind_some, hfound]

theorem Shows.parentRev?_eq (h : tables.Shows tree doc) (shape : tables.Shape) (legible : tables.Legible)
    (hknows : tables.Knows doc rev) : tables.parentRev? doc rev = tree.parent rev := by
  obtain ⟨number, hnumber, bone, hbone, hdocument, htext⟩ := hknows
  obtain ⟨row, hrow, rfl⟩ := mem_bones_iff.mp hbone
  rw [shape.parentRev?_eq hnumber hrow hdocument htext]
  rcases (h number hnumber).1.parents row.bare hbone hdocument rev htext with
    ⟨hroot, hnone⟩ | ⟨older, sequence, habove, hsome, hstored⟩
  · have hparent : row.parent = none := hnone
    rw [hparent, hroot]
    rfl
  · have hparent : row.parent = some sequence := hsome
    obtain ⟨above, hmem, -, htext, hsequence⟩ := shape.sequenceOf?_eq_some_iff.mp hstored
    have hat : tables.rowAt? sequence = some above := shape.rowAt?_eq_some_iff.mpr ⟨hmem, hsequence⟩
    have hreads := legible.reads hmem htext
    rw [hparent, Option.bind_some, hat, Option.bind_some, htext, RevId.parse?_text older hreads.2, habove]

theorem parentRev?_eq_none (hknows : ¬tables.Knows doc rev) : tables.parentRev? doc rev = none := by
  unfold parentRev?
  cases hnumber : tables.documentNumber? doc with
  | none => rfl
  | some number =>
    cases hrow : tables.rowOf? number rev with
    | none =>
      simp only [Option.bind_eq_bind, Option.bind_some, hrow]
      rfl
    | some row =>
      refine absurd ⟨number, hnumber, stores_iff.mpr ?_⟩ hknows
      rw [sequenceOf?, hrow]
      rfl

theorem Shows.parentRev?_congr (h : tables.Shows tree doc) (h' : tables'.Shows tree doc) (healthy : tables.Healthy)
    (healthy' : tables'.Healthy) (hknows : ∀ rev, tables.Knows doc rev ↔ tables'.Knows doc rev) :
    tables.parentRev? doc = tables'.parentRev? doc := by
  funext rev
  by_cases hknown : tables.Knows doc rev
  · rw [h.parentRev?_eq healthy.shape healthy.legible hknown,
      h'.parentRev?_eq healthy'.shape healthy'.legible ((hknows rev).mp hknown)]
  · rw [parentRev?_eq_none hknown, parentRev?_eq_none fun hknown' => hknown ((hknows rev).mpr hknown')]

/-! ### Leaves -/

theorem Mirrors.parent_iff {bone : RevisionRow} {child : RevId} (h : tables.Mirrors tree number) (shape : tables.Shape)
    (hbone : bone ∈ tables.bones) (hhome : bone.document = number) (hname : bone.revText = child.text)
    (hrow : row ∈ tables.revisions) (hdocument : row.document = number) (htext : row.revText = rev.text) :
    bone.parent = some row.sequence ↔ tree.parent child = some rev := by
  rcases h.parents bone hbone hhome child hname with ⟨hroot, hnone⟩ | ⟨older, sequence, habove, hsome, hstored⟩
  · rw [hroot, hnone]
    exact iff_of_false (by simp) (by simp)
  · rw [habove, hsome]
    constructor
    · intro heq
      obtain rfl := Option.some.inj heq
      obtain ⟨stored, hmem, -, hread, hsequence⟩ := shape.sequenceOf?_eq_some_iff.mp hstored
      obtain rfl := shape.eq_of_sequence hmem hrow hsequence
      rw [RevId.text_injective (hread.symm.trans htext)]
    · intro heq
      obtain rfl := Option.some.inj heq
      have hat : tables.sequenceOf? number older = some row.sequence :=
        shape.sequenceOf?_eq_some_iff.mpr ⟨row, hrow, hdocument, htext, rfl⟩
      exact hstored.symm.trans hat

/-- A leaf is an id without a known child, and it is a tombstone if the tree says so. -/
theorem Shows.leafRow_iff (h : tables.Shows tree doc) (healthy : tables.Healthy)
    (hnumber : tables.documentNumber? doc = some number) :
    (∃ row ∈ tables.leafRows number, row.revText = rev.text ∧ row.deleted = deleted) ↔
      tables.Knows doc rev ∧ (∀ child, tables.Knows doc child → tree.parent child ≠ some rev) ∧
        tree.deleted rev = deleted := by
  obtain ⟨hmirror, -⟩ := h number hnumber
  have hflag : ∀ row ∈ tables.revisions, row.document = number → row.revText = rev.text →
      tables.isLeaf row.sequence = true → row.deleted = tree.deleted rev := by
    intro row hrow hdocument htext hleaf
    rcases hmirror.flags row.bare (mem_bones_iff.mpr ⟨row, hrow, rfl⟩) hdocument rev htext with hflag | hparented
    · exact hflag
    · rw [show tables.isLeaf row.sequence = false from hparented] at hleaf
      nomatch hleaf
  have hchild : ∀ row ∈ tables.revisions, row.document = number → row.revText = rev.text →
      (tables.isLeaf row.sequence = true ↔ ∀ child, tables.Knows doc child → tree.parent child ≠ some rev) := by
    intro row hrow hdocument htext
    rw [isLeaf_iff]
    constructor
    · rintro hleaf child ⟨found, hfound, bone, hbone, hhome, hname⟩ habove
      rw [hnumber] at hfound
      obtain rfl := Option.some.inj hfound
      obtain ⟨below, hbelow, rfl⟩ := mem_bones_iff.mp hbone
      exact hleaf below hbelow ((hmirror.parent_iff healthy.shape hbone hhome hname hrow hdocument htext).mpr habove)
    · intro hchildless below hbelow hparent
      obtain ⟨-, above, habove, hsequence, hhome⟩ := healthy.shape.parents below hbelow _ hparent
      obtain rfl := healthy.shape.eq_of_sequence habove hrow hsequence
      obtain ⟨child, hreads, hknows⟩ := knows_of_row healthy.legible hnumber hbelow (hhome.symm.trans hdocument)
      have hbone : below.bare ∈ tables.bones := mem_bones_iff.mpr ⟨below, hbelow, rfl⟩
      exact hchildless child hknows ((hmirror.parent_iff healthy.shape hbone (hhome.symm.trans hdocument) hreads.1 hrow
        hdocument htext).mp hparent)
  constructor
  · rintro ⟨row, hrow, htext, rfl⟩
    obtain ⟨hmem, hdocument, hleaf⟩ := mem_leafRows_iff.mp hrow
    refine ⟨⟨number, hnumber, row.bare, mem_bones_iff.mpr ⟨row, hmem, rfl⟩, hdocument, htext⟩, ?_, ?_⟩
    · exact (hchild row hmem hdocument htext).mp hleaf
    · exact (hflag row hmem hdocument htext hleaf).symm
  · rintro ⟨⟨found, hfound, bone, hbone, hdocument, htext⟩, hchildless, rfl⟩
    rw [hnumber] at hfound
    obtain rfl := Option.some.inj hfound
    obtain ⟨row, hrow, rfl⟩ := mem_bones_iff.mp hbone
    have hleaf := (hchild row hrow hdocument htext).mpr hchildless
    exact ⟨row, mem_leafRows_iff.mpr ⟨hrow, hdocument, hleaf⟩, htext, hflag row hrow hdocument htext hleaf⟩

theorem Legible.mem_leaves_iff (legible : tables.Legible) {leaves : List Leaf} (h : tables.leaves number = .ok leaves) :
    (∃ leaf ∈ leaves, (leaf.rev, leaf.deleted) = (rev, deleted)) ↔
      ∃ row ∈ tables.leafRows number, row.revText = rev.text ∧ row.deleted = deleted := by
  constructor
  · rintro ⟨leaf, hleaf, heq⟩
    obtain ⟨row, hrow, hread⟩ := (Tables.mem_leaves_iff h).mp hleaf
    obtain ⟨found, hreads⟩ := legible.revisions row (mem_leafRows_iff.mp hrow).1
    rw [readLeaf_of_reads hreads] at hread
    obtain rfl := Except.ok.inj hread
    obtain ⟨rfl, rfl⟩ := Prod.mk.inj heq
    exact ⟨row, hrow, hreads.1, rfl⟩
  · rintro ⟨row, hrow, htext, rfl⟩
    obtain ⟨found, hreads⟩ := legible.revisions row (mem_leafRows_iff.mp hrow).1
    obtain rfl := RevId.text_injective (htext.symm.trans hreads.1)
    exact ⟨_, (Tables.mem_leaves_iff h).mpr ⟨row, hrow, readLeaf_of_reads hreads⟩, rfl⟩

theorem Legible.mem_revisions_iff (legible : tables.Legible) {revisions : List Revision}
    (h : List.Forall₂ (fun row revision => tables.readRevision doc row = .ok revision) (tables.leafRows number) revisions) :
    (∃ revision ∈ revisions, (revision.rev, revision.deleted) = (rev, deleted)) ↔
      ∃ row ∈ tables.leafRows number, row.revText = rev.text ∧ row.deleted = deleted := by
  have hread : ∀ row ∈ tables.leafRows number, ∀ revision, tables.readRevision doc row = .ok revision →
      row.revText = revision.rev.text ∧ row.deleted = revision.deleted := by
    intro row hrow revision hrevision
    have hreads := legible.reads_of_readRevision (mem_leafRows_iff.mp hrow).1 hrevision
    obtain ⟨_, _, -, -, rfl⟩ := readRevision_ok_iff.mp hrevision
    exact ⟨hreads.1, rfl⟩
  constructor
  · rintro ⟨revision, hrevision, heq⟩
    obtain ⟨row, hrow, hsame⟩ := exists_mem_left h hrevision
    obtain ⟨rfl, rfl⟩ := Prod.mk.inj heq
    exact ⟨row, hrow, hread row hrow revision hsame⟩
  · rintro ⟨row, hrow, htext, rfl⟩
    obtain ⟨revision, hrevision, hsame⟩ := exists_mem_right h hrow
    obtain ⟨hname, hdeleted⟩ := hread row hrow revision hsame
    exact ⟨revision, hrevision, Prod.ext (RevId.text_injective (hname.symm.trans htext)) hdeleted.symm⟩

theorem Healthy.nodup_shown (healthy : tables.Healthy) {leaves : List Leaf} (h : tables.leaves number = .ok leaves) :
    (leaves.map fun leaf => (leaf.rev, leaf.deleted)).Nodup := by
  apply (healthy.shape.nodup_leaves h).map_on
  intro leaf hleaf other hother heq
  exact healthy.shape.leaf_unique healthy.legible h hleaf hother (congrArg Prod.fst heq)

end Tables

namespace Election

variable {leaves leaves' : List Leaf}

theorem isConflicted_eq (hnodup : (leaves.map fun leaf => (leaf.rev, leaf.deleted)).Nodup)
    (hnodup' : (leaves'.map fun leaf => (leaf.rev, leaf.deleted)).Nodup)
    (hsame : ∀ shown, (∃ leaf ∈ leaves, (leaf.rev, leaf.deleted) = shown) ↔
      ∃ leaf ∈ leaves', (leaf.rev, leaf.deleted) = shown) : isConflicted leaves = isConflicted leaves' := by
  have hperm : (leaves.map fun leaf => (leaf.rev, leaf.deleted)).Perm
      (leaves'.map fun leaf => (leaf.rev, leaf.deleted)) := by
    apply (List.perm_ext_iff_of_nodup hnodup hnodup').mpr
    intro shown
    simp only [List.mem_map]
    exact hsame shown
  have hcount : ∀ list : List Leaf, (list.countP fun leaf => !leaf.deleted)
      = (list.map fun leaf => (leaf.rev, leaf.deleted)).countP fun shown => !shown.2 := by
    intro list
    rw [List.countP_map]
    rfl
  simp only [isConflicted, hcount]
  rw [hperm.countP_eq]

end Election

namespace Store

open Tables

variable {store store' : Store} {tree : Pedigree} {doc : String}

theorem ask_of_open {α : Type} {value : α} {question : Tables → Query α} (hopen : store.closed = false)
    (h : question store.writer.database.tables = .ok value) : store.ask question = .ok value := by
  simp [ask, hopen, h, Except.mapError]

theorem ask_expect_iff {α : Type} {value : α} {question : Tables → Query (Option α)} {missing : Missing}
    (hopen : store.closed = false) :
    (do expect (← store.ask question) missing) = .ok value ↔ question store.writer.database.tables = .ok (some value) := by
  simp only [ask, hopen, Bool.false_eq_true, ↓reduceIte]
  rcases question store.writer.database.tables with error | _ | found <;>
    simp [Except.mapError, expect, bind, Except.bind]

theorem read_iff {revision : Revision} (hopen : store.closed = false) :
    store.read doc (some rev) = .ok revision ↔ store.writer.database.tables.getRevision doc rev = .ok (some revision) :=
  ask_expect_iff hopen

theorem read_winner_iff {revision : Revision} (hopen : store.closed = false) :
    store.read doc none = .ok revision ↔ store.writer.database.tables.currentRevision doc = .ok (some revision) :=
  ask_expect_iff hopen

theorem read_of_row {row : RevisionRow} {number : Int} {revision : Revision} (hopen : store.closed = false)
    (healthy : store.writer.database.tables.Healthy)
    (hnumber : store.writer.database.tables.documentNumber? doc = some number)
    (hrow : row ∈ store.writer.database.tables.revisions) (hdocument : row.document = number) (htext : row.revText = rev.text)
    (hread : store.writer.database.tables.readRevision doc row = .ok revision) :
    store.read doc (some rev) = .ok revision := by
  subst hdocument
  exact (read_iff hopen).mpr (healthy.getRevision_of_row hnumber hrow htext hread)

theorem attachments_of_row {row : RevisionRow} {number : Int} {attachments : List Attachment}
    (hopen : store.closed = false) (healthy : store.writer.database.tables.Healthy)
    (hnumber : store.writer.database.tables.documentNumber? doc = some number)
    (hrow : row ∈ store.writer.database.tables.revisions) (hdocument : row.document = number) (htext : row.revText = rev.text)
    (hattachments : store.writer.database.tables.attachmentsFor row.sequence = .ok attachments) :
    store.attachments doc rev = .ok attachments := by
  obtain ⟨found, hfound, hread⟩ := healthy.legible.readRevision_ok (healthy.legible.reads hrow htext) doc
  obtain rfl := Except.ok.inj (hattachments.symm.trans hfound)
  rw [Store.attachments, read_of_row hopen healthy hnumber hrow hdocument htext hread]
  rfl

theorem leaves_of_absent (hopen : store.closed = false)
    (hnone : store.writer.database.tables.documentNumber? doc = none) :
    store.leaves doc = .error (.notFound (.document doc)) := by
  have hleaves : store.ask (·.leafRevisions doc) = .ok [] := ask_of_open hopen (by rw [leafRevisions, select, hnone])
  rw [Store.leaves, hleaves]
  rfl

theorem containsRevision_of_absent (hopen : store.closed = false)
    (hnone : store.writer.database.tables.documentNumber? doc = none) (rev : RevId) :
    store.containsRevision doc rev = .ok false :=
  ask_of_open hopen (by rw [hnone]; rfl)

theorem view_of_absent (hopen : store.closed = false) (hnone : store.writer.database.tables.documentNumber? doc = none) :
    store.view doc = ⟨fun _ => .ok false, fun _ => none, .error (.notFound (.document doc)),
      .error (.notFound (.document doc)), .error (.notFound (.document doc))⟩ := by
  have hselect : ∀ condition, store.writer.database.tables.select doc condition = .ok [] := by
    intro condition
    rw [select, hnone]
  have hcontains : store.containsRevision doc = fun _ => .ok false :=
    funext (containsRevision_of_absent hopen hnone)
  have hparent : store.writer.database.tables.parentRev? doc = fun _ => none := by
    funext rev
    rw [parentRev?, hnone]
    rfl
  have hcurrent : store.ask (·.currentRevision doc) = .ok none := by
    apply ask_of_open hopen
    rw [currentRevision, hselect]
    rfl
  have hnumber : store.ask (fun tables => .ok (tables.documentNumber? doc)) = .ok none :=
    ask_of_open hopen (by rw [hnone])
  simp only [view, hcontains, hparent, leaves_of_absent hopen hnone, read, hcurrent, isConflicted, hnumber]
  rfl

theorem leaves_of_ne_nil {revisions : List Revision} (hopen : store.closed = false)
    (hleaves : store.writer.database.tables.leafRevisions doc = .ok revisions) (hne : revisions ≠ []) :
    store.leaves doc = .ok revisions := by
  have hfound : store.ask (·.leafRevisions doc) = .ok revisions := ask_of_open hopen hleaves
  simp only [Store.leaves, hfound]
  cases revisions with
  | nil => exact absurd rfl hne
  | cons first rest => rfl

theorem leaves_ok {number : Int} (hopen : store.closed = false) (healthy : store.writer.database.tables.Healthy)
    (hnumber : store.writer.database.tables.documentNumber? doc = some number)
    (hrow : ∃ row ∈ store.writer.database.tables.revisions, row.document = number) :
    ∃ revisions, store.leaves doc = .ok revisions ∧
      List.Forall₂ (fun row revision => store.writer.database.tables.readRevision doc row = .ok revision)
        (store.writer.database.tables.leafRows number) revisions := by
  obtain ⟨revisions, hselect, hpairs⟩ :=
    healthy.select_ok hnumber fun row => store.writer.database.tables.isLeaf row.sequence
  refine ⟨revisions, leaves_of_ne_nil hopen hselect ?_, hpairs⟩
  rintro rfl
  obtain ⟨row, hmem, hdocument⟩ := hrow
  have hnone : store.writer.database.tables.leafRows number = [] := List.forall₂_nil_right_iff.mp hpairs
  exact healthy.shape.leafRows_eq_nil_iff.mp hnone row hmem hdocument

theorem view_of_stored {number : Int} (hopen : store.closed = false) (healthy : store.writer.database.tables.Healthy)
    (hnumber : store.writer.database.tables.documentNumber? doc = some number)
    (hrow : ∃ row ∈ store.writer.database.tables.revisions, row.document = number) :
    ∃ leaves winner, store.writer.database.tables.leaves number = .ok leaves ∧ Election.winner? leaves = some winner ∧
      store.view doc = ⟨store.containsRevision doc, store.writer.database.tables.parentRev? doc,
        .ok {shown | ∃ leaf ∈ leaves, (leaf.rev, leaf.deleted) = shown}, .ok winner.rev,
        .ok (Election.isConflicted leaves)⟩ := by
  obtain ⟨revision, leaves, winner, hcurrent, -, hleaves, hwinner, hrev⟩ := healthy.currentRevision_ok hnumber hrow
  obtain ⟨revisions, hall, hpairs⟩ := leaves_ok hopen healthy hnumber hrow
  refine ⟨leaves, winner, hleaves, hwinner, ?_⟩
  have hread : store.read doc none = .ok revision := by
    have hfound : store.ask (·.currentRevision doc) = .ok (some revision) := ask_of_open hopen hcurrent
    simp only [read, hfound]
    rfl
  have hconflicted : store.isConflicted doc = .ok (Election.isConflicted leaves) := by
    have hfound : store.ask (fun tables => .ok (tables.documentNumber? doc)) = .ok (some number) :=
      ask_of_open hopen (by rw [hnumber])
    simp only [isConflicted, hfound]
    have hlist : store.ask (·.leaves number) = .ok leaves := ask_of_open hopen hleaves
    show (do return Election.isConflicted (← store.ask (·.leaves number))) = _
    rw [hlist]
    rfl
  have hset : {shown | ∃ leaf ∈ revisions, (leaf.rev, leaf.deleted) = shown}
      = {shown | ∃ leaf ∈ leaves, (leaf.rev, leaf.deleted) = shown} := by
    ext ⟨rev, deleted⟩
    exact (healthy.legible.mem_revisions_iff hpairs).trans (healthy.legible.mem_leaves_iff hleaves).symm
  simp only [view, hread, hconflicted, hall, Except.map, hset, hrev]

theorem view_whole {rev : RevId} (hopen : store.closed = false) (healthy : store.writer.database.tables.Healthy)
    (hknows : store.writer.database.tables.Knows doc rev) : (store.view doc).Whole := by
  obtain ⟨number, hnumber, bone, hbone, hdocument, -⟩ := hknows
  obtain ⟨row, hrow, rfl⟩ := mem_bones_iff.mp hbone
  obtain ⟨leaves, winner, -, -, hview⟩ := view_of_stored hopen healthy hnumber ⟨row, hrow, hdocument⟩
  rw [hview]
  exact ⟨_, _, _, rfl, rfl, rfl⟩

theorem containsRevision_eq (hopen : store.closed = false) (doc : String) (rev : RevId) :
    ∃ known, store.containsRevision doc rev = .ok known ∧
      (known = true ↔ store.writer.database.tables.Knows doc rev) :=
  ⟨_, ask_of_open hopen rfl, knows_iff_any⟩

theorem containsRevision_congr (hopen : store.closed = false) (hopen' : store'.closed = false)
    (hknows : ∀ rev, store.writer.database.tables.Knows doc rev ↔ store'.writer.database.tables.Knows doc rev) :
    store.containsRevision doc = store'.containsRevision doc := by
  funext rev
  obtain ⟨known, hanswer, hiff⟩ := containsRevision_eq hopen doc rev
  obtain ⟨known', hanswer', hiff'⟩ := containsRevision_eq hopen' doc rev
  rw [hanswer, hanswer', Bool.eq_iff_iff.mpr (hiff.trans ((hknows rev).trans hiff'.symm))]

/-- Stores that mirror one tree and know the same ids of a document show the same of it. -/
theorem view_eq (hopen : store.closed = false) (hopen' : store'.closed = false)
    (healthy : store.writer.database.tables.Healthy) (healthy' : store'.writer.database.tables.Healthy)
    (hshows : store.writer.database.tables.Shows tree doc) (hshows' : store'.writer.database.tables.Shows tree doc)
    (hknows : ∀ rev, store.writer.database.tables.Knows doc rev ↔ store'.writer.database.tables.Knows doc rev) :
    store.view doc = store'.view doc := by
  cases hnumber : store.writer.database.tables.documentNumber? doc with
  | none =>
    have hnone := hshows'.documentNumber?_eq_none healthy'.legible hnumber fun rev hknown => (hknows rev).mpr hknown
    rw [view_of_absent hopen hnumber, view_of_absent hopen' hnone]
  | some number =>
    obtain ⟨rev, hknown⟩ := hshows.known_of_number healthy.legible hnumber
    obtain ⟨number', hnumber', -⟩ := (hknows rev).mp hknown
    obtain ⟨leaves, winner, hleaves, hwinner, hview⟩ :=
      view_of_stored hopen healthy hnumber (hshows.inhabited hnumber)
    obtain ⟨leaves', winner', hleaves', hwinner', hview'⟩ :=
      view_of_stored hopen' healthy' hnumber' (hshows'.inhabited hnumber')
    have hsame : ∀ shown, (∃ leaf ∈ leaves, (leaf.rev, leaf.deleted) = shown) ↔
        ∃ leaf ∈ leaves', (leaf.rev, leaf.deleted) = shown := by
      rintro ⟨rev, deleted⟩
      rw [healthy.legible.mem_leaves_iff hleaves, hshows.leafRow_iff healthy hnumber,
        healthy'.legible.mem_leaves_iff hleaves', hshows'.leafRow_iff healthy' hnumber']
      simp only [hknows]
    have hcontains := containsRevision_congr hopen hopen' hknows
    have hparent := hshows.parentRev?_congr hshows' healthy healthy' hknows
    have helected : winner.rev = winner'.rev := (Election.winner?_rev_eq hsame hwinner hwinner').2
    have hconflicted := Election.isConflicted_eq (healthy.nodup_shown hleaves) (healthy'.nodup_shown hleaves') hsame
    have hset : {shown | ∃ leaf ∈ leaves, (leaf.rev, leaf.deleted) = shown}
        = {shown | ∃ leaf ∈ leaves', (leaf.rev, leaf.deleted) = shown} := Set.ext hsame
    rw [hview, hview', hcontains, hparent, helected, hconflicted, hset]

end Store

end RevisionForest
