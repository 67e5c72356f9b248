import RevisionForest.Proofs.Growth
/-!
# Healthy tables can be read

Every query on healthy tables succeeds, and what it answers is what the rows hold. The revision that is flagged is the elected leaf, there is one in every document that has a revision, and no row but this one is flagged (`Healthy.flagged`).
-/

namespace RevisionForest

/-- What makes a revision a winner, in brief. -/
def Revision.winner (revision : Revision) : Winner :=
  ⟨revision.rev, revision.sequence, revision.deleted⟩

namespace Tables

variable {tables : Tables} {doc : String} {rev : RevId} {number sequence document : Int}

/-- A document without rows has no flag, and any other has one, on the elected leaf. -/
theorem Healthy.flagged (healthy : tables.Healthy) (document : Int) :
    ((∀ row ∈ tables.revisions, row.document ≠ document) ∧
        (tables.revisions.filter fun row => row.document = document && row.current) = []) ∨
      ∃ row leaves winner, (tables.revisions.filter fun row => row.document = document && row.current) = [row] ∧
        row ∈ tables.leafRows document ∧ tables.leaves document = .ok leaves ∧
        Election.winner? leaves = some winner ∧ readLeaf row = .ok winner := by
  obtain ⟨leaves, hleaves, hflags⟩ := healthy.crowned document
  cases hwinner : Election.winner? leaves with
  | none =>
    have hnone : ∀ row ∈ tables.revisions, row.document ≠ document := by
      apply healthy.shape.leafRows_eq_nil_iff.mp
      have hpairs := mapM_ok_iff.mp hleaves
      rw [Election.winner?_eq_none.mp hwinner] at hpairs
      exact List.forall₂_nil_right_iff.mp hpairs
    refine .inl ⟨hnone, List.filter_eq_nil_iff.mpr fun row hrow htest => ?_⟩
    simp only [Bool.and_eq_true, decide_eq_true_eq] at htest
    exact hnone row hrow htest.1
  | some winner =>
    obtain ⟨row, hrow, hread⟩ := exists_row_of_winner hleaves hwinner
    obtain ⟨hmem, hdocument, -⟩ := mem_leafRows_iff.mp hrow
    refine .inr ⟨row, leaves, winner, ?_, hrow, hleaves, hwinner, hread⟩
    have hsequence : row.sequence = winner.sequence := (readLeaf_ok_iff.mp hread).2.1
    refine List.perm_singleton.mp ((List.perm_ext_iff_of_nodup (healthy.shape.nodup.filter _)
      (List.nodup_singleton row)).mpr fun other => ?_)
    simp only [List.mem_filter, Bool.and_eq_true, decide_eq_true_eq, List.mem_singleton]
    constructor
    · rintro ⟨hother, hhome, hcurrent⟩
      have hflag := (hflags other hother hhome).mp hcurrent
      rw [hwinner, Option.map_some, Option.some.injEq] at hflag
      exact healthy.shape.eq_of_sequence hother hmem (hflag.symm.trans hsequence.symm)
    · rintro rfl
      exact ⟨hmem, hdocument, (hflags other hmem hdocument).mpr (by rw [hwinner, Option.map_some, hsequence])⟩

theorem Healthy.exists_winner (healthy : tables.Healthy) {row : RevisionRow} (hrow : row ∈ tables.revisions) :
    ∃ winner : Winner, tables.currentWinner row.document = .ok (some winner) ∧ tables.isLeaf winner.sequence = true := by
  obtain ⟨leaves, hleaves, hcurrent⟩ := (healthy.crowned row.document).currentWinner healthy.shape
  rcases healthy.flagged row.document with ⟨hnone, -⟩ | ⟨elected, found, leaf, -, hleaf, hfound, hwinner, hread⟩
  · exact absurd rfl (hnone row hrow)
  · rw [hleaves] at hfound
    rw [Except.ok.inj hfound, hwinner] at hcurrent
    refine ⟨leaf.winner, hcurrent, ?_⟩
    have hsequence : elected.sequence = leaf.winner.sequence := (readLeaf_ok_iff.mp hread).2.1
    rw [← hsequence]
    exact (mem_leafRows_iff.mp hleaf).2.2

/-! ### Selections -/

theorem Healthy.select_ok (healthy : tables.Healthy) (hnumber : tables.documentNumber? doc = some number)
    (condition : RevisionRow → Bool) :
    ∃ revisions, tables.select doc condition = .ok revisions ∧
      List.Forall₂ (fun row revision => tables.readRevision doc row = .ok revision)
        (tables.revisions.filter fun row => row.document = number && condition row) revisions := by
  have hreadable : ∀ row ∈ tables.revisions.filter fun row => row.document = number && condition row,
      ∃ revision, tables.readRevision doc row = .ok revision := by
    intro row hrow
    obtain ⟨rev, hreads⟩ := healthy.legible.revisions row (List.mem_of_mem_filter hrow)
    obtain ⟨_, -, hread⟩ := healthy.legible.readRevision_ok hreads doc
    exact ⟨_, hread⟩
  obtain ⟨revisions, hrevisions⟩ := mapM_ok_of_forall hreadable
  refine ⟨revisions, ?_, mapM_ok_iff.mp hrevisions⟩
  rw [select, hnumber]
  exact hrevisions

theorem Healthy.getRevision_ok (healthy : tables.Healthy) (hnumber : tables.documentNumber? doc = some number)
    (hsequence : tables.sequenceOf? number rev = some sequence) :
    ∃ revision, tables.getRevision doc rev = .ok (some revision) ∧ revision.sequence = sequence := by
  obtain ⟨row, hrow, hdocument, htext, rfl⟩ := healthy.shape.sequenceOf?_eq_some_iff.mp hsequence
  obtain ⟨revisions, hselect, hpairs⟩ := healthy.select_ok hnumber fun row => row.revText = rev.text
  obtain ⟨first, hfirst, -⟩ := exists_mem_right hpairs (List.mem_filter.mpr ⟨hrow, by simp [hdocument, htext]⟩)
  cases revisions with
  | nil => exact absurd hfirst List.not_mem_nil
  | cons revision rest =>
    have hget : tables.getRevision doc rev = .ok (some revision) := by
      simp only [getRevision, hselect]
      rfl
    obtain ⟨found, hfound, hhome, hsame, hread⟩ := getRevision_ok_some hnumber hget
    obtain ⟨_, _, _, _, rfl⟩ := readRevision_ok_iff.mp hread
    obtain rfl := healthy.shape.eq_of_revText hrow hfound (hdocument.trans hhome.symm) (htext.trans hsame.symm)
    exact ⟨_, hget, rfl⟩

theorem Healthy.getRevision_of_row {row : RevisionRow} {revision : Revision} (healthy : tables.Healthy)
    (hnumber : tables.documentNumber? doc = some row.document) (hrow : row ∈ tables.revisions)
    (htext : row.revText = rev.text) (hread : tables.readRevision doc row = .ok revision) :
    tables.getRevision doc rev = .ok (some revision) := by
  obtain ⟨answered, hget, -⟩ :=
    healthy.getRevision_ok hnumber (healthy.shape.sequenceOf?_eq_some_iff.mpr ⟨row, hrow, rfl, htext, rfl⟩)
  obtain ⟨found, hfound, hhome, hsame, hanswer⟩ := getRevision_ok_some hnumber hget
  obtain rfl := healthy.shape.eq_of_revText hrow hfound hhome.symm (htext.trans hsame.symm)
  rw [hget, Except.ok.inj (hread.symm.trans hanswer)]

theorem currentRevision_ok_some {revision : Revision} (hnumber : tables.documentNumber? doc = some number)
    (h : tables.currentRevision doc = .ok (some revision)) :
    ∃ row ∈ tables.revisions, row.document = number ∧ row.current = true ∧ tables.readRevision doc row = .ok revision := by
  obtain ⟨revisions, hselect, hhead⟩ := except_bind_ok_iff.mp h
  have hfirst : revision ∈ revisions := List.mem_of_head? (Except.ok.inj hhead)
  obtain ⟨row, hrow, hread⟩ := exists_mem_left (select_ok hnumber hselect) hfirst
  simp only [List.mem_filter, Bool.and_eq_true, decide_eq_true_eq] at hrow
  exact ⟨row, hrow.1, hrow.2.1, hrow.2.2, hread⟩

theorem Healthy.currentRevision_of_row {row : RevisionRow} {revision : Revision} (healthy : tables.Healthy)
    (hnumber : tables.documentNumber? doc = some row.document) (hrow : row ∈ tables.revisions)
    (hcurrent : row.current = true) (hread : tables.readRevision doc row = .ok revision) :
    tables.currentRevision doc = .ok (some revision) := by
  obtain ⟨revisions, hselect, hpairs⟩ := healthy.select_ok hnumber fun row => row.current
  rcases healthy.flagged row.document with ⟨hnone, -⟩ | ⟨elected, _, _, hflagged, -⟩
  · exact absurd rfl (hnone row hrow)
  have hmem : row ∈ tables.revisions.filter fun other => other.document = row.document && other.current :=
    List.mem_filter.mpr ⟨hrow, by simp [hcurrent]⟩
  rw [hflagged] at hmem hpairs
  obtain rfl := List.mem_singleton.mp hmem
  obtain ⟨shown, rest, hshown, -, rfl⟩ := List.forall₂_cons_left_iff.mp hpairs
  simp only [currentRevision, hselect, Except.ok.inj (hread.symm.trans hshown)]
  rfl

theorem Healthy.currentRevision_ok (healthy : tables.Healthy) (hnumber : tables.documentNumber? doc = some number)
    (hrow : ∃ row ∈ tables.revisions, row.document = number) :
    ∃ revision leaves winner, tables.currentRevision doc = .ok (some revision) ∧ revision.doc = doc ∧
      tables.leaves number = .ok leaves ∧ Election.winner? leaves = some winner ∧ revision.rev = winner.rev := by
  obtain ⟨revisions, hselect, hpairs⟩ := healthy.select_ok hnumber fun row => row.current
  rcases healthy.flagged number with ⟨hnone, -⟩ | ⟨elected, leaves, winner, hflagged, -, hleaves, hwinner, hread⟩
  · obtain ⟨row, hmem, hdocument⟩ := hrow
    exact absurd hdocument (hnone row hmem)
  · rw [hflagged] at hpairs
    obtain ⟨revision, rest, hrevision, hrest, rfl⟩ := List.forall₂_cons_left_iff.mp hpairs
    refine ⟨revision, leaves, winner, ?_, ?_, hleaves, hwinner, ?_⟩
    · simp only [currentRevision, hselect]
      rfl
    · obtain ⟨_, _, _, _, rfl⟩ := readRevision_ok_iff.mp hrevision
      rfl
    · obtain ⟨_, rev, _, hparse, rfl⟩ := readRevision_ok_iff.mp hrevision
      exact Except.ok.inj (hparse.symm.trans (readLeaf_ok_iff.mp hread).1)

theorem currentWinner_of_currentRevision {revision : Revision} (hnumber : tables.documentNumber? doc = some number)
    (h : tables.currentRevision doc = .ok (some revision)) :
    tables.currentWinner number = .ok (some revision.winner) := by
  obtain ⟨revisions, hselect, hhead⟩ := except_bind_ok_iff.mp h
  rw [select, hnumber] at hselect
  have hpairs := mapM_ok_iff.mp hselect
  have hfirst : revisions.head? = some revision := Except.ok.inj hhead
  obtain ⟨rest, rfl⟩ := List.head?_eq_some_iff.mp hfirst
  obtain ⟨row, rows, hread, -, hrows⟩ := List.forall₂_cons_right_iff.mp hpairs
  have hfind : (tables.revisions.find? fun row => row.document = number && row.current) = some row := by
    rw [← List.head?_filter, hrows]
    rfl
  obtain ⟨_, rev, _, hparse, rfl⟩ := readRevision_ok_iff.mp hread
  have hwinner : readWinner row = .ok ⟨rev, row.sequence, row.deleted⟩ := readWinner_ok_iff.mpr ⟨hparse, rfl, rfl⟩
  simp only [currentWinner, hfind, hwinner]
  rfl

/-! ### Leaves -/

theorem sequences_of_leaves {leaves : List Leaf} (h : tables.leaves document = .ok leaves) :
    leaves.map (·.sequence) = (tables.leafRows document).map (·.sequence) :=
  (map_eq_of_forall₂ (mapM_ok_iff.mp h) fun _ _ hread => (readLeaf_ok_iff.mp hread).2.1).symm

theorem Shape.nodup_leaves {leaves : List Leaf} (shape : tables.Shape) (h : tables.leaves document = .ok leaves) :
    leaves.Nodup := by
  apply List.Nodup.of_map (·.sequence)
  rw [sequences_of_leaves h]
  exact List.pairwise_map.mpr ((shape.ascending.filter _).imp fun hlt => Int.ne_of_lt hlt)

end Tables

end RevisionForest
