import RevisionForest.Proofs.Primacy
import RevisionForest.Proofs.Crown
import RevisionForest.Proofs.Refusals
/-!
# Setting the flags right

Between the writes of an update or a deletion no revision of the document may be flagged, or one that has a child, and tables that were tampered with may flag any number of them. An election does not look at the flags. It needs a leaf to elect, and there is one below every revision, since the newest of a document has no child (`Tables.Rooted.exists_leaf`); then it sets every flag of the document, so whatever they were, afterwards the elected leaf alone is flagged (`Tables.Crowns`). As the leaves are the same after it, a second election elects the same leaf and finds the flags as it would leave them.
-/

namespace RevisionForest.Tables

variable {tables before after : Tables} {document : Int} {leaf : Leaf} {leaves : List Leaf} {row : RevisionRow}

/-! ### Flags set twice -/

theorem reflag_reflag (first second : RevisionRow → Bool) :
    (tables.reflag first).reflag second = tables.reflag fun row => second { row with current := first row } := by
  simp only [reflag, mapRevisions, List.map_map, Function.comp_def]

theorem crown_crown (tables : Tables) (document sequence : Int) :
    (tables.crown document sequence).crown document sequence = tables.crown document sequence := by
  simp only [crown_eq_reflag, reflag_reflag]
  congr 1
  funext row
  split
  · rfl
  · split <;> rfl

/-! ### Texts that do not read -/

theorem readLeaf_error {error : StorageError} (h : readLeaf row = .error error) :
    error = .data (.revisionId row.revText) := by
  rw [readLeaf, RevId.parse] at h
  cases hparse : RevId.parse? row.revText with
  | none =>
    rw [hparse] at h
    exact (Except.error.inj h).symm
  | some rev =>
    rw [hparse] at h
    cases h

/-- Ids that do not read have no rank, so there is no election among them. -/
theorem pickWinner_unreadable (hrow : row ∈ tables.leafRows document) (htext : ∀ rev, RevId.parse row.revText ≠ .ok rev) :
    ∃ other ∈ tables.leafRows document,
      pickWinner document tables = .error (.data (.revisionId other.revText)) tables := by
  have hunread : ∀ leaf, readLeaf row ≠ .ok leaf := fun leaf hread => htext leaf.rev (readLeaf_ok_iff.mp hread).1
  cases hleaves : tables.leaves document with
  | ok leaves =>
    obtain ⟨leaf, -, hread⟩ := exists_mem_right (mapM_ok_iff.mp hleaves) hrow
    exact absurd hread (hunread leaf)
  | error error =>
    obtain ⟨other, hother, hread⟩ := mapM_error hleaves
    obtain rfl := readLeaf_error hread
    have hquery : Statement.query (·.leaves document) tables = .error (.data (.revisionId other.revText)) tables := by
      rw [Statement.query, bind_of_ok get_eq, hleaves]
      rfl
    exact ⟨other, hother, error_bind_iff.mpr (.inl hquery)⟩

/-! ### The election -/

/-- What an election makes of the tables. The elected leaf is the only revision of its document that is flagged, and no leaf outranks it. Nothing but flags of this document has changed. A second election elects the same leaf and changes nothing. -/
structure Crowns (before after : Tables) (document : Int) (leaf : Leaf) : Prop where
  flagged : ∃ row ∈ after.leafRows document, readLeaf row = .ok leaf ∧
    ∀ other ∈ after.revisions, other.document = document → (other.current = true ↔ other = row)
  greatest : ∀ row ∈ after.leafRows document, ∃ other, readLeaf row = .ok other ∧ ¬other.Outranks leaf
  flags_only : ∃ flagged, after = before.reflag flagged ∧
    ∀ row ∈ before.revisions, row.document ≠ document → flagged row = row.current
  settled : pickWinner document after = .ok (some leaf.winner) after

theorem Rooted.crowns (rooted : tables.Rooted) (hleaves : tables.leaves document = .ok leaves)
    (hwinner : Election.winner? leaves = some leaf) :
    Crowns tables (tables.crown document leaf.sequence) document leaf := by
  obtain ⟨elected, helected, hread⟩ := exists_row_of_winner hleaves hwinner
  obtain ⟨hmem, hdocument, -⟩ := mem_leafRows_iff.mp helected
  have hsequence : elected.sequence = leaf.sequence := (readLeaf_ok_iff.mp hread).2.1
  have hcrown := crown_eq_reflag tables document leaf.sequence
  have hleaves' : (tables.crown document leaf.sequence).leaves document = .ok leaves := by
    rw [hcrown, leaves_reflag, hleaves]
  have hsettled : pickWinner document (tables.crown document leaf.sequence)
      = .ok (some leaf.winner) (tables.crown document leaf.sequence) :=
    pickWinner_ok_iff.mpr ⟨leaves, hleaves', .inr ⟨leaf, hwinner, rfl, crown_crown tables document leaf.sequence⟩⟩
  refine ⟨?_, fun row hrow => ?_, ⟨_, hcrown, fun row hrow hother => ?_⟩, hsettled⟩
  · refine ⟨{ elected with current := true }, ?_, hread, fun other hother hhome => ?_⟩
    · rw [hcrown, leafRows_reflag]
      exact List.mem_map.mpr ⟨elected, helected, by rw [if_pos hsequence]⟩
    · rw [hcrown] at hother
      obtain ⟨old, hold, rfl⟩ := mem_reflag_iff.mp hother
      have hhome : old.document = document := hhome
      by_cases hsame : old.sequence = leaf.sequence
      · obtain rfl := rooted.eq_of_sequence hold hmem (hsame.trans hsequence.symm)
        simp only [hsame, ↓reduceIte]
      · refine iff_of_false ?_ fun heq => hsame ((congrArg RevisionRow.sequence heq).trans hsequence)
        simp only [hsame, hhome, ↓reduceIte, Bool.false_eq_true, not_false_eq_true]
  · obtain ⟨other, hother, hshown⟩ := exists_mem_right (mapM_ok_iff.mp hleaves') hrow
    refine ⟨other, hshown, fun houtranks => ?_⟩
    have hle := Election.winner?_isLE hwinner hother
    exact Ordering.isLE_iff_ne_gt.mp hle (Std.OrientedCmp.gt_iff_lt.mpr (Leaf.rank_eq_lt_iff.mpr houtranks))
  · have hne : row.sequence ≠ leaf.sequence := by
      intro heq
      obtain rfl := rooted.eq_of_sequence hrow hmem (heq.trans hsequence.symm)
      exact hother hdocument
    rw [if_neg hne, if_neg hother]

/-- An election repairs the flags of a document that has a revision, whatever they are, unless the id of a leaf cannot be read. -/
theorem Rooted.pickWinner_repairs (rooted : tables.Rooted) (hthere : ∃ row ∈ tables.revisions, row.document = document) :
    ((∀ row ∈ tables.leafRows document, ∃ rev, RevId.parse row.revText = .ok rev) →
      ∃ leaf after, pickWinner document tables = .ok (some leaf.winner) after ∧ Crowns tables after document leaf) ∧
    ∀ row ∈ tables.leafRows document, (∀ rev, RevId.parse row.revText ≠ .ok rev) →
      ∃ other ∈ tables.leafRows document,
        pickWinner document tables = .error (.data (.revisionId other.revText)) tables := by
  refine ⟨fun hreads => ?_, fun row hrow => pickWinner_unreadable hrow⟩
  obtain ⟨leaves, hleaves⟩ : ∃ leaves, tables.leaves document = .ok leaves := by
    refine mapM_ok_of_forall fun row hrow => ?_
    obtain ⟨rev, hrev⟩ := hreads row hrow
    exact ⟨⟨row.sequence, rev, row.deleted⟩, readLeaf_ok_iff.mpr ⟨hrev, rfl, rfl⟩⟩
  obtain ⟨leaf, hwinner⟩ : ∃ leaf, Election.winner? leaves = some leaf := by
    obtain ⟨row, hrow, rfl⟩ := hthere
    obtain ⟨bottom, hbottom, -⟩ := rooted.exists_leaf hrow
    obtain ⟨found, hfound, -⟩ := exists_mem_right (mapM_ok_iff.mp hleaves) hbottom
    refine Option.ne_none_iff_exists'.mp fun hnone => ?_
    exact List.not_mem_nil (Election.winner?_eq_none.mp hnone ▸ hfound)
  exact ⟨leaf, _, pickWinner_ok_iff.mpr ⟨leaves, hleaves, .inr ⟨leaf, hwinner, rfl, rfl⟩⟩, rooted.crowns hleaves hwinner⟩

/-- The root and one of its two children are flagged; the other child is elected, and the flag of another document stays. -/
theorem pickWinner_repairs_flags :
    let root : RevisionRow := ⟨1, 1, none, true, false, true, "1-a", Body.empty⟩
    let lesser : RevisionRow := ⟨2, 1, some 1, true, false, true, "2-b", Body.empty⟩
    let greater : RevisionRow := ⟨3, 1, some 1, false, false, true, "2-c", Body.empty⟩
    let stranger : RevisionRow := ⟨4, 2, none, true, false, true, "1-z", Body.empty⟩
    let tables : Tables := { revisions := [root, lesser, greater, stranger] }
    tables.Rooted ∧ (∃ row ∈ tables.revisions, row.document = 1) ∧
      (∀ row ∈ tables.leafRows 1, ∃ rev, RevId.parse row.revText = .ok rev) ∧
      (∃ leaf after, pickWinner 1 tables = .ok (some leaf.winner) after ∧ Crowns tables after 1 leaf) ∧
      (stateAfter (pickWinner 1) tables).revisions.map (·.current) = [false, false, true, true] := by
  intro root lesser greater stranger tables
  have hkeyed : (tables.revisions.map (·.sequence)).Nodup := by decide +kernel
  have hparents : ∀ row ∈ tables.revisions, ∀ parent, row.parent = some parent →
      parent < row.sequence ∧ ∃ older ∈ tables.revisions, older.sequence = parent ∧ older.document = row.document := by
    intro row hrow parent hparent
    have hchild : parent = 1 ∧ 1 < row.sequence ∧ row.document = 1 := by
      simp only [tables, List.mem_cons, List.not_mem_nil, or_false] at hrow
      rcases hrow with rfl | rfl | rfl | rfl
      · nomatch hparent
      · exact ⟨(Option.some.inj hparent).symm, by decide, rfl⟩
      · exact ⟨(Option.some.inj hparent).symm, by decide, rfl⟩
      · nomatch hparent
    obtain ⟨rfl, hlt, hdocument⟩ := hchild
    exact ⟨hlt, root, List.mem_cons_self, rfl, hdocument.symm⟩
  have hrooted : tables.Rooted := ⟨hkeyed, hparents⟩
  have hthere : ∃ row ∈ tables.revisions, row.document = 1 := ⟨root, List.mem_cons_self, rfl⟩
  have hreads : ∀ row ∈ tables.leafRows 1, ∃ rev, RevId.parse row.revText = .ok rev := by
    have hleaves : tables.leafRows 1 = [lesser, greater] := by decide +kernel
    rw [hleaves]
    refine List.forall_mem_cons.mpr ⟨⟨⟨2, "b", by decide, by decide⟩, by decide +kernel⟩, ?_⟩
    exact List.forall_mem_singleton.mpr ⟨⟨2, "c", by decide, by decide⟩, by decide +kernel⟩
  exact ⟨hrooted, hthere, hreads, (hrooted.pickWinner_repairs hthere).1 hreads, by decide +kernel⟩

end RevisionForest.Tables
