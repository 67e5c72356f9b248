import RevisionForest.Proofs.Views
/-!
# Histories are complete

A parent stands before its children, so one pass over the rows from the newest to the oldest meets every ancestor of a revision (`lineage_spec`). On tables that mirror a tree the history that is answered is therefore the whole line from the root, and every id of it is known. Below every id there is a leaf, so the histories of the leaves hold all that a document knows (`Shows.exists_history`).
-/

namespace RevisionForest

theorem isChain_of_forall₂ {α β : Type} {relation : α → β → Prop} {P : α → α → Prop} {Q : β → β → Prop} {list : List α}
    {values : List β} (hpairs : List.Forall₂ relation list values) (hchain : list.IsChain P)
    (hstep : ∀ item ∈ list, ∀ item' ∈ list, ∀ value value', relation item value → relation item' value' →
      P item item' → Q value value') : values.IsChain Q := by
  induction hpairs with
  | nil => exact List.isChain_nil
  | @cons first value rest others hfirst hrest ih =>
    have hlater := ih (List.isChain_of_isChain_cons hchain) fun item hitem item' hitem' =>
      hstep item (List.mem_cons_of_mem _ hitem) item' (List.mem_cons_of_mem _ hitem')
    cases hrest with
    | nil => exact List.isChain_singleton value
    | cons hsecond hrest =>
      obtain ⟨hfollows, -⟩ := List.isChain_cons_cons.mp hchain
      refine List.isChain_cons_cons.mpr ⟨?_, hlater⟩
      exact hstep first List.mem_cons_self _ (List.mem_cons_of_mem _ List.mem_cons_self) value _ hfirst hsecond hfollows

theorem head?_of_forall₂ {α β : Type} {relation : α → β → Prop} {list : List α} {values : List β} {item : α}
    (hpairs : List.Forall₂ relation list values) (h : list.head? = some item) :
    ∃ value, values.head? = some value ∧ relation item value := by
  cases hpairs with
  | nil => nomatch h
  | cons hfirst _ =>
    obtain rfl := Option.some.inj h
    exact ⟨_, rfl, hfirst⟩

theorem Pedigree.Line.mem_parent {tree : Pedigree} {history : List RevId} {rev child : RevId} (h : tree.Line history)
    (hchild : child ∈ history) (habove : tree.parent child = some rev) : rev ∈ history := by
  obtain ⟨older, newer, rfl⟩ := List.append_of_mem hchild
  rcases List.eq_nil_or_concat older with rfl | ⟨init, last, rfl⟩
  · have hroot := h.root child rfl
    rw [habove] at hroot
    nomatch hroot
  · have hchain := h.chain
    rw [List.concat_eq_append, List.isChain_append] at hchain
    have hstep := hchain.2.2 last List.getLast?_concat child rfl
    rw [habove] at hstep
    rw [Option.some.inj hstep, List.concat_eq_append]
    exact List.mem_append_left _ (List.mem_append_right _ (List.mem_singleton.mpr rfl))

namespace Tables

variable {tables : Tables} {tree : Pedigree} {doc : String} {rev : RevId} {number : Int} {list : List RevisionRow}
  {row : RevisionRow}

/-! ### One pass -/

/-- Parents stand behind their children in a list of rows from the newest to the oldest. -/
def Closed (list : List RevisionRow) : Prop :=
  ∀ row ∈ list, ∀ parent, row.parent = some parent →
    parent < row.sequence ∧ ∃ older ∈ list, older.sequence = parent ∧ older.document = row.document

/-- The line of rows of a list from a root to a row, each row above the next. -/
structure LineTo (list line : List RevisionRow) (row : RevisionRow) : Prop where
  last : line.getLast? = some row
  members : ∀ other ∈ line, other ∈ list ∧ other.document = row.document
  chain : line.IsChain fun older newer => newer.parent = some older.sequence
  root : ∀ first, line.head? = some first → first.parent = none

theorem Closed.tail {newest : RevisionRow} (h : Closed (newest :: list))
    (hbelow : ∀ row ∈ list, row.sequence < newest.sequence) : Closed list := by
  intro row hmem parent hparent
  obtain ⟨hlt, above, habove, hsequence, hhome⟩ := h row (List.mem_cons_of_mem _ hmem) parent hparent
  refine ⟨hlt, above, ?_, hsequence, hhome⟩
  rcases List.mem_cons.mp habove with rfl | habove
  · have hgt := hbelow row hmem
    omega
  · exact habove

theorem LineTo.of_root (hparent : row.parent = none) : LineTo (row :: list) [row] row where
  last := rfl
  members := by
    intro other hother
    rw [List.mem_singleton.mp hother]
    exact ⟨List.mem_cons_self, rfl⟩
  chain := List.isChain_singleton row
  root := by
    intro first hfirst
    rw [← Option.some.inj hfirst, hparent]

theorem LineTo.below {above : RevisionRow} {line : List RevisionRow} (h : LineTo list line above)
    (hparent : row.parent = some above.sequence) (hhome : above.document = row.document) :
    LineTo (row :: list) (line ++ [row]) row where
  last := List.getLast?_concat
  members := by
    intro other hother
    rcases List.mem_append.mp hother with hold | hnew
    · exact ⟨List.mem_cons_of_mem _ (h.members other hold).1, (h.members other hold).2.trans hhome⟩
    · rw [List.mem_singleton.mp hnew]
      exact ⟨List.mem_cons_self, rfl⟩
  chain := by
    refine List.isChain_append.mpr ⟨h.chain, List.isChain_singleton _, fun last hmem next hnext => ?_⟩
    rw [Option.mem_def, h.last] at hmem
    rw [← Option.some.inj hmem, ← Option.some.inj hnext, hparent]
  root := by
    intro first hfirst
    have hne : line ≠ [] := List.ne_nil_of_mem (List.mem_of_getLast? h.last)
    rw [List.head?_append_of_ne_nil _ hne] at hfirst
    exact h.root first hfirst

/-- One pass over rows that stand before their parents collects the line to a row. -/
theorem lineage_spec (hsorted : list.Pairwise fun newer older => older.sequence < newer.sequence)
    (hclosed : Closed list) (hrow : row ∈ list) : LineTo list (lineage row.sequence list) row := by
  induction list generalizing row with
  | nil => exact absurd hrow List.not_mem_nil
  | cons newest older ih =>
    obtain ⟨hbelow, hsorted'⟩ := List.pairwise_cons.mp hsorted
    have hrest := hclosed.tail hbelow
    -- Either the line ends in the newest row, and its parent is further down, or all of it is further down.
    rcases List.mem_cons.mp hrow with rfl | hmem
    · cases hparent : row.parent with
      | none =>
        rw [lineage, if_pos rfl, hparent]
        exact .of_root hparent
      | some parent =>
        obtain ⟨hlt, above, habove, rfl, hhome⟩ := hclosed row List.mem_cons_self parent hparent
        rw [lineage, if_pos rfl, hparent]
        rcases List.mem_cons.mp habove with rfl | habove
        · omega
        · exact (ih hsorted' hrest habove).below hparent hhome
    · have hne : newest.sequence ≠ row.sequence := by
        have hlt := hbelow row hmem
        omega
      rw [lineage, if_neg hne]
      have hline := ih hsorted' hrest hmem
      exact { hline with
        members := fun other hother =>
          ⟨List.mem_cons_of_mem _ (hline.members other hother).1, (hline.members other hother).2⟩ }

theorem Shape.lineage_ok (shape : tables.Shape) (hrow : row ∈ tables.revisions) :
    LineTo tables.revisions (lineage row.sequence tables.revisions.reverse) row := by
  have hclosed : Closed tables.revisions.reverse := by
    intro row hmem parent hparent
    obtain ⟨hlt, older, holder, hrest⟩ := shape.parents row (List.mem_reverse.mp hmem) parent hparent
    exact ⟨hlt, older, List.mem_reverse.mpr holder, hrest⟩
  have hline := lineage_spec (List.pairwise_reverse.mpr shape.ascending) hclosed (List.mem_reverse.mpr hrow)
  exact { hline with
    members := fun other hother => ⟨List.mem_reverse.mp (hline.members other hother).1, (hline.members other hother).2⟩ }

/-! ### Histories -/

theorem Legible.readAll (legible : tables.Legible) (hrows : ∀ row ∈ list, row ∈ tables.revisions) :
    ∃ history, list.mapM (fun row => readStored (RevId.parse row.revText)) = .ok history ∧
      List.Forall₂ RevisionRow.Reads list history := by
  induction list with
  | nil => exact ⟨[], rfl, .nil⟩
  | cons row rest ih =>
    obtain ⟨rev, hreads⟩ := legible.revisions row (hrows row List.mem_cons_self)
    obtain ⟨history, hrest, hpairs⟩ := ih fun other hother => hrows other (List.mem_cons_of_mem _ hother)
    have hread : readStored (RevId.parse row.revText) = .ok rev := by
      rw [readStored_ok_iff, hreads.1, RevId.parse_text hreads.2]
    exact ⟨rev :: history, mapM_ok_iff.mpr (.cons hread (mapM_ok_iff.mp hrest)), .cons hreads hpairs⟩

theorem Healthy.revisionHistory_ok (healthy : tables.Healthy) (hrow : row ∈ tables.revisions)
    (hnumber : tables.documentNumber? doc = some row.document) (htext : row.revText = rev.text) :
    ∃ line history, tables.revisionHistory doc rev = .ok history ∧ LineTo tables.revisions line row ∧
      List.Forall₂ RevisionRow.Reads line history ∧ history.getLast? = some rev := by
  have hsequence := healthy.shape.sequenceOf?_eq_some_iff.mpr ⟨row, hrow, rfl, htext, rfl⟩
  have hline := healthy.shape.lineage_ok hrow
  obtain ⟨history, hread, hpairs⟩ := healthy.legible.readAll fun other hother => (hline.members other hother).1
  refine ⟨_, history, ?_, hline, hpairs, ?_⟩
  · simp only [revisionHistory, hnumber, hsequence, hread]
  · have hlast := hline.last
    rw [← List.head?_reverse] at hlast ⊢
    obtain ⟨read, hfirst, hreads⟩ := head?_of_forall₂ (List.rel_reverse hpairs) hlast
    rw [hfirst, RevId.text_injective (hreads.1.symm.trans htext)]

theorem LineTo.line {line : List RevisionRow} {history : List RevId} (h : LineTo tables.revisions line row)
    (shape : tables.Shape) (hmirror : tables.Mirrors tree row.document)
    (hpairs : List.Forall₂ RevisionRow.Reads line history) : tree.Line history where
  root := by
    intro root hhead
    obtain ⟨first, hfirst, hreads⟩ := head?_of_forall₂ hpairs.flip hhead
    obtain ⟨hmem, hhome⟩ := h.members first (List.mem_of_head? hfirst)
    have hbone : first.bare ∈ tables.bones := mem_bones_iff.mpr ⟨first, hmem, rfl⟩
    rcases hmirror.parents first.bare hbone hhome root hreads.1 with ⟨habove, -⟩ | ⟨_, _, -, hsome, -⟩
    · exact habove
    · have hparent : first.parent = some _ := hsome
      rw [h.root first hfirst] at hparent
      nomatch hparent
  chain := by
    apply isChain_of_forall₂ hpairs h.chain
    intro above habove below hbelow older newer holder hnewer hparent
    obtain ⟨hmem, hhome⟩ := h.members above habove
    obtain ⟨hmem', hhome'⟩ := h.members below hbelow
    have hbone : below.bare ∈ tables.bones := mem_bones_iff.mpr ⟨below, hmem', rfl⟩
    exact (hmirror.parent_iff shape hbone hhome' hnewer.1 hmem hhome holder.1).mp hparent

theorem Shows.revisionHistory_ok (h : tables.Shows tree doc) (healthy : tables.Healthy) (hknows : tables.Knows doc rev) :
    ∃ history, tables.revisionHistory doc rev = .ok history ∧ tree.Line history ∧ history.getLast? = some rev ∧
      ∀ older ∈ history, tables.Knows doc older ∧ older.generation < RevId.generationBound := by
  obtain ⟨number, hnumber, hstored⟩ := hknows
  obtain ⟨sequence, hsequence⟩ := Option.isSome_iff_exists.mp (stores_iff.mp hstored)
  obtain ⟨row, hrow, rfl, htext, rfl⟩ := healthy.shape.sequenceOf?_eq_some_iff.mp hsequence
  obtain ⟨line, history, hread, hline, hpairs, hlast⟩ := healthy.revisionHistory_ok hrow hnumber htext
  refine ⟨history, hread, hline.line healthy.shape (h row.document hnumber).1 hpairs, hlast, fun older holder => ?_⟩
  obtain ⟨other, hother, hreads⟩ := exists_mem_left hpairs holder
  obtain ⟨hmem, hhome⟩ := hline.members other hother
  exact ⟨⟨row.document, hnumber, other.bare, mem_bones_iff.mpr ⟨other, hmem, rfl⟩, hhome, hreads.1⟩, hreads.2⟩

theorem Shows.exists_history (h : tables.Shows tree doc) (healthy : tables.Healthy)
    (hnumber : tables.documentNumber? doc = some number) (hrow : row ∈ tables.revisions)
    (hdocument : row.document = number) (hreads : row.Reads rev) :
    ∃ leaf ∈ tables.leafRows number, ∃ tip, leaf.Reads tip ∧
      ∀ history, tree.Line history → history.getLast? = some tip → rev ∈ history := by
  -- By induction on the number of newer sequences, since a child has a greater sequence than its parent.
  obtain ⟨distance, hdistance⟩ : ∃ distance, distance = (tables.revisions.length - row.sequence).toNat := ⟨_, rfl⟩
  induction distance using Nat.strongRecOn generalizing row rev with
  | ind distance ih =>
    cases hleaf : tables.isLeaf row.sequence with
    | true =>
      refine ⟨row, mem_leafRows_iff.mpr ⟨hrow, hdocument, hleaf⟩, rev, hreads, fun history _ hlast => ?_⟩
      exact List.mem_of_getLast? hlast
    | false =>
      obtain ⟨bone, hbone, hparent⟩ := isLeaf_eq_false_iff.mp hleaf
      obtain ⟨child, hchild, rfl⟩ := mem_bones_iff.mp hbone
      obtain ⟨hlt, above, habove, hsequence, hhome⟩ := healthy.shape.parents child hchild row.sequence hparent
      obtain rfl := healthy.shape.eq_of_sequence habove hrow hsequence
      obtain ⟨name, hname⟩ := healthy.legible.revisions child hchild
      have hbelow : tree.parent name = some rev := ((h number hnumber).1.parent_iff healthy.shape hbone
        (hhome.symm.trans hdocument) hname.1 hrow hdocument hreads.1).mp hparent
      have hbounds := healthy.shape.sequence_bounds hchild
      obtain ⟨leaf, hmem, tip, htip, hcovers⟩ := ih _ (by omega) hchild (hhome.symm.trans hdocument) hname rfl
      exact ⟨leaf, hmem, tip, htip, fun history hline hlast => hline.mem_parent (hcovers history hline hlast) hbelow⟩

end Tables

end RevisionForest
