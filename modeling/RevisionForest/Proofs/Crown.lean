import RevisionForest.Proofs.Legible
/-!
# The crown

The winner flags of a document are right if exactly the elected leaf carries one (`Tables.Crowned`). An election sets them right whatever they were before, since every document with a revision has a leaf. Nothing that happens in one document disturbs the flags of another: a new revision takes away the leaf status of its parent only, and that is in the same document.
-/

namespace RevisionForest.Tables

/-- The leaves of a document can be read, and of its revisions exactly the elected one is flagged. -/
def Crowned (tables : Tables) (document : Int) : Prop :=
  ∃ leaves, tables.leaves document = .ok leaves ∧
    ∀ row ∈ tables.revisions, row.document = document →
      (row.current = true ↔ (Election.winner? leaves).map (·.sequence) = some row.sequence)

/-- Tables as the mutations keep them: every rule holds, every text reads, every flag is right, and no insert is made to fail. -/
structure Healthy (tables : Tables) : Prop where
  shape : tables.Shape
  legible : tables.Legible
  crowned : ∀ document, tables.Crowned document
  fertile : tables.barren = []

variable {tables tables' : Tables} {new : NewRevision} {document : Int}

/-! ### Leaves after a change -/

theorem isLeaf_reflag (flagged : RevisionRow → Bool) (sequence : Int) :
    (tables.reflag flagged).isLeaf sequence = tables.isLeaf sequence := by
  simp [isLeaf, reflag, mapRevisions, Function.comp_def]

theorem leafRows_reflag (flagged : RevisionRow → Bool) (document : Int) :
    (tables.reflag flagged).leafRows document
      = (tables.leafRows document).map fun row => { row with current := flagged row } := by
  simp only [leafRows, isLeaf_reflag]
  simp only [reflag, mapRevisions, List.filter_map, Function.comp_def]

theorem leaves_reflag (flagged : RevisionRow → Bool) (document : Int) :
    (tables.reflag flagged).leaves document = tables.leaves document := by
  simp only [leaves, leafRows_reflag, List.mapM_map]
  rfl

theorem isLeaf_push_iff {sequence : Int} :
    (tables.push new).isLeaf sequence = true ↔ tables.isLeaf sequence = true ∧ new.parent ≠ some sequence := by
  simp only [isLeaf_iff, mem_push_iff]
  constructor
  · intro h
    exact ⟨fun row hrow => h row (.inl hrow), h _ (.inr rfl)⟩
  · rintro ⟨hold, hnew⟩ row (hrow | rfl)
    · exact hold row hrow
    · exact hnew

theorem Shape.isLeaf_push_new (shape : tables.Shape) (haccepts : tables.Accepts new) :
    (tables.push new).isLeaf (tables.lastSequence + 1) = true := by
  refine isLeaf_push_iff.mpr ⟨isLeaf_iff.mpr fun row hrow hparent => ?_, fun hparent => ?_⟩
  · have hlt := (shape.parents row hrow _ hparent).1
    have hle := sequence_le_lastSequence hrow
    omega
  · obtain ⟨older, holder, hsequence, -⟩ := haccepts.1 _ hparent
    have hle := sequence_le_lastSequence holder
    omega

theorem Shape.mem_leafRows_push_iff (shape : tables.Shape) (haccepts : tables.Accepts new) {row : RevisionRow} :
    row ∈ (tables.push new).leafRows document ↔
      (row ∈ tables.leafRows document ∧ new.parent ≠ some row.sequence) ∨
        (new.document = document ∧ row = new.row (tables.lastSequence + 1)) := by
  simp only [mem_leafRows_iff, mem_push_iff, isLeaf_push_iff]
  constructor
  · rintro ⟨hrow | rfl, hdocument, hleaf, hparent⟩
    · exact .inl ⟨⟨hrow, hdocument, hleaf⟩, hparent⟩
    · exact .inr ⟨hdocument, rfl⟩
  · rintro (⟨⟨hrow, hdocument, hleaf⟩, hparent⟩ | ⟨hdocument, rfl⟩)
    · exact ⟨.inl hrow, hdocument, hleaf, hparent⟩
    · exact ⟨.inr rfl, hdocument, isLeaf_push_iff.mp (shape.isLeaf_push_new haccepts)⟩

theorem Shape.leafRows_push_of_ne (shape : tables.Shape) (haccepts : tables.Accepts new)
    (hne : new.document ≠ document) : (tables.push new).leafRows document = tables.leafRows document := by
  have hnew : (decide ((new.row (tables.lastSequence + 1)).document = document) &&
      (tables.push new).isLeaf (new.row (tables.lastSequence + 1)).sequence) = false := by
    simp [NewRevision.row, hne]
  have hold : ∀ row ∈ tables.revisions,
      (decide (row.document = document) && (tables.push new).isLeaf row.sequence)
        = (decide (row.document = document) && tables.isLeaf row.sequence) := by
    intro row hrow
    by_cases hdocument : row.document = document
    · have hparent : new.parent ≠ some row.sequence := by
        intro hparent
        obtain ⟨older, holder, hsequence, hhome⟩ := haccepts.1 _ hparent
        obtain rfl := shape.eq_of_sequence holder hrow hsequence
        exact hne (hhome.symm.trans hdocument)
      rw [Bool.eq_iff_iff]
      simp [isLeaf_push_iff, hparent]
    · simp [hdocument]
  simp only [leafRows]
  rw [show (tables.push new).revisions = tables.revisions ++ [new.row (tables.lastSequence + 1)] from rfl,
    List.filter_append, List.filter_congr hold, List.filter_cons_of_neg (by rw [hnew]; decide), List.filter_nil,
    List.append_nil]

/-! ### Legibility after a change -/

theorem Legible.push (legible : tables.Legible) (hrange : new.rev.generation < RevId.generationBound) :
    (tables.push new).Legible where
  revisions := by
    intro row hrow
    rcases mem_push_iff.mp hrow with hold | rfl
    · exact legible.revisions row hold
    · exact ⟨new.rev, rfl, hrange⟩
  attachments := legible.attachments

theorem Legible.reflag (legible : tables.Legible) (flagged : RevisionRow → Bool) :
    (tables.reflag flagged).Legible where
  revisions := by
    intro row hrow
    obtain ⟨old, hold, rfl⟩ := mem_reflag_iff.mp hrow
    exact legible.revisions old hold
  attachments := legible.attachments

theorem Legible.describe (legible : tables.Legible) (sequence : Int) (attachments : List Attachment) :
    (tables.describe sequence attachments).Legible where
  revisions := legible.revisions
  attachments := by
    intro row hrow
    rcases List.mem_append.mp hrow with hold | hnew
    · exact legible.attachments row hold
    · obtain ⟨attachment, -, rfl⟩ := List.mem_map.mp hnew
      exact ⟨attachment, rfl⟩

theorem Legible.register (legible : tables.Legible) (doc : String) : (tables.register doc).Legible :=
  ⟨legible.revisions, legible.attachments⟩

/-! ### Flags after a change -/

theorem Crowned.reflag {flagged : RevisionRow → Bool} (h : tables.Crowned document)
    (hsame : ∀ row ∈ tables.revisions, row.document = document → flagged row = row.current) :
    (tables.reflag flagged).Crowned document := by
  obtain ⟨leaves, hleaves, hflags⟩ := h
  refine ⟨leaves, by rw [leaves_reflag, hleaves], fun row hrow hdocument => ?_⟩
  obtain ⟨old, hold, rfl⟩ := mem_reflag_iff.mp hrow
  rw [← hflags old hold hdocument, ← hsame old hold hdocument]

theorem Crowned.push_of_ne (h : tables.Crowned document) (shape : tables.Shape) (haccepts : tables.Accepts new)
    (hne : new.document ≠ document) : (tables.push new).Crowned document := by
  obtain ⟨leaves, hleaves, hflags⟩ := h
  refine ⟨leaves, ?_, fun row hrow hdocument => ?_⟩
  · rw [Tables.leaves, shape.leafRows_push_of_ne haccepts hne]
    exact hleaves
  · rcases mem_push_iff.mp hrow with hold | rfl
    · exact hflags row hold hdocument
    · exact absurd hdocument hne

theorem exists_row_of_winner {leaves : List Leaf} {leaf : Leaf} (hleaves : tables.leaves document = .ok leaves)
    (hwinner : Election.winner? leaves = some leaf) :
    ∃ row ∈ tables.leafRows document, readLeaf row = .ok leaf :=
  (mem_leaves_iff hleaves).mp (Election.winner?_mem hwinner)

theorem crowned_of_pickWinner {elected : Option Winner} (shape : tables.Shape)
    (h : pickWinner document tables = .ok elected tables') : tables'.Crowned document := by
  obtain ⟨leaves, hleaves, ⟨hwinner, _, rfl⟩ | ⟨leaf, hwinner, _, rfl⟩⟩ := pickWinner_ok_iff.mp h
  · refine ⟨leaves, hleaves, fun row hrow hdocument => ?_⟩
    obtain rfl := Election.winner?_eq_none.mp hwinner
    have hrows : tables.leafRows document = [] := by
      have hpairs := mapM_ok_iff.mp hleaves
      cases hrows : tables.leafRows document with
      | nil => rfl
      | cons first rest =>
        rw [hrows] at hpairs
        cases hpairs
    exact absurd hdocument (shape.leafRows_eq_nil_iff.mp hrows row hrow)
  · rw [crown_eq_reflag]
    refine ⟨leaves, by rw [leaves_reflag, hleaves], fun row hrow hdocument => ?_⟩
    obtain ⟨old, hold, rfl⟩ := mem_reflag_iff.mp hrow
    rw [hwinner]
    by_cases hsequence : old.sequence = leaf.sequence
    · simp [hsequence]
    · simp only [hsequence, ↓reduceIte, Option.map_some, Option.some.injEq, eq_comm (a := leaf.sequence), iff_false]
      simp [show old.document = document from hdocument]

theorem Crowned.pickWinner_of_ne {other : Int} {elected : Option Winner} (hcrowned : tables.Crowned other)
    (shape : tables.Shape) (hne : other ≠ document) (h : pickWinner document tables = .ok elected tables') :
    tables'.Crowned other := by
  obtain ⟨leaves, hleaves, ⟨hwinner, _, rfl⟩ | ⟨leaf, hwinner, _, rfl⟩⟩ := pickWinner_ok_iff.mp h
  · exact hcrowned
  · rw [crown_eq_reflag]
    apply hcrowned.reflag
    intro row hrow hdocument
    obtain ⟨winner, hmem, hread⟩ := exists_row_of_winner hleaves hwinner
    obtain ⟨hwinnerMem, hwinnerDocument, -⟩ := mem_leafRows_iff.mp hmem
    have hsequence : row.sequence ≠ leaf.sequence := by
      intro heq
      obtain rfl := shape.eq_of_sequence hrow hwinnerMem (heq.trans (readLeaf_ok_iff.mp hread).2.1.symm)
      exact hne (hdocument.symm.trans hwinnerDocument)
    simp [hsequence, hdocument, hne]

theorem Crowned.mem_leafRows {row : RevisionRow} (h : tables.Crowned document) (shape : tables.Shape)
    (hrow : row ∈ tables.revisions) (hdocument : row.document = document) (hcurrent : row.current = true) :
    row ∈ tables.leafRows document := by
  obtain ⟨leaves, hleaves, hflags⟩ := h
  obtain ⟨leaf, hwinner, hsequence⟩ := Option.map_eq_some_iff.mp ((hflags row hrow hdocument).mp hcurrent)
  obtain ⟨elected, helected, hread⟩ := exists_row_of_winner hleaves hwinner
  have hsame : elected.sequence = row.sequence := (readLeaf_ok_iff.mp hread).2.1.trans hsequence
  rwa [← shape.eq_of_sequence (mem_leafRows_iff.mp helected).1 hrow hsame]

theorem crowned_push_first (shape : tables.Shape) (legible : tables.Legible) (haccepts : tables.Accepts new)
    (hrange : new.rev.generation < RevId.generationBound) (hcurrent : new.current = true)
    (hfirst : ∀ row ∈ tables.revisions, row.document ≠ new.document) : (tables.push new).Crowned new.document := by
  obtain ⟨leaves, hleaves⟩ := (legible.push hrange).leaves_ok new.document
  have honly : ∀ row ∈ (tables.push new).revisions, row.document = new.document →
      row = new.row (tables.lastSequence + 1) := by
    intro row hrow hdocument
    rcases mem_push_iff.mp hrow with hold | rfl
    · exact absurd hdocument (hfirst row hold)
    · rfl
  refine ⟨leaves, hleaves, fun row hrow hdocument => ?_⟩
  obtain rfl := honly row hrow hdocument
  apply iff_of_true hcurrent
  cases hwinner : Election.winner? leaves with
  | none =>
    obtain rfl := Election.winner?_eq_none.mp hwinner
    have hmem := (shape.mem_leafRows_push_iff haccepts).mpr (.inr ⟨rfl, rfl⟩)
    obtain ⟨leaf, hleaf, -⟩ := exists_mem_right (mapM_ok_iff.mp hleaves) hmem
    exact absurd hleaf List.not_mem_nil
  | some leaf =>
    obtain ⟨row, hmem, hread⟩ := exists_row_of_winner hleaves hwinner
    obtain ⟨hstored, hhome, -⟩ := mem_leafRows_iff.mp hmem
    rw [Option.map_some, ← (readLeaf_ok_iff.mp hread).2.1, honly row hstored hhome]

/-- Burying a live leaf that lost changes no flag: whoever won against it is live, and so wins against its tombstone. -/
theorem Crowned.push_tombstone {target : RevisionRow} (h : tables.Crowned new.document) (shape : tables.Shape)
    (legible : tables.Legible) (haccepts : tables.Accepts new) (hrange : new.rev.generation < RevId.generationBound)
    (hdeleted : new.deleted = true) (hcurrent : new.current = false) (htarget : target ∈ tables.leafRows new.document)
    (hlive : target.deleted = false) (hloser : target.current = false) (hparent : new.parent = some target.sequence) :
    (tables.push new).Crowned new.document := by
  obtain ⟨leaves, hleaves, hflags⟩ := h
  obtain ⟨leaves', hleaves'⟩ := (legible.push hrange).leaves_ok new.document
  obtain ⟨hstored, hhome, -⟩ := mem_leafRows_iff.mp htarget
  obtain ⟨loser, hloserMem, hloserRead⟩ := exists_mem_right (mapM_ok_iff.mp hleaves) htarget
  obtain ⟨winner, hwinner⟩ : ∃ winner, Election.winner? leaves = some winner := by
    apply Option.ne_none_iff_exists'.mp
    intro hnone
    rw [Election.winner?_eq_none] at hnone
    exact absurd (hnone ▸ hloserMem) List.not_mem_nil
  obtain ⟨row, hrow, hread⟩ := exists_row_of_winner hleaves hwinner
  have hother : target.sequence ≠ row.sequence := by
    intro heq
    have hflag := (hflags target hstored hhome).mpr (by rw [hwinner, Option.map_some, heq, (readLeaf_ok_iff.mp hread).2.1])
    rw [hloser] at hflag
    exact absurd hflag (by decide)
  have houtranks : ∀ leaf ∈ leaves, leaf ≠ winner → winner.Outranks leaf := fun leaf hleaf hne =>
    Election.winner?_outranks hwinner
      (fun other hotherMem heq => shape.leaf_unique legible hleaves hotherMem (Election.winner?_mem hwinner) heq) hleaf hne
  -- The winner outranks a live leaf, which no tombstone does.
  have hwinnerLive : winner.deleted = false := by
    have hne : loser ≠ winner := by
      rintro rfl
      exact hother ((readLeaf_ok_iff.mp hloserRead).2.1.trans (readLeaf_ok_iff.mp hread).2.1.symm)
    have hloserLive : loser.deleted = false := (readLeaf_ok_iff.mp hloserRead).2.2.symm.trans hlive
    rcases houtranks loser hloserMem hne with ⟨hlive, -⟩ | ⟨hsame, -⟩
    · exact hlive
    · rw [hsame, hloserLive]
  have hwinner' : Election.winner? leaves' = some winner := by
    refine Election.winner?_eq_some ?_ fun leaf hleaf hne => Leaf.rank_eq_lt_iff.mpr ?_
    · refine (mem_leaves_iff hleaves').mpr ⟨row, (shape.mem_leafRows_push_iff haccepts).mpr (.inl ⟨hrow, ?_⟩), hread⟩
      rw [hparent]
      exact fun heq => hother (Option.some.inj heq)
    · obtain ⟨leafRow, hleafRow, hleafRead⟩ := (mem_leaves_iff hleaves').mp hleaf
      rcases (shape.mem_leafRows_push_iff haccepts).mp hleafRow with ⟨hold, -⟩ | ⟨-, rfl⟩
      · exact houtranks leaf ((mem_leaves_iff hleaves).mpr ⟨leafRow, hold, hleafRead⟩) hne
      · exact .inl ⟨hwinnerLive, (readLeaf_ok_iff.mp hleafRead).2.2.symm.trans hdeleted⟩
  refine ⟨leaves', hleaves', fun pushed hpushed hdocument => ?_⟩
  rw [hwinner']
  rcases mem_push_iff.mp hpushed with hold | rfl
  · rw [hflags pushed hold hdocument, hwinner]
  · apply iff_of_false (by simp [NewRevision.row, hcurrent])
    rw [Option.map_some, ← (readLeaf_ok_iff.mp hread).2.1]
    have hle := sequence_le_lastSequence (mem_leafRows_iff.mp hrow).1
    simp only [NewRevision.row, Option.some.injEq]
    omega

theorem Crowned.winner_of_flag {row : RevisionRow} {rev : RevId} (h : tables.Crowned document) (shape : tables.Shape)
    (hrow : row ∈ tables.revisions) (hdocument : row.document = document) (hcurrent : row.current = true)
    (hreads : row.Reads rev) :
    ∃ leaves, tables.leaves document = .ok leaves ∧
      Election.winner? leaves = some ⟨row.sequence, rev, row.deleted⟩ := by
  obtain ⟨leaves, hleaves, hflags⟩ := h
  obtain ⟨winner, hwinner, hplace⟩ := Option.map_eq_some_iff.mp ((hflags row hrow hdocument).mp hcurrent)
  obtain ⟨elected, helected, hread⟩ := exists_row_of_winner hleaves hwinner
  obtain rfl := shape.eq_of_sequence (mem_leafRows_iff.mp helected).1 hrow ((readLeaf_ok_iff.mp hread).2.1.trans hplace)
  rw [readLeaf_of_reads hreads] at hread
  exact ⟨leaves, hleaves, hwinner.trans (congrArg some (Except.ok.inj hread).symm)⟩

theorem Crowned.currentWinner (h : tables.Crowned document) (shape : tables.Shape) :
    ∃ leaves, tables.leaves document = .ok leaves ∧
      tables.currentWinner document = .ok ((Election.winner? leaves).map (·.winner)) := by
  obtain ⟨leaves, hleaves, hflags⟩ := h
  refine ⟨leaves, hleaves, ?_⟩
  unfold Tables.currentWinner
  cases hwinner : Election.winner? leaves with
  | none =>
    have hnone : (tables.revisions.find? fun row => row.document = document && row.current) = none := by
      refine List.find?_eq_none.mpr fun row hrow htest => ?_
      simp only [Bool.and_eq_true, decide_eq_true_eq] at htest
      have := (hflags row hrow htest.1).mp htest.2
      rw [hwinner] at this
      exact absurd this (by simp)
    rw [hnone]
    rfl
  | some leaf =>
    obtain ⟨row, hrow, hread⟩ := exists_row_of_winner hleaves hwinner
    obtain ⟨hmem, hdocument, -⟩ := mem_leafRows_iff.mp hrow
    obtain ⟨hparse, hsequence, hdeleted⟩ := readLeaf_ok_iff.mp hread
    have hfind : (tables.revisions.find? fun row => row.document = document && row.current) = some row := by
      refine find?_eq_some_of_unique hmem ?_ fun other hother htest => ?_
      · have := (hflags row hmem hdocument).mpr (by rw [hwinner, Option.map_some, hsequence])
        simp [hdocument, this]
      · simp only [Bool.and_eq_true, decide_eq_true_eq] at htest
        have := (hflags other hother htest.1).mp htest.2
        rw [hwinner, Option.map_some, Option.some.injEq] at this
        exact shape.eq_of_sequence hother hmem (this.symm.trans hsequence.symm)
    rw [hfind]
    simp only [readWinner, hparse, hsequence, hdeleted]
    rfl

end RevisionForest.Tables
