import RevisionForest.Proofs.Ranking
import RevisionForest.Proofs.Statements
import Mathlib.Data.List.Forall2
/-!
# Legible tables

Ids, digests and encodings are stored as text. Tables are legible if every text in them is one that was printed for a value in range; then every read succeeds and answers the values that were written. A generation at the bound prints as a text that does not read, so a revision that is read back right after it was written is in range (`RevId.generation_lt_of_parse`).
-/

namespace RevisionForest

/-! ### Reads in sequence -/

theorem except_bind_ok_iff {ε α β : Type} {read : Except ε α} {next : α → Except ε β} {value : β} :
    (read >>= next) = .ok value ↔ ∃ middle, read = .ok middle ∧ next middle = .ok value := by
  cases read with
  | ok middle => simp [bind, Except.bind]
  | error error => simp [bind, Except.bind]

theorem mapError_ok_iff {ε ε' α : Type} {found : Except ε α} {change : ε → ε'} {value : α} :
    found.mapError change = .ok value ↔ found = .ok value := by
  cases found <;> simp [Except.mapError]

theorem mapM_ok_iff {ε α β : Type} {read : α → Except ε β} {list : List α} {values : List β} :
    list.mapM read = .ok values ↔ List.Forall₂ (fun item value => read item = .ok value) list values := by
  induction list generalizing values with
  | nil => simp [pure, Except.pure, eq_comm]
  | cons item rest ih =>
    simp only [List.mapM_cons, except_bind_ok_iff, ih]
    constructor
    · rintro ⟨value, hvalue, others, hothers, heq⟩
      obtain rfl := Except.ok.inj heq
      exact .cons hvalue hothers
    · intro h
      cases h with
      | cons hvalue hothers => exact ⟨_, hvalue, _, hothers, rfl⟩

theorem mapM_ok_of_forall {ε α β : Type} {read : α → Except ε β} {list : List α}
    (h : ∀ item ∈ list, ∃ value, read item = .ok value) : ∃ values, list.mapM read = .ok values := by
  induction list with
  | nil => exact ⟨[], rfl⟩
  | cons item rest ih =>
    obtain ⟨value, hvalue⟩ := h item List.mem_cons_self
    obtain ⟨values, hvalues⟩ := ih fun other hother => h other (List.mem_cons_of_mem _ hother)
    exact ⟨value :: values, mapM_ok_iff.mpr (.cons hvalue (mapM_ok_iff.mp hvalues))⟩

theorem mapM_ok_of_forall₂ {ε α β γ : Type} {read : α → Except ε β} {relation : γ → α → Prop} {property : γ → β → Prop}
    {items : List γ} {list : List α} (hpairs : List.Forall₂ relation items list)
    (h : ∀ item ∈ items, ∀ entry, relation item entry → ∃ value, read entry = .ok value ∧ property item value) :
    ∃ values, list.mapM read = .ok values ∧ List.Forall₂ property items values := by
  induction hpairs with
  | nil => exact ⟨[], rfl, .nil⟩
  | cons hfirst _ ih =>
    obtain ⟨value, hvalue, hproperty⟩ := h _ List.mem_cons_self _ hfirst
    obtain ⟨values, hvalues, hrest⟩ := ih fun other hother => h other (List.mem_cons_of_mem _ hother)
    exact ⟨value :: values, mapM_ok_iff.mpr (.cons hvalue (mapM_ok_iff.mp hvalues)), .cons hproperty hrest⟩

theorem exists_mem_right {α β : Type} {relation : α → β → Prop} {list : List α} {values : List β}
    (h : List.Forall₂ relation list values) {item : α} (hitem : item ∈ list) :
    ∃ value ∈ values, relation item value := by
  induction h with
  | nil => exact absurd hitem List.not_mem_nil
  | cons hvalue _ ih =>
    rcases List.mem_cons.mp hitem with rfl | hitem
    · exact ⟨_, List.mem_cons_self, hvalue⟩
    · obtain ⟨value, hmem, hrelated⟩ := ih hitem
      exact ⟨value, List.mem_cons_of_mem _ hmem, hrelated⟩

theorem exists_mem_left {α β : Type} {relation : α → β → Prop} {list : List α} {values : List β}
    (h : List.Forall₂ relation list values) {value : β} (hvalue : value ∈ values) :
    ∃ item ∈ list, relation item value :=
  exists_mem_right h.flip hvalue

theorem map_eq_of_forall₂ {α β γ : Type} {relation : α → β → Prop} {list : List α} {values : List β} {f : α → γ} {g : β → γ}
    (h : List.Forall₂ relation list values) (hsame : ∀ item value, relation item value → f item = g value) :
    list.map f = values.map g := by
  induction h with
  | nil => rfl
  | cons hvalue _ ih => rw [List.map_cons, List.map_cons, ih, hsame _ _ hvalue]

theorem forall₂_with_mem {α β : Type} {relation : α → β → Prop} {list : List α} {values : List β}
    (h : List.Forall₂ relation list values) :
    List.Forall₂ (fun item value => item ∈ list ∧ value ∈ values ∧ relation item value) list values := by
  have hleft := (List.forall₂_and_left _ _).mpr ⟨fun _ hitem => hitem, h⟩
  have hright := (List.forall₂_and_left _ _).mpr ⟨fun _ hvalue => hvalue, hleft.flip⟩
  exact hright.flip.imp fun _ _ ⟨hvalue, hitem, hrelated⟩ => ⟨hitem, hvalue, hrelated⟩

/-! ### Ids -/

namespace RevId

theorem parse_text {rev : RevId} (h : rev.generation < generationBound) : parse rev.text = .ok rev := by
  rw [parse, parse?_text rev h]

theorem parseGeneration?_toDigits_eq_none {generation : Nat} (h : ¬generation < generationBound) :
    parseGeneration? (Nat.toDigits 10 generation) = none := by
  have hvalue : Nat.ofDigitChars 10 (Nat.toDigits 10 generation) 0 = generation :=
    Nat.ofDigitChars_toDigits (by decide) (by decide)
  simp only [parseGeneration?, dropPlus_toDigits, hvalue, if_neg h, ite_self]

/-- Only ids in range read back at all. -/
theorem generation_lt_of_parse {rev found : RevId} (h : parse rev.text = .ok found) :
    rev.generation < generationBound := by
  by_contra hlarge
  have hdash : ∀ c ∈ Nat.toDigits 10 rev.generation, decide (c ≠ '-') = true := by
    intro c hc
    have hdigit := isDigit_of_mem_toDigits hc
    apply decide_eq_true
    intro heq
    subst heq
    exact absurd hdigit (by decide)
  have hnone : parse? rev.text = none := by
    simp only [parse?, text_toList]
    rw [List.takeWhile_append_of_pos hdash, List.dropWhile_append_of_pos hdash]
    simp [parseGeneration?_toDigits_eq_none hlarge]
  rw [parse, hnone] at h
  exact absurd h (by simp)

end RevId

/-- A row holds the text of an id in range. -/
def RevisionRow.Reads (row : RevisionRow) (rev : RevId) : Prop :=
  row.revText = rev.text ∧ rev.generation < RevId.generationBound

theorem RevisionRow.Reads.unique {row : RevisionRow} {rev other : RevId} (h : row.Reads rev) (hother : row.Reads other) :
    rev = other :=
  RevId.text_injective (h.1.symm.trans hother.1)

namespace Tables

structure Legible (tables : Tables) : Prop where
  revisions : ∀ row ∈ tables.revisions, ∃ rev, row.Reads rev
  attachments : ∀ row ∈ tables.attachments, ∃ attachment, row = attachmentRow row.sequence attachment

variable {tables : Tables} {row : RevisionRow} {rev : RevId}

/-! ### Reading rows -/

theorem readStored_ok_iff {α : Type} {read : Except DataError α} {value : α} :
    readStored read = .ok value ↔ read = .ok value := by
  cases read with
  | ok found => simp [readStored]
  | error error => simp [readStored]

theorem readLeaf_of_reads (h : row.Reads rev) : readLeaf row = .ok ⟨row.sequence, rev, row.deleted⟩ := by
  simp only [readLeaf, h.1, RevId.parse_text h.2]
  rfl

theorem readLeaf_ok_iff {leaf : Leaf} :
    readLeaf row = .ok leaf ↔ RevId.parse row.revText = .ok leaf.rev ∧
      row.sequence = leaf.sequence ∧ row.deleted = leaf.deleted := by
  obtain ⟨sequence, found, deleted⟩ := leaf
  simp only [readLeaf, except_bind_ok_iff, readStored_ok_iff, pure, Except.pure, Except.ok.injEq, Leaf.mk.injEq]
  constructor
  · rintro ⟨_, hread, hsequence, rfl, hdeleted⟩
    exact ⟨hread, hsequence, hdeleted⟩
  · rintro ⟨hread, hsequence, hdeleted⟩
    exact ⟨_, hread, hsequence, rfl, hdeleted⟩

theorem readWinner_ok_iff {winner : Winner} :
    readWinner row = .ok winner ↔ RevId.parse row.revText = .ok winner.rev ∧
      row.sequence = winner.sequence ∧ row.deleted = winner.deleted := by
  obtain ⟨found, sequence, deleted⟩ := winner
  simp only [readWinner, except_bind_ok_iff, readStored_ok_iff, pure, Except.pure, Except.ok.injEq, Winner.mk.injEq]
  constructor
  · rintro ⟨_, hread, rfl, hsequence, hdeleted⟩
    exact ⟨hread, hsequence, hdeleted⟩
  · rintro ⟨hread, hsequence, hdeleted⟩
    exact ⟨_, hread, rfl, hsequence, hdeleted⟩

theorem Legible.reads (legible : tables.Legible) (hrow : row ∈ tables.revisions) (htext : row.revText = rev.text) :
    row.Reads rev := by
  obtain ⟨read, hreads⟩ := legible.revisions row hrow
  rwa [RevId.text_injective (htext.symm.trans hreads.1)]

theorem readAttachment_attachmentRow (sequence : Int) (attachment : Attachment) :
    readAttachment (attachmentRow sequence attachment) = .ok attachment := by
  have hdigest : Digest.parse attachment.digest.toHex = .ok attachment.digest := by
    rw [Digest.parse, Digest.ofHex_toHex]
  simp only [readAttachment, attachmentRow, AttachmentRow.length, AttachmentRow.encodedLength, AttachmentRow.revpos,
    Column.unsigned_signed, Encoding.parse_name, hdigest]
  rfl

theorem mapM_readAttachment {sequence : Int} {rows : List AttachmentRow}
    (h : ∀ row ∈ rows, ∃ attachment, row = attachmentRow sequence attachment) :
    ∃ attachments, rows.mapM readAttachment = .ok attachments ∧ rows = attachments.map (attachmentRow sequence) := by
  induction rows with
  | nil => exact ⟨[], rfl, rfl⟩
  | cons row rest ih =>
    obtain ⟨attachment, rfl⟩ := h row List.mem_cons_self
    obtain ⟨attachments, hread, rfl⟩ := ih fun other hother => h other (List.mem_cons_of_mem _ hother)
    refine ⟨attachment :: attachments, mapM_ok_iff.mpr (.cons ?_ (mapM_ok_iff.mp hread)), rfl⟩
    exact readAttachment_attachmentRow sequence attachment

theorem Legible.attachmentsFor_rows (legible : tables.Legible) (sequence : Int) :
    ∃ attachments, tables.attachmentsFor sequence = .ok attachments ∧
      ((tables.attachments.filter fun row => row.sequence = sequence).mergeSort fun left right => left.name ≤ right.name)
        = attachments.map (attachmentRow sequence) := by
  refine mapM_readAttachment fun stored hstored => ?_
  have hfilter := List.mem_mergeSort.mp hstored
  obtain ⟨attachment, heq⟩ := legible.attachments stored (List.mem_of_mem_filter hfilter)
  have hsequence : stored.sequence = sequence := by simpa using List.of_mem_filter hfilter
  exact ⟨attachment, hsequence ▸ heq⟩

theorem Legible.attachmentsFor_ok (legible : tables.Legible) (sequence : Int) :
    ∃ attachments, tables.attachmentsFor sequence = .ok attachments ∧
      (attachments.map (attachmentRow sequence)).Perm
        (tables.attachments.filter fun row => row.sequence = sequence) := by
  obtain ⟨attachments, hread, hrows⟩ := legible.attachmentsFor_rows sequence
  refine ⟨attachments, hread, ?_⟩
  rw [← hrows]
  exact List.mergeSort_perm _ _

theorem readRevision_ok_iff {doc : String} {revision : Revision} :
    tables.readRevision doc row = .ok revision ↔
      ∃ attachments rev, tables.attachmentsFor row.sequence = .ok attachments ∧
        RevId.parse row.revText = .ok rev ∧
        revision = ⟨doc, row.document, rev, row.sequence, row.parent, row.deleted, row.current, row.available,
          row.body, attachments⟩ := by
  simp only [readRevision, except_bind_ok_iff, readStored_ok_iff, pure, Except.pure, Except.ok.injEq]
  constructor
  · rintro ⟨attachments, hattachments, rev, hrev, rfl⟩
    exact ⟨attachments, rev, hattachments, hrev, rfl⟩
  · rintro ⟨attachments, rev, hattachments, hrev, rfl⟩
    exact ⟨attachments, hattachments, rev, hrev, rfl⟩

theorem Legible.readRevision_ok (legible : tables.Legible) (h : row.Reads rev) (doc : String) :
    ∃ attachments, tables.attachmentsFor row.sequence = .ok attachments ∧
      tables.readRevision doc row = .ok ⟨doc, row.document, rev, row.sequence, row.parent, row.deleted, row.current,
        row.available, row.body, attachments⟩ := by
  obtain ⟨attachments, hattachments, -⟩ := legible.attachmentsFor_ok row.sequence
  have hparse : RevId.parse row.revText = .ok rev := by rw [h.1, RevId.parse_text h.2]
  exact ⟨attachments, hattachments, readRevision_ok_iff.mpr ⟨attachments, rev, hattachments, hparse, rfl⟩⟩

theorem Legible.reads_of_readRevision {doc : String} {revision : Revision} (legible : tables.Legible)
    (hrow : row ∈ tables.revisions) (h : tables.readRevision doc row = .ok revision) : row.Reads revision.rev := by
  obtain ⟨found, hreads⟩ := legible.revisions row hrow
  obtain ⟨_, _, -, hparse, rfl⟩ := readRevision_ok_iff.mp h
  rw [hreads.1, RevId.parse_text hreads.2] at hparse
  exact Except.ok.inj hparse ▸ hreads

/-! ### Finding revisions -/

theorem currentWinner_ok_some {document : Int} {winner : Winner}
    (h : tables.currentWinner document = .ok (some winner)) :
    ∃ row ∈ tables.revisions, row.document = document ∧ row.current = true ∧ readWinner row = .ok winner := by
  unfold currentWinner at h
  cases hfind : tables.revisions.find? fun row => row.document = document && row.current with
  | none =>
    rw [hfind] at h
    nomatch h
  | some row =>
    rw [hfind] at h
    have htest := List.find?_some hfind
    simp only [Bool.and_eq_true, decide_eq_true_eq] at htest
    cases hread : readWinner row with
    | error error =>
      simp only [hread] at h
      nomatch h
    | ok found =>
      simp only [hread] at h
      obtain rfl := Option.some.inj (Except.ok.inj h)
      exact ⟨row, List.mem_of_find?_eq_some hfind, htest.1, htest.2, hread⟩

theorem getBySequence_ok_some {sequence : Int} {revision : Revision}
    (h : tables.getBySequence sequence = .ok (some revision)) :
    ∃ row ∈ tables.revisions, row.sequence = sequence ∧ ∃ doc, tables.documentId? row.document = some doc ∧
      tables.readRevision doc row = .ok revision := by
  unfold getBySequence at h
  cases hrow : tables.rowAt? sequence with
  | none => simp [hrow] at h
  | some row =>
    cases hdoc : tables.documentId? row.document with
    | none => simp [hrow, hdoc] at h
    | some doc =>
      simp only [hrow, hdoc] at h
      cases hread : tables.readRevision doc row with
      | error error =>
        rw [hread] at h
        nomatch h
      | ok found =>
        rw [hread] at h
        obtain rfl := Option.some.inj (Except.ok.inj h)
        exact ⟨row, List.mem_of_find?_eq_some hrow, by simpa using List.find?_some hrow, doc, hdoc, hread⟩

theorem select_ok {doc : String} {number : Int} {condition : RevisionRow → Bool} {revisions : List Revision}
    (hnumber : tables.documentNumber? doc = some number) (h : tables.select doc condition = .ok revisions) :
    List.Forall₂ (fun row revision => tables.readRevision doc row = .ok revision)
      (tables.revisions.filter fun row => row.document = number && condition row) revisions := by
  unfold select at h
  rw [hnumber] at h
  exact mapM_ok_iff.mp h

theorem getRevision_ok_some {doc : String} {number : Int} {revision : Revision}
    (hnumber : tables.documentNumber? doc = some number) (h : tables.getRevision doc rev = .ok (some revision)) :
    ∃ row ∈ tables.revisions, row.document = number ∧ row.revText = rev.text ∧
      tables.readRevision doc row = .ok revision := by
  obtain ⟨revisions, hselect, hhead⟩ := except_bind_ok_iff.mp h
  have hfirst : revision ∈ revisions := List.mem_of_head? (Except.ok.inj hhead)
  obtain ⟨row, hrow, hread⟩ := exists_mem_left (select_ok hnumber hselect) hfirst
  simp only [List.mem_filter, Bool.and_eq_true, decide_eq_true_eq] at hrow
  exact ⟨row, hrow.1, hrow.2.1, hrow.2.2, hread⟩

/-! ### Reading leaves -/

theorem Legible.leaves_ok (legible : tables.Legible) (document : Int) :
    ∃ leaves, tables.leaves document = .ok leaves := by
  apply mapM_ok_of_forall
  intro leaf hleaf
  obtain ⟨rev, hreads⟩ := legible.revisions leaf (mem_leafRows_iff.mp hleaf).1
  exact ⟨_, readLeaf_of_reads hreads⟩

theorem mem_leaves_iff {document : Int} {leaves : List Leaf} {leaf : Leaf} (h : tables.leaves document = .ok leaves) :
    leaf ∈ leaves ↔ ∃ row ∈ tables.leafRows document, readLeaf row = .ok leaf := by
  have hpairs := mapM_ok_iff.mp h
  constructor
  · intro hleaf
    exact exists_mem_left hpairs hleaf
  · rintro ⟨row, hrow, hread⟩
    obtain ⟨found, hmem, hfound⟩ := exists_mem_right hpairs hrow
    rw [hread] at hfound
    rwa [Except.ok.inj hfound]

theorem Shape.leaf_unique {document : Int} {leaves : List Leaf} {leaf other : Leaf} (shape : tables.Shape)
    (legible : tables.Legible) (h : tables.leaves document = .ok leaves) (hleaf : leaf ∈ leaves)
    (hother : other ∈ leaves) (heq : leaf.rev = other.rev) : leaf = other := by
  obtain ⟨row, hrow, hread⟩ := (mem_leaves_iff h).mp hleaf
  obtain ⟨row', hrow', hread'⟩ := (mem_leaves_iff h).mp hother
  obtain ⟨hmem, hdocument, -⟩ := mem_leafRows_iff.mp hrow
  obtain ⟨hmem', hdocument', -⟩ := mem_leafRows_iff.mp hrow'
  obtain ⟨rev, hreads⟩ := legible.revisions row hmem
  obtain ⟨rev', hreads'⟩ := legible.revisions row' hmem'
  rw [readLeaf_of_reads hreads] at hread
  rw [readLeaf_of_reads hreads'] at hread'
  obtain rfl := Except.ok.inj hread
  obtain rfl := Except.ok.inj hread'
  obtain rfl : rev = rev' := heq
  obtain rfl := shape.eq_of_revText hmem hmem' (hdocument.trans hdocument'.symm) (hreads.1.trans hreads'.1.symm)
  rfl

end Tables

end RevisionForest
