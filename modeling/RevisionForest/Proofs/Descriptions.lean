import RevisionForest.Proofs.ByteOrder
import RevisionForest.Proofs.Sowing
/-!
# Attachments as rows

The description of an attachment is written as a row of texts and of signed numbers and read anew each time it is wanted. Nothing is lost on the way: the name of an encoding and the digits of a digest are read as what they were written for, and a number of 64 bits comes back from its signed column, where those of the upper half are held as negative ones. The rows of a revision are read in the order of the bytes of their names, whatever the order in which they were added (`attachmentsFor_eq_mergeSort`).

Copying reads the rows of one revision and writes those that are not to be skipped for another. So it keeps what inserting keeps (`Tables.insertAttachments_round_trip`).
-/

namespace RevisionForest

/-! ### Numbers in their columns -/

/-- A number fits a column of 64 bits, which is signed. -/
def Column.Holds (held : Int) : Prop :=
  -(Nat.pow 2 63 : Int) ≤ held ∧ held < Nat.pow 2 63

theorem Column.holds_signed {n : Nat} (h : n < Nat.pow 2 64) : Column.Holds (Column.signed n) := by
  have hbits : Nat.pow 2 63 = 9223372036854775808 ∧ Nat.pow 2 64 = 18446744073709551616 := by decide
  rw [hbits.2] at h
  rw [Column.Holds, Column.signed, hbits.1, hbits.2]
  split <;> omega

example : Column.signed 18446744073709551615 = -1 := by decide

/-- All numbers of an attachment have 64 bits. -/
structure Attachment.Sized (attachment : Attachment) : Prop where
  length : attachment.length < Nat.pow 2 64
  encodedLength : attachment.encodedLength < Nat.pow 2 64
  revpos : attachment.revpos < Nat.pow 2 64

/-- All numbers of a row fit their columns. -/
structure AttachmentRow.Fits (row : AttachmentRow) : Prop where
  length : Column.Holds row.heldLength
  encodedLength : Column.Holds row.heldEncodedLength
  revpos : Column.Holds row.heldRevpos

theorem Attachment.Sized.fits {attachment : Attachment} (h : attachment.Sized) (sequence : Int) :
    (Tables.attachmentRow sequence attachment).Fits where
  length := Column.holds_signed h.length
  encodedLength := Column.holds_signed h.encodedLength
  revpos := Column.holds_signed h.revpos

namespace Tables

variable {tables before after : Tables} {source target sequence : Int} {attachments listed order : List Attachment}
  {skip : List String}

/-! ### Reading -/

theorem Legible.attachmentsFor_sorted (legible : tables.Legible) (h : tables.attachmentsFor sequence = .ok attachments) :
    attachments.Pairwise fun left right => left.name ≤ right.name := by
  obtain ⟨found, hread, hrows⟩ := legible.attachmentsFor_rows sequence
  obtain rfl := Except.ok.inj (h.symm.trans hread)
  have hsorted := mergeSort_pairwise_key AttachmentRow.name (tables.attachments.filter fun row => row.sequence = sequence)
  rw [hrows, List.pairwise_map] at hsorted
  exact hsorted

theorem attachmentsFor_eq_mergeSort (h : tables.described sequence = attachments.map (attachmentRow sequence)) :
    tables.attachmentsFor sequence = .ok (attachments.mergeSort fun left right => left.name ≤ right.name) := by
  have hrows : (attachments.mergeSort fun left right => left.name ≤ right.name).map (attachmentRow sequence)
      = (attachments.map (attachmentRow sequence)).mergeSort fun left right => left.name ≤ right.name :=
    List.map_mergeSort fun _ _ _ _ => rfl
  rw [described] at h
  simp only [attachmentsFor, h, ← hrows]
  exact mapM_ok_iff.mpr (List.forall₂_map_left_iff.mpr
    (List.forall₂_same.mpr fun attachment _ => readAttachment_attachmentRow sequence attachment))

theorem attachmentsFor_of_described (h : tables.described sequence = attachments.map (attachmentRow sequence))
    (hsorted : attachments.Pairwise fun left right => left.name ≤ right.name) :
    tables.attachmentsFor sequence = .ok attachments := by
  rw [attachmentsFor_eq_mergeSort h, List.mergeSort_of_pairwise (hsorted.imp decide_eq_true)]

theorem attachmentsFor_perm (h : tables.described sequence = attachments.map (attachmentRow sequence)) :
    ∃ listed, tables.attachmentsFor sequence = .ok listed ∧ listed.Perm attachments :=
  ⟨_, attachmentsFor_eq_mergeSort h, List.mergeSort_perm _ _⟩

/-! ### Writing -/

/-- A revision that had no attachments has been given those listed, and nothing else has changed. -/
structure Describes (before after : Tables) (sequence : Int) (listed : List Attachment) : Prop where
  reads : after.attachmentsFor sequence = .ok listed
  others : ∀ other, other ≠ sequence → after.described other = before.described other
  fits : (∀ attachment ∈ listed, attachment.Sized) → ∀ row ∈ after.described sequence, row.Fits
  rest : after = { before with attachments := after.attachments }

/-- The order in which attachments are added to a revision without any makes no difference to how they are read. -/
theorem describes_of_perm (hnone : tables.described sequence = []) (hperm : order.Perm listed)
    (hsorted : listed.Pairwise fun left right => Utf8.encode left.name < Utf8.encode right.name) :
    tables.Describes (tables.describe sequence order) sequence listed := by
  have hdescribed : (tables.describe sequence order).described sequence = order.map (attachmentRow sequence) := by
    rw [described_describe, hnone, if_pos rfl, List.nil_append]
  have horder : listed.Pairwise fun left right => left.name < right.name :=
    hsorted.imp Utf8.encode_lt_iff.mp
  have hdistinct : (order.map (·.name)).Nodup :=
    (hperm.map _).nodup_iff.mpr (List.pairwise_map.mpr (horder.imp ne_of_lt))
  have hread := attachmentsFor_eq_mergeSort hdescribed
  rw [mergeSort_key_eq_of_perm hdistinct hperm,
    List.mergeSort_of_pairwise (horder.imp fun hlt => decide_eq_true (le_of_lt hlt))] at hread
  refine ⟨hread, fun other hne => ?_, fun hsized => ?_, rfl⟩
  · rw [described_describe, if_neg hne.symm, List.append_nil]
  · rw [hdescribed, List.forall_mem_map]
    exact fun attachment hmem => (hsized attachment (hperm.mem_iff.mp hmem)).fits sequence

theorem insertAttachments_of_bare (hthere : ∃ row ∈ tables.revisions, row.sequence = sequence)
    (hnone : tables.described sequence = []) (hdistinct : (order.map (·.name)).Nodup) :
    insertAttachments sequence order tables = .ok () (tables.describe sequence order) := by
  refine insertAttachments_of_fresh hthere hdistinct fun attachment _ hlabel => ?_
  obtain ⟨row, hrow, heq⟩ := List.mem_map.mp hlabel
  have hmem : row ∈ tables.described sequence :=
    List.mem_filter.mpr ⟨hrow, decide_eq_true (congrArg Prod.fst heq)⟩
  rw [hnone] at hmem
  nomatch hmem

theorem copyAttachments_of_bare (hread : tables.attachmentsFor source = .ok listed)
    (hsorted : listed.Pairwise fun left right => Utf8.encode left.name < Utf8.encode right.name)
    (hthere : ∃ row ∈ tables.revisions, row.sequence = target) (hnone : tables.described target = []) :
    copyAttachments source target skip tables
        = .ok (listed.filter fun attachment => attachment.name ∉ skip).length
          (tables.describe target (listed.filter fun attachment => attachment.name ∉ skip)) ∧
      tables.Describes (tables.describe target (listed.filter fun attachment => attachment.name ∉ skip)) target
        (listed.filter fun attachment => attachment.name ∉ skip) := by
  have hkept : (listed.filter fun attachment => !skip.contains attachment.name)
      = listed.filter fun attachment => attachment.name ∉ skip := by
    simp
  have hsorted := hsorted.filter fun attachment => attachment.name ∉ skip
  generalize (listed.filter fun attachment => attachment.name ∉ skip) = kept at hkept hsorted ⊢
  have hdistinct : (kept.map (·.name)).Nodup :=
    List.pairwise_map.mpr (hsorted.imp fun hlt => ne_of_lt (Utf8.encode_lt_iff.mp hlt))
  refine ⟨copyAttachments_ok_iff.mpr ⟨listed, hread, ?_, ?_⟩, describes_of_perm hnone (List.Perm.refl kept) hsorted⟩
  · rw [hkept]
    exact insertAttachments_of_bare hthere hnone hdistinct
  · rw [hkept]

theorem Describes.attachmentsFor_eq {other : Int} (h : before.Describes after sequence listed) (hne : other ≠ sequence) :
    after.attachmentsFor other = before.attachmentsFor other := by
  have hothers := h.others other hne
  rw [described, described] at hothers
  simp only [attachmentsFor, hothers]

/-- The attachments of a revision are read as they were added, in the order of the bytes of their names, and a copy of them for another revision holds those that are not to be skipped. -/
theorem insertAttachments_round_trip (hdistinct : (attachments.map (·.name)).Nodup) :
    ∃ listed, listed.Perm attachments ∧
      (listed.Pairwise fun left right => Utf8.encode left.name < Utf8.encode right.name) ∧
      (∀ (tables : Tables) (source : Int) (order : List Attachment), (∃ row ∈ tables.revisions, row.sequence = source) →
        tables.described source = [] → order.Perm attachments →
        ∃ inserted, insertAttachments source order tables = .ok () inserted ∧ tables.Describes inserted source listed) ∧
      ∀ (tables : Tables) (source target : Int) (skip : List String) (kept : List Attachment),
        tables.attachmentsFor source = .ok listed → (∃ row ∈ tables.revisions, row.sequence = target) →
        tables.described target = [] → target ≠ source →
        kept = listed.filter (fun attachment => attachment.name ∉ skip) →
        ∃ copied, copyAttachments source target skip tables = .ok kept.length copied ∧
          tables.Describes copied target kept ∧ copied.described source = tables.described source ∧
          copied.attachmentsFor source = .ok listed := by
  have hperm := List.mergeSort_perm attachments fun left right => left.name ≤ right.name
  have hsorted := mergeSort_key_ascending hdistinct
  refine ⟨_, hperm, hsorted, ?_, ?_⟩
  · intro tables source order hthere hnone horder
    have hinsert := insertAttachments_of_bare hthere hnone ((horder.map _).nodup_iff.mpr hdistinct)
    exact ⟨_, hinsert, describes_of_perm hnone (horder.trans hperm.symm) hsorted⟩
  · rintro tables source target skip kept hread hthere hnone hne rfl
    obtain ⟨hcopy, hdescribes⟩ := copyAttachments_of_bare hread hsorted hthere hnone
    exact ⟨_, hcopy, hdescribes, hdescribes.others source hne.symm, (hdescribes.attachmentsFor_eq hne.symm).trans hread⟩

/-- Three attachments with the greatest numbers there are, added in no order and read in that of their bytes; of the copy one is left out. -/
theorem insertAttachments_round_trip_greatest :
    let digest : Digest := ⟨List.replicate 32 0xA0, List.length_replicate⟩
    let script : Attachment := ⟨"Z.sh", "text/x-sh", .gzip, 2 ^ 64 - 1, 2 ^ 63, digest, 2 ^ 64 - 1⟩
    let letter : Attachment := ⟨"a.txt", "text/plain", .plain, 2 ^ 63, 2 ^ 63 - 1, digest, 1⟩
    let picture : Attachment := ⟨"é.png", "image/png", .plain, 0, 2 ^ 64 - 1, digest, 0⟩
    let root : RevisionRow := ⟨1, 1, none, false, false, true, "1-a", Body.empty⟩
    let child : RevisionRow := ⟨2, 1, some 1, true, false, true, "2-b", Body.empty⟩
    let tables : Tables := { documents := [⟨1, "doc"⟩], revisions := [root, child] }
    ([letter, picture, script].map (·.name)).Nodup ∧
      ∃ inserted copied, insertAttachments 1 [picture, script, letter] tables = .ok () inserted ∧
        tables.Describes inserted 1 [script, letter, picture] ∧
        copyAttachments 1 2 ["a.txt"] inserted = .ok 2 copied ∧ inserted.Describes copied 2 [script, picture] ∧
        copied.described 1 = inserted.described 1 := by
  intro digest script letter picture root child tables
  have hdistinct : ([letter, picture, script].map (·.name)).Nodup := by decide +kernel
  obtain ⟨listed, hperm, hsorted, hinsert, hcopy⟩ := insertAttachments_round_trip hdistinct
  have hascending : [script, letter, picture].Pairwise fun left right => Utf8.encode left.name < Utf8.encode right.name := by
    decide +kernel
  have hlisted : listed = [script, letter, picture] := by
    refine (hperm.trans ?_).eq_of_pairwise ?_ hsorted hascending
    · decide +kernel
    · exact fun _ _ _ _ hlt hgt => absurd hlt (List.lt_asymm hgt)
  subst hlisted
  obtain ⟨inserted, hinserted, hdescribes⟩ :=
    hinsert tables 1 [picture, script, letter] ⟨root, List.mem_cons_self, rfl⟩ rfl (by decide +kernel)
  have hchild : ∃ row ∈ inserted.revisions, row.sequence = 2 := by
    rw [hdescribes.rest]
    exact ⟨child, List.mem_cons_of_mem _ List.mem_cons_self, rfl⟩
  obtain ⟨copied, hcopied, hagain, hsame, -⟩ :=
    hcopy inserted 1 2 ["a.txt"] [script, picture] hdescribes.reads hchild (hdescribes.others 2 (by decide)) (by decide)
      (by decide +kernel)
  exact ⟨hdistinct, inserted, copied, hinserted, hdescribes, hcopied, hagain, hsame⟩

end Tables

end RevisionForest
