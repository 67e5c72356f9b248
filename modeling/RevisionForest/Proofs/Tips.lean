import RevisionForest.Proofs.Spared
import RevisionForest.Proofs.Views
/-!
# Leaves after growth

The leaves of a document follow from its rows without their flags (`Tables.tips`). A row below a leaf takes its place among them, behind all others (`Gains.tips_grown`). Which of them is flagged follows from the election: only the winner is, and it is live as long as any leaf is (`Healthy.exists_live_iff`).
-/

namespace RevisionForest

namespace Tables

variable {tables before after : Tables} {doc : String} {rev : RevId} {number : Int} {row leaf bone : RevisionRow}
  {attachments : List AttachmentRow} {revision : Revision}

/-- The leaves of a document, without flags. -/
def tips (tables : Tables) (number : Int) : List RevisionRow :=
  (tables.leafRows number).map (·.bare)

/-- A live leaf of the document has this id. -/
def Live (tables : Tables) (doc : String) (rev : RevId) : Prop :=
  ∃ row, tables.LiveLeaf doc rev row

theorem mem_tips_iff : bone ∈ tables.tips number ↔ ∃ row ∈ tables.leafRows number, row.bare = bone := by
  rw [tips, List.mem_map]

theorem length_tips (tables : Tables) (number : Int) : (tables.tips number).length = (tables.leafRows number).length :=
  List.length_map _

theorem tips_eq (tables : Tables) (number : Int) :
    tables.tips number = tables.bones.filter fun bone =>
      bone.document = number && !tables.bones.any fun child => child.parent = some bone.sequence := by
  rw [tips, leafRows, bones, List.filter_map]
  simp only [Function.comp_def, List.any_map, RevisionRow.bare, isLeaf]

theorem mem_leaves_iff_tip {leaves : List Leaf} {found : Leaf} (h : tables.leaves number = .ok leaves) :
    found ∈ leaves ↔ ∃ bone ∈ tables.tips number, readLeaf bone = .ok found := by
  rw [mem_leaves_iff h]
  constructor
  · rintro ⟨row, hrow, hread⟩
    exact ⟨row.bare, mem_tips_iff.mpr ⟨row, hrow, rfl⟩, hread⟩
  · rintro ⟨_, hbone, hread⟩
    obtain ⟨row, hrow, rfl⟩ := mem_tips_iff.mp hbone
    exact ⟨row, hrow, hread⟩

theorem Crowned.leafRows_eq {leaves : List Leaf} (h : tables.Crowned number) (hleaves : tables.leaves number = .ok leaves) :
    tables.leafRows number = (tables.tips number).map fun bone =>
      { bone with current := (Election.winner? leaves).map (·.sequence) = some bone.sequence } := by
  rw [tips, List.map_map]
  refine ((List.map_congr_left fun row hrow => ?_).trans (List.map_id _)).symm
  obtain ⟨hmem, hdocument, -⟩ := mem_leafRows_iff.mp hrow
  exact h.flag_eq hleaves hmem hdocument

theorem Shape.nodup_tips (shape : tables.Shape) (number : Int) : (tables.tips number).Nodup := by
  rw [tips_eq]
  exact shape.nodup_bones.filter _

/-! ### Growth -/

theorem Gains.tips_eq (h : before.Gains after [] attachments) (number : Int) : after.tips number = before.tips number := by
  rw [Tables.tips_eq, Tables.tips_eq, h.bones, List.append_nil]

/-- A row below a leaf takes its place, behind all other leaves. -/
theorem Gains.tips_grown (h : before.Gains after [bone] attachments) (shape : before.Shape) (shape' : after.Shape)
    (hplace : bone.sequence = before.lastSequence + 1) (hdocument : bone.document = number)
    (hleaf : leaf ∈ before.tips number) (hparent : bone.parent = some leaf.sequence) :
    after.tips number = (before.tips number).erase leaf ++ [bone] := by
  obtain ⟨held, hheld, rfl⟩ := mem_tips_iff.mp hleaf
  have hchildless : (before.bones ++ [bone]).any (fun child => child.parent = some bone.sequence) = false := by
    refine List.any_eq_false.mpr fun child hchild hbelow => ?_
    -- A child is newer than its parent, and this is the newest row.
    rw [← h.bones] at hchild
    obtain ⟨below, hbelow', rfl⟩ := mem_bones_iff.mp hchild
    have hlt := (shape'.parents below hbelow' bone.sequence (of_decide_eq_true hbelow)).1
    rw [h.bones] at hchild
    rcases List.mem_append.mp hchild with hold | hnew
    · obtain ⟨old, hold, hbare⟩ := mem_bones_iff.mp hold
      have hle := sequence_le_lastSequence hold
      have hsame := (RevisionRow.bare_eq_iff.mp hbare).1
      omega
    · have hsame : below.bare.sequence = bone.sequence := congrArg RevisionRow.sequence (List.mem_singleton.mp hnew)
      exact absurd hlt (by rw [← hsame]; exact Int.lt_irrefl _)
  have hother : ∀ other ∈ before.bones, (bone.parent = some other.sequence ↔ other = held.bare) := by
    intro other hmem
    obtain ⟨row, hrow, rfl⟩ := mem_bones_iff.mp hmem
    rw [hparent, Option.some.injEq]
    constructor
    · intro heq
      rw [shape.eq_of_sequence hrow (mem_leafRows_iff.mp hheld).1 heq.symm]
    · intro heq
      exact (congrArg RevisionRow.sequence heq).symm
  rw [(shape.nodup_tips number).erase_eq_filter, Tables.tips_eq after, Tables.tips_eq before, h.bones,
    List.filter_append, List.filter_filter]
  congr 1
  · refine List.filter_congr fun other hmem => ?_
    rw [List.any_append, List.any_cons, List.any_nil, Bool.or_false, Bool.not_or, Bool.eq_iff_iff]
    simp only [Bool.and_eq_true, Bool.not_eq_true', decide_eq_false_iff_not, bne_iff_ne, hother other hmem]
    tauto
  · simp only [List.filter_singleton, hdocument, hchildless]
    rfl

theorem Gains.length_tips (h : before.Gains after [bone] attachments) (shape : before.Shape) (shape' : after.Shape)
    (hplace : bone.sequence = before.lastSequence + 1) (hdocument : bone.document = number)
    (hleaf : leaf ∈ before.tips number) (hparent : bone.parent = some leaf.sequence) :
    (after.tips number).length = (before.tips number).length := by
  have hpositive := List.length_pos_of_mem hleaf
  rw [h.tips_grown shape shape' hplace hdocument hleaf hparent, List.length_append, List.length_singleton,
    List.length_erase_of_mem hleaf]
  omega

/-! ### Live leaves -/

theorem live_iff : tables.Live doc rev ↔
    ∃ number, tables.documentNumber? doc = some number ∧
      ∃ bone ∈ tables.tips number, bone.revText = rev.text ∧ bone.deleted = false := by
  constructor
  · rintro ⟨row, hnumber, hleaf, htext, hlive⟩
    exact ⟨row.document, hnumber, row.bare, mem_tips_iff.mpr ⟨row, hleaf, rfl⟩, htext, hlive⟩
  · rintro ⟨number, hnumber, bone, hbone, htext, hlive⟩
    obtain ⟨row, hrow, rfl⟩ := mem_tips_iff.mp hbone
    obtain ⟨-, rfl, -⟩ := mem_leafRows_iff.mp hrow
    exact ⟨row, hnumber, hrow, htext, hlive⟩

theorem Healthy.liveLeaves_spec (healthy : tables.Healthy) (doc : String) :
    ∃ leaves, tables.leafRevisions doc = .ok leaves ∧
      tables.liveLeaves doc = (leaves.filter fun leaf => !leaf.deleted).map (·.rev) ∧ (tables.liveLeaves doc).Nodup ∧
      ∀ rev, rev ∈ tables.liveLeaves doc ↔ tables.Live doc rev := by
  cases hnumber : tables.documentNumber? doc with
  | none =>
    have hleaves : tables.leafRevisions doc = .ok [] := by rw [leafRevisions, select, hnumber]
    have hnone : tables.liveLeaves doc = [] := by simp only [liveLeaves, hleaves, List.filter_nil, List.map_nil]
    refine ⟨[], hleaves, hnone, hnone ▸ List.nodup_nil, fun rev => ?_⟩
    rw [hnone]
    refine iff_of_false List.not_mem_nil ?_
    rintro ⟨row, hlive⟩
    rw [hlive.number] at hnumber
    cases hnumber
  | some number =>
    obtain ⟨leaves, hleaves, hpairs⟩ := healthy.select_ok hnumber fun row => tables.isLeaf row.sequence
    have hlist : tables.liveLeaves doc = (leaves.filter fun leaf => !leaf.deleted).map (·.rev) := by
      simp only [liveLeaves, leafRevisions, hleaves]
    have hreads : ∀ row revision, row ∈ tables.leafRows number → tables.readRevision doc row = .ok revision →
        row.revText = revision.rev.text ∧ row.deleted = revision.deleted := by
      intro row revision hrow hread
      have hreads := healthy.legible.reads_of_readRevision (mem_leafRows_iff.mp hrow).1 hread
      obtain ⟨_, _, -, -, rfl⟩ := readRevision_ok_iff.mp hread
      exact ⟨hreads.1, rfl⟩
    have htexts : leaves.map (·.rev.text) = (tables.leafRows number).map (·.revText) :=
      (map_eq_of_forall₂ (forall₂_with_mem hpairs) fun row revision hread =>
        (hreads row revision hread.1 hread.2.2).1).symm
    have hnodup : (leaves.map (·.rev)).Nodup := by
      have hdistinct : ((tables.leafRows number).map (·.revText)).Nodup := by
        refine (healthy.shape.nodup.filter _).map_on fun row hrow other hother heq => ?_
        obtain ⟨hmem, hdocument, -⟩ := mem_leafRows_iff.mp hrow
        obtain ⟨hmem', hdocument', -⟩ := mem_leafRows_iff.mp hother
        exact healthy.shape.eq_of_revText hmem hmem' (hdocument.trans hdocument'.symm) heq
      rw [← htexts] at hdistinct
      exact List.Nodup.of_map RevId.text (by rwa [List.map_map])
    refine ⟨leaves, hleaves, hlist, hlist ▸ (List.filter_sublist.map _).nodup hnodup, fun rev => ?_⟩
    rw [hlist, List.mem_map]
    constructor
    · rintro ⟨leaf, hleaf, rfl⟩
      obtain ⟨hmem, hlive⟩ := List.mem_filter.mp hleaf
      obtain ⟨row, hrow, hread⟩ := exists_mem_left hpairs hmem
      obtain ⟨htext, hdeleted⟩ := hreads row leaf hrow hread
      obtain ⟨-, rfl, -⟩ := mem_leafRows_iff.mp hrow
      exact ⟨row, hnumber, hrow, htext, hdeleted.trans (by simpa using hlive)⟩
    · rintro ⟨row, hhome, hrow, htext, hlive⟩
      obtain rfl := Option.some.inj (hnumber.symm.trans hhome)
      obtain ⟨leaf, hleaf, hread⟩ := exists_mem_right hpairs hrow
      obtain ⟨hname, hdeleted⟩ := hreads row leaf hrow hread
      refine ⟨leaf, List.mem_filter.mpr ⟨hleaf, ?_⟩, RevId.text_injective (hname.symm.trans htext)⟩
      rw [← hdeleted, hlive]
      rfl

theorem Healthy.exists_live_iff (healthy : tables.Healthy) :
    (∃ rev, tables.Live doc rev) ↔ ∃ winner, tables.currentRevision doc = .ok (some winner) ∧ winner.deleted = false := by
  constructor
  · rintro ⟨rev, row, hnumber, hrow, -, hlive⟩
    obtain ⟨hmem, -, -⟩ := mem_leafRows_iff.mp hrow
    rcases healthy.flagged row.document with ⟨hnone, -⟩ | ⟨elected, leaves, winner, hflagged, -, hleaves, hwinner, hread⟩
    · exact absurd rfl (hnone row hmem)
    have helected := List.mem_filter.mp (hflagged ▸ List.mem_singleton.mpr rfl : elected ∈ tables.revisions.filter _)
    obtain ⟨hstored, hflag⟩ := helected
    simp only [Bool.and_eq_true, decide_eq_true_eq] at hflag
    obtain ⟨named, hreads⟩ := healthy.legible.revisions elected hstored
    obtain ⟨_, -, hshown⟩ := healthy.legible.readRevision_ok hreads doc
    refine ⟨_, healthy.currentRevision_of_row (hflag.1 ▸ hnumber) hstored hflag.2 hshown, ?_⟩
    show elected.deleted = false
    obtain ⟨leaf, hleaf, hleafRead⟩ := exists_mem_right (mapM_ok_iff.mp hleaves) hrow
    have hleafLive : leaf.deleted = false := (readLeaf_ok_iff.mp hleafRead).2.2.symm.trans hlive
    rw [(readLeaf_ok_iff.mp hread).2.2]
    by_cases heq : leaf = winner
    · exact heq ▸ hleafLive
    · have houtranks := Election.winner?_outranks hwinner (fun other hother hrev =>
        healthy.shape.leaf_unique healthy.legible hleaves hother (Election.winner?_mem hwinner) hrev) hleaf heq
      rcases houtranks with ⟨hwins, -⟩ | ⟨hsame, -⟩
      · exact hwins
      · exact hsame.trans hleafLive
  · rintro ⟨winner, hcurrent, hlive⟩
    cases hnumber : tables.documentNumber? doc with
    | none =>
      simp only [currentRevision, select, hnumber] at hcurrent
      cases hcurrent
    | some number =>
      obtain ⟨row, hrow, rfl, hflag, hread⟩ := currentRevision_ok_some hnumber hcurrent
      obtain ⟨_, _, -, -, rfl⟩ := readRevision_ok_iff.mp hread
      obtain ⟨named, hreads⟩ := healthy.legible.revisions row hrow
      exact ⟨named, row, hnumber, (healthy.crowned row.document).mem_leafRows healthy.shape hrow rfl hflag, hreads.1, hlive⟩

end Tables

end RevisionForest
