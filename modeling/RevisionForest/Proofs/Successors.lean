import RevisionForest.Proofs.Idempotence
import RevisionForest.Proofs.Luggage
import RevisionForest.Proofs.Snapshots
import RevisionForest.Proofs.Spared
import RevisionForest.Proofs.Tips
/-!
# Successors of the winner

An update is made below the live winner. Its revision is live and one generation higher, so it outranks the leaf that outranked all others (`Leaf.Outranks.raise`), and the election that ends the update gives it the flag although nothing else asks for that (`Succession.elected`). The leaf below which it stands is a leaf no more, and all others are read as before (`Succession.leafRevisions_eq`).

What an update attaches is computed twice, once for the derived id and once for the rows that are copied. Both times it is what the winner had, without what is removed or replaced, and what is put (`AttachmentChanges.applied`).
-/

namespace RevisionForest

open Tables

/-- A live leaf of a higher generation than a live one outranks all that this one does. -/
theorem Leaf.Outranks.raise {winner higher other : Leaf} (hlive : winner.deleted = false) (hhigher : higher.deleted = false)
    (hraised : winner.rev.generation < higher.rev.generation) (h : other = winner ∨ winner.Outranks other) :
    higher.Outranks other := by
  rcases h with rfl | ⟨-, hdead⟩ | ⟨hsame, hbelow⟩
  · exact .inr ⟨hhigher.trans hlive.symm, .inl hraised⟩
  · exact .inl ⟨hhigher, hdead⟩
  · refine .inr ⟨hhigher.trans (hlive.symm.trans hsame), .inl ?_⟩
    omega

/-- What is attached to a revision that changes the attachments of another one. -/
def AttachmentChanges.applied (changes : AttachmentChanges) (attached : List Attachment) (generation : Nat) :
    List Attachment :=
  (attached.filter fun attachment =>
    attachment.name ∉ changes.remove ∧ attachment.name ∉ changes.put.map (·.name)) ++ changes.put.map (·.stored generation)

theorem Edit.keptAttachments_applied {parent kept : List Attachment} {changes : AttachmentChanges}
    (h : Edit.keptAttachments parent changes = .ok kept) (generation : Nat) :
    kept ++ changes.put.map (·.stored generation) = changes.applied parent generation := by
  rw [Edit.keptAttachments_ok h, AttachmentChanges.applied]
  congr 1
  refine List.filter_congr fun attachment _ => ?_
  rw [Bool.eq_iff_iff, Bool.not_eq_true', List.contains_eq_mem, decide_eq_false_iff_not, decide_eq_true_eq,
    List.mem_append, not_or]

theorem Edit.keptAttachments_removed {parent kept : List Attachment} {changes : AttachmentChanges}
    (h : Edit.keptAttachments parent changes = .ok kept) :
    ∀ name ∈ changes.remove, ∃ attachment ∈ parent, attachment.name = name := by
  unfold Edit.keptAttachments at h
  split at h
  · cases h
  · rename_i hnone
    intro name hname
    have hfound := List.find?_eq_none.mp hnone name hname
    simpa using hfound

namespace Tables

variable {tables before after : Tables} {doc : String} {expected rev : RevId} {number : Int}
  {row bone other : RevisionRow} {attachments : List Attachment} {revision : Revision}

theorem Crowned.flag_unique (h : tables.Crowned number) (shape : tables.Shape) (hrow : row ∈ tables.revisions)
    (hhome : row.document = number) (hcurrent : row.current = true) (hother : other ∈ tables.revisions)
    (hhome' : other.document = number) (hcurrent' : other.current = true) : other = row := by
  obtain ⟨leaves, -, hflags⟩ := h
  have hplace := (hflags row hrow hhome).mp hcurrent
  have hplace' := (hflags other hother hhome').mp hcurrent'
  exact shape.eq_of_sequence hother hrow (Option.some.inj (hplace'.symm.trans hplace))

theorem attachmentsFor_congr {sequence : Int} (h : after.described sequence = before.described sequence) :
    after.attachmentsFor sequence = before.attachmentsFor sequence := by
  rw [described, described] at h
  simp only [attachmentsFor, h]

/-- The live winner of a document got a live child of the next generation, with some attachments. -/
structure Succession (before after : Tables) (number : Int) (expected : RevId) (row bone : RevisionRow) (rev : RevId)
    (attachments : List Attachment) : Prop where
  healthy : before.Healthy
  healthy' : after.Healthy
  leaf : row ∈ before.leafRows number
  text : row.revText = expected.text
  current : row.current = true
  live : row.deleted = false
  home : bone.document = number
  bare : bone.bare = bone
  place : bone.sequence = before.lastSequence + 1
  parent : bone.parent = some row.sequence
  named : bone.revText = rev.text
  raised : rev.generation = expected.generation + 1
  alive : bone.deleted = false
  gains : before.Gains after [bone] (attachments.map (attachmentRow bone.sequence))

namespace Succession

variable (h : before.Succession after number expected row bone rev attachments)

include h

theorem tips_eq : after.tips number = (before.tips number).erase row.bare ++ [bone] :=
  h.gains.tips_grown h.healthy.shape h.healthy'.shape h.place h.home (mem_tips_iff.mpr ⟨row, h.leaf, rfl⟩) h.parent

theorem kept_eq : (before.tips number).erase row.bare = (before.leafRows number).erase row := by
  have hnodup := h.healthy.shape.nodup.filter fun row => row.document = number && before.isLeaf row.sequence
  have hmem := mem_leafRows_iff.mp h.leaf
  have hdifferent : ∀ other ∈ before.leafRows number, (other.bare != row.bare) = (other != row) := by
    intro other hother
    rw [Bool.eq_iff_iff, bne_iff_ne, bne_iff_ne, not_iff_not]
    constructor
    · intro hbare
      exact h.healthy.shape.eq_of_sequence (mem_leafRows_iff.mp hother).1 hmem.1 (RevisionRow.bare_eq_iff.mp hbare).1
    · exact congrArg RevisionRow.bare
  rw [(h.healthy.shape.nodup_tips number).erase_eq_filter, tips, List.filter_map,
    List.Nodup.erase_eq_filter (l := before.leafRows number) hnodup]
  simp only [Function.comp_def]
  rw [List.filter_congr hdifferent]
  refine (List.map_congr_left fun other hother => ?_).trans (List.map_id _)
  obtain ⟨hleaf, hne⟩ := List.mem_filter.mp hother
  obtain ⟨hstored, hhome, -⟩ := mem_leafRows_iff.mp hleaf
  have hunflagged : other.current = false := by
    rw [Bool.eq_false_iff]
    intro hcurrent
    have hsame := (h.healthy.crowned number).flag_unique h.healthy.shape hmem.1 hmem.2.1 h.current hstored hhome hcurrent
    exact bne_iff_ne.mp hne hsame
  show { other with current := false } = other
  rw [← hunflagged]

theorem elected : ∃ leaves, after.leaves number = .ok leaves ∧
    Election.winner? leaves = some ⟨bone.sequence, rev, false⟩ := by
  obtain ⟨hmem, hhome, -⟩ := mem_leafRows_iff.mp h.leaf
  obtain ⟨leaves, hleaves, hwinner⟩ := (h.healthy.crowned number).winner_of_flag h.healthy.shape hmem hhome h.current
    (h.healthy.legible.reads hmem h.text)
  obtain ⟨leaves', hleaves', -⟩ := h.healthy'.crowned number
  have htip : bone ∈ after.tips number := h.tips_eq ▸ List.mem_append_right _ (List.mem_singleton.mpr rfl)
  have hchild : readLeaf bone = .ok ⟨bone.sequence, rev, false⟩ := by
    obtain ⟨child, hchild, rfl⟩ := mem_tips_iff.mp htip
    have hreads : child.Reads rev := h.healthy'.legible.reads (mem_leafRows_iff.mp hchild).1 h.named
    rw [← h.alive]
    exact readLeaf_of_reads hreads
  refine ⟨leaves', hleaves', Election.winner?_eq_some ((mem_leaves_iff_tip hleaves').mpr ⟨bone, htip, hchild⟩) ?_⟩
  intro leaf hleaf hne
  have hraised : expected.generation < rev.generation := by
    rw [h.raised]
    exact Nat.lt_succ_self _
  rw [Leaf.rank_eq_lt_iff]
  suffices hwas : leaf = ⟨row.sequence, expected, row.deleted⟩
      ∨ Leaf.Outranks ⟨row.sequence, expected, row.deleted⟩ leaf from Leaf.Outranks.raise h.live rfl hraised hwas
  obtain ⟨tip, hleafTip, hread⟩ := (mem_leaves_iff_tip hleaves').mp hleaf
  rw [h.tips_eq] at hleafTip
  rcases List.mem_append.mp hleafTip with hold | hnew
  · -- A leaf other than the child was one before, and the old winner outranked it.
    have hthere : leaf ∈ leaves := (mem_leaves_iff_tip hleaves).mpr ⟨tip, List.mem_of_mem_erase hold, hread⟩
    by_cases hwins : leaf = ⟨row.sequence, expected, row.deleted⟩
    · exact .inl hwins
    · refine .inr (Election.winner?_outranks hwinner (fun other hother hrev => ?_) hthere hwins)
      exact h.healthy.shape.leaf_unique h.healthy.legible hleaves hother (Election.winner?_mem hwinner) hrev
  · rw [List.mem_singleton.mp hnew, hchild] at hread
    exact absurd (Except.ok.inj hread).symm hne

theorem leafRows_eq : after.leafRows number = (before.leafRows number).erase row ++ [{ bone with current := true }] := by
  obtain ⟨leaves, hleaves, hwinner⟩ := h.elected
  rw [(h.healthy'.crowned number).leafRows_eq hleaves, h.tips_eq, h.kept_eq, hwinner, List.map_append, List.map_singleton,
    Option.map_some]
  congr 1
  · refine (List.map_congr_left fun other hother => ?_).trans (List.map_id _)
    -- An old row is not at the new place.
    have hbare : other ∈ before.tips number := List.mem_of_mem_erase (h.kept_eq ▸ hother)
    obtain ⟨old, hold, rfl⟩ := mem_tips_iff.mp hbare
    have hle := sequence_le_lastSequence (mem_leafRows_iff.mp hold).1
    have hne : ¬some bone.sequence = some old.bare.sequence := by
      rw [Option.some.injEq, h.place]
      show ¬before.lastSequence + 1 = old.sequence
      omega
    show { old.bare with current := decide (some bone.sequence = some old.bare.sequence) } = old.bare
    rw [decide_eq_false hne]
    rfl
  · rw [decide_eq_true rfl]

theorem shown (hnumber : before.documentNumber? doc = some number) :
    ∃ listed, listed.Perm attachments ∧
      let child : Revision :=
        ⟨doc, number, rev, bone.sequence, some row.sequence, false, true, bone.available, bone.body, listed⟩
      after.readRevision doc { bone with current := true } = .ok child ∧ after.Has child ∧
        after.currentRevision doc = .ok (some child) := by
  have hrow : { bone with current := true } ∈ after.revisions := by
    have hleaf : { bone with current := true } ∈ after.leafRows number :=
      h.leafRows_eq ▸ List.mem_append_right _ (List.mem_singleton.mpr rfl)
    exact (mem_leafRows_iff.mp hleaf).1
  have hnumber' : after.documentNumber? doc = some ({ bone with current := true } : RevisionRow).document :=
    (h.gains.documentNumber? doc).trans (hnumber.trans (congrArg some h.home.symm))
  have hdescribed := h.healthy.shape.described_fresh (by rw [h.place]; omega) h.gains.attachments
  obtain ⟨listed, hlisted, hperm⟩ := attachmentsFor_perm hdescribed
  have hreads := h.healthy'.legible.reads hrow h.named
  have hread : after.readRevision doc { bone with current := true }
      = .ok ⟨doc, number, rev, bone.sequence, some row.sequence, false, true, bone.available, bone.body, listed⟩ := by
    refine readRevision_ok_iff.mpr ⟨listed, rev, hlisted, ?_, ?_⟩
    · rw [h.named, RevId.parse_text hreads.2]
    · rw [h.home, h.parent, h.alive]
  exact ⟨listed, hperm, hread, h.healthy'.getRevision_of_row hnumber' hrow h.named hread,
    h.healthy'.currentRevision_of_row hnumber' hrow rfl hread⟩

theorem read_kept {leaf : Revision} (hother : other ∈ before.revisions) (hread : before.readRevision doc other = .ok leaf) :
    after.readRevision doc other = .ok leaf := by
  have hle := sequence_le_lastSequence hother
  have hsame := attachmentsFor_congr (h.gains.described_of_ne (show other.sequence ≠ bone.sequence by
    rw [h.place]
    omega))
  rw [readRevision_ok_iff] at hread ⊢
  rwa [hsame]

theorem rev_eq_iff {leaf : Revision} (hother : other ∈ before.leafRows number)
    (hread : before.readRevision doc other = .ok leaf) : leaf.rev = expected ↔ other = row := by
  obtain ⟨hstored, hplace, -⟩ := mem_leafRows_iff.mp hother
  obtain ⟨hmem, hhome, -⟩ := mem_leafRows_iff.mp h.leaf
  have hreads := h.healthy.legible.reads_of_readRevision hstored hread
  constructor
  · intro hrev
    rw [hrev] at hreads
    exact h.healthy.shape.eq_of_revText hstored hmem (hplace.trans hhome.symm) (hreads.1.trans h.text.symm)
  · rintro rfl
    exact RevId.text_injective (hreads.1.symm.trans h.text)

theorem leafRevisions_eq (hnumber : before.documentNumber? doc = some number) {child : Revision}
    (hchild : after.readRevision doc { bone with current := true } = .ok child) :
    ∃ leaves, before.leafRevisions doc = .ok leaves ∧
      List.Forall₂ (fun row leaf => before.readRevision doc row = .ok leaf) (before.leafRows number) leaves ∧
      after.leafRevisions doc = .ok (leaves.filter (fun leaf => leaf.rev ≠ expected) ++ [child]) := by
  obtain ⟨leaves, hleaves, hpairs⟩ := h.healthy.select_ok hnumber fun row => before.isLeaf row.sequence
  have hpairs : List.Forall₂ (fun row leaf => before.readRevision doc row = .ok leaf) (before.leafRows number) leaves :=
    hpairs
  have hnodup : (before.leafRows number).Nodup := h.healthy.shape.nodup.filter _
  have hkept : List.Forall₂ (fun row leaf => after.readRevision doc row = .ok leaf) ((before.leafRows number).erase row)
      (leaves.filter fun leaf => leaf.rev ≠ expected) := by
    rw [hnodup.erase_eq_filter]
    refine (filter_rel (forall₂_with_mem hpairs) fun other leaf hread => ?_).imp fun other leaf hread => ?_
    · rw [Bool.eq_iff_iff, bne_iff_ne, decide_eq_true_eq, not_iff_not]
      exact (h.rev_eq_iff hread.1 hread.2.2).symm
    · exact h.read_kept (mem_leafRows_iff.mp hread.1).1 hread.2.2
  have hall : List.Forall₂ (fun row leaf => after.readRevision doc row = .ok leaf)
      ((before.leafRows number).erase row ++ [{ bone with current := true }])
      (leaves.filter (fun leaf => leaf.rev ≠ expected) ++ [child]) := List.rel_append hkept (.cons hchild .nil)
  rw [← h.leafRows_eq] at hall
  have hnumber' : after.documentNumber? doc = some number := (h.gains.documentNumber? doc).trans hnumber
  refine ⟨leaves, hleaves, hpairs, ?_⟩
  simp only [leafRevisions, select, hnumber']
  exact mapM_ok_iff.mpr hall

end Succession

end Tables

/-! ### Updates -/

/-- An update is made of the live winner, and adds its successor unless the derived id is there already. -/
theorem Edit.update_succession {draft draft' : Draft} {doc : String} {expected : RevId} {body : Bytes}
    {changes : AttachmentChanges} {revision : Revision} (healthy : draft.tables.Healthy)
    (h : Edit.update doc expected body changes draft = .ok revision draft') :
    ∃ row parent, (draft.tables.documentNumber? doc = some row.document ∧ row ∈ draft.tables.revisions ∧
        row.current = true ∧ draft.tables.readRevision doc row = .ok parent) ∧
      (parent.rev = expected ∧ parent.deleted = false ∧
        ∀ name ∈ changes.remove, ∃ attachment ∈ parent.attachments, attachment.name = name) ∧
      let attached := changes.applied parent.attachments (expected.generation + 1)
      let child : NewRevision := ⟨row.document, revision.rev, some row.sequence, false, true, true, body⟩
      revision.rev = RevId.derive (some expected) false body (Attachment.digests attached) ∧
      (¬draft.tables.Knows doc revision.rev → draft.tables.Succession draft'.tables row.document expected row
        (child.row (draft.tables.lastSequence + 1)).bare revision.rev attached) := by
  obtain ⟨number, row, attachments, kept, ⟨hnumber, hleaf, htext, ⟨hcurrent, hlive⟩, hattachments, hkept⟩, healthy', -,
    hderives⟩ := update_effect healthy h
  obtain ⟨hmem, rfl, -⟩ := mem_leafRows_iff.mp hleaf
  have hreads := healthy.legible.reads hmem htext
  have hread : draft.tables.readRevision doc row = .ok ⟨doc, row.document, expected, row.sequence, row.parent, row.deleted,
      row.current, row.available, row.body, attachments⟩ :=
    readRevision_ok_iff.mpr ⟨attachments, expected, hattachments, htext ▸ RevId.parse_text hreads.2, rfl⟩
  have hrev := hderives.rev_eq
  rw [keptAttachments_applied hkept] at hderives hrev
  refine ⟨row, _, ⟨hnumber, hmem, hcurrent, hread⟩, ⟨rfl, hlive, keptAttachments_removed hkept⟩, hrev, fun hfresh => ?_⟩
  rw [hrev] at hfresh ⊢
  cases hderives with
  | stored _ hfound =>
    exact absurd ((knows_iff_of_number hnumber).mpr (Option.isSome_iff_exists.mpr ⟨_, hfound⟩)) hfresh
  | grown _ hgains =>
    exact {
      healthy := healthy
      healthy' := healthy'
      leaf := hleaf
      text := htext
      current := hcurrent
      live := hlive
      home := rfl
      bare := rfl
      place := rfl
      parent := rfl
      named := rfl
      raised := rfl
      alive := rfl
      gains := hgains }

namespace Store

variable {store after : Store} {doc : String} {expected : RevId} {body : Bytes} {changes : AttachmentChanges}
  {revision : Revision}

/-- An update is made of the live winner and adds, unless the derived id is there already, a live child that wins and takes its place among the leaves. -/
theorem Onward.update_succeeds {config : Config} {blobs : BlobStore} (h : (openWith config blobs).Onward store)
    (hupdate : update doc expected body changes store = .ok revision after) :
    let before := store.writer.database.tables
    let sequence := before.lastSequence + 1
    ∃ parent, store.read doc none = .ok parent ∧ parent.rev = expected ∧ parent.deleted = false ∧
      (∀ name ∈ changes.remove, ∃ attachment ∈ parent.attachments, attachment.name = name) ∧
      let attached := changes.applied parent.attachments (expected.generation + 1)
      let child : NewRevision := ⟨parent.number, revision.rev, some parent.sequence, false, true, true, body⟩
      revision.rev = RevId.derive (some expected) false body (Attachment.digests attached) ∧
      (¬before.Knows doc revision.rev →
        before.Gains after.writer.database.tables [(child.row sequence).bare] (attached.map (attachmentRow sequence)) ∧
        revision.rev.generation = expected.generation + 1 ∧
        (∃ attachments, attachments.Perm attached ∧ revision = ⟨doc, parent.number, revision.rev, sequence,
          some parent.sequence, false, true, true, body, attachments⟩) ∧
        after.read doc (some revision.rev) = .ok revision ∧ after.read doc none = .ok revision ∧
        (∃ leaves, store.leaves doc = .ok leaves ∧ parent ∈ leaves ∧
          after.leaves doc = .ok (leaves.filter (fun leaf => leaf.rev ≠ expected) ++ [revision])) ∧
        ∀ other, other ≠ doc → before.Spares other after.writer.database.tables) := by
  intro before sequence
  obtain ⟨-, healthy, -⟩ := h.preserved rfl healthy_empty
  obtain ⟨hopen, writer, hwriter, -, rfl⟩ := execute_ok_iff.mp hupdate
  have hopen' : ({ store with writer } : Store).closed = false := hopen
  obtain ⟨draft, hwork, htables⟩ := Action.update_ok hwriter
  obtain ⟨hhas, hhome⟩ := Edit.update_has healthy hwork
  obtain ⟨row, parent, ⟨hnumber, hrow, hcurrent, hread⟩, ⟨hrev, hlive, hremoved⟩, hderived, hgrown⟩ :=
    Edit.update_succession healthy hwork
  have hwinner := (read_winner_iff hopen).mpr (healthy.currentRevision_of_row hnumber hrow hcurrent hread)
  refine ⟨parent, hwinner, hrev, hlive, hremoved, hderived, fun hfresh => ?_⟩
  have hsuccession := hgrown hfresh
  rw [← htables] at hhas hsuccession
  obtain ⟨listed, hperm, hchild, hstored, hshown⟩ := hsuccession.shown hnumber
  have hanswer := hhas.unique hstored hhome.symm rfl
  rw [hanswer] at hchild hshown
  obtain ⟨leaves, hleaves, hpairs, hafter⟩ := hsuccession.leafRevisions_eq hnumber hchild
  obtain ⟨leaf, hleaf, hsame⟩ := exists_mem_right hpairs hsuccession.leaf
  obtain rfl := Except.ok.inj (hread.symm.trans hsame)
  obtain ⟨_, _, -, -, rfl⟩ := readRevision_ok_iff.mp hread
  refine ⟨hsuccession.gains, hsuccession.raised, ⟨listed, hperm, hanswer.symm⟩, ?_,
    (read_winner_iff hopen').mpr hshown, ⟨leaves, ?_, hleaf, ?_⟩, fun other hne => ?_⟩
  · rw [← hhome]
    exact (read_iff hopen').mpr hhas
  · exact leaves_of_ne_nil hopen hleaves (List.ne_nil_of_mem hleaf)
  · exact leaves_of_ne_nil hopen' hafter (List.append_ne_nil_of_right_ne_nil _ (List.cons_ne_nil _ _))
  · exact htables ▸ (Edit.update_spares healthy hne.symm hwork).1

/-- The winner of a conflict is updated, with an attachment that is named both times. -/
theorem update_succeeds_conflict :
    let loser : RevId := ⟨1, "a", by decide, by decide⟩
    let winner : RevId := ⟨1, "b", by decide, by decide⟩
    let items : List Graft := [{ doc := "d", history := [loser], body := some Body.empty },
      { doc := "d", history := [winner], body := some Body.empty, attachments := [.plain "x" "text/plain" [1]] }]
    let store := stateAfter (graftAll items) (new {})
    let packed : NewAttachment := .plain "x" "text/plain" [2]
    ∃ revision after, update "d" winner Body.empty ⟨[packed], ["x"]⟩ store = .ok revision after ∧
      after.read "d" none = .ok revision ∧ revision.rev.generation = 2 ∧ revision.attachments = [packed.stored 2] ∧
      ∃ leaves, after.leaves "d" = .ok leaves ∧ leaves.map (·.rev) = [loser, revision.rev] := by
  intro loser winner items store packed
  have hstart : (openWith {} {}).Onward store := .graftAll items .start
  have hsucceeds : ((update "d" winner Body.empty ⟨[packed], ["x"]⟩).run' store).any (fun revision =>
      !decide (store.writer.database.tables.Knows "d" revision.rev)) = true := by decide +kernel
  have hshown : (store.read "d" none).map (·.attachments) = .ok [NewAttachment.stored (.plain "x" "text/plain" [1]) 1] := by
    decide +kernel
  have hbefore : (store.leaves "d").map (·.map (·.rev)) = .ok [loser, winner] := by decide +kernel
  cases hupdate : update "d" winner Body.empty ⟨[packed], ["x"]⟩ store with
  | error error after =>
    rw [run'_of_error hupdate] at hsucceeds
    cases hsucceeds
  | ok revision after =>
    rw [run'_of_ok hupdate, Option.any_some, Bool.not_eq_true', decide_eq_false_iff_not] at hsucceeds
    obtain ⟨parent, hparent, -, -, -, -, hgrown⟩ := hstart.update_succeeds hupdate
    obtain ⟨-, hraised, ⟨attachments, hperm, hrevision⟩, -, hread, ⟨leaves, hleaves, -, hafter⟩, -⟩ := hgrown hsucceeds
    rw [hparent] at hshown
    rw [hleaves] at hbefore
    have hold : parent.attachments = [NewAttachment.stored (.plain "x" "text/plain" [1]) 1] := Except.ok.inj hshown
    have hrevs : leaves.map (·.rev) = [loser, winner] := Except.ok.inj hbefore
    rw [hold] at hperm
    have hattached : revision.attachments = attachments := by rw [hrevision]
    refine ⟨revision, after, rfl, hread, hraised, hattached.trans (List.perm_singleton.mp hperm), _, hafter, ?_⟩
    rw [List.map_append, List.map_singleton]
    have hkept : (leaves.filter fun leaf => leaf.rev ≠ winner).map (·.rev)
        = (leaves.map (·.rev)).filter (· ≠ winner) := by
      rw [List.filter_map]
      rfl
    rw [hkept, hrevs]
    rfl

end Store

end RevisionForest
