import RevisionForest.Proofs.Derivations
import RevisionForest.Proofs.Refusals
/-!
# Tombstones

A deletion puts a tombstone in the place of a live leaf, behind all other leaves, and hands it the flag of the leaf. An election follows only if that flag was set. Both ways the flag ends where an election over all leaves would put it, on the leaf that outranks all others (`Foremost`): a tombstone outranks no live leaf, so as long as the winner is not the one deleted it stays the foremost of the leaves, and otherwise the foremost of the live leaves that remain takes over. When none remains, the foremost of all tombstones does, and a tombstone on a longer branch may come before the new one.
-/

namespace RevisionForest

open Tables

/-! ### The foremost of some revisions -/

/-- What the election looks at of a revision. -/
def Revision.leaf (revision : Revision) : Leaf :=
  ⟨revision.sequence, revision.rev, revision.deleted⟩

theorem Leaf.Outranks.asymm {better worse : Leaf} (h : better.Outranks worse) : ¬worse.Outranks better := by
  intro hback
  rw [← Leaf.rank_eq_lt_iff] at h hback
  have hgt := Std.OrientedCmp.gt_iff_lt.mpr h
  rw [hback] at hgt
  nomatch hgt

/-- One of some revisions that outranks all others. -/
structure Foremost (revisions : List Revision) (best : Revision) : Prop where
  mem : best ∈ revisions
  outranks : ∀ other ∈ revisions, other = best ∨ best.leaf.Outranks other.leaf

namespace Foremost

variable {revisions : List Revision} {best other : Revision}

theorem unique (h : Foremost revisions best) (hother : Foremost revisions other) : other = best := by
  rcases h.outranks other hother.mem with heq | hbelow
  · exact heq
  · rcases hother.outranks best h.mem with heq | habove
    · exact heq.symm
    · exact absurd habove hbelow.asymm

theorem live (h : Foremost revisions best) (hother : other ∈ revisions) (hlive : other.deleted = false) :
    best.deleted = false := by
  rcases h.outranks other hother with rfl | ⟨hbest, -⟩ | ⟨hsame, -⟩
  · exact hlive
  · exact hbest
  · exact hsame.trans hlive

end Foremost

/-- A leaf with the flag that it has when another one is the winner. -/
def Revision.below (winner leaf : Revision) : Revision :=
  { leaf with current := decide (leaf.rev = winner.rev) }

/-- The leaves of a document when a tombstone has taken the place of one of them. -/
def entombed (leaves : List Revision) (rev : RevId) (tombstone heir : Revision) : List Revision :=
  ((leaves.filter fun leaf => leaf.rev ≠ rev).map heir.below) ++ [tombstone]

/-- Who wins when a tombstone has taken the place of a leaf. -/
structure Inherits (leaves : List Revision) (rev : RevId) (tombstone winner heir : Revision) : Prop where
  /-- A winner that was not deleted stays the winner. -/
  kept : winner.rev ≠ rev → heir = winner
  /-- As long as another leaf is live, the foremost of these follows. -/
  live : winner.rev = rev → (∃ leaf ∈ leaves, leaf.rev ≠ rev ∧ leaf.deleted = false) →
    ∃ next, Foremost (leaves.filter fun leaf => leaf.rev ≠ rev && !leaf.deleted) next ∧ heir = { next with current := true }
  /-- Otherwise all leaves are tombstones, and the foremost of them follows, be it the new one or not. -/
  dead : winner.rev = rev → (∀ leaf ∈ leaves, leaf.rev ≠ rev → leaf.deleted = true) →
    (∀ leaf ∈ entombed leaves rev tombstone heir, leaf.deleted = true) ∧
      Foremost (entombed leaves rev tombstone heir) heir

section Heirs

variable {leaves : List Revision} {rev : RevId} {winner heir target tombstone : Revision}

theorem mem_entombed_iff {leaf : Revision} :
    leaf ∈ entombed leaves rev tombstone heir ↔
      (∃ old ∈ leaves, old.rev ≠ rev ∧ heir.below old = leaf) ∨ leaf = tombstone := by
  simp [entombed, and_assoc]

theorem heir_of_loser (hwas : Foremost leaves winner) (hflag : winner.current = true)
    (his : Foremost (entombed leaves rev tombstone heir) heir) (htarget : target ∈ leaves)
    (hlive : target.deleted = false) (hdead : tombstone.deleted = true) (hne : winner.rev ≠ rev) : heir = winner := by
  have hstays : Foremost (entombed leaves rev tombstone heir) (heir.below winner) := by
    refine ⟨mem_entombed_iff.mpr (.inl ⟨winner, hwas.mem, hne, rfl⟩), fun leaf hleaf => ?_⟩
    rcases mem_entombed_iff.mp hleaf with ⟨old, hold, -, rfl⟩ | rfl
    · rcases hwas.outranks old hold with rfl | hbelow
      · exact .inl rfl
      · exact .inr hbelow
    · exact .inr (.inl ⟨hwas.live htarget hlive, hdead⟩)
  have hsame : heir = heir.below winner := hstays.unique his
  have hrev : winner.rev = heir.rev := (congrArg Revision.rev hsame).symm
  rw [hsame, Revision.below, decide_eq_true hrev, ← hflag]

/-- The foremost of all leaves is live if any is, and then it is the foremost of the live ones. -/
theorem heir_of_live (his : Foremost (entombed leaves rev tombstone heir) heir)
    (hdistinct : ∀ leaf ∈ leaves, ∀ other ∈ leaves, leaf.rev = other.rev → leaf = other)
    (hdead : tombstone.deleted = true) (hother : ∃ leaf ∈ leaves, leaf.rev ≠ rev ∧ leaf.deleted = false) :
    ∃ next, Foremost (leaves.filter fun leaf => leaf.rev ≠ rev && !leaf.deleted) next ∧
      heir = { next with current := true } := by
  obtain ⟨other, hmem, hne, halive⟩ := hother
  have hheir : heir.deleted = false := his.live (mem_entombed_iff.mpr (.inl ⟨other, hmem, hne, rfl⟩)) halive
  rcases mem_entombed_iff.mp his.mem with ⟨next, hnext, hstays, hsame⟩ | rfl
  · have hrev : next.rev = heir.rev := by
      rw [← hsame]
      rfl
    have halive' : next.deleted = false := by
      rw [← hsame] at hheir
      exact hheir
    refine ⟨next, ⟨List.mem_filter.mpr ⟨hnext, by simp [hstays, halive']⟩, fun leaf hleaf => ?_⟩, ?_⟩
    · obtain ⟨hleaf, htest⟩ := List.mem_filter.mp hleaf
      simp only [ne_eq, decide_not, Bool.and_eq_true, Bool.not_eq_true', decide_eq_false_iff_not] at htest
      rcases his.outranks (heir.below leaf) (mem_entombed_iff.mpr (.inl ⟨leaf, hleaf, htest.1, rfl⟩)) with heq | hbelow
      · have hsameRev : leaf.rev = heir.rev := by
          rw [← heq]
          rfl
        exact .inl (hdistinct leaf hleaf next hnext (hsameRev.trans hrev.symm))
      · rw [← hsame] at hbelow
        exact .inr hbelow
    · rw [← decide_eq_true hrev]
      exact hsame.symm
  · rw [hdead] at hheir
    nomatch hheir

theorem entombed_dead (hdead : tombstone.deleted = true)
    (hnone : ∀ leaf ∈ leaves, leaf.rev ≠ rev → leaf.deleted = true) :
    ∀ leaf ∈ entombed leaves rev tombstone heir, leaf.deleted = true := by
  intro leaf hleaf
  rcases mem_entombed_iff.mp hleaf with ⟨old, hold, hne, rfl⟩ | rfl
  · exact hnone old hold hne
  · exact hdead

theorem Foremost.inherits (his : Foremost (entombed leaves rev tombstone heir) heir) (hwas : Foremost leaves winner)
    (hflag : winner.current = true)
    (hdistinct : ∀ leaf ∈ leaves, ∀ other ∈ leaves, leaf.rev = other.rev → leaf = other) (htarget : target ∈ leaves)
    (hlive : target.deleted = false) (hdead : tombstone.deleted = true) : Inherits leaves rev tombstone winner heir where
  kept := heir_of_loser hwas hflag his htarget hlive hdead
  live := fun _ hother => heir_of_live his hdistinct hdead hother
  dead := fun _ hnone => ⟨entombed_dead hdead hnone, his⟩

theorem entombed_live (hdead : tombstone.deleted = true) :
    ((entombed leaves rev tombstone heir).filter fun leaf => !leaf.deleted).map (·.rev)
      = ((leaves.filter fun leaf => !leaf.deleted).map (·.rev)).filter (· ≠ rev) := by
  have hnone : [tombstone].filter (fun leaf => !leaf.deleted) = [] := by simp [hdead]
  rw [entombed, List.filter_append, hnone, List.append_nil, List.filter_map, List.filter_map, List.map_map,
    List.filter_filter, List.filter_filter]
  exact congrArg (List.map _) (List.filter_congr fun leaf _ => Bool.and_comm _ _)

end Heirs

namespace Tables

variable {tables before after : Tables} {doc : String} {rev : RevId} {number : Int} {row : RevisionRow}
  {leaves bares : List Revision} {winner revision : Revision}

/-! ### Leaves and their winner -/

theorem readLeaf_of_readRevision (h : tables.readRevision doc row = .ok revision) : readLeaf row = .ok revision.leaf := by
  obtain ⟨_, _, -, hparse, rfl⟩ := readRevision_ok_iff.mp h
  exact readLeaf_ok_iff.mpr ⟨hparse, rfl, rfl⟩

theorem Healthy.foremost (healthy : tables.Healthy) (hnumber : tables.documentNumber? doc = some number)
    (hleaves : tables.leafRevisions doc = .ok leaves) (hne : leaves ≠ []) :
    ∃ winner, tables.currentRevision doc = .ok (some winner) ∧ winner.current = true ∧ Foremost leaves winner := by
  have hpairs : List.Forall₂ (fun row leaf => tables.readRevision doc row = .ok leaf) (tables.leafRows number) leaves :=
    Tables.select_ok hnumber hleaves
  obtain ⟨first, hfirst⟩ := List.exists_mem_of_ne_nil leaves hne
  obtain ⟨row, hrow, -⟩ := exists_mem_left hpairs hfirst
  rcases healthy.flagged number with ⟨hnone, -⟩ | ⟨elected, entries, entry, hflagged, helected, hentries, hwins, hentry⟩
  · exact absurd (mem_leafRows_iff.mp hrow).2.1 (hnone row (mem_leafRows_iff.mp hrow).1)
  obtain ⟨hstored, hflag⟩ := List.mem_filter.mp (hflagged ▸ List.mem_singleton.mpr rfl : elected ∈ tables.revisions.filter _)
  simp only [Bool.and_eq_true, decide_eq_true_eq] at hflag
  obtain ⟨winner, hwinner, hread⟩ := exists_mem_right hpairs helected
  obtain rfl := Except.ok.inj (hentry.symm.trans (readLeaf_of_readRevision hread))
  refine ⟨winner, healthy.currentRevision_of_row (hflag.1.symm ▸ hnumber) hstored hflag.2 hread, ?_, hwinner,
    fun other hother => ?_⟩
  · obtain ⟨_, _, -, -, rfl⟩ := readRevision_ok_iff.mp hread
    exact hflag.2
  · obtain ⟨held, hheld, hshown⟩ := exists_mem_left hpairs hother
    have hplain := readLeaf_of_readRevision hshown
    by_cases hsame : other.leaf = winner.leaf
    · -- What is at the same place was read from the same row.
      have hplace : held.sequence = elected.sequence := by
        rw [(readLeaf_ok_iff.mp hplain).2.1, hsame, (readLeaf_ok_iff.mp hentry).2.1]
      obtain rfl := healthy.shape.eq_of_sequence (mem_leafRows_iff.mp hheld).1 hstored hplace
      exact .inl (Except.ok.inj (hshown.symm.trans hread))
    · refine .inr (Election.winner?_outranks hwins (fun leaf hleaf hrev => ?_) ((mem_leaves_iff hentries).mpr
        ⟨held, hheld, hplain⟩) hsame)
      exact healthy.shape.leaf_unique healthy.legible hentries hleaf (Election.winner?_mem hwins) hrev

theorem Healthy.leafRevisions_of_tips (healthy : tables.Healthy) (hnumber : tables.documentNumber? doc = some number)
    (hwinner : tables.currentRevision doc = .ok (some winner))
    (hbares : List.Forall₂ (fun bone bare => tables.readRevision doc bone = .ok bare) (tables.tips number) bares) :
    tables.leafRevisions doc = .ok (bares.map winner.below) := by
  rw [tips, List.forall₂_map_left_iff] at hbares
  simp only [leafRevisions, select, hnumber]
  refine mapM_ok_iff.mpr (List.forall₂_map_right_iff.mpr ((forall₂_with_mem hbares).imp fun row bare hread => ?_))
  obtain ⟨hrow, -, hread⟩ := hread
  obtain ⟨hstored, rfl, -⟩ := mem_leafRows_iff.mp hrow
  obtain ⟨attachments, named, hattachments, hparse, rfl⟩ := readRevision_ok_iff.mp hread
  have hshown : tables.readRevision doc row = .ok ⟨doc, row.document, named, row.sequence, row.parent, row.deleted,
      row.current, row.available, row.body, attachments⟩ :=
    readRevision_ok_iff.mpr ⟨attachments, named, hattachments, hparse, rfl⟩
  have hhas : tables.Has ⟨doc, row.document, named, row.sequence, row.parent, row.deleted, row.current, row.available,
      row.body, attachments⟩ :=
    healthy.getRevision_of_row hnumber hstored (healthy.legible.reads_of_readRevision hstored hshown).1 hshown
  have hflag : row.current = decide (named = winner.rev) := by
    rw [Bool.eq_iff_iff, decide_eq_true_eq]
    refine (healthy.current_iff hhas).trans ⟨?_, fun heq => ⟨winner, hwinner, heq.symm⟩⟩
    rintro ⟨found, hfound, hrev⟩
    obtain rfl := Option.some.inj (Except.ok.inj (hwinner.symm.trans hfound))
    exact hrev.symm
  rw [hshown, Revision.below, ← hflag]
  rfl

theorem Healthy.has_leaf {leaf : Revision} (healthy : tables.Healthy) (hleaves : tables.leafRevisions doc = .ok leaves)
    (hleaf : leaf ∈ leaves) : tables.Has leaf ∧ leaf.doc = doc := by
  cases hnumber : tables.documentNumber? doc with
  | none =>
    rw [leafRevisions, select, hnumber] at hleaves
    obtain rfl := Except.ok.inj hleaves
    exact absurd hleaf List.not_mem_nil
  | some number =>
    obtain ⟨row, hrow, hread⟩ := exists_mem_left (Tables.select_ok hnumber hleaves) hleaf
    obtain ⟨hstored, hhome⟩ := List.mem_filter.mp hrow
    simp only [Bool.and_eq_true, decide_eq_true_eq] at hhome
    obtain ⟨rfl, -⟩ := hhome
    have hreads := healthy.legible.reads_of_readRevision hstored hread
    obtain ⟨_, _, -, -, rfl⟩ := readRevision_ok_iff.mp hread
    exact ⟨healthy.getRevision_of_row hnumber hstored hreads.1 hread, rfl⟩

theorem Legible.has_of_getRevision (legible : tables.Legible) (h : tables.getRevision doc rev = .ok (some revision)) :
    tables.Has revision ∧ revision.doc = doc ∧ revision.rev = rev := by
  obtain ⟨number, hnumber⟩ := exists_number_of_getRevision h
  obtain ⟨row, hrow, -, htext, hread⟩ := getRevision_ok_some hnumber h
  have hrev : revision.rev = rev :=
    RevId.text_injective ((legible.reads_of_readRevision hrow hread).1.symm.trans htext)
  have hdoc : revision.doc = doc := by
    obtain ⟨_, _, -, -, rfl⟩ := readRevision_ok_iff.mp hread
    rfl
  exact ⟨by rwa [Has, hdoc, hrev], hdoc, hrev⟩

theorem Healthy.leaf_eq_of_rev {leaf other : Revision} (healthy : tables.Healthy)
    (hleaves : tables.leafRevisions doc = .ok leaves) (hleaf : leaf ∈ leaves) (hother : other ∈ leaves)
    (hrev : leaf.rev = other.rev) : leaf = other := by
  obtain ⟨hhas, hdoc⟩ := healthy.has_leaf hleaves hleaf
  obtain ⟨hhas', hdoc'⟩ := healthy.has_leaf hleaves hother
  exact hhas'.unique hhas (hdoc.trans hdoc'.symm) hrev

theorem Legible.tips_ok (legible : tables.Legible) (doc : String) (number : Int) :
    ∃ bares, List.Forall₂ (fun bone bare => tables.readRevision doc bone = .ok bare) (tables.tips number) bares := by
  obtain ⟨bares, hread⟩ : ∃ bares, (tables.tips number).mapM (tables.readRevision doc) = .ok bares := by
    refine mapM_ok_of_forall fun bone hbone => ?_
    obtain ⟨row, hrow, rfl⟩ := mem_tips_iff.mp hbone
    obtain ⟨named, hreads⟩ := legible.revisions row (mem_leafRows_iff.mp hrow).1
    obtain ⟨_, -, hread⟩ := legible.readRevision_ok (show row.bare.Reads named from hreads) doc
    exact ⟨_, hread⟩
  exact ⟨bares, mapM_ok_iff.mp hread⟩

theorem Legible.reads_of_bare (legible : tables.Legible) (hrow : row ∈ tables.revisions)
    (h : tables.readRevision doc row.bare = .ok revision) : row.Reads revision.rev := by
  obtain ⟨named, hreads⟩ := legible.revisions row hrow
  obtain ⟨_, _, -, hparse, rfl⟩ := readRevision_ok_iff.mp h
  rw [show row.bare.revText = named.text from hreads.1, RevId.parse_text hreads.2] at hparse
  exact Except.ok.inj hparse ▸ hreads

theorem LiveLeaf.bare_eq_iff {other : RevisionRow} (h : tables.LiveLeaf doc rev row) (healthy : tables.Healthy)
    (hother : other ∈ tables.leafRows row.document) (hread : tables.readRevision doc other.bare = .ok revision) :
    other.bare = row.bare ↔ revision.rev = rev := by
  obtain ⟨hstored, -, -⟩ := mem_leafRows_iff.mp h.leaf
  obtain ⟨hmem, hhome, -⟩ := mem_leafRows_iff.mp hother
  have hreads := healthy.legible.reads_of_bare hmem hread
  constructor
  · intro hbare
    obtain rfl := healthy.shape.eq_of_sequence hmem hstored (RevisionRow.bare_eq_iff.mp hbare).1
    exact RevId.text_injective (hreads.1.symm.trans h.text)
  · rintro rfl
    rw [healthy.shape.eq_of_revText hmem hstored hhome (hreads.1.trans h.text.symm)]

theorem LiveLeaf.bares_erase (h : tables.LiveLeaf doc rev row) (healthy : tables.Healthy)
    (hbares : List.Forall₂ (fun bone bare => tables.readRevision doc bone = .ok bare) (tables.tips row.document) bares) :
    List.Forall₂ (fun bone bare => tables.readRevision doc bone = .ok bare) ((tables.tips row.document).erase row.bare)
      (bares.filter fun bare => bare.rev ≠ rev) := by
  rw [(healthy.shape.nodup_tips _).erase_eq_filter]
  refine (filter_rel (forall₂_with_mem hbares) fun bone bare hread => ?_).imp fun _ _ hread => hread.2.2
  obtain ⟨hbone, -, hread⟩ := hread
  obtain ⟨other, hother, rfl⟩ := mem_tips_iff.mp hbone
  rw [Bool.eq_iff_iff, bne_iff_ne, decide_eq_true_eq, not_iff_not]
  exact h.bare_eq_iff healthy hother hread

/-- A new tombstone takes the place of its leaf. -/
theorem LiveLeaf.entombed {heir : Revision} (h : before.LiveLeaf doc rev row) (healthy : before.Healthy)
    (healthy' : after.Healthy)
    (hgains : before.Gains after [((tombstone row rev).row (before.lastSequence + 1)).bare] [])
    (hhas : after.Has revision) (hdoc : revision.doc = doc) (hrev : revision.rev = (Content.tombstone rev).rev)
    (hleaves : before.leafRevisions doc = .ok leaves) (hwinner : before.currentRevision doc = .ok (some winner))
    (hheir : after.currentRevision doc = .ok (some heir)) :
    after.leafRevisions doc = .ok (RevisionForest.entombed leaves rev revision heir) := by
  have hattached : after.readRevision doc = before.readRevision doc := by
    funext other
    simp only [readRevision, attachmentsFor, hgains.attachments, List.append_nil]
  have htips : after.tips row.document = (before.tips row.document).erase row.bare
      ++ [((tombstone row rev).row (before.lastSequence + 1)).bare] :=
    hgains.tips_grown healthy.shape healthy'.shape rfl rfl (mem_tips_iff.mpr ⟨row, h.leaf, rfl⟩) rfl
  obtain ⟨bares, hbares⟩ := healthy.legible.tips_ok doc row.document
  obtain ⟨bares', hbares'⟩ := healthy'.legible.tips_ok doc row.document
  obtain rfl := Except.ok.inj (hleaves.symm.trans (healthy.leafRevisions_of_tips h.number hwinner hbares))
  have hafter := healthy'.leafRevisions_of_tips ((hgains.documentNumber? doc).trans h.number) hheir hbares'
  have hlast : ((tombstone row rev).row (before.lastSequence + 1)).bare ∈ after.tips row.document :=
    htips ▸ List.mem_append_right _ (List.mem_singleton.mpr rfl)
  obtain ⟨last, hmem, hread⟩ := exists_mem_right hbares' hlast
  have hsame : heir.below last = revision := by
    obtain ⟨stored, hstored, hbare⟩ := mem_tips_iff.mp hlast
    have hreads := healthy'.legible.reads_of_bare (mem_leafRows_iff.mp hstored).1 (hbare ▸ hread)
    obtain ⟨hlisted, hhome⟩ := healthy'.has_leaf hafter (List.mem_map_of_mem hmem)
    refine hhas.unique hlisted (hhome.trans hdoc.symm) (RevId.text_injective ?_)
    show last.rev.text = revision.rev.text
    rw [← hreads.1, hrev, (RevisionRow.bare_eq_iff.mp hbare).2.2.2.2.2.1]
    rfl
  rw [htips, hattached] at hbares'
  rw [hattached] at hread
  -- What is read afterwards, flags aside, is what was read before without the leaf, and then the tombstone.
  have hall := mapM_ok_iff.mpr (List.rel_append (h.bares_erase healthy hbares) (.cons hread .nil))
  obtain rfl := Except.ok.inj ((mapM_ok_iff.mpr hbares').symm.trans hall)
  rw [hafter, List.map_append, List.map_singleton, hsame, RevisionForest.entombed, List.filter_map, List.map_map]
  rfl

theorem Buries.entombs (h : before.Buries doc rev revision after) (healthy : before.Healthy)
    (hfresh : ¬before.Knows doc (Content.tombstone rev).rev) :
    ∃ target leaves winner heir,
      (before.Has target ∧ target.doc = doc ∧ target.rev = rev ∧ target.deleted = false) ∧
      (before.leafRevisions doc = .ok leaves ∧ target ∈ leaves ∧
        before.currentRevision doc = .ok (some winner) ∧ winner.current = true ∧ Foremost leaves winner) ∧
      let child : NewRevision :=
        ⟨target.number, (Content.tombstone rev).rev, some target.sequence, true, revision.current, true, Body.empty⟩
      before.Gains after [(child.row (before.lastSequence + 1)).bare] [] ∧
      revision = ⟨doc, child.document, child.rev, before.lastSequence + 1, child.parent, child.deleted, child.current,
        child.available, child.body, []⟩ ∧
      after.leafRevisions doc = .ok (RevisionForest.entombed leaves rev revision heir) ∧
      after.currentRevision doc = .ok (some heir) ∧
      Foremost (RevisionForest.entombed leaves rev revision heir) heir := by
  rcases h.cases with ⟨row, hlive, -, hgains, -⟩ | ⟨hknown, -⟩
  swap
  · exact absurd hknown hfresh
  obtain ⟨hrow, -, -⟩ := mem_leafRows_iff.mp hlive.leaf
  have hnumber' := (hgains.documentNumber? doc).trans hlive.number
  obtain ⟨leaves, hleaves, hpairs⟩ := healthy.select_ok hlive.number fun row => before.isLeaf row.sequence
  obtain ⟨target, htarget, hread⟩ := exists_mem_right hpairs hlive.leaf
  obtain ⟨winner, hwinner, hflag, hforemost⟩ := healthy.foremost hlive.number hleaves (List.ne_nil_of_mem htarget)
  obtain ⟨current, listed, hperm, -, hstored⟩ := (hlive.records healthy.shape h.healthy hgains).has
  obtain rfl := List.perm_nil.mp hperm
  obtain rfl := hstored.unique h.has h.home h.rev_eq
  obtain ⟨kept, hkept, hbare⟩ := hgains.extends.exists_row hrow
  obtain ⟨heir, _, _, hheir, -⟩ := h.healthy.currentRevision_ok hnumber' ⟨kept, hkept, (RevisionRow.bare_eq_iff.mp hbare).2.1⟩
  have hentombed := hlive.entombed healthy h.healthy hgains h.has rfl rfl hleaves hwinner hheir
  obtain ⟨first, hfirst, -, hforemost'⟩ := h.healthy.foremost hnumber' hentombed
    (List.append_ne_nil_of_right_ne_nil _ (List.cons_ne_nil _ _))
  obtain rfl := Option.some.inj (Except.ok.inj (hheir.symm.trans hfirst))
  have hreads := healthy.legible.reads_of_readRevision hrow hread
  obtain ⟨hhas, -⟩ := healthy.has_leaf hleaves htarget
  obtain rfl := RevId.text_injective (hlive.text.symm.trans hreads.1)
  obtain ⟨_, _, -, -, rfl⟩ := readRevision_ok_iff.mp hread
  exact ⟨_, leaves, winner, heir, ⟨hhas, rfl, rfl, hlive.live⟩, ⟨hleaves, htarget, hwinner, hflag, hforemost⟩, hgains, rfl,
    hentombed, hheir, hforemost'⟩

end Tables

namespace Store

variable {store : Store} {doc : String} {rev : RevId} {target : Revision}

theorem open_of_read (h : store.read doc (some rev) = .ok target) : store.closed = false := by
  cases hclosed : store.closed with
  | false => rfl
  | true =>
    simp only [read, ask, hclosed, ↓reduceIte] at h
    cases h

theorem mem_leaves_iff_isLeaf (hopen : store.closed = false) (healthy : store.writer.database.tables.Healthy)
    (hhas : store.writer.database.tables.Has target) :
    ∃ leaves, store.leaves target.doc = .ok leaves ∧
      (target ∈ leaves ↔ store.writer.database.tables.isLeaf target.sequence = true) := by
  obtain ⟨row, hrow, hnumber, -, hread⟩ := hhas.exists_row
  obtain ⟨leaves, hleaves, hpairs⟩ := leaves_ok hopen healthy hnumber ⟨row, hrow, rfl⟩
  refine ⟨leaves, hleaves, fun hmem => ?_, fun hchildless => ?_⟩
  · obtain ⟨other, hother, hshown⟩ := exists_mem_left hpairs hmem
    rw [(place_of_readRevision hshown).1]
    exact (mem_leafRows_iff.mp hother).2.2
  · rw [(place_of_readRevision hread).1] at hchildless
    obtain ⟨leaf, hleaf, hshown⟩ := exists_mem_right hpairs (mem_leafRows_iff.mpr ⟨hrow, rfl, hchildless⟩)
    rwa [Except.ok.inj (hread.symm.trans hshown)]

/-- A deletion that answers is of a live leaf and adds, unless the derived id is there already, a tombstone that takes its place among the leaves. -/
theorem Onward.delete_entombs {config : Config} {blobs : BlobStore} (h : (openWith config blobs).Onward store)
    (doc : String) (rev : RevId) :
    let before := store.writer.database.tables
    let id := (Content.tombstone rev).rev
    (∀ revision after, delete doc rev store = .ok revision after → ¬before.Knows doc id →
      ∃ target leaves winner heir,
        (store.read doc (some rev) = .ok target ∧ target.deleted = false ∧ store.leaves doc = .ok leaves ∧
          target ∈ leaves ∧ store.read doc none = .ok winner ∧ Foremost leaves winner) ∧
        let child : NewRevision := ⟨target.number, id, some target.sequence, true, revision.current, true, Body.empty⟩
        let leaves' := entombed leaves rev revision heir
        (before.Gains after.writer.database.tables [(child.row (before.lastSequence + 1)).bare] [] ∧
          revision = ⟨doc, child.document, child.rev, before.lastSequence + 1, child.parent, child.deleted, child.current,
            child.available, child.body, []⟩ ∧
          after.read doc (some id) = .ok revision) ∧
        after.leaves doc = .ok leaves' ∧
        (leaves'.filter fun leaf => !leaf.deleted).map (·.rev)
          = ((leaves.filter fun leaf => !leaf.deleted).map (·.rev)).filter (· ≠ rev) ∧
        after.read doc none = .ok heir ∧ Inherits leaves rev revision winner heir) ∧
    ∀ target, store.read doc (some rev) = .ok target →
      ∃ leaves, store.leaves doc = .ok leaves ∧
        ((∃ missing after, delete doc rev store = .error (.notFound missing) after) ↔ target.deleted = true) ∧
        ((∃ what after, delete doc rev store = .error (.conflict what) after) ↔ target.deleted = false ∧ target ∉ leaves) := by
  intro before id
  obtain ⟨hrest, healthy, -⟩ := h.preserved rfl healthy_empty
  refine ⟨fun revision after hdelete hfresh => ?_, fun target htarget => ?_⟩
  · obtain ⟨hopen, writer, hwriter, -, rfl⟩ := execute_ok_iff.mp hdelete
    have hopen' : ({ store with writer } : Store).closed = false := hopen
    have hburied := Action.delete_buries healthy hwriter
    obtain ⟨target, leaves, winner, heir, ⟨hhas, rfl, rfl, hlive⟩, ⟨hleaves, hmem, hwinner, hflag, hforemost⟩, hgains,
      hrevision, hentombed, hheir, hforemost'⟩ := hburied.entombs healthy hfresh
    have hdead : revision.deleted = true := by rw [hrevision]
    refine ⟨target, leaves, winner, heir, ⟨(read_iff hopen).mpr hhas, hlive,
      leaves_of_ne_nil hopen hleaves (List.ne_nil_of_mem hmem), hmem, (read_winner_iff hopen).mpr hwinner, hforemost⟩,
      ⟨hgains, hrevision, ?_⟩, ?_, entombed_live hdead, (read_winner_iff hopen').mpr hheir, ?_⟩
    · have hread := (read_iff hopen').mpr hburied.has
      rwa [hburied.home, hburied.rev_eq] at hread
    · exact leaves_of_ne_nil hopen' hentombed (List.append_ne_nil_of_right_ne_nil _ (List.cons_ne_nil _ _))
    · exact hforemost'.inherits hforemost hflag
        (fun _ hleaf _ hother hrev => healthy.leaf_eq_of_rev hleaves hleaf hother hrev) hmem hlive hdead
  · have hopen := open_of_read htarget
    obtain ⟨hhas, rfl, rfl⟩ := healthy.legible.has_of_getRevision ((read_iff hopen).mp htarget)
    obtain ⟨leaves, hleaves, hleaf⟩ := mem_leaves_iff_isLeaf hopen healthy hhas
    refine ⟨leaves, hleaves, ?_⟩
    simp only [hleaf, Bool.not_eq_true]
    exact delete_error_iff hopen hrest healthy hhas

/-- The last live leaf is deleted beside a tombstone of a higher generation, which wins then and cannot be deleted again. -/
theorem delete_entombs_last :
    let live : RevId := ⟨1, "b", by decide, by decide⟩
    let dead : RevId := ⟨3, "c", by decide, by decide⟩
    let items : List Graft := [{ doc := "d", history := [live], body := some Body.empty },
      { doc := "d", history := [⟨2, "b", by decide, by decide⟩, dead], deleted := true }]
    let store := stateAfter (graftAll items) (new {})
    (∃ revision after leaves heir, delete "d" live store = .ok revision after ∧ after.leaves "d" = .ok leaves ∧
      after.read "d" none = .ok heir ∧ Foremost leaves heir ∧ revision ∈ leaves ∧ heir.rev = dead) ∧
    ∃ missing after, delete "d" dead store = .error (.notFound missing) after := by
  intro live dead items store
  have hstart : (openWith {} {}).Onward store := .graftAll items .start
  obtain ⟨revision, hdelete⟩ := exists_ok_of_succeeds (show succeeds (delete "d" live) store = true by decide +kernel)
  have hfresh : ¬store.writer.database.tables.Knows "d" (Content.tombstone live).rev := by decide +kernel
  have hshown : (store.read "d" none).map (·.rev) = .ok live := by decide +kernel
  have hleaves : (store.leaves "d").map (·.map fun leaf => (leaf.rev, leaf.deleted)) = .ok [(live, false), (dead, true)] := by
    decide +kernel
  have hheir : ((stateAfter (delete "d" live) store).read "d" none).map (·.rev) = .ok dead := by decide +kernel
  have hdead : (store.read "d" (some dead)).map (·.deleted) = .ok true := by decide +kernel
  obtain ⟨hanswer, -⟩ := hstart.delete_entombs "d" live
  obtain ⟨-, hfails⟩ := hstart.delete_entombs "d" dead
  constructor
  · obtain ⟨target, leaves, winner, heir, ⟨-, -, hlisted, -, hwinner, -⟩, -, hafter, -, hread, hinherits⟩ :=
      hanswer revision _ hdelete hfresh
    rw [hwinner] at hshown
    rw [hlisted] at hleaves
    rw [hread] at hheir
    have hpairs : leaves.map (fun leaf => (leaf.rev, leaf.deleted)) = [(live, false), (dead, true)] := Except.ok.inj hleaves
    obtain ⟨-, hforemost⟩ := hinherits.dead (Except.ok.inj hshown) fun leaf hleaf hne => by
      have hpair : (leaf.rev, leaf.deleted) ∈ [(live, false), (dead, true)] := hpairs ▸ List.mem_map_of_mem hleaf
      simp only [List.mem_cons, Prod.mk.injEq, List.not_mem_nil, or_false] at hpair
      rcases hpair with ⟨hsame, -⟩ | ⟨-, hdeleted⟩
      · exact absurd hsame hne
      · exact hdeleted
    exact ⟨revision, _, _, heir, hdelete, hafter, hread, hforemost, List.mem_append_right _ (List.mem_singleton.mpr rfl),
      Except.ok.inj hheir⟩
  · cases htarget : store.read "d" (some dead) with
    | error error =>
      rw [htarget] at hdead
      nomatch hdead
    | ok target =>
      rw [htarget] at hdead
      obtain ⟨_, -, hmissing, -⟩ := hfails target htarget
      exact hmissing.mpr (Except.ok.inj hdead)

end Store

end RevisionForest
