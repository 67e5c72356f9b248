import RevisionForest.Proofs.Branching
import RevisionForest.Proofs.Lineage
/-!
# Histories of stored revisions

The history of every stored revision can be read. It begins at a root, goes from each stored parent to its child, and ends at the revision. Since every child is one generation below its parent, its generations rise by one, from wherever they begin; so it has no gap, no id is in it twice, and a graft of it is not refused for its history.
-/

namespace RevisionForest

namespace Tables

/-- The rows from a root to a row, each the parent of the next, and the ids that they store. -/
structure Ancestry (tables : Tables) (row : RevisionRow) (line : List RevisionRow) (history : List RevId) : Prop
    extends LineTo tables.revisions line row where
  reads : List.Forall₂ RevisionRow.Reads line history
  generations : history.IsChain fun older newer => newer.generation = older.generation + 1
  distinct : history.Nodup

variable {tables : Tables} {row above below : RevisionRow} {rev older newer : RevId} {doc : String}

theorem Graded.step (h : tables.Graded) (shape : tables.Shape) (habove : above ∈ tables.revisions)
    (hbelow : below ∈ tables.revisions) (hparent : below.parent = some above.sequence) (holder : above.revText = older.text)
    (hnewer : below.revText = newer.text) : newer.generation = older.generation + 1 := by
  obtain ⟨read, htext, hjoins⟩ := h below.bare (mem_bones_iff.mpr ⟨below, hbelow, rfl⟩)
  obtain rfl := RevId.text_injective (htext.symm.trans hnewer)
  rcases hjoins with ⟨-, hroot⟩ | ⟨stored, sequence, hstep, hsome, hfound⟩
  · exact absurd (hparent.symm.trans hroot) (Option.some_ne_none _)
  · obtain ⟨holds, hholds, -, hstored, hsequence⟩ := shape.sequenceOf?_eq_some_iff.mp hfound
    have hplace : holds.sequence = above.sequence :=
      hsequence.trans (Option.some.inj (hsome.symm.trans hparent))
    obtain rfl := shape.eq_of_sequence hholds habove hplace
    obtain rfl := RevId.text_injective (hstored.symm.trans holder)
    exact hstep

theorem Healthy.ancestry_ok (healthy : tables.Healthy) (graded : tables.Graded) (hrow : row ∈ tables.revisions)
    (hnumber : tables.documentNumber? doc = some row.document) (htext : row.revText = rev.text) :
    ∃ line history, tables.revisionHistory doc rev = .ok history ∧ tables.Ancestry row line history ∧
      history.getLast? = some rev := by
  obtain ⟨line, history, hread, hline, hpairs, hlast⟩ := healthy.revisionHistory_ok hrow hnumber htext
  have hsteps : history.IsChain fun older newer => newer.generation = older.generation + 1 := by
    refine isChain_of_forall₂ hpairs hline.chain fun above habove below hbelow older newer holder hnewer hparent => ?_
    exact graded.step healthy.shape (hline.members above habove).1 (hline.members below hbelow).1 hparent holder.1 hnewer.1
  have hascending := Graft.ascending_of_gap? (Graft.gap?_eq_none_iff.mpr hsteps)
  have hdistinct : history.Nodup := hascending.imp fun hlt heq => absurd (heq ▸ hlt) (Nat.lt_irrefl _)
  exact ⟨line, history, hread, ⟨hline, hpairs, hsteps, hdistinct⟩, hlast⟩

theorem ne_empty_of_named (h : isBlankId doc = false) : doc ≠ "" := by
  rintro rfl
  nomatch h

theorem Ancestry.check_iff {line : List RevisionRow} {item : Graft} (h : tables.Ancestry row line item.history)
    (hnamed : isBlankId item.doc = false) :
    item.check = .ok () ↔ (∀ body, item.body = some body → Body.validate body = .ok ()) ∧
      Attachment.checkNames [] item.attachments = .ok () := by
  have hhistory : item.history ≠ [] := by
    intro hnil
    have hreads := h.reads
    rw [hnil, List.forall₂_nil_right_iff] at hreads
    have hlast := h.last
    rw [hreads] at hlast
    nomatch hlast
  rw [Graft.check_ok_iff]
  simp only [ne_empty_of_named hnamed, hhistory, Graft.gap?_eq_none_iff.mpr h.generations, ne_eq, not_false_eq_true,
    true_and]

end Tables

namespace Store

variable {store : Store} {row : RevisionRow}

/-- The history of a stored revision is the line of its ancestors from a root, one generation after the other, and a graft of it is refused for its body or its attachments only. -/
theorem Reachable.history_line (h : store.Reachable) (hrow : row ∈ store.writer.database.tables.revisions) :
    ∃ doc rev line history,
      (store.writer.database.tables.documentId? row.document = some doc ∧ row.Reads rev) ∧
      store.revisionHistory doc rev = .ok history ∧ store.writer.database.tables.Ancestry row line history ∧
      history.getLast? = some rev ∧
      ∀ item : Graft, item.doc = doc → item.history = history →
        (item.check = .ok () ↔ (∀ body, item.body = some body → Body.validate body = .ok ()) ∧
          Attachment.checkNames [] item.attachments = .ok ()) := by
  obtain ⟨-, healthy⟩ := h.healthy
  obtain ⟨config, blobs, honward⟩ := h.onward
  obtain ⟨rev, hreads⟩ := healthy.legible.revisions row hrow
  obtain ⟨⟨number, doc⟩, hmem, rfl⟩ := healthy.shape.homes row hrow
  have hnumber := healthy.shape.documentNumber?_eq_some_iff.mpr hmem
  obtain ⟨line, history, hread, hancestry, hlast⟩ := healthy.ancestry_ok honward.graded hrow hnumber hreads.1
  refine ⟨doc, rev, line, history, ⟨healthy.shape.documentId?_eq_some_iff.mpr hmem, hreads⟩,
    ask_of_open h.opened hread, hancestry, hlast, ?_⟩
  rintro item rfl rfl
  exact hancestry.check_iff (healthy.shape.named _ hmem)

/-- Two grafts, the second of which says nothing of what is above the first one. -/
theorem history_line_grafted :
    let first : Graft := { doc := "d", history := [⟨3, "a", by decide, by decide⟩, ⟨4, "b", by decide, by decide⟩] }
    let second : Graft := { doc := "d", history := [⟨4, "b", by decide, by decide⟩, ⟨5, "c", by decide, by decide⟩] }
    let store := (executeScript [.mutate (.graft first), .mutate (.graft second)] (new {})).2
    let row : RevisionRow := ⟨3, 1, some 2, true, false, false, "5-c", Body.empty⟩
    ∃ doc rev line history,
      (store.writer.database.tables.documentId? row.document = some doc ∧ row.Reads rev) ∧
      store.revisionHistory doc rev = .ok history ∧ store.writer.database.tables.Ancestry row line history ∧
      history.getLast? = some rev ∧
      ∀ item : Graft, item.doc = doc → item.history = history →
        (item.check = .ok () ↔ (∀ body, item.body = some body → Body.validate body = .ok ()) ∧
          Attachment.checkNames [] item.attachments = .ok ()) := by
  intro first second store row
  have hreachable : store.Reachable := ⟨by decide +kernel, {}, {}, Onward.script ⟨trivial, trivial, trivial⟩ .start⟩
  exact hreachable.history_line (by decide +kernel)

end Store

end RevisionForest
