import RevisionForest.Proofs.Standings
import Mathlib.Data.List.Perm.Subperm
/-!
# Pages of changes

The changes feed lists documents by their newest rows, which stand in ascending order. A page takes the first of them, and the next page starts behind its last one, so it is what the first page has left (`Tables.Shape.newestAfter_last`). No document is listed twice, and each is listed with its current winner, though the row of the winner may be older than the row that the document is listed for (`Tables.Healthy.changes_ok`).
-/

namespace RevisionForest

theorem foldl_max_lt {α : Type} (value : α → Int) (list : List α) {start bound : Int} (hstart : start < bound)
    (h : ∀ row ∈ list, value row < bound) :
    list.foldl (fun greatest row => max greatest (value row)) start < bound := by
  induction list generalizing start with
  | nil => exact hstart
  | cons first rest ih =>
    have hnext : max start (value first) < bound := Int.max_lt.mpr ⟨hstart, h first List.mem_cons_self⟩
    exact ih hnext fun row hrow => h row (List.mem_cons_of_mem _ hrow)

namespace Tables

variable {tables : Tables} {since : Int} {row : RevisionRow} {limit : Nat}

/-! ### Newest rows -/

theorem mem_newestAfter_iff :
    row ∈ tables.newestAfter since ↔ row ∈ tables.revisions ∧ since < row.sequence ∧
      ∀ other ∈ tables.revisions, other.document = row.document → other.sequence ≤ row.sequence := by
  simp [newestAfter]

theorem newestAfter_of_le {last : Int} (h : since ≤ last) :
    tables.newestAfter last = (tables.newestAfter since).filter fun row => last < row.sequence := by
  unfold newestAfter
  rw [List.filter_filter]
  apply List.filter_congr
  intro row _
  by_cases hlast : last < row.sequence
  · have hsince : since < row.sequence := by omega
    simp [hlast, hsince]
  · simp [hlast]

theorem filter_behind {page rest : List RevisionRow}
    (hascending : (page ++ rest).Pairwise fun older newer => older.sequence < newer.sequence)
    (hsince : ∀ row ∈ rest, since < row.sequence) :
    (page ++ rest).filter (fun row => page.foldl (fun last row => max last row.sequence) since < row.sequence) = rest := by
  obtain ⟨-, -, hbehind⟩ := List.pairwise_append.mp hascending
  rw [List.filter_append, List.filter_eq_nil_iff.mpr, List.nil_append, List.filter_eq_self.mpr]
  · intro row hrow
    have hlast := foldl_max_lt (·.sequence) page (hsince row hrow) fun other hother => hbehind other hother row hrow
    exact decide_eq_true hlast
  · intro row hrow
    have hle := (le_foldl_max (·.sequence) page since).2 row hrow
    simp only [decide_eq_true_eq]
    omega

theorem Shape.newestAfter_last (shape : tables.Shape) (since : Int) (limit : Nat) :
    tables.newestAfter (((tables.newestAfter since).take limit).foldl (fun last row => max last row.sequence) since)
      = (tables.newestAfter since).drop limit := by
  have hascending : (tables.newestAfter since).Pairwise fun older newer => older.sequence < newer.sequence :=
    shape.ascending.filter _
  rw [newestAfter_of_le (le_foldl_max (·.sequence) ((tables.newestAfter since).take limit) since).1]
  rw [← List.take_append_drop limit (tables.newestAfter since)] at hascending
  have hrest : ∀ row ∈ (tables.newestAfter since).drop limit, since < row.sequence := fun row hrow =>
    (mem_newestAfter_iff.mp (List.mem_of_mem_drop hrow)).2.1
  have hbehind := filter_behind hascending hrest
  rwa [List.take_append_drop] at hbehind

theorem Shape.exists_newest (shape : tables.Shape) (hrow : row ∈ tables.revisions) (hsince : since < row.sequence) :
    ∃ newest ∈ tables.newestAfter since, newest.document = row.document := by
  -- By induction on the number of newer sequences: a row that is not the newest gives way to a newer one.
  obtain ⟨distance, hdistance⟩ : ∃ distance, distance = (tables.revisions.length - row.sequence).toNat := ⟨_, rfl⟩
  induction distance using Nat.strongRecOn generalizing row with
  | ind distance ih =>
    by_cases hnewest : ∀ other ∈ tables.revisions, other.document = row.document → other.sequence ≤ row.sequence
    · exact ⟨row, mem_newestAfter_iff.mpr ⟨hrow, hsince, hnewest⟩, rfl⟩
    · push Not at hnewest
      obtain ⟨newer, hnewer, hdocument, hlt⟩ := hnewest
      have hbounds := shape.sequence_bounds hnewer
      obtain ⟨newest, hmem, hsame⟩ := ih _ (by omega) hnewer (by omega) rfl
      exact ⟨newest, hmem, hsame.trans hdocument⟩

theorem Shape.nodup_newest (shape : tables.Shape) (since : Int) : ((tables.newestAfter since).map (·.document)).Nodup := by
  apply (shape.nodup.filter _).map_on
  intro row hrow other hother heq
  obtain ⟨hmem, -, hnewest⟩ := mem_newestAfter_iff.mp hrow
  obtain ⟨hmem', -, hnewest'⟩ := mem_newestAfter_iff.mp hother
  exact shape.eq_of_sequence hmem hmem' (Int.le_antisymm (hnewest' row hmem heq) (hnewest other hmem' heq.symm))

theorem Shape.newest_subset (shape : tables.Shape) (since : Int) :
    (tables.newestAfter since).map (·.document) ⊆ tables.documents.map (·.number) := by
  intro number hnumber
  obtain ⟨row, hrow, rfl⟩ := List.mem_map.mp hnumber
  obtain ⟨home, hhome, heq⟩ := shape.homes row (mem_newestAfter_iff.mp hrow).1
  exact List.mem_map.mpr ⟨home, hhome, heq⟩

theorem Shape.newestAfter_length_le (shape : tables.Shape) (since : Int) :
    (tables.newestAfter since).length ≤ tables.documents.length := by
  have hle := ((shape.nodup_newest since).subperm (shape.newest_subset since)).length_le
  rwa [List.length_map, List.length_map] at hle

/-! ### Pages -/

theorem page_of_rows {read : RevisionRow → Query (Option Revision)} {P : RevisionRow → Revision → Prop}
    {rows : List RevisionRow} (last : Int) (h : ∀ row ∈ rows, ∃ winner, read row = .ok (some winner) ∧ P row winner) :
    ∃ page : Changes, (do
        let found ← rows.mapM read
        return (⟨found.filterMap id, last⟩ : Changes)) = .ok page ∧
      page.last = last ∧ List.Forall₂ P rows page.results := by
  have hread : ∃ winners : List Revision, rows.mapM read = .ok (winners.map some) ∧ List.Forall₂ P rows winners := by
    induction rows with
    | nil => exact ⟨[], rfl, .nil⟩
    | cons row rest ih =>
      obtain ⟨winner, hwinner, hrelated⟩ := h row List.mem_cons_self
      obtain ⟨winners, hwinners, hrest⟩ := ih fun other hother => h other (List.mem_cons_of_mem _ hother)
      exact ⟨winner :: winners, mapM_ok_iff.mpr (.cons hwinner (mapM_ok_iff.mp hwinners)), .cons hrelated hrest⟩
  obtain ⟨winners, hwinners, hpairs⟩ := hread
  refine ⟨⟨winners, last⟩, except_bind_ok_iff.mpr ⟨_, hwinners, ?_⟩, rfl, hpairs⟩
  rw [List.filterMap_map, Function.id_comp, List.filterMap_some]
  rfl

/-- A revision is shown as the winner of its document. -/
structure Wins (tables : Tables) (number : Int) (revision : Revision) : Prop where
  registered : tables.documentNumber? revision.doc = some number
  shown : tables.currentRevision revision.doc = .ok (some revision)

theorem Wins.elected {number : Int} {revision : Revision} (h : tables.Wins number revision) :
    tables.currentWinner number = .ok (some revision.winner) :=
  currentWinner_of_currentRevision h.registered h.shown

theorem Shape.wins_unique {number : Int} {revision other : Revision} (shape : tables.Shape)
    (h : tables.Wins number revision) (hother : tables.Wins number other) : revision = other := by
  have hshown := h.shown
  rw [shape.doc_eq_of_number h.registered hother.registered, hother.shown] at hshown
  exact (Option.some.inj (Except.ok.inj hshown)).symm

/-- A page can be read, lists the winners of the documents of its rows, and leaves what it does not list to the next one. -/
theorem Healthy.changes_ok (healthy : tables.Healthy) (since : Int) (limit : Nat) :
    let length := pageLength limit (tables.newestAfter since).length
    ∃ page, tables.changes since limit = .ok page ∧
      page.last = ((tables.newestAfter since).take length).foldl (fun last row => max last row.sequence) since ∧
      List.Forall₂ (fun row winner => tables.Wins row.document winner) ((tables.newestAfter since).take length) page.results ∧
      tables.newestAfter page.last = (tables.newestAfter since).drop length := by
  intro length
  obtain ⟨page, hchanges, hlast, hpairs⟩ : ∃ page, tables.changes since limit = .ok page ∧
      page.last = ((tables.newestAfter since).take length).foldl (fun last row => max last row.sequence) since ∧
      List.Forall₂ (fun row winner => tables.Wins row.document winner)
        ((tables.newestAfter since).take length) page.results := by
    apply page_of_rows
    intro row hrow
    obtain ⟨hmem, -⟩ := mem_newestAfter_iff.mp (List.mem_of_mem_take hrow)
    obtain ⟨⟨number, doc⟩, hhome, hnumber⟩ := healthy.shape.homes row hmem
    have hhome : ⟨row.document, doc⟩ ∈ tables.documents := by rwa [← hnumber]
    have hfound : tables.documentNumber? doc = some row.document := healthy.shape.documentNumber?_eq_some_iff.mpr hhome
    obtain ⟨winner, _, _, hcurrent, hdoc, -⟩ := healthy.currentRevision_ok hfound ⟨row, hmem, rfl⟩
    refine ⟨winner, ?_, hdoc ▸ hfound, hdoc ▸ hcurrent⟩
    rw [healthy.shape.documentId?_eq_some_iff.mpr hhome]
    exact hcurrent
  refine ⟨page, hchanges, hlast, hpairs, ?_⟩
  rw [hlast, healthy.shape.newestAfter_last]

theorem le_pageLength_of_lt {limit available : Nat} (h : min (pageLength limit available) available < limit) :
    available ≤ pageLength limit available := by
  unfold pageLength at *
  split at h <;> split <;> omega

end Tables

end RevisionForest
