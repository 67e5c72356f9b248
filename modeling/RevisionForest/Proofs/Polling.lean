import RevisionForest.Proofs.Pages
import RevisionForest.Proofs.Reachable
import RevisionForest.Proofs.Views
/-!
# Polling misses nothing

A consumer reads the changes page by page, each page from where the one before it ended, while the store goes on changing. What it has been delivered is right up to its cursor: of every document without a row behind the cursor the revision delivered last is the winner (`Tables.Covered`). A mutation keeps this, since it can change the winner of a document only by adding a row to it, and new rows stand behind all that were there, so also behind the cursor; that the winner itself may be an older row does not matter. A page keeps it too, since it moves the cursor only over rows of documents that it lists. A page that is shorter than it might be has listed all there was, and leaves no row behind the cursor (`Store.Polled.misses_nothing`).
-/

namespace RevisionForest

/-- The revision of a document that was delivered last. -/
def latest (seen : List Revision) (doc : String) : Option Revision :=
  (seen.filter fun revision => revision.doc = doc).getLast?

variable {seen listed : List Revision} {doc : String}

theorem latest_append_of_absent (h : ∀ revision ∈ listed, revision.doc ≠ doc) :
    latest (seen ++ listed) doc = latest seen doc := by
  have hnone : (listed.filter fun revision => revision.doc = doc) = [] :=
    List.filter_eq_nil_iff.mpr fun revision hrevision htest => h revision hrevision (of_decide_eq_true htest)
  rw [latest, List.filter_append, hnone, List.append_nil]
  rfl

theorem latest_append_of_mem (seen : List Revision) (h : ∃ revision ∈ listed, revision.doc = doc) :
    ∃ revision ∈ listed, revision.doc = doc ∧ latest (seen ++ listed) doc = some revision := by
  obtain ⟨found, hfound, hdoc⟩ := h
  have hne : (listed.filter fun revision => revision.doc = doc) ≠ [] :=
    List.ne_nil_of_mem (List.mem_filter.mpr ⟨hfound, decide_eq_true hdoc⟩)
  obtain ⟨hmem, htest⟩ := List.mem_filter.mp (List.getLast_mem hne)
  refine ⟨_, hmem, of_decide_eq_true htest, ?_⟩
  rw [latest, List.filter_append, List.getLast?_append_of_ne_nil _ hne, List.getLast?_eq_some_getLast hne]

namespace Tables

/-- What was delivered is right up to a cursor. -/
structure Covered (tables : Tables) (cursor : Int) (seen : List Revision) : Prop where
  reached : cursor ≤ tables.lastSequence
  settled : ∀ doc number winner, tables.documentNumber? doc = some number →
    (∀ row ∈ tables.revisions, row.document = number → row.sequence ≤ cursor) → tables.standings doc = some winner →
      ∃ revision, latest seen doc = some revision ∧ revision.winner = winner

variable {tables before after : Tables} {cursor : Int} {limit : Nat}

theorem covered_zero (healthy : tables.Healthy) : tables.Covered 0 [] where
  reached := by
    rw [healthy.shape.lastSequence_eq]
    omega
  settled := by
    intro doc number winner hnumber hold hwinner
    obtain ⟨found, hfound, row, hrow, rfl⟩ := healthy.exists_standing_iff.mp ⟨winner, hwinner⟩
    obtain rfl := Option.some.inj (hnumber.symm.trans hfound)
    have hle := hold row hrow rfl
    have hpos := (healthy.shape.sequence_bounds hrow).1
    omega

theorem Covered.grow (h : before.Covered cursor seen) (healthy : before.Healthy) (healthy' : after.Healthy)
    (hextends : before.Extends after) : after.Covered cursor seen where
  reached := Int.le_trans h.reached (hextends.lastSequence_le healthy.shape healthy'.shape)
  settled := by
    intro doc number winner hnumber hold hwinner
    have hsame := hextends.standings_eq healthy healthy' hnumber fun row hrow hdocument =>
      Int.le_trans (hold row hrow hdocument) h.reached
    rw [hsame] at hwinner
    obtain ⟨found, hfound, -⟩ := healthy.exists_standing_iff.mp ⟨winner, hwinner⟩
    obtain rfl := Option.some.inj (hnumber.symm.trans (hextends.documentNumber? hfound))
    refine h.settled doc number winner hfound (fun row hrow hdocument => ?_) hwinner
    obtain ⟨kept, hkept, hbare⟩ := hextends.exists_row hrow
    obtain ⟨hsequence, hhome, -⟩ := RevisionRow.bare_eq_iff.mp hbare
    exact hsequence ▸ hold kept hkept (hhome.trans hdocument)

/-! ### One page -/

section

variable {page : Changes}

theorem Healthy.page_last_le (healthy : tables.Healthy) (hpage : tables.changes cursor limit = .ok page)
    (hreached : cursor ≤ tables.lastSequence) : page.last ≤ tables.lastSequence := by
  obtain ⟨found, hfound, hlast, -⟩ := healthy.changes_ok cursor limit
  obtain rfl := Except.ok.inj (hpage.symm.trans hfound)
  rw [hlast]
  refine Int.lt_add_one_iff.mp (foldl_max_lt RevisionRow.sequence _ (Int.lt_add_one_iff.mpr hreached) fun row hrow => ?_)
  exact Int.lt_add_one_iff.mpr (sequence_le_lastSequence (mem_newestAfter_iff.mp (List.mem_of_mem_take hrow)).1)

theorem Healthy.mem_page {revision : Revision} (healthy : tables.Healthy)
    (hpage : tables.changes cursor limit = .ok page) (hrevision : revision ∈ page.results) :
    ∃ row ∈ tables.revisions, cursor < row.sequence ∧ tables.Wins row.document revision := by
  obtain ⟨found, hfound, -, hpairs, -⟩ := healthy.changes_ok cursor limit
  obtain rfl := Except.ok.inj (hpage.symm.trans hfound)
  obtain ⟨row, hrow, hwins⟩ := exists_mem_left hpairs hrevision
  obtain ⟨hmem, hlt, -⟩ := mem_newestAfter_iff.mp (List.mem_of_mem_take hrow)
  exact ⟨row, hmem, hlt, hwins⟩

theorem Healthy.page_lists {row : RevisionRow} (healthy : tables.Healthy)
    (hpage : tables.changes cursor limit = .ok page) (hrow : row ∈ tables.revisions) (hlt : cursor < row.sequence) :
    (∃ revision ∈ page.results, tables.Wins row.document revision) ∨
      ∃ newer ∈ tables.revisions, newer.document = row.document ∧ page.last < newer.sequence := by
  obtain ⟨found, hfound, -, hpairs, hleft⟩ := healthy.changes_ok cursor limit
  obtain rfl := Except.ok.inj (hpage.symm.trans hfound)
  obtain ⟨newest, hnewest, hdocument⟩ := healthy.shape.exists_newest hrow hlt
  rw [← List.take_append_drop (pageLength limit _) (tables.newestAfter cursor), ← hleft] at hnewest
  rcases List.mem_append.mp hnewest with hon | hlater
  · obtain ⟨revision, hrevision, hwins⟩ := exists_mem_right hpairs hon
    exact .inl ⟨revision, hrevision, hdocument ▸ hwins⟩
  · obtain ⟨hmem, hpassed, -⟩ := mem_newestAfter_iff.mp hlater
    exact .inr ⟨newest, hmem, hdocument, hpassed⟩

theorem Healthy.page_short (healthy : tables.Healthy) (hpage : tables.changes cursor limit = .ok page)
    (hshort : page.results.length < limit) : ∀ row ∈ tables.revisions, row.sequence ≤ page.last := by
  obtain ⟨found, hfound, -, hpairs, hleft⟩ := healthy.changes_ok cursor limit
  obtain rfl := Except.ok.inj (hpage.symm.trans hfound)
  have hlength := hpairs.length_eq
  rw [List.length_take] at hlength
  rw [List.drop_eq_nil_of_le (le_pageLength_of_lt (hlength ▸ hshort))] at hleft
  intro row hrow
  by_contra hbehind
  obtain ⟨newest, hnewest, -⟩ := healthy.shape.exists_newest hrow (Int.not_le.mp hbehind)
  exact absurd (hleft ▸ hnewest) List.not_mem_nil

/-- A page covers what its cursor has moved over. -/
theorem Covered.advance (h : tables.Covered cursor seen) (healthy : tables.Healthy)
    (hpage : tables.changes cursor limit = .ok page) : tables.Covered page.last (seen ++ page.results) where
  reached := healthy.page_last_le hpage h.reached
  settled := by
    intro doc number winner hnumber hold hwinner
    by_cases hbehind : ∃ row ∈ tables.revisions, row.document = number ∧ cursor < row.sequence
    · obtain ⟨row, hrow, rfl, hlt⟩ := hbehind
      obtain ⟨listed, hlisted, hwins⟩ := (healthy.page_lists hpage hrow hlt).resolve_right
        fun ⟨newer, hnewer, hdocument, hpassed⟩ => absurd (hold newer hnewer hdocument) (Int.not_le.mpr hpassed)
      obtain ⟨revision, hrevision, hdoc, hlatest⟩ := latest_append_of_mem seen
        ⟨listed, hlisted, healthy.shape.doc_eq_of_number hwins.registered hnumber⟩
      obtain ⟨row', -, -, hwins'⟩ := healthy.mem_page hpage hrevision
      have hstands := standings_eq_some_iff.mpr ⟨row'.document, hwins'.registered, hwins'.elected⟩
      rw [hdoc, hwinner] at hstands
      exact ⟨revision, hlatest, (Option.some.inj hstands).symm⟩
    · have habsent : ∀ revision ∈ page.results, revision.doc ≠ doc := by
        rintro revision hrevision rfl
        obtain ⟨row, hrow, hlt, hwins⟩ := healthy.mem_page hpage hrevision
        exact hbehind ⟨row, hrow, Option.some.inj (hwins.registered.symm.trans hnumber), hlt⟩
      rw [latest_append_of_absent habsent]
      exact h.settled doc number winner hnumber
        (fun row hrow hdocument => Int.not_lt.mp fun hlt => hbehind ⟨row, hrow, hdocument, hlt⟩) hwinner

end

end Tables

namespace Store

variable {store start : Store} {cursor : Int} {limit : Nat}

/-- A store that was opened empty, where a consumer that reads its changes will go on, and what the consumer has been delivered. Between two pages, which may have any sizes, anything may be asked of the store. -/
inductive Polled : Store → Int → List Revision → Prop
  | opened (config : Config) (blobs : BlobStore) : Polled (openWith config blobs) 0 []
  | changed {store after : Store} {cursor : Int} {seen : List Revision} (h : Polled store cursor seen)
    (honward : store.Onward after) (hopen : after.closed = false) : Polled after cursor seen
  | read {store : Store} {cursor : Int} {seen : List Revision} {page : Changes} (limit : Nat) (hlimit : 0 < limit)
    (h : Polled store cursor seen) (hpage : store.changes cursor limit = .ok page) :
    Polled store page.last (seen ++ page.results)

theorem Polled.covered (h : store.Polled cursor seen) :
    (store.closed = false ∧ store.AtRest ∧ store.writer.database.tables.Healthy) ∧
      store.writer.database.tables.Covered cursor seen := by
  induction h with
  | opened config blobs => exact ⟨⟨rfl, rfl, healthy_empty⟩, Tables.covered_zero healthy_empty⟩
  | changed _ honward hopen ih =>
    obtain ⟨⟨-, hrest, healthy⟩, hcovered⟩ := ih
    obtain ⟨hrest', healthy', hextends⟩ := honward.preserved hrest healthy
    exact ⟨⟨hopen, hrest', healthy'⟩, hcovered.grow healthy healthy' hextends⟩
  | read limit _ _ hpage ih =>
    obtain ⟨hready, hcovered⟩ := ih
    obtain ⟨found, hfound, -⟩ := hready.2.2.changes_ok _ limit
    obtain rfl := Except.ok.inj (hpage.symm.trans (ask_of_open hready.1 hfound : _ = Except.ok found))
    exact ⟨hready, hcovered.advance hready.2.2 hfound⟩

/-- Every page can be read, and after a page that lists fewer documents than it might, the revision delivered last of each document is the winner. -/
theorem Polled.misses_nothing (h : store.Polled cursor seen) (hlimit : 0 < limit) :
    ∃ page, store.changes cursor limit = .ok page ∧ store.Polled page.last (seen ++ page.results) ∧
      (page.results.length < limit → ∀ doc rev, store.containsRevision doc rev = .ok true →
        ∃ delivered winner, latest (seen ++ page.results) doc = some delivered ∧ store.read doc none = .ok winner ∧
          delivered.rev = winner.rev ∧ delivered.sequence = winner.sequence) := by
  obtain ⟨⟨hopen, -, healthy⟩, hcovered⟩ := h.covered
  obtain ⟨page, hpage, -⟩ := healthy.changes_ok cursor limit
  have hread : store.changes cursor limit = .ok page := ask_of_open hopen hpage
  refine ⟨page, hread, h.read limit hlimit hread, fun hshort doc rev hknown => ?_⟩
  obtain ⟨known, hanswer, hiff⟩ := containsRevision_eq hopen doc rev
  obtain ⟨number, hnumber, bone, hbone, hdocument, -⟩ := hiff.mp (Except.ok.inj (hanswer.symm.trans hknown))
  obtain ⟨row, hrow, rfl⟩ := Tables.mem_bones_iff.mp hbone
  obtain ⟨winner, -, -, hshown, -⟩ := healthy.currentRevision_ok hnumber ⟨row, hrow, hdocument⟩
  have hstands := Tables.standings_eq_some_iff.mpr ⟨number, hnumber, Tables.currentWinner_of_currentRevision hnumber hshown⟩
  obtain ⟨delivered, hlatest, hsame⟩ := (hcovered.advance healthy hpage).settled doc number winner.winner hnumber
    (fun row hmem _ => healthy.page_short hpage hshort row hmem) hstands
  refine ⟨delivered, winner, hlatest, ?_, congrArg Winner.rev hsame, congrArg Winner.sequence hsame⟩
  rw [Store.read, ask_of_open hopen hshown]
  rfl

/-- Between two pages a document that the first one listed loses its winner to an older leaf. -/
theorem misses_nothing_mutated :
    let one : Graft := { doc := "d", history := [⟨1, "a", by decide, by decide⟩] }
    let two : Graft := { doc := "d", history := [⟨1, "b", by decide, by decide⟩] }
    let other : Graft := { doc := "e", history := [⟨1, "a", by decide, by decide⟩] }
    let store := stateAfter (graftAll [one, two, other]) (new {})
    let after := stateAfter (submit (.mutate (.delete "d" ⟨1, "b", by decide, by decide⟩))) store
    ∃ first page, store.changes 0 1 = .ok first ∧ after.changes first.last 3 = .ok page ∧
      ∀ doc rev, after.containsRevision doc rev = .ok true →
        ∃ delivered winner, latest (first.results ++ page.results) doc = some delivered ∧
          after.read doc none = .ok winner ∧ delivered.rev = winner.rev ∧ delivered.sequence = winner.sequence := by
  intro one two other store after
  have hlengths : (do
      let first ← store.changes 0 1
      let page ← after.changes first.last 3
      return (first.results.length, page.results.length)) = Except.ok (ε := StoreError) (1, 2) := by decide +kernel
  obtain ⟨first, hfirst, hrest⟩ := except_bind_ok_iff.mp hlengths
  obtain ⟨page, hpage, hlength⟩ := except_bind_ok_iff.mp hrest
  have hopened : Polled (new {}) 0 [] := .opened {} {}
  have hpolled : after.Polled first.last first.results :=
    ((hopened.changed (.graftAll _ .start) (by decide +kernel)).read 1 Nat.one_pos hfirst).changed
      (.command _ trivial .start) (by decide +kernel)
  obtain ⟨found, hfound, -, hright⟩ := hpolled.misses_nothing (by decide : 0 < 3)
  obtain rfl := Except.ok.inj (hpage.symm.trans hfound)
  have hshort : page.results.length < 3 := by
    rw [(Prod.mk.inj (Except.ok.inj hlength)).2]
    decide
  exact ⟨first, page, hfirst, hpage, hright hshort⟩

end Store

end RevisionForest
