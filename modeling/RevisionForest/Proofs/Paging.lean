import RevisionForest.Proofs.Idempotence
import RevisionForest.Proofs.Pages
import RevisionForest.Proofs.Snapshots
import RevisionForest.Proofs.Views
import Mathlib.Order.Bounds.Basic
/-!
# Paging

Pages that follow each other until one of them lists nothing have listed all that one query would, in the same order, however long each page may be. A page takes its documents from what is left, and a limit that is not zero lets it take at least one, so they come to an end. What they list and where they end does not depend on the limits (`Tables.Healthy.follows`). In terms of what can be read of a store, it is the winner of each document that has a revision behind the start, in the order of the last revision of each (`Store.Onward.follows_pages`).
-/

namespace RevisionForest

theorem foldl_max_eq_getLast? {α : Type} (value : α → Int) {list : List α} {start : Int}
    (hascending : list.Pairwise fun older newer => value older < value newer) (hstart : ∀ row ∈ list, start < value row) :
    list.foldl (fun greatest row => max greatest (value row)) start = (list.map value).getLast?.getD start := by
  induction list generalizing start with
  | nil => rfl
  | cons first rest ih =>
    obtain ⟨hfirst, hrest⟩ := List.pairwise_cons.mp hascending
    have hle : start ≤ value first := Int.le_of_lt (hstart first List.mem_cons_self)
    rw [List.foldl_cons, max_eq_right hle, ih hrest hfirst, List.map_cons, List.getLast?_cons, Option.getD_some]

/-- What pages list that follow each other from a sequence, and where they end. Each page has a limit of its own and starts where the one before it has ended, and the last page lists nothing. -/
inductive Follows {ε : Type} (ask : Int → Nat → Except ε Changes) : (Nat → Nat) → Int → Changes → Prop
  | ended {limits : Nat → Nat} {since : Int} {page : Changes} (hpage : ask since (limits 0) = .ok page)
    (hnone : page.results = []) : Follows ask limits since page
  | turned {limits : Nat → Nat} {since : Int} {page rest : Changes} (hpage : ask since (limits 0) = .ok page)
    (hsome : page.results ≠ []) (hrest : Follows ask (fun turn => limits (turn + 1)) page.last rest) :
    Follows ask limits since ⟨page.results ++ rest.results, rest.last⟩

theorem Follows.mono {ε ε' : Type} {ask : Int → Nat → Except ε Changes} {ask' : Int → Nat → Except ε' Changes}
    {limits : Nat → Nat} {since : Int} {whole : Changes} (h : Follows ask limits since whole)
    (hask : ∀ since limit page, ask since limit = .ok page → ask' since limit = .ok page) :
    Follows ask' limits since whole := by
  induction h with
  | ended hpage hnone => exact .ended (hask _ _ _ hpage) hnone
  | turned hpage hsome _ ih => exact .turned (hask _ _ _ hpage) hsome ih

namespace Tables

variable {tables : Tables} {since : Int} {limits : Nat → Nat} {limit : Nat} {whole : Changes}

theorem pageLength_pos {available : Nat} (hlimit : 0 < limit) (havailable : 0 < available) :
    0 < pageLength limit available := by
  unfold pageLength
  split <;> assumption

theorem le_pageLength {available : Nat} (h : available ≤ limit ∨ Nat.pow 2 63 ≤ limit) :
    available ≤ pageLength limit available := by
  unfold pageLength
  split <;> omega

/-- All winners that are listed from a sequence, and the last sequence of them. -/
structure Listed (tables : Tables) (since : Int) (whole : Changes) : Prop where
  winners : List.Forall₂ (fun row winner => tables.Wins row.document winner) (tables.newestAfter since) whole.results
  last : whole.last = (tables.newestAfter since).foldl (fun last row => max last row.sequence) since

theorem Shape.listed_unique {other : Changes} (shape : tables.Shape) (h : tables.Listed since whole)
    (hother : tables.Listed since other) : whole = other := by
  have hunique : Relator.RightUnique fun (row : RevisionRow) winner => tables.Wins row.document winner :=
    fun _ _ _ hwins hwins' => shape.wins_unique hwins hwins'
  obtain ⟨results, last⟩ := whole
  obtain ⟨results', last'⟩ := other
  rw [Changes.mk.injEq]
  exact ⟨List.right_unique_forall₂' hunique h.winners hother.winners, h.last.trans hother.last.symm⟩

theorem Healthy.changes_whole (healthy : tables.Healthy)
    (hlimit : (tables.newestAfter since).length ≤ limit ∨ Nat.pow 2 63 ≤ limit) :
    ∃ page, tables.changes since limit = .ok page ∧ tables.Listed since page := by
  obtain ⟨page, hpage, hlast, hwinners, -⟩ := healthy.changes_ok since limit
  rw [List.take_of_length_le (le_pageLength hlimit)] at hlast hwinners
  exact ⟨page, hpage, hwinners, hlast⟩

theorem Healthy.listed_of_page {page rest : Changes} (healthy : tables.Healthy)
    (hpage : tables.changes since limit = .ok page) (hrest : tables.Listed page.last rest) :
    tables.Listed since ⟨page.results ++ rest.results, rest.last⟩ := by
  obtain ⟨found, hfound, hlast, hwinners, hleft⟩ := healthy.changes_ok since limit
  obtain rfl := Except.ok.inj (hpage.symm.trans hfound)
  have hrows := List.take_append_drop (pageLength limit (tables.newestAfter since).length) (tables.newestAfter since)
  rw [← hleft] at hrows
  constructor
  · rw [← hrows]
    exact List.rel_append hwinners hrest.winners
  · rw [hrest.last, ← hrows, List.foldl_append, ← hlast]

theorem Healthy.listed_of_follows (healthy : tables.Healthy) (h : Follows tables.changes limits since whole)
    (hlimits : ∀ turn, 0 < limits turn) :
    tables.Listed since whole := by
  induction h with
  | @ended limits since page hpage hnone =>
    obtain ⟨found, hfound, hlast, hwinners, -⟩ := healthy.changes_ok since (limits 0)
    obtain rfl := Except.ok.inj (hpage.symm.trans hfound)
    have hnothing : tables.newestAfter since = [] := by
      rw [hnone, List.forall₂_nil_right_iff] at hwinners
      by_contra hsome
      have hshort := congrArg List.length hwinners
      rw [List.length_take, List.length_nil] at hshort
      have hpositive := List.length_pos_iff.mpr hsome
      have hpages := pageLength_pos (hlimits 0) hpositive
      omega
    constructor
    · rw [hnothing, hnone]
      exact .nil
    · rw [hlast, hnothing, List.take_nil]
  | turned hpage _ _ ih => exact healthy.listed_of_page hpage (ih fun turn => hlimits (turn + 1))

/-- Pages come to an end, since each leaves fewer documents than there were before it. -/
theorem Healthy.exists_follows (healthy : tables.Healthy) (since : Int) (hlimits : ∀ turn, 0 < limits turn) :
    ∃ whole, Follows tables.changes limits since whole := by
  obtain ⟨left, hleft⟩ : ∃ left, (tables.newestAfter since).length = left := ⟨_, rfl⟩
  induction left using Nat.strongRecOn generalizing limits since with
  | ind left ih =>
    obtain ⟨page, hpage, -, hwinners, hbehind⟩ := healthy.changes_ok since (limits 0)
    by_cases hnone : page.results = []
    · exact ⟨page, .ended hpage hnone⟩
    · have hfewer : (tables.newestAfter page.last).length < left := by
        have hlength := hwinners.length_eq
        have hsome := List.length_pos_iff.mpr hnone
        rw [List.length_take] at hlength
        rw [hbehind, List.length_drop]
        omega
      obtain ⟨rest, hrest⟩ := ih _ hfewer page.last (fun turn => hlimits (turn + 1)) rfl
      exact ⟨_, .turned hpage hnone hrest⟩

/-- Whatever the limits are, what the pages list is what one query lists. -/
theorem Healthy.follows (healthy : tables.Healthy) (since : Int) (hlimits : ∀ turn, 0 < limits turn) :
    ∃ whole, tables.Listed since whole ∧ Follows tables.changes limits since whole ∧
      (∀ other, Follows tables.changes limits since other → other = whole) ∧
      ∀ limit, whole.results.length ≤ limit ∨ Nat.pow 2 63 ≤ limit → tables.changes since limit = .ok whole := by
  obtain ⟨whole, hwhole⟩ := healthy.exists_follows since hlimits
  have hlisted := healthy.listed_of_follows hwhole hlimits
  refine ⟨whole, hlisted, hwhole, fun other hother => ?_, fun limit hlimit => ?_⟩
  · exact healthy.shape.listed_unique (healthy.listed_of_follows hother hlimits) hlisted
  · obtain ⟨page, hpage, hpages⟩ := healthy.changes_whole (hlisted.winners.length_eq ▸ hlimit)
    rw [hpage, healthy.shape.listed_unique hpages hlisted]

theorem Healthy.mem_listed_iff {doc : String} (healthy : tables.Healthy) (h : tables.Listed since whole) :
    doc ∈ whole.results.map (·.doc) ↔
      ∃ row ∈ tables.revisions, tables.documentNumber? doc = some row.document ∧ since < row.sequence := by
  constructor
  · intro hdoc
    obtain ⟨winner, hwinner, rfl⟩ := List.mem_map.mp hdoc
    obtain ⟨row, hrow, hwins⟩ := exists_mem_left h.winners hwinner
    obtain ⟨hmem, hlt, -⟩ := mem_newestAfter_iff.mp hrow
    exact ⟨row, hmem, hwins.registered, hlt⟩
  · rintro ⟨row, hrow, hnumber, hlt⟩
    obtain ⟨newest, hnewest, hhome⟩ := healthy.shape.exists_newest hrow hlt
    obtain ⟨winner, hwinner, hwins⟩ := exists_mem_right h.winners hnewest
    rw [← healthy.shape.doc_eq_of_number (hhome ▸ hwins.registered) hnumber]
    exact List.mem_map_of_mem hwinner

theorem Shape.nodup_listed (shape : tables.Shape) (h : tables.Listed since whole) :
    (whole.results.map (·.doc)).Nodup := by
  have hnumbers : (tables.newestAfter since).map (fun row => some row.document)
      = whole.results.map fun winner => tables.documentNumber? winner.doc :=
    map_eq_of_forall₂ h.winners fun _ _ hwins => hwins.registered.symm
  have hnodup := (shape.nodup_newest since).map (Option.some_injective _)
  rw [List.map_map, show some ∘ (·.document) = fun row : RevisionRow => some row.document from rfl, hnumbers] at hnodup
  refine List.Nodup.of_map tables.documentNumber? ?_
  rwa [List.map_map]

end Tables

namespace Store

open Tables

variable {store : Store} {doc : String} {since : Int} {limits : Nat → Nat} {whole : Changes}

/-- The sequences of the revisions of a document. -/
def sequences (store : Store) (doc : String) : Set Int :=
  {sequence | ∃ rev revision, store.read doc (some rev) = .ok revision ∧ revision.sequence = sequence}

theorem mem_sequences_iff {sequence : Int} (hopen : store.closed = false) (healthy : store.writer.database.tables.Healthy) :
    sequence ∈ store.sequences doc ↔ ∃ row ∈ store.writer.database.tables.revisions,
      store.writer.database.tables.documentNumber? doc = some row.document ∧ row.sequence = sequence := by
  constructor
  · rintro ⟨rev, revision, hread, rfl⟩
    have hfound := (read_iff hopen).mp hread
    obtain ⟨number, hnumber⟩ := exists_number_of_getRevision hfound
    obtain ⟨row, hrow, rfl, -, hrevision⟩ := getRevision_ok_some hnumber hfound
    obtain ⟨_, _, -, -, rfl⟩ := readRevision_ok_iff.mp hrevision
    exact ⟨row, hrow, hnumber, rfl⟩
  · rintro ⟨row, hrow, hnumber, rfl⟩
    obtain ⟨rev, hreads⟩ := healthy.legible.revisions row hrow
    obtain ⟨attachments, -, hread⟩ := healthy.legible.readRevision_ok hreads doc
    exact ⟨rev, _, read_of_row hopen healthy hnumber hrow rfl hreads.1 hread, rfl⟩

theorem changes_ok_iff {limit : Nat} {page : Changes} (hopen : store.closed = false) :
    store.changes since limit = .ok page ↔ store.writer.database.tables.changes since limit = .ok page := by
  rw [changes, ask, if_neg (by simp [hopen])]
  cases store.writer.database.tables.changes since limit <;> simp [Except.mapError]

/-- The winners of the documents that have a revision behind a sequence, in the order of the last revision of each. -/
structure Reports (store : Store) (since : Int) (whole : Changes) : Prop where
  winners : ∀ winner ∈ whole.results, store.read winner.doc none = .ok winner
  once : (whole.results.map (·.doc)).Nodup
  behind : ∀ doc, doc ∈ whole.results.map (·.doc) ↔ ∃ sequence ∈ store.sequences doc, since < sequence
  ordered : ∃ newest : List Int, newest.Pairwise (· < ·) ∧ whole.last = newest.getLast?.getD since ∧
    List.Forall₂ (fun winner sequence => IsGreatest (store.sequences winner.doc) sequence) whole.results newest

theorem reports_of_listed (hopen : store.closed = false) (healthy : store.writer.database.tables.Healthy)
    (h : store.writer.database.tables.Listed since whole) : store.Reports since whole where
  winners := by
    intro winner hwinner
    obtain ⟨row, -, hwins⟩ := exists_mem_left h.winners hwinner
    exact (read_winner_iff hopen).mpr hwins.shown
  once := healthy.shape.nodup_listed h
  behind := by
    intro doc
    rw [healthy.mem_listed_iff h]
    simp only [mem_sequences_iff hopen healthy]
    constructor
    · rintro ⟨row, hrow, hnumber, hlt⟩
      exact ⟨_, ⟨row, hrow, hnumber, rfl⟩, hlt⟩
    · rintro ⟨_, ⟨row, hrow, hnumber, rfl⟩, hlt⟩
      exact ⟨row, hrow, hnumber, hlt⟩
  ordered := by
    have hascending : (store.writer.database.tables.newestAfter since).Pairwise fun older newer =>
      older.sequence < newer.sequence := healthy.shape.ascending.filter _
    refine ⟨(store.writer.database.tables.newestAfter since).map (·.sequence), List.pairwise_map.mpr hascending, ?_, ?_⟩
    · rw [h.last]
      exact foldl_max_eq_getLast? (·.sequence) hascending fun row hrow => (mem_newestAfter_iff.mp hrow).2.1
    · refine List.forall₂_map_right_iff.mpr (List.Forall₂.imp ?_
        (List.forall₂_and_left _ _ |>.mpr ⟨fun row hrow => mem_newestAfter_iff.mp hrow, h.winners⟩).flip)
      rintro winner row ⟨⟨hrow, -, hnewest⟩, hwins⟩
      refine ⟨(mem_sequences_iff hopen healthy).mpr ⟨row, hrow, hwins.registered, rfl⟩, fun sequence hsequence => ?_⟩
      obtain ⟨other, hother, hnumber, rfl⟩ := (mem_sequences_iff hopen healthy).mp hsequence
      exact hnewest other hother (Option.some.inj (hnumber.symm.trans hwins.registered))

/-- Pages that are read one after the other come to an end, whatever limits they have, and list together what one query without a limit lists. -/
theorem Onward.follows_pages {config : Config} {blobs : BlobStore} (h : (openWith config blobs).Onward store)
    (hopen : store.closed = false) (since : Int) {limits : Nat → Nat} (hlimits : ∀ turn, 0 < limits turn) :
    ∃ whole, store.Reports since whole ∧ Follows store.changes limits since whole ∧
      (∀ other, Follows store.changes limits since other → other = whole) ∧
      ∀ limit, whole.results.length ≤ limit ∨ Nat.pow 2 63 ≤ limit → store.changes since limit = .ok whole := by
  obtain ⟨-, healthy, -⟩ := h.preserved rfl healthy_empty
  obtain ⟨whole, hlisted, hfollows, hunique, hqueried⟩ := healthy.follows since hlimits
  refine ⟨whole, reports_of_listed hopen healthy hlisted, ?_, fun other hother => ?_, fun limit hlimit => ?_⟩
  · exact hfollows.mono fun since limit page hpage => (changes_ok_iff hopen).mpr hpage
  · exact hunique other (hother.mono fun since limit page hpage => (changes_ok_iff hopen).mp hpage)
  · exact (changes_ok_iff hopen).mpr (hqueried limit hlimit)

/-- A page of one document and one without limit list both documents of a store, of which the later one has an older winner. -/
theorem follows_pages_mutated :
    let one : Graft := { doc := "d", history := [⟨1, "a", by decide, by decide⟩] }
    let two : Graft := { doc := "d", history := [⟨1, "b", by decide, by decide⟩] }
    let other : Graft := { doc := "e", history := [⟨1, "a", by decide, by decide⟩] }
    let store := stateAfter (submit (.mutate (.delete "d" ⟨1, "b", by decide, by decide⟩)))
      (stateAfter (graftAll [one, two, other]) (new {}))
    ∃ whole, Follows store.changes (fun turn => if turn = 0 then 1 else Nat.pow 2 64 - 1) 0 whole ∧
      store.changes 0 (Nat.pow 2 64 - 1) = .ok whole ∧
      whole.results.map (fun winner => (winner.doc, winner.sequence)) = [("e", 3), ("d", 1)] ∧ whole.last = 4 := by
  intro one two other store
  have hstart : (openWith {} {}).Onward store := .command _ trivial (Onward.graftAll _ .start)
  have hopen : store.closed = false := by decide +kernel
  have hlimits : ∀ turn : Nat, 0 < if turn = 0 then 1 else Nat.pow 2 64 - 1 := by
    intro turn
    split <;> decide
  obtain ⟨whole, -, hfollows, -, hqueried⟩ := hstart.follows_pages hopen 0 hlimits
  have hanswer := hqueried (Nat.pow 2 64 - 1) (.inr (by decide))
  refine ⟨whole, hfollows, hanswer, ?_⟩
  have hshown : (do
      let whole ← store.changes 0 (Nat.pow 2 64 - 1)
      return (whole.results.map (fun winner => (winner.doc, winner.sequence)), whole.last))
        = Except.ok (ε := StoreError) ([("e", 3), ("d", 1)], 4) := by decide +kernel
  rw [hanswer] at hshown
  exact Prod.mk.inj (Except.ok.inj hshown)

end Store

end RevisionForest
