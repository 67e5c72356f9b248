import RevisionForest.Proofs.Announcements
import RevisionForest.Proofs.Pedigree
import RevisionForest.Proofs.Reading
import Mathlib.Logic.Function.Basic
/-!
# What an event tells

The standings name the winner of each document that has a revision. In healthy tables the winner of a document follows from the rows of that document alone, flags and other documents aside (`Shape.leaves_eq`), so an edit that adds rows to one document changes the standings there and nowhere else. Each edit announces exactly this change: its event starts from the winner that was, and ends with the one that is (`ChangeEvent.Tells`). That holds also where no election is held. A new document is won by its only row, and the tombstone of a loser comes without a flag, so the winner stays.
-/

namespace RevisionForest

/-- The winners of some documents. -/
abbrev Standings := String → Option Winner

/-- The standings after an event. -/
def ChangeEvent.turn (event : ChangeEvent) (standings : Standings) : Standings :=
  Function.update standings event.doc event.new

theorem ChangeEvent.turn_self (event : ChangeEvent) (standings : Standings) :
    event.turn standings event.doc = event.new :=
  Function.update_self ..

theorem ChangeEvent.turn_of_ne {event : ChangeEvent} {doc : String} (hne : doc ≠ event.doc) (standings : Standings) :
    event.turn standings doc = standings doc :=
  Function.update_of_ne hne ..

/-- An event knows who won before and who wins after. -/
structure ChangeEvent.Tells (event : ChangeEvent) (before after : Standings) : Prop where
  prev : event.prev = before event.doc
  turn : event.turn before = after

namespace Tables

/-- The flagged revision of a document. -/
def winnerOf (tables : Tables) (number : Int) : Option Winner :=
  match tables.currentWinner number with
  | .ok found => found
  | .error _ => none

def standings (tables : Tables) : Standings := fun doc =>
  (tables.documentNumber? doc).bind tables.winnerOf

/-- The rows of a document, without flags. -/
def own (tables : Tables) (number : Int) : List RevisionRow :=
  tables.bones.filter fun bone => bone.document = number

variable {tables opened before after : Tables} {doc other : String} {number : Int} {rows : List RevisionRow}
  {attachments : List AttachmentRow} {prev new elected : Option Winner}

theorem winnerOf_eq (h : tables.currentWinner number = .ok new) : tables.winnerOf number = new := by
  rw [winnerOf, h]

theorem standings_eq (h : tables.documentNumber? doc = some number) : tables.standings doc = tables.winnerOf number := by
  rw [standings, h, Option.bind_some]

theorem standings_eq_some_iff {winner : Winner} :
    tables.standings doc = some winner ↔
      ∃ number, tables.documentNumber? doc = some number ∧ tables.currentWinner number = .ok (some winner) := by
  rw [standings, Option.bind_eq_some_iff]
  refine exists_congr fun number => and_congr_right fun _ => ?_
  cases hwinner : tables.currentWinner number with
  | ok found => rw [winnerOf_eq hwinner, Except.ok.injEq]
  | error error => simp [winnerOf, hwinner]

theorem Healthy.exists_standing_iff (healthy : tables.Healthy) :
    (∃ winner, tables.standings doc = some winner) ↔
      ∃ number, tables.documentNumber? doc = some number ∧ ∃ row ∈ tables.revisions, row.document = number := by
  simp only [standings_eq_some_iff]
  constructor
  · rintro ⟨winner, number, hnumber, hwinner⟩
    obtain ⟨row, hrow, hdocument, -⟩ := currentWinner_ok_some hwinner
    exact ⟨number, hnumber, row, hrow, hdocument⟩
  · rintro ⟨number, hnumber, row, hrow, rfl⟩
    obtain ⟨winner, hwinner, -⟩ := healthy.exists_winner hrow
    exact ⟨winner, row.document, hnumber, hwinner⟩

/-! ### A document by itself -/

theorem mem_own_iff {bone : RevisionRow} : bone ∈ tables.own number ↔ bone ∈ tables.bones ∧ bone.document = number := by
  rw [own, List.mem_filter, decide_eq_true_eq]

theorem own_eq_nil_iff : tables.own number = [] ↔ ∀ bone ∈ tables.bones, bone.document ≠ number := by
  simp only [own, List.filter_eq_nil_iff, decide_eq_true_eq, ne_eq]

theorem Shape.isLeaf_eq {row : RevisionRow} (shape : tables.Shape) (hrow : row ∈ tables.revisions)
    (hdocument : row.document = number) :
    tables.isLeaf row.sequence = !(tables.own number).any fun child => child.parent = some row.sequence := by
  rw [Bool.eq_iff_iff, Bool.not_eq_true', List.any_eq_false, isLeaf_iff]
  simp only [mem_own_iff, mem_bones_iff, decide_eq_true_eq]
  constructor
  · rintro hleaf _ ⟨⟨child, hchild, rfl⟩, -⟩
    exact hleaf child hchild
  · intro hleaf child hchild hparent
    obtain ⟨-, older, holder, hsequence, hhome⟩ := shape.parents child hchild _ hparent
    obtain rfl := shape.eq_of_sequence holder hrow hsequence
    exact hleaf child.bare ⟨⟨child, hchild, rfl⟩, hhome.symm.trans hdocument⟩ hparent

theorem Shape.leaves_eq (shape : tables.Shape) (number : Int) :
    tables.leaves number
      = ((tables.own number).filter fun bone =>
          !(tables.own number).any fun child => child.parent = some bone.sequence).mapM readLeaf := by
  have hread : (fun row : RevisionRow => readLeaf row.bare) = readLeaf := rfl
  have hsame : ∀ row ∈ tables.revisions,
      (decide (row.document = number) && tables.isLeaf row.sequence)
        = ((!(tables.own number).any fun child => child.parent = some row.bare.sequence)
            && decide (row.bare.document = number)) := by
    intro row hrow
    have hbare : row.bare.document = row.document := rfl
    rw [hbare, Bool.and_comm]
    by_cases hdocument : row.document = number
    · rw [shape.isLeaf_eq hrow hdocument]
      rfl
    · simp only [hdocument, decide_false, Bool.and_false]
  rw [own, List.filter_filter, bones, List.filter_map, List.mapM_map, Function.comp_def, Function.comp_def, hread]
  exact congrArg (·.mapM readLeaf) (List.filter_congr hsame)

theorem Healthy.winnerOf_congr (healthy : before.Healthy) (healthy' : after.Healthy)
    (h : after.own number = before.own number) : after.winnerOf number = before.winnerOf number := by
  obtain ⟨leaves, hleaves, hwinner⟩ := (healthy.crowned number).currentWinner healthy.shape
  obtain ⟨leaves', hleaves', hwinner'⟩ := (healthy'.crowned number).currentWinner healthy'.shape
  rw [healthy'.shape.leaves_eq, h, ← healthy.shape.leaves_eq, hleaves] at hleaves'
  rw [winnerOf_eq hwinner, winnerOf_eq hwinner', Except.ok.inj hleaves']

theorem Healthy.currentWinner_eq_none_iff (healthy : tables.Healthy) :
    tables.currentWinner number = .ok none ↔ tables.own number = [] := by
  rw [own_eq_nil_iff]
  constructor
  · intro hnone bone hbone hdocument
    obtain ⟨row, hrow, rfl⟩ := mem_bones_iff.mp hbone
    obtain ⟨winner, hwinner, -⟩ := healthy.exists_winner hrow
    rw [show row.document = number from hdocument, hnone] at hwinner
    nomatch hwinner
  · intro hnone
    obtain ⟨leaves, -, hwinner⟩ := (healthy.crowned number).currentWinner healthy.shape
    cases hfound : (Election.winner? leaves).map (·.winner) with
    | none => rw [hwinner, hfound]
    | some winner =>
      rw [hfound] at hwinner
      obtain ⟨row, hrow, hdocument, -⟩ := currentWinner_ok_some hwinner
      exact absurd hdocument (hnone row.bare (mem_bones_iff.mpr ⟨row, hrow, rfl⟩))

theorem Extends.own_eq (h : before.Extends after) (shape : before.Shape) (shape' : after.Shape)
    (hold : ∀ row ∈ after.revisions, row.document = number → row.sequence ≤ before.lastSequence) :
    after.own number = before.own number := by
  obtain ⟨rest, hrest⟩ := h.bones
  have hnodup : after.bones.Nodup := shape'.nodup_bones
  rw [← hrest] at hnodup
  have hnone : rest.filter (fun bone => bone.document = number) = [] := by
    refine List.filter_eq_nil_iff.mpr fun bone hbone htest => ?_
    have hafter : bone ∈ after.bones := hrest ▸ List.mem_append_right _ hbone
    obtain ⟨row, hrow, rfl⟩ := mem_bones_iff.mp hafter
    have hbefore := h.mem_bones_of_le shape shape' hafter (hold row hrow (of_decide_eq_true htest))
    exact List.disjoint_of_nodup_append hnodup hbefore hbone
  rw [own, ← hrest, List.filter_append, hnone, List.append_nil]
  rfl

theorem Extends.standings_eq (h : before.Extends after) (healthy : before.Healthy) (healthy' : after.Healthy)
    (hnumber : after.documentNumber? doc = some number)
    (hold : ∀ row ∈ after.revisions, row.document = number → row.sequence ≤ before.lastSequence) :
    after.standings doc = before.standings doc := by
  have hown := h.own_eq healthy.shape healthy'.shape hold
  cases hfound : before.documentNumber? doc with
  | some found =>
    obtain rfl := Option.some.inj (hnumber.symm.trans (h.documentNumber? hfound))
    rw [Tables.standings_eq hnumber, Tables.standings_eq hfound, healthy.winnerOf_congr healthy' hown]
  | none =>
    -- The document is new, and so its rows would be.
    have hnone : after.own number = [] := by
      rw [hown, own_eq_nil_iff]
      rintro bone hbone rfl
      obtain ⟨row, hrow, rfl⟩ := mem_bones_iff.mp hbone
      obtain ⟨⟨home, id⟩, hhome, rfl⟩ := healthy.shape.homes row hrow
      have hid := healthy'.shape.documentNumber?_eq_some_iff.mpr (h.documents.subset hhome)
      have hdoc := healthy'.shape.doc_eq_of_number hnumber hid
      exact documentNumber?_eq_none_iff.mp hfound _ hhome hdoc.symm
    rw [Tables.standings_eq hnumber, winnerOf_eq (healthy'.currentWinner_eq_none_iff.mpr hnone), standings, hfound,
      Option.bind_none]

theorem Gains.own_of_home (h : before.Gains after rows attachments) (hhome : ∀ row ∈ rows, row.document = number) :
    after.own number = before.own number ++ rows := by
  have hall : rows.filter (fun bone => bone.document = number) = rows :=
    List.filter_eq_self.mpr fun row hrow => decide_eq_true (hhome row hrow)
  rw [own, h.bones, List.filter_append, hall]
  rfl

theorem Gains.own_of_ne (h : before.Gains after rows attachments) (hforeign : ∀ row ∈ rows, row.document ≠ number) :
    after.own number = before.own number := by
  have hnone : rows.filter (fun bone => bone.document = number) = [] :=
    List.filter_eq_nil_iff.mpr fun row hrow htest => hforeign row hrow (of_decide_eq_true htest)
  rw [own, h.bones, List.filter_append, hnone, List.append_nil]
  rfl

theorem Gains.standings_of_ne (h : before.Gains after rows attachments) (healthy : before.Healthy)
    (healthy' : after.Healthy) (hnumber : before.documentNumber? doc = some number)
    (hhome : ∀ row ∈ rows, row.document = number) (hne : other ≠ doc) : after.standings other = before.standings other := by
  simp only [standings, h.documentNumber?]
  cases hfound : before.documentNumber? other with
  | none => rfl
  | some found =>
    refine healthy.winnerOf_congr healthy' (h.own_of_ne fun row hrow heq => hne ?_)
    rw [← heq, hhome row hrow] at hfound
    exact healthy.shape.doc_eq_of_number hfound hnumber

/-- What an edit of one document has to announce. -/
theorem Gains.tells (h : before.Gains after rows attachments) (healthy : before.Healthy) (healthy' : after.Healthy)
    (hnumber : before.documentNumber? doc = some number) (hhome : ∀ row ∈ rows, row.document = number)
    (hprev : before.currentWinner number = .ok prev) (hnew : after.currentWinner number = .ok new) :
    (ChangeEvent.mk doc prev new).Tells before.standings after.standings where
  prev := by rw [standings_eq hnumber, winnerOf_eq hprev]
  turn := by
    funext other
    by_cases heq : other = doc
    · have hnumber' : after.documentNumber? doc = some number := (h.documentNumber? doc).trans hnumber
      rw [heq, standings_eq hnumber', winnerOf_eq hnew]
      exact ChangeEvent.turn_self ..
    · rw [h.standings_of_ne healthy healthy' hnumber hhome heq]
      exact ChangeEvent.turn_of_ne heq _

theorem Derives.tells {child : NewRevision} {described : List Attachment} {revision : Revision}
    (h : before.Derives after child described revision) (healthy : before.Healthy) (healthy' : after.Healthy)
    (hnumber : before.documentNumber? doc = some child.document) (hprev : before.currentWinner child.document = .ok prev)
    (hnew : after.currentWinner child.document = .ok new) :
    (ChangeEvent.mk doc prev new).Tells before.standings after.standings := by
  cases h with
  | grown _ hgains =>
    exact hgains.tells healthy healthy' hnumber (List.forall_mem_singleton.mpr rfl) hprev hnew
  | stored _ _ hgains =>
    exact hgains.tells healthy healthy' hnumber (List.forall_mem_nil _) hprev hnew

/-! ### Who wins -/

theorem Healthy.currentWinner_of_pickWinner (healthy : after.Healthy) (h : pickWinner number tables = .ok elected after) :
    after.currentWinner number = .ok elected := by
  obtain ⟨leaves, hleaves, hwinner⟩ := (healthy.crowned number).currentWinner healthy.shape
  obtain ⟨elective, helective, ⟨hnone, rfl, rfl⟩ | ⟨leaf, hleaf, rfl, rfl⟩⟩ := pickWinner_ok_iff.mp h
  · rw [helective] at hleaves
    rw [hwinner, ← Except.ok.inj hleaves, hnone, Option.map_none]
  · rw [crown_eq_reflag, leaves_reflag, helective] at hleaves
    rw [hwinner, ← Except.ok.inj hleaves, hleaf, Option.map_some]

theorem currentWinner_push {pushed : NewRevision} (hloser : pushed.current = false) :
    (tables.push pushed).currentWinner number = tables.currentWinner number := by
  simp only [currentWinner, push, List.find?_append, List.find?_singleton, NewRevision.row, hloser, Bool.and_false,
    Bool.false_eq_true, ↓reduceIte, Option.or_none]

theorem Healthy.currentWinner_of_sole {row : RevisionRow} {rev : RevId} (healthy : tables.Healthy)
    (hsole : tables.own number = [row]) (htext : row.revText = rev.text) :
    tables.currentWinner number = .ok (some ⟨rev, row.sequence, row.deleted⟩) := by
  obtain ⟨hrow, hdocument⟩ := mem_own_iff.mp (hsole ▸ List.mem_singleton.mpr rfl)
  obtain ⟨stored, hstored, rfl⟩ := mem_bones_iff.mp hrow
  obtain ⟨⟨found, sequence, deleted⟩, hwinner, -⟩ := healthy.exists_winner hstored
  rw [show stored.document = number from hdocument] at hwinner
  obtain ⟨flagged, hflagged, hhome, -, hread⟩ := currentWinner_ok_some hwinner
  have hsame : flagged.bare = stored.bare :=
    List.mem_singleton.mp (hsole ▸ mem_own_iff.mpr ⟨mem_bones_iff.mpr ⟨flagged, hflagged, rfl⟩, hhome⟩)
  rw [← hsame] at htext ⊢
  obtain ⟨hparse, rfl, rfl⟩ := readWinner_ok_iff.mp hread
  have hreads := healthy.legible.reads hflagged htext
  rw [hreads.1, RevId.parse_text hreads.2] at hparse
  obtain rfl := Except.ok.inj hparse
  exact hwinner

theorem openTables_standings (healthy : tables.Healthy) (h : Edit.openTables doc tables = .ok number opened) :
    opened.standings = tables.standings := by
  rcases openTables_ok_iff.mp h with ⟨-, rfl⟩ | ⟨⟨hnamed, hfree⟩, rfl, rfl⟩
  · rfl
  funext other
  by_cases heq : other = doc
  · obtain ⟨hopened, hnumber, -⟩ := openTables_ok healthy h
    have hnone := hopened.currentWinner_eq_none_iff.mpr (own_eq_nil_iff.mpr healthy.shape.fresh_lastNumber)
    rw [heq, standings_eq hnumber, winnerOf_eq hnone, standings, hfree, Option.bind_none]
  · rw [standings, documentNumber?_register heq]
    rfl

end Tables

end RevisionForest
