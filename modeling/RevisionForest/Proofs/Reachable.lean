import RevisionForest.Proofs.Reading
import RevisionForest.Proofs.Requests
/-!
# One winner

Whatever is asked of a store that is between levels and has healthy tables, it is so again, and no document and no revision is lost (`Store.Onward.preserved`). So an open store that began empty has healthy tables (`Store.Reachable.healthy`): in every document that has a revision exactly one is flagged as current, and it is the leaf that outranks all others (`Store.Reachable.single_winner`).
-/

namespace RevisionForest

/-- Healthy tables stay healthy and lose nothing. -/
def Holdings.Sound (before after : Holdings) : Prop :=
  before.tables.Healthy → after.tables.Healthy ∧ before.tables.Extends after.tables

theorem covers_sound : Covers Holdings.Sound where
  refl := fun tables _ _ _ _ healthy => ⟨healthy, .refl tables⟩
  trans := by
    intro first second third hfirst hsecond healthy
    obtain ⟨hbetween, hextends⟩ := hfirst healthy
    obtain ⟨hafter, hextends'⟩ := hsecond hbetween
    exact ⟨hafter, hextends.trans hextends'⟩
  create := by
    refine fun doc body attachments _ _ => ⟨Edit.create_grows doc body attachments, fun draft value draft' h _ healthy => ?_⟩
    obtain ⟨-, hafter, hgains⟩ := Edit.create_effect healthy h
    exact ⟨hafter, (Tables.Extends.register draft.tables doc).trans hgains.extends⟩
  update := by
    refine fun doc expected body changes _ _ =>
      ⟨Edit.update_grows doc expected body changes, fun draft value draft' h _ healthy => ?_⟩
    obtain ⟨_, _, _, _, -, hafter, -, hderives⟩ := Edit.update_effect healthy h
    exact ⟨hafter, hderives.extends⟩
  bury := by
    refine fun doc rev => ⟨Edit.bury_grows doc rev, fun draft value draft' h _ healthy => ?_⟩
    obtain ⟨_, _, -, hafter, -, hderives⟩ := Edit.bury_effect healthy h
    exact ⟨hafter, hderives.extends⟩
  graft := by
    refine fun item hcheck => ⟨Edit.graft_grows item, fun draft value draft' h _ healthy => ?_⟩
    obtain ⟨rev, number, opened, ⟨-, hopen, hafter⟩, hcases⟩ :=
      Edit.graft_effect healthy (Graft.check_ok_iff.mp hcheck).2.2.1 h
    obtain ⟨-, -, hopened, -⟩ := Tables.openTables_ok healthy hopen
    rcases hcases with ⟨-, -, heq, -⟩ | ⟨-, -, hgains⟩
    · rw [← heq] at hopened
      exact ⟨hafter, hopened⟩
    · exact ⟨hafter, hopened.trans hgains.extends⟩

namespace Store

variable {start store : Store}

theorem Onward.preserved (h : start.Onward store) (hrest : start.AtRest) (healthy : start.writer.database.tables.Healthy) :
    store.AtRest ∧ store.writer.database.tables.Healthy ∧
      start.writer.database.tables.Extends store.writer.database.tables := by
  have hbesides : ∀ store after : Store, store.Besides True after → store.AtRest →
      after.AtRest ∧ store.writer.holdings.Sound after.writer.holdings := by
    intro store after hother hbetween
    obtain ⟨hafter, haside, -⟩ := hother.aside hbetween
    exact ⟨hafter, fun healthy => ⟨haside.healthy healthy, haside.extends⟩⟩
  obtain ⟨hafter, hsound⟩ :=
    h.follows covers_sound.toCourse (fun command => command.run_follows covers_sound) hbesides hrest
  exact ⟨hafter, hsound healthy⟩

theorem healthy_empty : Tables.Healthy {} where
  shape := Tables.shape_empty
  legible := ⟨fun _ hmem => absurd hmem List.not_mem_nil, fun _ hmem => absurd hmem List.not_mem_nil⟩
  crowned := fun _ => ⟨[], rfl, fun _ hmem => absurd hmem List.not_mem_nil⟩
  fertile := rfl

/-- Open stores that a caller can come to from an empty one. -/
structure Reachable (store : Store) : Prop where
  opened : store.closed = false
  onward : ∃ config blobs, (openWith config blobs).Onward store

/-- Open stores that a caller can come to from an empty one without the loss of a blob. In a network other stores make up ids in between. -/
structure Networked (store : Store) : Prop where
  opened : store.closed = false
  onward : ∃ config blobs, (openWith config blobs).Becomes Command.Plain (Besides False) store

theorem Besides.loosen {lossy : Prop} {store after : Store} (h : store.Besides lossy after) : store.Besides True after := by
  cases h with
  | apart hapart => exact .apart hapart
  | subscribed capacity => exact .subscribed capacity
  | drained ticket most => exact .drained ticket most
  | unsubscribed ticket => exact .unsubscribed ticket
  | closed => exact .closed
  | reopened htables _ => exact .reopened htables (.inl trivial)
  | bereft _ data => exact .bereft trivial data

theorem Networked.reachable (h : store.Networked) : store.Reachable := by
  obtain ⟨config, blobs, hkept⟩ := h.onward
  exact ⟨h.opened, config, blobs, hkept.mono (fun _ => id) fun _ _ => Besides.loosen⟩

theorem Reachable.healthy (h : store.Reachable) : store.AtRest ∧ store.writer.database.tables.Healthy := by
  obtain ⟨config, blobs, honward⟩ := h.onward
  obtain ⟨hrest, healthy, -⟩ := honward.preserved rfl healthy_empty
  exact ⟨hrest, healthy⟩

/-- The flagged revisions of a document. -/
def currentRows (store : Store) (document : Int) : List RevisionRow :=
  store.writer.database.tables.revisions.filter fun row => row.document = document && row.current

/-- A document without revisions has no winner, and any other has one flagged revision, the leaf that outranks all others. -/
theorem Reachable.single_winner (h : store.Reachable) (document : Int) :
    ((∀ row ∈ store.writer.database.tables.revisions, row.document ≠ document) ∧ store.currentRows document = []) ∨
      ∃ row leaves winner, store.currentRows document = [row] ∧
        store.writer.database.tables.leaves document = .ok leaves ∧ Election.winner? leaves = some winner ∧
        Tables.readLeaf row = .ok winner ∧ ∀ leaf ∈ leaves, leaf = winner ∨ winner.Outranks leaf := by
  obtain ⟨-, healthy⟩ := h.healthy
  rcases healthy.flagged document with hnone | ⟨row, leaves, winner, hflagged, -, hleaves, hwinner, hread⟩
  · exact .inl hnone
  · refine .inr ⟨row, leaves, winner, hflagged, hleaves, hwinner, hread, fun leaf hleaf => ?_⟩
    by_cases heq : leaf = winner
    · exact .inl heq
    · refine .inr (Election.winner?_outranks hwinner (fun other hother hrev => ?_) hleaf heq)
      exact healthy.shape.leaf_unique healthy.legible hleaves hother (Election.winner?_mem hwinner) hrev

/-- A store that was given a revision of another peer shows it. -/
theorem single_winner_grafted :
    let store := stateAfter (submit (.mutate (.graft { doc := "d", history := [⟨1, "a", by decide, by decide⟩] }))) (new {})
    ∃ row leaves winner, store.currentRows 1 = [row] ∧
      store.writer.database.tables.leaves 1 = .ok leaves ∧ Election.winner? leaves = some winner ∧
      Tables.readLeaf row = .ok winner ∧ ∀ leaf ∈ leaves, leaf = winner ∨ winner.Outranks leaf := by
  intro store
  have hreachable : store.Reachable := ⟨by decide +kernel, {}, {}, .command _ trivial .start⟩
  rcases hreachable.single_winner 1 with ⟨hnone, -⟩ | hwinner
  · have hrows : store.writer.database.tables.revisions.map (·.document) = [1] := by decide +kernel
    have hone : (1 : Int) ∈ store.writer.database.tables.revisions.map (·.document) := by
      rw [hrows]
      exact List.mem_singleton.mpr rfl
    obtain ⟨row, hrow, hdocument⟩ := List.mem_map.mp hone
    exact absurd hdocument (hnone row hrow)
  · exact hwinner

end Store

end RevisionForest
