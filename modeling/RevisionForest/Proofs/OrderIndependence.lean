import RevisionForest.Proofs.Batches
import RevisionForest.Proofs.Views
/-!
# The order of grafts does not matter

A store that can be written takes every graft that fits a tree (`Store.graft_ok`), and so takes whole batches of them without a failure. What a document knows afterwards is what it knew before and the ids of all histories, which is the same for every order of the batch and however often an item is repeated. Since the tables mirror the tree all along, so is everything that peers have to agree on.

A document whose id begins with a zero character is never there, since the tables take no such id: every graft into it is refused and leaves the store as it was. That too is the same for every order (`Store.Reachable.graftAll_order`), but the ids of the histories are not known then.
-/

namespace RevisionForest

open Tables

namespace Edit

variable {draft : Draft} {item : Graft}

theorem graft_refused (hhistory : item.history ≠ []) (hblank : isBlankId item.doc = true)
    (hfree : draft.tables.documentNumber? item.doc = none) :
    graft item draft = .error (.alreadyExists item.doc) draft := by
  have hrev := List.getLast?_eq_some_getLast hhistory
  have hinsert : insertDocument item.doc draft.tables = .error (.collision item.doc) draft.tables :=
    insertDocument_refused (.inl hblank)
  have hopen : openDocument item.doc draft = .error (.alreadyExists item.doc) draft := by
    unfold openDocument
    rw [bind_of_ok get_eq, hfree]
    simp only [statement, hinsert]
    rfl
  unfold graft
  rw [hrev]
  simp only [bind, EStateM.bind, require, pure, EStateM.pure, hopen]

end Edit

namespace Store

variable {store : Store} {tree : Pedigree} {item : Graft} {items items' : List Graft} {doc : String}

theorem graft_ok (forest : String → Pedigree) (ready : store.Ready) (hitem : item.Faithful (forest item.doc))
    (hhome : store.writer.database.tables.Shows (forest item.doc) item.doc) :
    ∃ found after, graft item store = .ok found after ∧ after.Ready ∧
      (∀ doc, store.writer.database.tables.Shows (forest doc) doc →
        after.writer.database.tables.Shows (forest doc) doc) ∧
      ∀ doc rev, after.writer.database.tables.Knows doc rev ↔
        store.writer.database.tables.Knows doc rev ∨ (doc = item.doc ∧ rev ∈ item.history) := by
  obtain ⟨found, draft, hwork, hgraft, hafter⟩ := ready.graft_ok hitem.toAdmissible
  obtain ⟨hshows, hknows⟩ := Edit.graft_merges forest ready.healthy hitem hhome hwork
  exact ⟨found, _, hgraft, hafter, hshows, hknows⟩

theorem graftEach_ok (forest : String → Pedigree) (ready : store.Ready)
    (hitems : ∀ item ∈ items, item.Faithful (forest item.doc))
    (hhomes : ∀ item ∈ items, store.writer.database.tables.Shows (forest item.doc) item.doc) :
    (graftEach items store).1.failures = [] ∧ (graftEach items store).2.Ready ∧
      (∀ doc, store.writer.database.tables.Shows (forest doc) doc →
        (graftEach items store).2.writer.database.tables.Shows (forest doc) doc) ∧
      ∀ doc rev, (graftEach items store).2.writer.database.tables.Knows doc rev ↔
        store.writer.database.tables.Knows doc rev ∨ ∃ item ∈ items, doc = item.doc ∧ rev ∈ item.history := by
  induction items generalizing store with
  | nil => exact ⟨rfl, ready, fun _ hshows => hshows, fun doc rev => by simp [graftEach]⟩
  | cons item rest ih =>
    obtain ⟨found, after, hgraft, hafter, hshows, hknows⟩ :=
      graft_ok forest ready (hitems item List.mem_cons_self) (hhomes item List.mem_cons_self)
    obtain ⟨hfailures, hlast, hshows', hknows'⟩ := ih hafter
      (fun other hother => hitems other (List.mem_cons_of_mem _ hother))
      fun other hother => hshows _ (hhomes other (List.mem_cons_of_mem _ hother))
    have hstep : graftEach (item :: rest) store
        = ((graftEach rest after).1.cons item (.ok found), (graftEach rest after).2) := by
      rw [graftEach, hgraft]
    rw [hstep]
    refine ⟨?_, hlast, fun doc hdoc => hshows' doc (hshows doc hdoc), fun doc rev => ?_⟩
    · cases found <;> exact hfailures
    · rw [hknows', hknows, or_assoc]
      simp only [List.mem_cons, exists_eq_or_imp]

theorem graftAll_ok (ready : store.Ready) (hitems : ∀ item ∈ items, item.Faithful tree)
    (hhomes : ∀ item ∈ items, store.writer.database.tables.Shows tree item.doc) :
    ∃ report after, graftAll items store = .ok report after ∧ after.Ready ∧
      (∀ doc, store.writer.database.tables.Shows tree doc → after.writer.database.tables.Shows tree doc) ∧
      ∀ doc rev, after.writer.database.tables.Knows doc rev ↔
        store.writer.database.tables.Knows doc rev ∨ ∃ item ∈ items, doc = item.doc ∧ rev ∈ item.history := by
  obtain ⟨hfailures, hafter⟩ := graftEach_ok (fun _ => tree) ready hitems hhomes
  exact ⟨_, _, graftAll_of_ok ready.opened hfailures, hafter⟩

/-! ### Refused grafts -/

theorem graft_refused (hopen : store.closed = false) (hrest : store.AtRest) (hvalid : item.check = .ok ())
    (hblank : isBlankId item.doc = true) (hfree : store.writer.database.tables.documentNumber? item.doc = none) :
    graft item store = .error (.alreadyExists item.doc) store := by
  obtain ⟨-, hhistory, -⟩ := Graft.check_ok_iff.mp hvalid
  have hcheck : Action.check item.check store.writer = .ok () store.writer := Action.check_ok_iff.mpr ⟨hvalid, rfl⟩
  have hwork : Action.graft item store.writer = .error (.fault (.alreadyExists item.doc)) store.writer := by
    unfold Action.graft
    rw [bind_of_ok hcheck]
    exact Action.transact_edit_of_error hrest (Edit.graft_refused hhistory hblank hfree)
  exact execute_of_fault hopen hwork hrest

theorem graft_refused_of_zero (ready : store.Ready)
    (hnew : store.writer.database.tables.documentNumber? doc = none)
    (hitems : ∀ item ∈ items, item.doc = doc ∧ item.Fits tree) (hzero : doc.toList.head? = some (Char.ofNat 0)) :
    ∀ item ∈ items, graft item store = .error (.alreadyExists doc) store := by
  intro item hitem
  obtain ⟨rfl, hfits⟩ := hitems item hitem
  have hdoc := (Graft.check_ok_iff.mp hfits.valid).1
  have hblank : isBlankId item.doc = true := by
    by_contra hnot
    exact (isBlankId_eq_false_iff hdoc).mp (by simpa using hnot) hzero
  exact graft_refused ready.opened ready.rest hfits.valid hblank hnew

theorem graftEach_refused (h : ∀ item ∈ items, ∃ error, graft item store = .error error store) :
    (graftEach items store).2 = store := by
  induction items with
  | nil => rfl
  | cons item rest ih =>
    obtain ⟨error, hgraft⟩ := h item List.mem_cons_self
    rw [graftEach, hgraft]
    exact ih fun other hother => h other (List.mem_cons_of_mem _ hother)

theorem graftAll_refused (h : ∀ item ∈ items, ∃ error, graft item store = .error error store) :
    stateAfter (graftAll items) store = store := by
  rw [stateAfter_graftAll, graftEach_refused h, ite_self]

/-! ### Every order -/

/-- What a document has come to that had nothing before some grafts: the ids of their histories, as the tree has them. -/
structure Unites (after : Store) (tree : Pedigree) (doc : String) (items : List Graft) : Prop where
  ready : after.Ready
  shown : after.writer.database.tables.Shows tree doc
  knows : ∀ rev, after.writer.database.tables.Knows doc rev ↔ ∃ item ∈ items, rev ∈ item.history

theorem Ready.graftAll_unites (ready : store.Ready)
    (hnew : store.writer.database.tables.documentNumber? doc = none)
    (hitems : ∀ item ∈ items, item.doc = doc ∧ item.Faithful tree) :
    ∃ report after, graftAll items store = .ok report after ∧ after.Unites tree doc items := by
  have hshows := shows_of_absent hnew tree
  obtain ⟨report, after, hall, hafter, hshown, hknows⟩ := graftAll_ok ready (fun item hmem => (hitems item hmem).2)
    fun item hmem => (hitems item hmem).1 ▸ hshows
  refine ⟨report, after, hall, hafter, hshown doc hshows, fun rev => ?_⟩
  rw [hknows]
  constructor
  · rintro (hold | ⟨item, hmem, -, hrev⟩)
    · exact absurd hold (not_knows_of_absent hnew rev)
    · exact ⟨item, hmem, hrev⟩
  · rintro ⟨item, hmem, hrev⟩
    exact .inr ⟨item, hmem, (hitems item hmem).1.symm, hrev⟩

section Unites

variable {after after' : Store} {rev : RevId}

theorem Unites.containsRevision_eq (h : after.Unites tree doc items) (rev : RevId) :
    after.containsRevision doc rev = .ok (decide (∃ item ∈ items, rev ∈ item.history)) := by
  obtain ⟨known, hanswer, hiff⟩ := Store.containsRevision_eq h.ready.opened doc rev
  rw [hanswer, Bool.eq_iff_iff.mpr ((hiff.trans (h.knows rev)).trans decide_eq_true_iff.symm)]

theorem Unites.view_eq (h : after.Unites tree doc items) (h' : after'.Unites tree doc items')
    (hsame : ∀ item, item ∈ items' ↔ item ∈ items) : after.view doc = after'.view doc := by
  refine Store.view_eq h.ready.opened h'.ready.opened h.ready.healthy h'.ready.healthy h.shown h'.shown fun rev => ?_
  simp only [h.knows, h'.knows, hsame]

theorem Unites.whole (h : after.Unites tree doc items) (hitem : item ∈ items) (hhistory : item.history ≠ []) :
    (after.view doc).Whole := by
  obtain ⟨rev, hrev⟩ := List.exists_mem_of_ne_nil _ hhistory
  exact view_whole h.ready.opened h.ready.healthy ((h.knows rev).mpr ⟨item, hitem, hrev⟩)

theorem Unites.parentRev?_eq (h : after.Unites tree doc items) (hitem : item ∈ items) (hrev : rev ∈ item.history) :
    after.writer.database.tables.parentRev? doc rev = tree.parent rev :=
  h.shown.parentRev?_eq h.ready.healthy.shape h.ready.healthy.legible ((h.knows rev).mpr ⟨item, hitem, hrev⟩)

end Unites

/-- Valid grafts that fit a tree come to the same in every order and with any repetitions, to the ids of their histories unless the id of the document begins with a zero character. -/
theorem Reachable.graftAll_order (h : store.Reachable) (hblobs : store.writer.blobs.budget = none)
    (hnew : store.writer.database.tables.documentNumber? doc = none)
    (hitems : ∀ item ∈ items, item.doc = doc ∧ item.Fits tree) (hsame : ∀ item, item ∈ items' ↔ item ∈ items) :
    let after := stateAfter (graftAll items) store
    let after' := stateAfter (graftAll items') store
    after.view doc = after'.view doc ∧
    ((∀ rev, after.containsRevision doc rev = .ok (decide (∃ item ∈ items, rev ∈ item.history))) ↔
      items = [] ∨ doc.toList.head? ≠ some (Char.ofNat 0)) ∧
    (doc.toList.head? ≠ some (Char.ofNat 0) →
      (∃ report report', graftAll items store = .ok report after ∧ graftAll items' store = .ok report' after') ∧
      ∀ item ∈ items, (after.view doc).Whole ∧ ∀ rev ∈ item.history,
        after.writer.database.tables.parentRev? doc rev = tree.parent rev) ∧
    (doc.toList.head? = some (Char.ofNat 0) →
      after = store ∧ after' = store ∧ ∀ item ∈ items, graft item store = .error (.alreadyExists doc) store) := by
  obtain ⟨hrest, healthy⟩ := h.healthy
  have ready : store.Ready := ⟨h.opened, hrest, healthy, hblobs⟩
  have hvalid : ∀ item ∈ items, item.doc ≠ "" ∧ item.history ≠ [] := by
    intro item hitem
    obtain ⟨hdoc, hhistory, -⟩ := Graft.check_ok_iff.mp (hitems item hitem).2.valid
    exact ⟨hdoc, hhistory⟩
  by_cases hzero : doc.toList.head? = some (Char.ofNat 0)
  · have hrefused := graft_refused_of_zero ready hnew hitems hzero
    rw [graftAll_refused fun item hitem => ⟨_, hrefused item hitem⟩,
      graftAll_refused fun item hitem => ⟨_, hrefused item ((hsame item).mp hitem)⟩]
    refine ⟨rfl, ?_, fun hnot => absurd hzero hnot, fun _ => ⟨rfl, rfl, hrefused⟩⟩
    simp only [containsRevision_of_absent h.opened hnew, hzero, ne_eq, not_true_eq_false, or_false, Except.ok.injEq]
    constructor
    · intro hnone
      by_contra hitem
      obtain ⟨item, hitem⟩ := List.exists_mem_of_ne_nil _ hitem
      obtain ⟨rev, hrev⟩ := List.exists_mem_of_ne_nil _ (hvalid item hitem).2
      exact of_decide_eq_false (hnone rev).symm ⟨item, hitem, hrev⟩
    · rintro rfl rev
      simp
  · have hfaithful : ∀ item ∈ items, item.doc = doc ∧ item.Faithful tree := by
      intro item hitem
      obtain ⟨rfl, hfits⟩ := hitems item hitem
      exact ⟨rfl, { hfits with named := (isBlankId_eq_false_iff (hvalid item hitem).1).mpr hzero }⟩
    obtain ⟨report, after, hall, hafter⟩ := ready.graftAll_unites hnew hfaithful
    obtain ⟨report', after', hall', hafter'⟩ :=
      ready.graftAll_unites hnew fun item hitem => hfaithful item ((hsame item).mp hitem)
    rw [stateAfter, stateAfter, hall, hall']
    refine ⟨hafter.view_eq hafter' hsame, iff_of_true hafter.containsRevision_eq (.inr hzero), fun _ => ?_,
      fun hnot => absurd hnot hzero⟩
    exact ⟨⟨report, report', rfl, rfl⟩, fun item hitem =>
      ⟨hafter.whole hitem (hvalid item hitem).2, fun rev hrev => hafter.parentRev?_eq hitem hrev⟩⟩

/-- A revision that comes as a stub of its tombstone, or in full before it, shows the same. -/
theorem graftAll_order_stub :
    let older : RevId := ⟨1, "a", by decide, by decide⟩
    let newer : RevId := ⟨2, "b", by decide, by decide⟩
    let stem : Graft := { doc := "d", history := [older], body := some Body.empty }
    let tip : Graft := { doc := "d", history := [older, newer], deleted := true }
    let after := stateAfter (graftAll [tip, stem]) (new {})
    let after' := stateAfter (graftAll [stem, tip, stem]) (new {})
    after.view "d" = after'.view "d" ∧
    (∀ rev, after.containsRevision "d" rev = .ok (decide (∃ item ∈ [tip, stem], rev ∈ item.history))) ∧
    ∀ item ∈ [tip, stem], (after.view "d").Whole ∧ ∀ rev ∈ item.history,
      after.writer.database.tables.parentRev? "d" rev = if rev = newer then some older else none := by
  intro older newer stem tip
  let tree : Pedigree := ⟨fun rev => if rev = newer then some older else none, fun rev => rev = newer⟩
  have hstem : stem.Fits tree :=
    { valid := by decide +kernel
      bounded := by decide
      line := ⟨fun rev hrev => by obtain rfl := Option.some.inj hrev; decide, List.isChain_singleton _⟩
      deleted := fun rev hrev => by obtain rfl := Option.some.inj hrev; decide }
  have htip : tip.Fits tree :=
    { valid := by decide +kernel
      bounded := by decide
      line := ⟨fun rev hrev => by obtain rfl := Option.some.inj hrev; decide, List.isChain_pair.mpr (by decide)⟩
      deleted := fun rev hrev => by obtain rfl := Option.some.inj hrev; decide }
  have hitems : ∀ item ∈ [tip, stem], item.doc = "d" ∧ item.Fits tree := by
    intro item hitem
    rcases List.mem_cons.mp hitem with rfl | hitem
    · exact ⟨rfl, htip⟩
    · rw [List.mem_singleton.mp hitem]
      exact ⟨rfl, hstem⟩
  have hsame : ∀ item, item ∈ [stem, tip, stem] ↔ item ∈ [tip, stem] := by
    intro item
    simp only [List.mem_cons, List.not_mem_nil, or_false]
    tauto
  have hreachable : (new {}).Reachable := ⟨rfl, {}, {}, .start⟩
  have hplain : "d".toList.head? ≠ some (Char.ofNat 0) := by decide
  obtain ⟨hview, hknown, hwhole, -⟩ := hreachable.graftAll_order rfl rfl hitems hsame
  exact ⟨hview, hknown.mpr (.inr hplain), (hwhole hplain).2⟩

/-- A graft that fits a tree is refused if the id of its document begins with a zero character, so its history is not known. -/
theorem graftAll_blank_refused :
    let root : RevId := ⟨1, "a", by decide, by decide⟩
    let item : Graft := { doc := "\x00", history := [root], body := some Body.empty }
    let tree : Pedigree := ⟨fun _ => none, fun _ => false⟩
    item.Fits tree ∧ (new {}).Reachable ∧ (new {}).writer.blobs.budget = none ∧
      (new {}).writer.database.tables.documentNumber? "\x00" = none ∧
      (stateAfter (graftAll [item]) (new {})).containsRevision "\x00" root = .ok false := by
  intro root item tree
  have hfits : item.Fits tree :=
    { valid := by decide +kernel
      bounded := by decide
      line := ⟨fun rev hrev => rfl, List.isChain_singleton _⟩
      deleted := fun rev hrev => rfl }
  exact ⟨hfits, ⟨rfl, {}, {}, .start⟩, rfl, rfl, by decide +kernel⟩

end Store

end RevisionForest
