import RevisionForest.Proofs.Replicas
import RevisionForest.Proofs.Sowing
/-!
# A fresh copy

Every document has a tree of its own, the one that its rows store (`Tables.pedigree`), and what is sent of a document fits this tree. So a store without documents that takes a replication mirrors the tree of every document and knows the ids that the source knows; then its leaves, its winners and its conflicts are those of the source, and histories are the same since a tree has one line from the root to each id (`Pedigree.Line.unique`).

A leaf has no child in the source, so it stands above the tip in no history that is sent. It comes as the tip of its own graft only, with its content, and every other revision comes as a stub (`Tables.Copied.leaf`, `Tables.Copied.inner`).
-/

namespace RevisionForest

namespace Pedigree.Line

variable {tree : Pedigree} {history history' older : List RevId} {rev : RevId}

theorem init (h : tree.Line (older ++ [rev])) : tree.Line older where
  root := by
    intro first hfirst
    have hne : older ≠ [] := List.ne_nil_of_mem (List.mem_of_head? hfirst)
    exact h.root first (by rwa [List.head?_append_of_ne_nil _ hne])
  chain := h.chain.left_of_append

theorem parent_last (h : tree.Line (older ++ [rev])) : tree.parent rev = older.getLast? := by
  rcases List.eq_nil_or_concat older with rfl | ⟨first, last, rfl⟩
  · exact h.root rev rfl
  · rw [List.concat_eq_append, List.getLast?_concat]
    exact (List.isChain_append.mp h.chain).2.2 last (by simp) rev rfl

/-- One line leads from the root to an id. -/
theorem unique (h : tree.Line history) (h' : tree.Line history') (hlast : history.getLast? = history'.getLast?) :
    history = history' := by
  induction history using List.reverseRecOn generalizing history' with
  | nil =>
    rw [List.getLast?_nil] at hlast
    exact (List.getLast?_eq_none_iff.mp hlast.symm).symm
  | append_singleton older rev ih =>
    rcases List.eq_nil_or_concat history' with rfl | ⟨older', rev', rfl⟩
    · simp at hlast
    · simp only [List.concat_eq_append, List.getLast?_concat, Option.some.injEq] at hlast h' ⊢
      subst hlast
      rw [ih h.init h'.init (h.parent_last.symm.trans h'.parent_last)]

theorem exists_child (h : tree.Line history) (hmem : rev ∈ history.dropLast) :
    ∃ child ∈ history, tree.parent child = some rev := by
  obtain ⟨older, newer, hsplit⟩ := List.append_of_mem hmem
  have hne : history ≠ [] := fun hnil => by simp [hnil] at hmem
  have hhistory : history = (older ++ [rev]) ++ (newer ++ [history.getLast hne]) := by
    conv_lhs => rw [← List.dropLast_append_getLast hne, hsplit]
    simp
  obtain ⟨child, hchild⟩ : ∃ child, (newer ++ [history.getLast hne]).head? = some child :=
    Option.isSome_iff_exists.mp (by simp)
  have hchain := h.chain
  rw [hhistory] at hchain ⊢
  refine ⟨child, List.mem_append_right _ (List.mem_of_head? hchild), ?_⟩
  exact (List.isChain_append.mp hchain).2.2 rev (by simp) child hchild

end Pedigree.Line

namespace Tables

variable {tables tables' copy : Tables} {tree : Pedigree} {doc : String} {rev : RevId} {number : Int} {row : RevisionRow}
  {items : List Graft} {source : Store}

/-! ### The tree of a document -/

/-- The tree that the rows of a document store. -/
def pedigree (tables : Tables) (doc : String) : Pedigree where
  parent := tables.parentRev? doc
  deleted rev := ((tables.documentNumber? doc).bind fun number => tables.rowOf? number rev).any (·.deleted)

theorem Healthy.shows_pedigree (healthy : tables.Healthy) (inhabited : tables.Inhabited) (doc : String) :
    tables.Shows (tables.pedigree doc) doc := by
  intro number hnumber
  have hdocument := healthy.shape.documentNumber?_eq_some_iff.mp hnumber
  refine ⟨⟨fun bone hbone hhome rev htext => ?_, fun bone hbone hhome rev htext => .inl ?_⟩, inhabited _ hdocument⟩
  · obtain ⟨row, hrow, rfl⟩ := mem_bones_iff.mp hbone
    have habove : (tables.pedigree doc).parent rev = _ := healthy.shape.parentRev?_eq hnumber hrow hhome htext
    cases hparent : row.parent with
    | none =>
      rw [hparent] at habove
      exact .inl ⟨habove, hparent⟩
    | some parent =>
      obtain ⟨-, older, holder, hsequence, hsame⟩ := healthy.shape.parents row hrow parent hparent
      obtain ⟨above, hreads⟩ := healthy.legible.revisions older holder
      rw [hparent, Option.bind_some, healthy.shape.rowAt?_eq_some_iff.mpr ⟨holder, hsequence⟩, Option.bind_some, hreads.1,
        RevId.parse?_text above hreads.2] at habove
      exact .inr ⟨above, parent, habove, hparent,
        healthy.shape.sequenceOf?_eq_some_iff.mpr ⟨older, holder, hsame.trans hhome, hreads.1, hsequence⟩⟩
  · obtain ⟨row, hrow, rfl⟩ := mem_bones_iff.mp hbone
    have hfound : tables.rowOf? number rev = some row := healthy.shape.rowOf?_eq_some_iff.mpr ⟨hrow, hhome, htext⟩
    simp only [pedigree, hnumber, Option.bind_some, hfound, Option.any_some, RevisionRow.bare]

theorem Shows.revisionHistory_eq (h : tables.Shows tree doc) (h' : tables'.Shows tree doc) (healthy : tables.Healthy)
    (healthy' : tables'.Healthy) (hknows : ∀ rev, tables.Knows doc rev ↔ tables'.Knows doc rev) (rev : RevId) :
    tables.revisionHistory doc rev = tables'.revisionHistory doc rev := by
  by_cases hknown : tables.Knows doc rev
  · obtain ⟨history, hread, hline, hlast, -⟩ := h.revisionHistory_ok healthy hknown
    obtain ⟨history', hread', hline', hlast', -⟩ := h'.revisionHistory_ok healthy' ((hknows rev).mp hknown)
    rw [hread, hread', hline.unique hline' (hlast.trans hlast'.symm)]
  · have hmissing : ∀ {other : Tables} {number : Int}, other.documentNumber? doc = some number → ¬other.Knows doc rev →
        other.revisionHistory doc rev = .error (.notFound (.revision doc rev)) := by
      intro other number hnumber hunknown
      have hnone : other.sequenceOf? number rev = none := by
        rw [← Option.not_isSome_iff_eq_none, ← stores_iff]
        exact fun hstored => hunknown ⟨number, hnumber, hstored⟩
      simp only [revisionHistory, hnumber, hnone]
    cases hnumber : tables.documentNumber? doc with
    | none =>
      have hnone := h'.documentNumber?_eq_none healthy'.legible hnumber fun other hother => (hknows other).mpr hother
      simp only [revisionHistory, hnumber, hnone]
    | some number =>
      obtain ⟨other, hother⟩ := h.known_of_number healthy.legible hnumber
      obtain ⟨number', hnumber', -⟩ := (hknows other).mp hother
      rw [hmissing hnumber hknown, hmissing hnumber' fun hknown' => hknown ((hknows rev).mpr hknown')]

/-! ### Leaves and stubs -/

/-- What the leaves of a store make of a document in tables that had none. -/
structure Copied (copy : Tables) (source : Store) (items : List Graft) (tree : Pedigree) (doc : String) : Prop where
  healthy : copy.Healthy
  sown : copy.SownBy items
  shown : source.writer.database.tables.Shows tree doc
  shows : copy.Shows tree doc
  knows : ∀ rev, copy.Knows doc rev ↔ source.writer.database.tables.Knows doc rev

theorem Copied.leaf_iff {number' : Int} {deleted : Bool} (h : copy.Copied source items tree doc)
    (healthy : source.writer.database.tables.Healthy) (hnumber : copy.documentNumber? doc = some number)
    (hnumber' : source.writer.database.tables.documentNumber? doc = some number') :
    (∃ row ∈ copy.leafRows number, row.revText = rev.text ∧ row.deleted = deleted) ↔
      ∃ row ∈ source.writer.database.tables.leafRows number', row.revText = rev.text ∧ row.deleted = deleted := by
  rw [h.shows.leafRow_iff h.healthy hnumber, h.shown.leafRow_iff healthy hnumber']
  simp only [h.knows]

theorem Copied.leaf (h : copy.Copied source items tree doc) (healthy : source.writer.database.tables.Healthy)
    (candid : source.writer.database.tables.Candid) (hsends : source.Sends items)
    (hnumber : copy.documentNumber? doc = some number) {leaf : RevisionRow} (hleaf : leaf ∈ copy.leafRows number) :
    ∃ (item : Graft) (row : RevisionRow) (rev : RevId), item.doc = doc ∧ item.Conveys source row ∧
      row ∈ source.writer.database.tables.leafRows row.document ∧ row.Reads rev ∧ leaf.revText = rev.text ∧
      (leaf.deleted = row.deleted ∧ leaf.available = row.available ∧ leaf.body = row.body) ∧
      copy.described leaf.sequence
        = (item.attachments.map (·.stored rev.generation)).map (attachmentRow leaf.sequence) := by
  obtain ⟨hmem, rfl, -⟩ := mem_leafRows_iff.mp hleaf
  obtain ⟨item, hitem, hhome, hsown⟩ := h.sown leaf.bare (mem_bones_iff.mpr ⟨leaf, hmem, rfl⟩)
  obtain rfl := h.healthy.shape.doc_eq_of_number hhome hnumber
  obtain ⟨row, hrow, hconvey⟩ := exists_mem_left hsends hitem
  have hbelow := healthy.shape.mem_leavesOf_iff.mp hrow
  cases hsown with
  | @tip rev hlast htext hdeleted havailable hbody hattachments =>
    obtain ⟨tip, hreads, -, htip⟩ := hconvey.tip
    obtain rfl := Option.some.inj (htip.symm.trans hlast)
    refine ⟨item, row, tip, rfl, hconvey, hbelow, hreads, htext, ⟨hdeleted.trans hconvey.deleted, ?_⟩, hattachments⟩
    have hsent := hconvey.body
    cases hthere : row.available with
    | true =>
      rw [hthere, if_pos rfl] at hsent
      rw [hsent] at havailable hbody
      exact ⟨havailable, hbody⟩
    | false =>
      obtain ⟨-, hlive, hempty⟩ :=
        candid row.bare (mem_bones_iff.mpr ⟨row, (mem_leafRows_iff.mp hbelow).1, rfl⟩) hthere
      have hkind : item.deleted = false := hconvey.deleted.trans hlive
      rw [hthere, if_neg Bool.false_ne_true] at hsent
      rw [hsent, hkind] at havailable
      rw [hsent] at hbody
      exact ⟨havailable, hbody.trans hempty.symm⟩
  | @above rev hprior htext hstub hattachments =>
    -- What stands above a tip has a child in the source, so it is no leaf of the copy.
    obtain ⟨hfits, hall⟩ := hconvey.toCarries.faithful healthy h.shown hbelow
    obtain ⟨child, hchild, habove⟩ := hfits.line.exists_child hprior
    obtain ⟨-, hchildless, -⟩ := (h.shows.leafRow_iff h.healthy hnumber).mp ⟨leaf, hleaf, htext, rfl⟩
    exact absurd habove (hchildless child ((h.knows child).mpr (hall child hchild)))

theorem Copied.content_iff {number' : Int} {shown : RevId × Bool × Bool × Bytes} (h : copy.Copied source items tree doc)
    (healthy : source.writer.database.tables.Healthy) (candid : source.writer.database.tables.Candid)
    (hsends : source.Sends items) (hnumber : copy.documentNumber? doc = some number)
    (hnumber' : source.writer.database.tables.documentNumber? doc = some number') :
    (∃ leaf ∈ copy.leafRows number,
        leaf.revText = shown.1.text ∧ (leaf.deleted, leaf.available, leaf.body) = shown.2) ↔
      ∃ row ∈ source.writer.database.tables.leafRows number',
        row.revText = shown.1.text ∧ (row.deleted, row.available, row.body) = shown.2 := by
  have hsent : ∀ leaf ∈ copy.leafRows number, ∃ row ∈ source.writer.database.tables.leafRows number',
      row.revText = leaf.revText ∧ (row.deleted, row.available, row.body) = (leaf.deleted, leaf.available, leaf.body) := by
    intro leaf hleaf
    obtain ⟨item, row, rev, rfl, hconvey, hrow, hreads, htext, ⟨hdeleted, havailable, hbody⟩, -⟩ :=
      h.leaf healthy candid hsends hnumber hleaf
    obtain rfl := Option.some.inj (hconvey.home.symm.trans hnumber')
    exact ⟨row, hrow, hreads.1.trans htext.symm, by rw [hdeleted, havailable, hbody]⟩
  constructor
  · rintro ⟨leaf, hleaf, htext, hcontent⟩
    obtain ⟨row, hrow, hname, hsame⟩ := hsent leaf hleaf
    exact ⟨row, hrow, hname.trans htext, hsame.trans hcontent⟩
  · rintro ⟨row, hrow, htext, hcontent⟩
    obtain ⟨leaf, hleaf, hname, -⟩ := (h.leaf_iff healthy hnumber hnumber').mpr ⟨row, hrow, htext, rfl⟩
    -- The row that was sent as this leaf is the given one, since it has the same id.
    obtain ⟨other, hother, hagain, hsame⟩ := hsent leaf hleaf
    obtain ⟨hmem, hhome, -⟩ := mem_leafRows_iff.mp hrow
    obtain ⟨hmem', hhome', -⟩ := mem_leafRows_iff.mp hother
    obtain rfl := healthy.shape.eq_of_revText hmem hmem' (hhome.trans hhome'.symm) (htext.trans (hagain.trans hname).symm)
    exact ⟨leaf, hleaf, hname, hsame.symm.trans hcontent⟩

theorem Copied.inner (h : copy.Copied source items tree doc) (healthy : source.writer.database.tables.Healthy)
    (hsends : source.Sends items) (hnumber : copy.documentNumber? doc = some row.document) (hrow : row ∈ copy.revisions)
    (hinner : copy.isLeaf row.sequence = false) : row.Stub ∧ copy.described row.sequence = [] := by
  obtain ⟨item, hitem, hhome, hsown⟩ := h.sown row.bare (mem_bones_iff.mpr ⟨row, hrow, rfl⟩)
  obtain rfl := h.healthy.shape.doc_eq_of_number hhome hnumber
  cases hsown with
  | above _ _ hstub hattachments => exact ⟨⟨hstub.available, hstub.deleted, hstub.body⟩, hattachments⟩
  | @tip rev hlast htext =>
    obtain ⟨leaf, hleaf, hconvey⟩ := exists_mem_left hsends hitem
    obtain ⟨tip, hreads, -, htip⟩ := hconvey.tip
    obtain rfl := Option.some.inj (htip.symm.trans hlast)
    obtain ⟨other, hother, hsame, -⟩ := (h.leaf_iff healthy hnumber hconvey.home).mpr
      ⟨leaf, healthy.shape.mem_leavesOf_iff.mp hleaf, hreads.1, rfl⟩
    obtain ⟨hmem, hdocument, hchildless⟩ := mem_leafRows_iff.mp hother
    obtain rfl := h.healthy.shape.eq_of_revText hmem hrow hdocument (hsame.trans htext.symm)
    rw [hinner] at hchildless
    nomatch hchildless

end Tables

namespace Store

open Tables

variable {source target store : Store} {doc : String} {number : Int}

/-! ### Contents -/

/-- What a store answers of the content of the leaves of a document: their ids, whether they are tombstones, whether they are available, and their bodies. -/
def leafContents (store : Store) (doc : String) : Except StoreError (Set (RevId × Bool × Bool × Bytes)) :=
  (store.leaves doc).map fun leaves =>
    {shown | ∃ leaf ∈ leaves, (leaf.rev, leaf.deleted, leaf.available, leaf.body) = shown}

theorem leafContents_of_absent (hopen : store.closed = false)
    (hnone : store.writer.database.tables.documentNumber? doc = none) :
    store.leafContents doc = .error (.notFound (.document doc)) := by
  rw [leafContents, leaves_of_absent hopen hnone]
  rfl

theorem leafContents_of_stored (hopen : store.closed = false) (healthy : store.writer.database.tables.Healthy)
    (hnumber : store.writer.database.tables.documentNumber? doc = some number)
    (hrow : ∃ row ∈ store.writer.database.tables.revisions, row.document = number) :
    store.leafContents doc = .ok {shown | ∃ row ∈ store.writer.database.tables.leafRows number,
      row.revText = shown.1.text ∧ (row.deleted, row.available, row.body) = shown.2} := by
  obtain ⟨leaves, hleaves, hpairs⟩ := leaves_ok hopen healthy hnumber hrow
  have hread : ∀ row ∈ store.writer.database.tables.leafRows number, ∀ leaf,
      store.writer.database.tables.readRevision doc row = .ok leaf →
        row.revText = leaf.rev.text ∧ (row.deleted, row.available, row.body) = (leaf.deleted, leaf.available, leaf.body) := by
    intro row hrow leaf hleaf
    have hreads := healthy.legible.reads_of_readRevision (mem_leafRows_iff.mp hrow).1 hleaf
    obtain ⟨_, _, -, -, rfl⟩ := readRevision_ok_iff.mp hleaf
    exact ⟨hreads.1, rfl⟩
  rw [leafContents, hleaves]
  refine congrArg Except.ok (Set.ext fun shown => ⟨?_, ?_⟩)
  · rintro ⟨leaf, hleaf, rfl⟩
    obtain ⟨row, hrow, hsame⟩ := exists_mem_left hpairs hleaf
    exact ⟨row, hrow, hread row hrow leaf hsame⟩
  · rintro ⟨row, hrow, htext, hcontent⟩
    obtain ⟨leaf, hleaf, hsame⟩ := exists_mem_right hpairs hrow
    obtain ⟨htext', hcontent'⟩ := hread row hrow leaf hsame
    refine ⟨leaf, hleaf, Prod.ext ?_ (hcontent'.symm.trans hcontent)⟩
    exact RevId.text_injective (htext'.symm.trans htext)

/-! ### Copies -/

/-- A replication into a store without documents makes a copy of every document. -/
theorem Orderly.copied (orderly : source.Orderly) (ready : target.Ready)
    (hempty : target.writer.database.tables.documents = []) :
    ∃ moved items, source.Sends items ∧
      replicateFrom source target = .ok moved (graftEach items target).2 ∧ (graftEach items target).2.Ready ∧
      ∀ doc, (graftEach items target).2.writer.database.tables.Copied source items
        (source.writer.database.tables.pedigree doc) doc := by
  have healthy := orderly.healthy
  obtain ⟨items, hsends, hreplicate⟩ := orderly.replicateFrom_eq
  have hcarries := carries_of_conveys hsends
  have hshown := healthy.shows_pedigree orderly.inhabited
  have hnumber : ∀ doc, target.writer.database.tables.documentNumber? doc = none := by
    intro doc
    rw [documentNumber?, hempty]
    rfl
  have hfits : ∀ item ∈ items, item.Faithful (source.writer.database.tables.pedigree item.doc) := by
    intro item hitem
    obtain ⟨row, hrow, hcarry⟩ := exists_mem_left hcarries hitem
    exact (hcarry.faithful healthy (hshown item.doc) (healthy.shape.mem_leavesOf_iff.mp hrow)).1
  obtain ⟨hnone, hready, hshows, hknows⟩ :=
    graftEach_ok source.writer.database.tables.pedigree ready hfits fun item _ => shows_of_absent (hnumber item.doc) _
  have hsown : target.writer.database.tables.SownBy items := by
    intro bone hbone
    obtain ⟨row, hrow, rfl⟩ := mem_bones_iff.mp hbone
    obtain ⟨document, hdocument, -⟩ := ready.healthy.shape.homes row hrow
    rw [hempty] at hdocument
    exact absurd hdocument List.not_mem_nil
  obtain ⟨-, hfollows⟩ := graftEach_follows_each (course_sown items) (fun item => Edit.graft_sows) ready.rest
  refine ⟨_, items, hsends, (hreplicate target ready.opened hnone).1, hready, fun doc => ⟨hready.healthy,
    (hfollows ready.healthy hsown).2, hshown doc, hshows doc (shows_of_absent (hnumber doc) _), fun rev => ?_⟩⟩
  rw [hknows, ← (hshown doc).knows_iff_carried healthy hcarries]
  exact or_iff_right (not_knows_of_absent (hnumber doc) rev)

/-- A copy of a store: of every document the same ids below the same parents, with the same histories, and the same leaves with the same content, winner and conflicts; and every revision that is no leaf is a stub. -/
structure CopiedTo (original copy : Store) : Prop where
  view : ∀ doc, copy.view doc = original.view doc
  histories : ∀ doc rev, copy.revisionHistory doc rev = original.revisionHistory doc rev
  contents : ∀ doc, copy.leafContents doc = original.leafContents doc
  stubs : ∀ doc rev, copy.containsRevision doc rev = .ok true →
    (∃ leaves, copy.leaves doc = .ok leaves ∧ ∃ leaf ∈ leaves, leaf.rev = rev) ∨
      ∃ stub, copy.read doc (some rev) = .ok stub ∧ stub.available = false ∧ stub.deleted = false ∧
        stub.body = Body.empty ∧ stub.attachments = []

section Copied

variable {copy : Store} {items : List Graft} {tree : Pedigree} {rev : RevId}

theorem Orderly.leafContents_eq (orderly : source.Orderly) (candid : source.writer.database.tables.Candid) (ready : copy.Ready)
    (hsends : source.Sends items) (hcopied : copy.writer.database.tables.Copied source items tree doc) :
    copy.leafContents doc = source.leafContents doc := by
  cases hnumber : copy.writer.database.tables.documentNumber? doc with
  | none =>
    have hnone := hcopied.shown.documentNumber?_eq_none orderly.healthy.legible hnumber fun rev => (hcopied.knows rev).mpr
    rw [leafContents_of_absent ready.opened hnumber, leafContents_of_absent orderly.opened hnone]
  | some number =>
    obtain ⟨rev, hknown⟩ := hcopied.shows.known_of_number ready.healthy.legible hnumber
    obtain ⟨number', hnumber', -⟩ := (hcopied.knows rev).mp hknown
    rw [leafContents_of_stored ready.opened ready.healthy hnumber (hcopied.shows.inhabited hnumber),
      leafContents_of_stored orderly.opened orderly.healthy hnumber' (hcopied.shown.inhabited hnumber')]
    exact congrArg Except.ok
      (Set.ext fun shown => hcopied.content_iff orderly.healthy candid hsends hnumber hnumber')

theorem Orderly.leaf_or_stub (orderly : source.Orderly) (ready : copy.Ready)
    (hsends : source.Sends items) (hcopied : copy.writer.database.tables.Copied source items tree doc)
    (hknown : copy.writer.database.tables.Knows doc rev) :
    (∃ leaves, copy.leaves doc = .ok leaves ∧ ∃ leaf ∈ leaves, leaf.rev = rev) ∨
      ∃ stub, copy.read doc (some rev) = .ok stub ∧ stub.available = false ∧ stub.deleted = false ∧
        stub.body = Body.empty ∧ stub.attachments = [] := by
  have legible := ready.healthy.legible
  obtain ⟨number, hnumber, bone, hbone, hhome, htext⟩ := hknown
  obtain ⟨row, hrow, rfl⟩ := mem_bones_iff.mp hbone
  obtain rfl : row.document = number := hhome
  have hreads := legible.reads hrow htext
  obtain ⟨attachments, hattachments, hread⟩ := legible.readRevision_ok hreads doc
  cases hleaf : copy.writer.database.tables.isLeaf row.sequence with
  | true =>
    obtain ⟨leaves, hleaves, hpairs⟩ := Store.leaves_ok ready.opened ready.healthy hnumber ⟨row, hrow, rfl⟩
    obtain ⟨leaf, hmem, hsame⟩ := exists_mem_right hpairs (mem_leafRows_iff.mpr ⟨hrow, rfl, hleaf⟩)
    obtain rfl := Except.ok.inj (hsame.symm.trans hread)
    exact .inl ⟨leaves, hleaves, _, hmem, rfl⟩
  | false =>
    obtain ⟨⟨havailable, hdeleted, hbody⟩, hnone⟩ := hcopied.inner orderly.healthy hsends hnumber hrow hleaf
    have hbare : attachments = [] := by
      rw [described] at hnone
      simp only [attachmentsFor, hnone, List.mergeSort_nil, List.mapM_nil] at hattachments
      exact (Except.ok.inj hattachments).symm
    exact .inr ⟨_, read_of_row ready.opened ready.healthy hnumber hrow rfl htext hread, havailable, hdeleted, hbody, hbare⟩

theorem Orderly.copiedTo (orderly : source.Orderly) (candid : source.writer.database.tables.Candid) (ready : copy.Ready)
    (hsends : source.Sends items) (hcopied : ∀ doc, copy.writer.database.tables.Copied source items
      (source.writer.database.tables.pedigree doc) doc) : source.CopiedTo copy where
  view := fun doc => view_eq ready.opened orderly.opened ready.healthy orderly.healthy (hcopied doc).shows
    (hcopied doc).shown (hcopied doc).knows
  histories := by
    intro doc rev
    have hsame := (hcopied doc).shows.revisionHistory_eq (hcopied doc).shown ready.healthy orderly.healthy
      (hcopied doc).knows rev
    simp only [revisionHistory, ask, ready.opened, orderly.opened, hsame]
  contents := fun doc => orderly.leafContents_eq candid ready hsends (hcopied doc)
  stubs := by
    intro doc rev hanswer
    obtain ⟨known, hfound, hiff⟩ := containsRevision_eq ready.opened doc rev
    rw [hfound] at hanswer
    exact orderly.leaf_or_stub ready hsends (hcopied doc) (hiff.mp (Except.ok.inj hanswer))

end Copied

theorem Networked.candid (h : store.Networked) : store.writer.database.tables.Candid := by
  obtain ⟨config, blobs, honward⟩ := h.reachable.onward
  exact honward.candid

end Store

namespace Network

variable {n : Nat} {network : Network n} {source target : Fin n}

/-- A store that replicates into one without documents has a copy there. -/
theorem replicate_copies (hsource : (network.store source).Networked) (htarget : (network.store target).Networked)
    (hblobs : (network.store target).writer.blobs.budget = none)
    (hempty : (network.store target).writer.database.tables.documents = []) :
    ∃ moved after, replicate source target network = .ok moved after ∧
      (network.store source).CopiedTo (after.store target) := by
  have orderly := hsource.orderly
  have ready : (network.holder target).Ready :=
    ⟨htarget.orderly.opened, htarget.orderly.rest, htarget.orderly.healthy, hblobs⟩
  obtain ⟨moved, items, hsends, hresult, hafter, hcopied⟩ := orderly.copied ready hempty
  refine ⟨moved, network.install target _, replicate_of_ok hresult, ?_⟩
  rw [install_store, if_pos rfl]
  exact orderly.copiedTo hsource.candid hafter hsends hcopied

/-- The source has two roots, a tombstone with a child, a leaf that is a stub, and a history that was cut off. -/
theorem replicate_copies_forest :
    let source := stateAfter (Store.graftAll [
      { doc := "d", history := [⟨1, "a", by decide, by decide⟩, ⟨2, "b", by decide, by decide⟩], deleted := true },
      { doc := "d", history := [⟨1, "a", by decide, by decide⟩, ⟨2, "b", by decide, by decide⟩, ⟨3, "c", by decide, by decide⟩],
        body := some [91, 93] },
      { doc := "d", history := [⟨5, "e", by decide, by decide⟩, ⟨6, "f", by decide, by decide⟩] }]) (.new {})
    let network : Network 2 := ⟨#v[source, .new {}], 0⟩
    ∃ after, replicate 0 1 network = .ok ⟨1, 2, 0⟩ after ∧ source.CopiedTo (after.store 1) := by
  intro source network
  have hsource : (network.store 0).Networked :=
    ⟨by decide +kernel, {}, {}, .graftAll (fun _ _ => trivial) .start⟩
  have htarget : (network.store 1).Networked := ⟨rfl, {}, {}, .start⟩
  obtain ⟨moved, after, hresult, hcopied⟩ := replicate_copies hsource htarget rfl rfl
  have hmoved : (match replicate 0 1 network with
      | .ok moved _ => some moved
      | .error _ _ => none) = some ⟨1, 2, 0⟩ := by decide +kernel
  rw [hresult] at hmoved
  obtain rfl := Option.some.inj hmoved
  exact ⟨after, hresult, hcopied⟩

end Network

end RevisionForest
