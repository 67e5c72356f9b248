import RevisionForest.Proofs.Branching
import RevisionForest.Proofs.Idempotence
import RevisionForest.Proofs.Views
/-!
# First revisions

A document is registered before its first revision is inserted, by a creation and by a graft, and either can still fail then. No failure leaves a document without a revision (`Tables.Inhabited`), because the registration is undone with the rest of the edit. So a document is registered exactly if it has a revision, and a creation is refused exactly if its document has one, with one exception. An id that begins with a zero character counts as empty for the tables, so it cannot be registered, and the creation is refused as if the document were there (`Store.Onward.create_ok_iff`).
-/

namespace RevisionForest

open Tables

namespace Tables

variable {tables : Tables} {doc : String}

theorem Inhabited.registered_iff (h : tables.Inhabited) (healthy : tables.Healthy) :
    (tables.documentNumber? doc).isSome = true ↔ ∃ rev, tables.Knows doc rev := by
  constructor
  · intro hsome
    obtain ⟨number, hnumber⟩ := Option.isSome_iff_exists.mp hsome
    obtain ⟨row, hrow, hhome⟩ := h.exists_row (healthy.shape.documentNumber?_eq_some_iff.mp hnumber)
    obtain ⟨rev, -, hknows⟩ := knows_of_row healthy.legible hnumber hrow hhome
    exact ⟨rev, hknows⟩
  · rintro ⟨rev, number, hnumber, -⟩
    rw [hnumber]
    rfl

end Tables

/-! ### Edits -/

namespace Edit

variable {draft draft' : Draft} {doc : String} {body : Bytes} {attachments : List NewAttachment}

theorem create_progress (healthy : draft.tables.Healthy) (hnamed : isBlankId doc = false)
    (hfree : draft.tables.documentNumber? doc = none) (hnames : Attachment.checkNames [] attachments = .ok ())
    (hblobs : ∃ blobs, BlobStore.putAll (attachments.map (·.data)) draft.blobs = .ok () blobs) :
    ∃ revision draft', create doc body attachments draft = .ok revision draft' := by
  obtain ⟨blobs, hblobs⟩ := hblobs
  let stored := attachments.map (·.stored 1)
  let root : NewRevision := ⟨draft.tables.lastNumber + 1, RevId.derive none false body (Attachment.digests stored), none,
    false, true, true, body⟩
  have hregistered := healthy.register hnamed hfree
  have hdocument : insertDocument doc draft.tables = .ok (draft.tables.lastNumber + 1) (draft.tables.register doc) :=
    insertDocument_ok_iff.mpr ⟨⟨hnamed, hfree⟩, rfl, rfl⟩
  have haccepts : (draft.tables.register doc).Accepts root :=
    ⟨nofun, fun _ => ⟨_, List.mem_append_right _ (List.mem_singleton.mpr rfl), rfl⟩⟩
  have hfresh : (draft.tables.register doc).sequenceOf? root.document root.rev = none :=
    sequenceOf?_eq_none_iff.mpr fun row hrow hhome =>
      absurd hhome (healthy.shape.fresh_lastNumber row.bare (mem_bones_iff.mpr ⟨row, hrow, rfl⟩))
  have hrange : root.rev.generation < RevId.generationBound := by
    change 1 < RevId.generationBound
    decide
  have hdistinct : (stored.map (·.name)).Nodup := by
    rw [List.map_map]
    exact (Attachment.checkNames_ok_iff.mp hnames).1
  obtain ⟨insertion, inserted, described, hinsert, hdescribe, hdescribed, row, hrow, hsequence⟩ :=
    describe_progress root (hregistered.sturdy root.document) haccepts hfresh hrange hdistinct
  obtain ⟨revision, hread⟩ := hdescribed.legible.getBySequence_ok hdescribed.shape hrow
  rw [hsequence] at hread
  refine ⟨revision, ⟨described, blobs, draft.events ++ [⟨doc, none, some ⟨root.rev, insertion.sequence, false⟩⟩]⟩, ?_⟩
  refine ok_bind_iff.mpr ⟨_, _, ok_get_iff.mpr ⟨rfl, rfl⟩, ok_guard_iff.mpr ⟨by simp [hfree], ?_⟩⟩
  refine ok_bind_iff.mpr ⟨_, _, statement_ok_iff.mpr ⟨_, hdocument, rfl⟩, ?_⟩
  rw [hnames]
  simp only [ok_bind_iff, storeAttachments_ok_iff, statement_ok_iff, announce_ok_iff, snapshot_ok_iff]
  exact ⟨stored, _, ⟨blobs, hblobs, rfl, rfl⟩, insertion, _, ⟨inserted, hinsert, rfl⟩, (), _, ⟨described, hdescribe, rfl⟩,
    (), _, rfl, hread, rfl⟩

theorem create_refused (h : isBlankId doc = true ∨ (draft.tables.documentNumber? doc).isSome = true) :
    create doc body attachments draft = .error (.alreadyExists doc) draft := by
  unfold create
  rw [bind_of_ok get_eq]
  by_cases hthere : (draft.tables.documentNumber? doc).isSome = true
  · rw [if_pos hthere]
    rfl
  · have hinsert : insertDocument doc draft.tables = .error (.collision doc) draft.tables :=
      insertDocument_refused (.inl (h.resolve_right hthere))
    rw [if_neg hthere]
    simp only [bind, EStateM.bind, statement, hinsert]
    rfl

end Edit

/-! ### Stores -/

namespace Store

variable {store : Store} {doc : String} {body : Bytes} {attachments : List NewAttachment}

theorem create_eq (hbody : Body.validate body = .ok ()) (hdoc : doc ≠ "") :
    create (some doc) body attachments = execute (Action.transact (Action.edit (Edit.create doc body attachments))) := by
  have hchecked : (Body.validate body).mapError StoreError.ofData = .ok () := by
    rw [hbody]
    rfl
  simp only [create, Action.create, Action.createAs, hchecked, if_neg hdoc]
  rfl

theorem registered_iff (hopen : store.closed = false) (healthy : store.writer.database.tables.Healthy)
    (hinhabited : store.writer.database.tables.Inhabited) (doc : String) :
    (store.writer.database.tables.documentNumber? doc).isSome = true ↔
      ∃ rev, store.containsRevision doc rev = .ok true := by
  refine (hinhabited.registered_iff healthy).trans (exists_congr fun rev => ?_)
  obtain ⟨known, hanswer, hiff⟩ := containsRevision_eq hopen doc rev
  rw [hanswer, Except.ok.injEq, hiff]

/-- An id is free for a document exactly if it does not begin with a zero character and no revision of it is known. -/
theorem free_iff (hopen : store.closed = false) (healthy : store.writer.database.tables.Healthy)
    (hinhabited : store.writer.database.tables.Inhabited) (hdoc : doc ≠ "") :
    (doc.toList.head? ≠ some (Char.ofNat 0) ∧ ∀ rev, store.containsRevision doc rev = .ok false) ↔
      isBlankId doc = false ∧ store.writer.database.tables.documentNumber? doc = none := by
  rw [isBlankId_eq_false_iff hdoc, ← Option.isNone_iff_eq_none, ← Option.isSome_eq_false_iff, ← Bool.not_eq_true,
    registered_iff hopen healthy hinhabited doc, not_exists]
  refine and_congr_right fun _ => forall_congr' fun rev => ?_
  obtain ⟨known, hanswer, -⟩ := containsRevision_eq hopen doc rev
  rw [hanswer, Except.ok.injEq, Except.ok.injEq, Bool.not_eq_true]

/-- A document is registered exactly if it has a revision, and can be created exactly if it has none and its id does not begin with a zero character. -/
theorem Onward.create_ok_iff {config : Config} {blobs : BlobStore} (h : (openWith config blobs).Onward store)
    (hopen : store.closed = false) :
    (∀ inside, store.writer.Within inside → inside.database.Intact → ∀ doc,
      (inside.database.tables.documentNumber? doc).isSome = true ↔ ∃ rev, inside.database.tables.Knows doc rev) ∧
    ∀ doc body attachments, doc ≠ "" → Body.validate body = .ok () → (attachments.map (·.name)).Nodup →
      (∀ attachment ∈ attachments, attachment.name ≠ "") →
      (∀ left, store.writer.blobs.budget = some left → attachments.length ≤ left) →
      let free := doc.toList.head? ≠ some (Char.ofNat 0) ∧ ∀ rev, store.containsRevision doc rev = .ok false
      ((∃ revision after, create (some doc) body attachments store = .ok revision after) ↔ free) ∧
        (¬free → create (some doc) body attachments store = .error (.alreadyExists doc) store) := by
  obtain ⟨hrest, healthy, -⟩ := h.preserved rfl healthy_empty
  have hinhabited := h.inhabited
  refine ⟨fun inside hinside hintact doc => ?_, ?_⟩
  · obtain ⟨healthy', hinhabited'⟩ := (hinside.follows covers_inhabited hrest).2 hintact healthy hinhabited
    exact Inhabited.registered_iff hinhabited' healthy'
  intro doc body attachments hdoc hbody hdistinct hnamed hbudget free
  have hnames : Attachment.checkNames [] attachments = .ok () :=
    Attachment.checkNames_ok_iff.mpr ⟨hdistinct, fun attachment hmem => ⟨hnamed attachment hmem, List.not_mem_nil⟩⟩
  have hfree : free ↔ isBlankId doc = false ∧ store.writer.database.tables.documentNumber? doc = none :=
    free_iff hopen healthy hinhabited hdoc
  have hrefused : ¬free → create (some doc) body attachments store = .error (.alreadyExists doc) store := by
    intro hnot
    rw [hfree, not_and_or, Bool.not_eq_false, ← ne_eq, Option.ne_none_iff_isSome] at hnot
    rw [create_eq hbody hdoc]
    exact execute_of_fault hopen (Action.transact_edit_of_error hrest (Edit.create_refused hnot)) hrest
  refine ⟨⟨fun ⟨revision, after, hcreated⟩ => ?_, fun hcan => ?_⟩, hrefused⟩
  · by_contra hnot
    rw [hrefused hnot] at hcreated
    nomatch hcreated
  · obtain ⟨hnonblank, hnone⟩ := hfree.mp hcan
    have hblobs := BlobStore.putAll_afforded (attachments.map (·.data)) (by simpa using hbudget)
    obtain ⟨revision, draft, hwork⟩ : ∃ revision draft, Edit.create doc body attachments
        ⟨store.writer.database.tables, store.writer.blobs, []⟩ = .ok revision draft :=
      Edit.create_progress healthy hnonblank hnone hnames hblobs
    rw [create_eq hbody hdoc]
    exact ⟨revision, _, execute_ok_iff.mpr ⟨hopen, _, Action.transact_edit_of_ok hrest hwork, rfl, rfl⟩⟩

/-- A document whose creation was rolled back can be created, and one that was grafted as a stub cannot. -/
theorem create_ok_rolled_back :
    let root : RevId := ⟨1, "a", by decide, by decide⟩
    let group : Command := .transact [.mutate (.create (some "d") Body.empty []), .fail .queueClosed]
    let store := stateAfter (submit group) (new {})
    let grafted := stateAfter (graftAll [{ doc := "d", history := [root] }]) store
    let packed : NewAttachment := .plain "x" "text/plain" [1]
    (∃ revision after, create (some "d") Body.empty [packed] store = .ok revision after) ∧
      create (some "d") Body.empty [packed] grafted = .error (.alreadyExists "d") grafted := by
  intro root group store grafted packed
  have hstart : (openWith {} {}).Onward store := .command group ⟨trivial, trivial, trivial⟩ .start
  have hstart' : (openWith {} {}).Onward grafted := hstart.graftAll _
  have hrest : store.writer.database.group = none := by decide +kernel
  have hlast : store.closed = false ∧ store.writer.blobs.budget = none ∧
      store.writer.database.tables.documentNumber? "d" = none := by decide +kernel
  have hlast' : grafted.closed = false ∧ grafted.writer.blobs.budget = none ∧
      grafted.containsRevision "d" root = .ok true := by decide +kernel
  obtain ⟨hopen, hblobs, hnone⟩ := hlast
  obtain ⟨hopen', hblobs', hknown⟩ := hlast'
  have hbody : Body.validate Body.empty = .ok () := by decide +kernel
  have hnames : ([packed].map (·.name)).Nodup ∧ ∀ attachment ∈ [packed], attachment.name ≠ "" := by decide
  obtain ⟨hregistered, hcreate⟩ := hstart.create_ok_iff hopen
  have hregistered := hregistered store.writer .here (Writer.intact_of_rest hrest) "d"
  obtain ⟨-, hagain⟩ := hstart'.create_ok_iff hopen'
  refine ⟨(hcreate "d" Body.empty [packed] (by decide) hbody hnames.1 hnames.2 (by simp [hblobs])).1.mpr
      ⟨by decide, fun rev => ?_⟩,
    (hagain "d" Body.empty [packed] (by decide) hbody hnames.1 hnames.2 (by simp [hblobs'])).2 fun hfree => ?_⟩
  · obtain ⟨known, hanswer, hiff⟩ := containsRevision_eq hopen "d" rev
    cases known with
    | false => exact hanswer
    | true =>
      have hthere := hregistered.mpr ⟨rev, hiff.mp rfl⟩
      rw [hnone] at hthere
      nomatch hthere
  · have hsame := hknown.symm.trans (hfree.2 root)
    nomatch hsame

/-- The empty store holds no revision of any document, and refuses to create one whose id begins with a zero character. -/
theorem create_blank_refused :
    (∀ rev, (new {}).containsRevision "\x00" rev = .ok false) ∧
      create (some "\x00") Body.empty [] (new {}) = .error (.alreadyExists "\x00") (new {}) := by
  refine ⟨fun rev => rfl, ?_⟩
  have hrefused : (match create (some "\x00") Body.empty [] (new {}) with
      | .ok _ _ => none
      | .error error after => some (error, after)) = some (.alreadyExists "\x00", new {}) := by decide +kernel
  cases hcreate : create (some "\x00") Body.empty [] (new {}) with
  | ok revision after =>
    rw [hcreate] at hrefused
    nomatch hrefused
  | error error after =>
    rw [hcreate] at hrefused
    obtain ⟨rfl, rfl⟩ := Prod.mk.inj (Option.some.inj hrefused)
    rfl

end Store

end RevisionForest
