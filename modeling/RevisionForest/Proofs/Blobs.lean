import RevisionForest.Proofs.Steps
import RevisionForest.BlobStore
import Mathlib.Logic.Relation
import Mathlib.Tactic.Common
/-!
# Blobs only grow

Blobs stand outside transactions: all that an edit does to them, however it ends, is to write some of the data it was given (`BlobStore.Written`). So what was stored under a digest before is stored under it after (`BlobStore.Grown`), a store that never refuses a write goes on so, and what is stored are the given data, each under its own digest (`BlobStore.Addressed`). A description that has its data keeps it through every later failure.
-/

namespace RevisionForest

namespace BlobStore

/-- How a store can differ after some writes. -/
structure Grown (before after : BlobStore) : Prop where
  kept : ∀ digest bytes, before.find? digest = some bytes → after.find? digest = some bytes
  unlimited : before.budget = none → after.budget = none

variable {store before between after : BlobStore} {digest : Digest} {bytes : Bytes}

theorem Grown.refl (store : BlobStore) : Grown store store :=
  ⟨fun _ _ h => h, fun h => h⟩

theorem Grown.trans (h : Grown before between) (h' : Grown between after) : Grown before after :=
  ⟨fun digest bytes hfind => h'.kept digest bytes (h.kept digest bytes hfind),
    fun hnone => h'.unlimited (h.unlimited hnone)⟩

theorem find?_insert (digest other : Digest) (bytes : Bytes) :
    (store.insert digest bytes).find? other
      = if store.find? digest = none ∧ digest = other then some bytes else store.find? other := by
  unfold insert contains find?
  cases hfound : store.blobs.find? fun blob => blob.1 = digest with
  | some blob => simp
  | none =>
    simp only [Option.map_none, Option.isSome_none, Bool.false_eq_true, ↓reduceIte, List.find?_append, true_and]
    by_cases heq : digest = other
    · subst heq
      simp [hfound]
    · simp [heq]

theorem grown_insert (bytes : Bytes) : Grown store (store.insert (Digest.of bytes) bytes) where
  kept := by
    intro digest stored hfind
    rw [find?_insert]
    split
    · rename_i hnew
      rw [hnew.2, hfind] at hnew
      exact absurd hnew.1 (by simp)
    · exact hfind
  unlimited := by
    intro hnone
    unfold insert
    split
    · exact hnone
    · exact hnone

theorem put_eq (bytes : Bytes) (store : BlobStore) :
    put bytes store = match store.budget with
      | some 0 => .error (.io .blobWrite) store
      | some (left + 1) =>
        .ok (Digest.of bytes) { store.insert (Digest.of bytes) bytes with budget := some left }
      | none => .ok (Digest.of bytes) (store.insert (Digest.of bytes) bytes) := by
  unfold put
  rw [bind_of_ok get_eq]
  cases hbudget : store.budget with
  | none => rfl
  | some left => cases left <;> rfl

theorem put_ok (h : put bytes before = .ok digest after) :
    digest = Digest.of bytes ∧ Grown before after ∧ (after.find? digest).isSome := by
  have hstored : ((before.insert (Digest.of bytes) bytes).find? (Digest.of bytes)).isSome := by
    rw [find?_insert]
    split
    · rfl
    · rename_i hold
      exact Option.isSome_iff_ne_none.mpr fun hnone => hold ⟨hnone, rfl⟩
  have hgrown : Grown before _ := grown_insert bytes
  rw [put_eq] at h
  cases hbudget : before.budget with
  | none =>
    rw [hbudget] at h
    obtain ⟨rfl, rfl⟩ := EStateM.Result.ok.inj h
    exact ⟨rfl, hgrown, hstored⟩
  | some left =>
    rw [hbudget] at h
    cases left with
    | zero => nomatch h
    | succ left =>
      obtain ⟨rfl, rfl⟩ := EStateM.Result.ok.inj h
      refine ⟨rfl, ⟨hgrown.kept, fun hnone => ?_⟩, hstored⟩
      rw [hbudget] at hnone
      nomatch hnone

theorem put_error {error : StorageError} (h : put bytes before = .error error after) : after = before := by
  rw [put_eq] at h
  split at h
  · exact (EStateM.Result.error.inj h).2.symm
  · nomatch h
  · nomatch h

theorem put_unlimited (hnone : before.budget = none) :
    put bytes before = .ok (Digest.of bytes) (before.insert (Digest.of bytes) bytes) := by
  rw [put_eq, hnone]

/-- Write the bytes of a list one after the other. -/
def putAll : List Bytes → EStateM StorageError BlobStore Unit
  | [] => return ()
  | bytes :: rest => do
    let _ ← put bytes
    putAll rest

theorem putAll_ok {list : List Bytes} {done : Unit} (h : putAll list before = .ok done after) :
    Grown before after ∧ ∀ bytes ∈ list, (after.find? (Digest.of bytes)).isSome := by
  induction list generalizing before with
  | nil =>
    obtain ⟨-, rfl⟩ := ok_pure_iff.mp h
    exact ⟨Grown.refl _, fun bytes hbytes => absurd hbytes List.not_mem_nil⟩
  | cons first rest ih =>
    obtain ⟨digest, between, hfirst, hrest⟩ := ok_bind_iff.mp h
    obtain ⟨rfl, hgrown, hstored⟩ := put_ok hfirst
    obtain ⟨hgrown', hall⟩ := ih hrest
    refine ⟨hgrown.trans hgrown', fun bytes hbytes => ?_⟩
    rcases List.mem_cons.mp hbytes with rfl | hbytes
    · obtain ⟨stored, hfind⟩ := Option.isSome_iff_exists.mp hstored
      rw [hgrown'.kept _ _ hfind]
      rfl
    · exact hall bytes hbytes

/-- Writes of some of the known data, of which any may have failed. -/
def Written (known : List Bytes) : BlobStore → BlobStore → Prop :=
  Relation.ReflTransGen fun before after => ∃ bytes ∈ known, stateAfter (put bytes) before = after

/-- Whatever is stored is known, and stands under its digest. -/
def Addressed (known : List Bytes) (store : BlobStore) : Prop :=
  ∀ digest bytes, store.find? digest = some bytes → Digest.of bytes = digest ∧ bytes ∈ known

variable {known : List Bytes}

theorem find?_of_nil {store : BlobStore} (hnone : store.blobs = []) (digest : Digest) : store.find? digest = none := by
  rw [find?, hnone]
  rfl

theorem addressed_of_nil {store : BlobStore} (hnone : store.blobs = []) : store.Addressed known :=
  fun digest bytes h => absurd (h.symm.trans (find?_of_nil hnone digest)) (Option.some_ne_none bytes)

theorem stateAfter_put (bytes : Bytes) (store : BlobStore) :
    stateAfter (put bytes) store = store ∨ Grown store (stateAfter (put bytes) store) ∧
      ∀ digest, (stateAfter (put bytes) store).find? digest = (store.insert (Digest.of bytes) bytes).find? digest := by
  cases hput : put bytes store with
  | error error after =>
    rw [stateAfter_of_error hput, put_error hput]
    exact .inl rfl
  | ok digest after =>
    rw [stateAfter_of_ok hput]
    refine .inr ⟨(put_ok hput).2.1, fun other => ?_⟩
    rw [put_eq] at hput
    split at hput
    · nomatch hput
    · obtain ⟨-, rfl⟩ := EStateM.Result.ok.inj hput
      rfl
    · obtain ⟨-, rfl⟩ := EStateM.Result.ok.inj hput
      rfl

theorem Written.grown (h : Written known before after) : Grown before after := by
  induction h with
  | refl => exact Grown.refl before
  | tail _ hlast ih =>
    obtain ⟨bytes, -, rfl⟩ := hlast
    rcases stateAfter_put bytes _ with hsame | ⟨hgrown, -⟩
    · rwa [hsame]
    · exact ih.trans hgrown

theorem Written.addressed (h : Written known before after) (haddressed : before.Addressed known) :
    after.Addressed known := by
  induction h with
  | refl => exact haddressed
  | tail _ hlast ih =>
    obtain ⟨bytes, hknown, rfl⟩ := hlast
    rcases stateAfter_put bytes _ with hsame | ⟨-, hfind⟩
    · rwa [hsame]
    · intro digest stored hstored
      rw [hfind, find?_insert] at hstored
      split at hstored
      · rename_i hnew
        obtain rfl := Option.some.inj hstored
        exact ⟨hnew.2, hknown⟩
      · exact ih digest stored hstored

theorem putAll_afforded (list : List Bytes) (hbudget : ∀ left, before.budget = some left → list.length ≤ left) :
    ∃ after, putAll list before = .ok () after := by
  induction list generalizing before with
  | nil => exact ⟨before, rfl⟩
  | cons first rest ih =>
    have hput : ∃ digest between, put first before = .ok digest between ∧
        ∀ left, between.budget = some left → rest.length ≤ left := by
      rw [put_eq]
      rcases hlimit : before.budget with _ | _ | left
      · refine ⟨_, _, rfl, fun left hsome => ?_⟩
        rw [((grown_insert first).unlimited hlimit)] at hsome
        nomatch hsome
      · exact absurd (hbudget 0 hlimit) (Nat.not_succ_le_zero _)
      · refine ⟨_, _, rfl, fun fewer hsome => ?_⟩
        have hle := hbudget (left + 1) hlimit
        rw [← Option.some.inj hsome]
        exact Nat.le_of_succ_le_succ hle
    obtain ⟨digest, between, hfirst, hleft⟩ := hput
    obtain ⟨after, hrest⟩ := ih hleft
    exact ⟨after, ok_bind_iff.mpr ⟨digest, between, hfirst, hrest⟩⟩

theorem putAll_unlimited (list : List Bytes) (hnone : before.budget = none) :
    ∃ after, putAll list before = .ok () after :=
  putAll_afforded list fun left hsome => by
    rw [hnone] at hsome
    nomatch hsome

end BlobStore

/-! ### Edits -/

namespace Edit

/-- However it ends, an edit only adds blobs. -/
def Grows {α : Type} (work : Edit α) : Prop :=
  ∀ draft : Draft, draft.blobs.Grown (stateAfter work draft).blobs

namespace Grows

variable {α β : Type}

theorem grown {work : Edit α} {value : α} {draft draft' : Draft} (h : Grows work) (hresult : work draft = .ok value draft') :
    draft.blobs.Grown draft'.blobs := by
  have hgrown := h draft
  rwa [stateAfter_of_ok hresult] at hgrown

theorem statement (action : Statement α) : Grows (Edit.statement action) := by
  intro draft
  simp only [stateAfter, Edit.statement]
  cases action draft.tables with
  | ok value tables => exact BlobStore.Grown.refl draft.blobs
  | error error tables => exact BlobStore.Grown.refl draft.blobs

end Grows

/-- However it ends, an edit only writes known data. -/
def Writes (known : List Bytes) {α : Type} (work : Edit α) : Prop :=
  ∀ start : BlobStore, Keeps (fun draft : Draft => start.Written known draft.blobs) work

namespace Writes

variable {α β : Type} {known : List Bytes}

theorem grows {work : Edit α} (h : Writes known work) : Grows work :=
  fun draft => (h draft.blobs .refl).grown

theorem addressed {work : Edit α} (h : Writes known work) : Keeps (fun draft : Draft => draft.blobs.Addressed known) work :=
  fun draft haddressed => (h draft.blobs .refl).addressed haddressed

theorem bind {work : Edit α} {next : α → Edit β} (hwork : Writes known work) (hnext : ∀ value, Writes known (next value)) :
    Writes known (work >>= next) :=
  fun start => (hwork start).bind fun value => hnext value start

theorem pure (value : α) : Writes known (Pure.pure value) := fun _ _ h => h

theorem throw (error : StoreError) : Writes known (throw error : Edit α) := fun _ _ h => h

theorem get : Writes known (MonadState.get : Edit Draft) := fun _ _ h => h

theorem announce (event : ChangeEvent) : Writes known (Edit.announce event) := fun _ _ h => h

theorem throw_bind (error : StoreError) (next : α → Edit β) : Writes known (MonadExcept.throw error >>= next) :=
  fun _ _ h => h

theorem guard {condition : Prop} [Decidable condition] {error : StoreError} {next : PUnit → Edit α}
    (hnext : Writes known (next ⟨⟩)) : Writes known (if condition then MonadExcept.throw error >>= next else next ⟨⟩) := by
  split
  · exact throw_bind error next
  · exact hnext

theorem statement (action : Statement α) : Writes known (Edit.statement action) := by
  intro start draft h
  simp only [stateAfter, Edit.statement]
  cases action draft.tables <;> exact h

theorem query (read : Tables → Tables.Query α) : Writes known (Edit.query read) :=
  statement (Statement.query read)

theorem require (found : Option α) (error : StoreError) : Writes known (Edit.require found error) := by
  cases found with
  | some value => exact pure value
  | none => exact throw error

theorem ofExcept (found : Except StoreError α) : Writes known (MonadExcept.ofExcept found : Edit α) := by
  cases found with
  | ok value => exact pure value
  | error error => exact throw error

theorem snapshot (sequence : Int) : Writes known (Edit.snapshot sequence) :=
  (query _).bind fun _ => require _ _

theorem putBlob {bytes : Bytes} (hknown : bytes ∈ known) : Writes known (Edit.putBlob bytes) := by
  intro start draft h
  have hblobs : (stateAfter (Edit.putBlob bytes) draft).blobs = stateAfter (BlobStore.put bytes) draft.blobs := by
    simp only [stateAfter, Edit.putBlob]
    cases BlobStore.put bytes draft.blobs <;> rfl
  exact h.tail ⟨bytes, hknown, hblobs.symm⟩

theorem storeAttachment (revpos : Nat) {attachment : NewAttachment} (hknown : attachment.data ∈ known) :
    Writes known (Edit.storeAttachment revpos attachment) :=
  (putBlob hknown).bind fun _ => pure _

theorem storeAttachments (revpos : Nat) {attachments : List NewAttachment}
    (hknown : ∀ attachment ∈ attachments, attachment.data ∈ known) :
    Writes known (Edit.storeAttachments revpos attachments) := by
  induction attachments with
  | nil => exact pure []
  | cons attachment rest ih =>
    refine (storeAttachment revpos (hknown attachment List.mem_cons_self)).bind fun _ => ?_
    exact (ih fun other hother => hknown other (List.mem_cons_of_mem _ hother)).bind fun _ => pure _

theorem attach (sequence : Int) (revpos : Nat) {attachments : List NewAttachment}
    (hknown : ∀ attachment ∈ attachments, attachment.data ∈ known) :
    Writes known (Edit.attach sequence revpos attachments) := by
  induction attachments with
  | nil => exact pure ()
  | cons attachment rest ih =>
    refine (storeAttachment revpos (hknown attachment List.mem_cons_self)).bind fun _ => (statement _).bind fun _ => ?_
    exact ih fun other hother => hknown other (List.mem_cons_of_mem _ hother)

end Writes

end Edit

end RevisionForest
