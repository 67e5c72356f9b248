import RevisionForest.Proofs.Atomicity
import RevisionForest.Proofs.Backing
import RevisionForest.Proofs.Detached
import RevisionForest.Proofs.Spared
/-!
# Errands

What a caller asks a store to do concerns one document or one local document (`Errand`). Errands that are run one after another leave a log of what each of them was answered. Whatever they are answered, a relation that covers the mutations, and in which local documents have no part, holds along all of them (`Errand.run_follows`).
-/

namespace RevisionForest

theorem Holdings.Aside.spared {before after : Holdings} (h : before.Aside after) (doc : String) :
    before.Spared doc after := by
  refine fun healthy => ⟨h.tables.healthy healthy, ?_, [], h.feed, List.forall_mem_nil _⟩
  rw [← show { before.tables with locals := after.tables.locals } = after.tables from h.tables]
  exact ⟨rfl, fun _ _ => rfl, fun _ _ _ _ => rfl⟩

/-- What a caller can ask of one document or of one local document. -/
inductive Errand where
  /-- Change a document that the caller names. -/
  | mutate (mutation : Mutation) (doc : String) (hnamed : mutation.doc? = some doc)
  | putLocal (doc : String) (body : Bytes)
  | getLocal (doc : String)
  | deleteLocal (doc : String)

/-- An errand and what it was answered. -/
structure Errand.Entry where
  errand : Errand
  result : Except StoreError Answer

namespace Errand

/-- Whether an errand is addressed to a document. -/
def concerns (doc : String) : Errand → Bool
  | mutate _ named _ => named = doc
  | putLocal _ _ | getLocal _ | deleteLocal _ => false

/-- Whether an errand is addressed to a local document. -/
def isLocal : Errand → Bool
  | mutate _ _ _ => false
  | putLocal _ _ | getLocal _ | deleteLocal _ => true

/-- The attachment data that an errand brings. -/
def supplied : Errand → List Bytes
  | mutate mutation _ _ => mutation.supplied
  | putLocal _ _ | getLocal _ | deleteLocal _ => []

def run : Errand → Request Answer
  | mutate mutation _ _ => return .outcome (← Store.execute mutation.run)
  | putLocal doc body => return .localDocument (some (← Store.putLocal doc body))
  | getLocal doc => return .localDocument (some (← MonadExcept.ofExcept ((← get).getLocal doc)))
  | deleteLocal doc => do
    Store.deleteLocal doc
    return .done

/-- Run an errand and note what it was answered, be it an error. -/
def attempt (errand : Errand) (store : Store) : Entry × Store :=
  match errand.run store with
  | .ok answer after => (⟨errand, .ok answer⟩, after)
  | .error error after => (⟨errand, .error error⟩, after)

/-- Run errands in order. -/
def attemptEach : List Errand → Store → List Entry × Store
  | [], store => ([], store)
  | errand :: rest, store =>
    let (entry, between) := errand.attempt store
    let (log, last) := attemptEach rest between
    (entry :: log, last)

variable {errand : Errand} {store : Store} {R : Holdings → Holdings → Prop} {property : Store → Prop}

theorem attempt_errand (errand : Errand) (store : Store) : (errand.attempt store).1.errand = errand := by
  unfold attempt
  cases errand.run store <;> rfl

theorem attempt_snd (errand : Errand) (store : Store) : (errand.attempt store).2 = stateAfter errand.run store := by
  unfold attempt stateAfter
  cases errand.run store <;> rfl

theorem attemptEach_cons (errand : Errand) (rest : List Errand) (store : Store) :
    attemptEach (errand :: rest) store
      = ((errand.attempt store).1 :: (attemptEach rest (errand.attempt store).2).1,
        (attemptEach rest (errand.attempt store).2).2) :=
  rfl

section Kept

variable {keep : Errand → Bool} {rest : List Errand}

theorem attemptEach_cons_of_pos (h : keep errand = true) :
    (attemptEach (errand :: rest) store).1.filter (fun entry => keep entry.errand)
      = (errand.attempt store).1 ::
        (attemptEach rest (errand.attempt store).2).1.filter fun entry => keep entry.errand := by
  have hkept : keep (errand.attempt store).1.errand = true := by rwa [attempt_errand]
  exact List.filter_cons_of_pos hkept

theorem attemptEach_cons_of_neg (h : keep errand = false) :
    (attemptEach (errand :: rest) store).1.filter (fun entry => keep entry.errand)
      = (attemptEach rest (errand.attempt store).2).1.filter fun entry => keep entry.errand := by
  have hskipped : ¬keep (errand.attempt store).1.errand = true := by simp [attempt_errand, h]
  exact List.filter_cons_of_neg hskipped

end Kept

theorem attemptEach_keeps {run : List Errand} (h : ∀ errand ∈ run, Keeps property errand.run) (hstore : property store) :
    property (attemptEach run store).2 := by
  induction run generalizing store with
  | nil => exact hstore
  | cons errand rest ih =>
    rw [attemptEach_cons]
    refine ih (fun other hother => h other (List.mem_cons_of_mem _ hother)) ?_
    rw [attempt_snd]
    exact h errand List.mem_cons_self hstore

/-! ### Requests as actions -/

theorem run_getLocal (doc : String) (store : Store) :
    (getLocal doc).run store = match store.getLocal doc with
      | .ok document => .ok (.localDocument (some document)) store
      | .error error => .error error store := by
  have hread : (getLocal doc).run store
      = (MonadExcept.ofExcept (store.getLocal doc) >>= fun document => pure (.localDocument (some document)) :
        Request Answer) store := rfl
  rw [hread]
  cases store.getLocal doc <;> rfl

theorem run_keeps
    (hmutation : ∀ mutation doc hnamed, errand = .mutate mutation doc hnamed → Keeps property (Store.execute mutation.run))
    (hput : errand.isLocal = true → ∀ doc body, Keeps property (Store.execute
      (Action.transact (Action.transaction (Transaction.statement (Tables.putLocal doc body))))))
    (hdelete : errand.isLocal = true → ∀ doc, Keeps property (Store.deleteLocal doc)) : Keeps property errand.run := by
  cases errand with
  | mutate mutation doc hnamed => exact (hmutation mutation doc hnamed rfl).answer _
  | putLocal doc body =>
    refine Keeps.answer ?_ _
    unfold Store.putLocal
    cases (Body.validate body).mapError StoreError.ofData with
    | error error => exact fun _ h => h
    | ok => exact hput rfl doc body
  | getLocal doc =>
    intro store h
    unfold stateAfter
    rw [run_getLocal]
    cases store.getLocal doc <;> exact h
  | deleteLocal doc => exact (hdelete rfl doc).answer _

/-- Whatever it is answered, an errand goes along a relation that its mutation goes along, or in which local documents have no part. -/
theorem run_follows (course : Course R)
    (haside : errand.isLocal = true → ∀ {before after : Holdings}, before.Aside after → R before after)
    (hmutation : ∀ mutation doc hnamed, errand = .mutate mutation doc hnamed → Action.Follows R mutation.run)
    (hrest : store.AtRest) :
    (stateAfter errand.run store).AtRest ∧ R store.writer.holdings (stateAfter errand.run store).writer.holdings := by
  have hexecute : ∀ {α : Type} {action : Action α}, Action.Follows R action →
      Keeps (fun after => after.AtRest ∧ R store.writer.holdings after.writer.holdings) (Store.execute action) := by
    rintro α action hfollows between ⟨hbetween, hrelated⟩
    obtain ⟨hafter, hrelated'⟩ := Store.execute_follows course hfollows hbetween
    exact ⟨hafter, course.trans hrelated hrelated'⟩
  refine run_keeps (fun mutation doc hnamed heq => hexecute (hmutation mutation doc hnamed heq))
    (fun hlocal doc body => hexecute (Action.putLocal_follows course (haside hlocal) doc body))
    (fun hlocal doc => hexecute (Action.deleteLocal_follows course (haside hlocal) doc)) ?_
  exact ⟨hrest, course.refl _ _ (.refl store.writer.blobs)⟩

theorem run_closed (errand : Errand) (closed : Bool) : Keeps (fun store => store.closed = closed) errand.run := by
  have hexecute : ∀ {α : Type} (action : Action α), Keeps (fun store => store.closed = closed) (Store.execute action) := by
    intro α action store h
    rw [Store.stateAfter_execute]
    split <;> exact h
  exact run_keeps (fun mutation _ _ _ => hexecute mutation.run) (fun _ _ _ => hexecute _) fun _ _ => hexecute _

theorem run_untouched {error : StoreError} {after : Store} (hrest : store.AtRest)
    (h : errand.run store = .error error after) : store.Untouched after := by
  have hanchored := Writer.anchored_of_rest hrest
  cases errand with
  | mutate mutation doc hnamed =>
    exact Store.execute_untouched hrest (mutation.run_ends covers_any.toCourse (covers_any.runs mutation _) hanchored)
      (error_bind_pure_iff.mp h)
  | putLocal doc body =>
    have hput : Store.putLocal doc body store = .error error after := error_bind_pure_iff.mp h
    unfold Store.putLocal at hput
    cases hbody : (Body.validate body).mapError StoreError.ofData with
    | error found =>
      rw [hbody] at hput
      obtain ⟨-, rfl⟩ := EStateM.Result.error.inj hput
      exact ⟨rfl, rfl, rfl, rfl, .refl store.writer.blobs⟩
    | ok =>
      rw [hbody] at hput
      exact Store.execute_untouched hrest
        (Action.Ends.transact (Action.Follows.statement (Tables.putLocal doc body)).strives _ hanchored) hput
  | getLocal doc =>
    rw [run_getLocal] at h
    cases hfound : store.getLocal doc with
    | ok document =>
      rw [hfound] at h
      nomatch h
    | error found =>
      rw [hfound] at h
      obtain ⟨-, rfl⟩ := EStateM.Result.error.inj h
      exact ⟨rfl, rfl, rfl, rfl, .refl store.writer.blobs⟩
  | deleteLocal doc =>
    have hdelete : Store.deleteLocal doc store = .error error after := error_bind_pure_iff.mp h
    exact Store.execute_untouched hrest (Action.deleteLocal_ends doc) hdelete

theorem run_addressed {known : List Bytes} (hknown : errand.supplied ⊆ known) :
    Keeps (fun store => store.writer.Addressed known) errand.run := by
  refine run_keeps ?_ (fun _ doc body store => ?_) fun _ => Store.deleteLocal_addressed
  · rintro mutation doc hnamed rfl store
    exact Store.execute_addressed (mutation.run_addressed hknown)
  · exact Store.execute_addressed (Action.transact_addressed (Action.transaction_addressed _))

end Errand

end RevisionForest
