import RevisionForest.Proofs.Reachable
/-!
# A failure leaves nothing behind

Whatever callers have done to a store, by requests (`Store.Onward.attained`) or by actions of their own, it is between levels when it takes the next request (`Store.Attained.atRest`). A request that fails then leaves the database and the feed exactly as they were; only blobs may have been added (`Store.Attained.failure_atomic`). This holds for every mutation, for local documents, and for every group that is composed of the actions of a store with decisions of its own in between (`Action.Composed`): the group may fail anywhere, at any depth, for any reason that a failing blob store, a refused insert or a corrupted text gives it, and it may panic.
-/

namespace RevisionForest

/-- A relation that holds anyway, to say only that the levels around an action are as they were. -/
theorem covers_any : Covers fun _ _ => True where
  refl := fun _ _ _ _ _ => trivial
  trans := fun _ _ => trivial
  create := fun doc body attachments _ _ => ⟨Edit.create_grows doc body attachments, fun _ _ _ _ _ => trivial⟩
  update := fun doc expected body changes _ _ => ⟨Edit.update_grows doc expected body changes, fun _ _ _ _ _ => trivial⟩
  bury := fun doc rev => ⟨Edit.bury_grows doc rev, fun _ _ _ _ _ => trivial⟩
  graft := fun item _ => ⟨Edit.graft_grows item, fun _ _ _ _ _ => trivial⟩

namespace Action

variable {α β : Type} {action : Action α} {writer : Writer}

theorem Follows.statement (work : Statement α) : Follows (fun _ _ => True) (transaction (Transaction.statement work)) := by
  intro writer _
  unfold EndsAt transaction Transaction.statement
  cases work writer.database.tables with
  | ok value tables => exact ⟨.refl writer.database, .refl writer.blobs, fun _ => rfl, fun _ => trivial⟩
  | error error tables => exact ⟨.refl writer.database, .refl writer.blobs, fun _ => rfl, fun _ => trivial⟩

/-! ### Groups of any kind -/

/-- Actions composed of mutations, statements on the tables, blobs, failures and panics. What comes next may depend on what was answered, a failure may be swallowed, and any part may be a level of its own. -/
inductive Composed : {α : Type} → Action α → Prop
  | pure {α : Type} (value : α) : Composed (Pure.pure value : Action α)
  | bind {α β : Type} {action : Action α} {next : α → Action β} (h : Composed action)
    (hnext : ∀ value, Composed (next value)) : Composed (action >>= next)
  | mutation (mutation : Mutation) : Composed mutation.run
  | statement {α : Type} (work : Statement α) : Composed (transaction (Transaction.statement work))
  | putBlob (data : Bytes) : Composed (Action.putBlob data)
  | fail {α : Type} (error : StoreError) : Composed (Action.fail error : Action α)
  | panic {α : Type} : Composed (throw .panic : Action α)
  | attempt {action : Action Answer} (h : Composed action) : Composed (Action.attempt action)
  | transact {α : Type} {action : Action α} (h : Composed action) : Composed (Action.transact action)

theorem Composed.follows (h : Composed action) : Follows (fun _ _ => True) action := by
  induction h with
  | pure value => exact .pure covers_any.toCourse value
  | bind _ _ ih ihnext => exact .bind ih covers_any.toCourse ihnext
  | mutation mutation => exact mutation.run_follows covers_any
  | statement work => exact .statement work
  | putBlob data => exact .putBlob covers_any.toCourse data
  | fail error => exact .fail covers_any.toCourse error
  | panic => exact .panic covers_any.toCourse
  | attempt _ ih => exact .attempt ih
  | transact _ ih => exact (Ends.transact ih.strives).follows covers_any.toCourse

end Action

mutual

theorem Command.run_composed : ∀ command : Command, command.Plain → Action.Composed command.run
  | .mutate mutation, _ => .bind (.mutation mutation) fun _ => .pure _
  | .operate _, hplain => hplain.elim
  | .putBlob data, _ => .bind (.putBlob data) fun _ => .pure _
  | .fail error, _ => .fail error
  | .panic, _ => .panic
  | .attempt command, hplain => .attempt (command.run_composed hplain)
  | .transact script, hplain => .bind (.transact (Command.runAll_composed script hplain)) fun _ => .pure _

theorem Command.runAll_composed : ∀ script : List Command, Command.AllPlain script → Action.Composed (Command.runAll script)
  | [], _ => .pure []
  | command :: rest, hplain =>
    .bind (command.run_composed hplain.1) fun _ => .bind (Command.runAll_composed rest hplain.2) fun _ => .pure _

end

/-! ### Local documents -/

namespace Tables

variable {tables after : Tables} {doc : String}

theorem deleteLocal_absent (h : deleteLocal doc tables = .ok false after) : after = tables := by
  have hresult : deleteLocal doc tables = .ok (tables.locals.any fun row => row.id = doc)
      { tables with locals := tables.locals.filter fun row => row.id ≠ doc } := rfl
  rw [hresult] at h
  obtain ⟨hnone, rfl⟩ := EStateM.Result.ok.inj h
  have hkept : (tables.locals.filter fun row => row.id ≠ doc) = tables.locals := by
    apply List.filter_eq_self.mpr
    intro row hrow
    have habsent := List.any_eq_false.mp hnone row hrow
    simpa using habsent
  rw [hkept]

end Tables

namespace Action

variable {writer : Writer}

theorem deleteLocal_ends (doc : String) :
    EndsAt (fun _ _ => True) Holdings.Kept (do
      let removed ← transact (transaction (Transaction.statement (Tables.deleteLocal doc)))
      if !removed then
        fail (.notFound (.localDocument doc))) writer := by
  rw [transaction_statement]
  have hends : EndsAt (fun _ _ => True) Holdings.Kept (transact (edit (Edit.statement (Tables.deleteLocal doc)))) writer :=
    .transact_edit ⟨.statement _, fun _ _ _ => trivial⟩
  unfold EndsAt at hends ⊢
  simp only [bind, EStateM.bind]
  cases hresult : transact (edit (Edit.statement (Tables.deleteLocal doc))) writer with
  | error halt after =>
    rw [hresult] at hends
    cases halt <;> exact hends
  | ok removed after =>
    rw [hresult] at hends
    cases removed with
    | true => exact hends
    | false =>
      obtain ⟨draft, hwork, hsame⟩ := transact_edit_ok (.statement _) hresult
      obtain ⟨tables, hdelete, rfl⟩ := Edit.statement_ok_iff.mp hwork
      obtain rfl := Tables.deleteLocal_absent hdelete
      have hkept : writer.holdings.Kept after.holdings := by
        rw [hsame]
        exact ⟨rfl, .refl writer.blobs, rfl⟩
      exact ⟨hends.levels, hends.blobs, hends.quiet, fun _ => hkept⟩

end Action

namespace Store

variable {store after : Store} {α : Type} {action : Action α} {error : StoreError}

/-! ### Attained stores -/

/-- Stores as a caller can find them: opened, and then changed by any actions, by subscriptions and their readers, by lost blobs, and by closing and opening again. Ids are made up in between for other stores too. -/
inductive Attained : Store → Prop
  | opened (config : Config) (blobs : BlobStore) : Attained (openWith config blobs)
  | executed {store : Store} {α : Type} (action : Action α) (h : Attained store) :
    Attained (stateAfter (execute action) store)
  | subscribed {store : Store} (capacity : Option Nat) (h : Attained store) : Attained (store.subscribe capacity).2
  | drained {store : Store} (ticket : Nat) (most : Option Nat) (h : Attained store) :
    Attained (store.drain ticket most).2.2
  | unsubscribed {store : Store} (ticket : Nat) (h : Attained store) : Attained (store.unsubscribe ticket)
  | bereft {store : Store} (data : Bytes) (h : Attained store) : Attained (store.loseBlob data).2
  | closed {store : Store} (h : Attained store) : Attained store.close
  | reopened {store : Store} (h : Attained store) : Attained store.reopen
  | elapsed {store : Store} (clock : Nat) (h : Attained store) :
    Attained { store with writer := { store.writer with clock } }

theorem Attained.atRest (h : store.Attained) : store.AtRest := by
  induction h with
  | opened config blobs => rfl
  | executed action _ ih => exact execute_rest action ih
  | subscribed capacity _ ih => exact ih
  | drained ticket most _ ih => exact ih
  | unsubscribed ticket _ ih => exact ih
  | bereft data _ ih => exact ih
  | closed _ ih => exact ih
  | reopened _ ih => rfl
  | elapsed clock _ ih => exact ih

theorem Onward.attained {start : Store} (h : start.Onward store) (hstart : start.Attained) : store.Attained := by
  induction h with
  | start => exact hstart
  | command command _ _ ih =>
    rw [stateAfter_submit]
    exact ih.executed command.run
  | script script _ _ ih =>
    rw [executeScript_eq, ← stateAfter_execute]
    exact ih.executed (Command.runAll script)
  | besides hother _ ih =>
    cases hother with
    | apart hapart =>
      cases hapart with
      | putLocal doc body =>
        unfold Store.putLocal
        cases (Body.validate body).mapError StoreError.ofData with
        | error error => exact ih
        | ok => exact ih.executed _
      | deleteLocal doc => exact ih.executed _
      | compact => exact ih.executed _
      | elapsed clock => exact ih.elapsed clock
    | subscribed capacity => exact ih.subscribed capacity
    | drained ticket most => exact ih.drained ticket most
    | unsubscribed ticket => exact ih.unsubscribed ticket
    | closed => exact ih.closed
    | reopened => exact ih.reopened
    | bereft _ data => exact ih.bereft data

/-! ### Failed requests -/

/-- Nothing has happened to a store, except that its writer may have added blobs and made up ids. -/
structure Untouched (before after : Store) : Prop where
  config : after.config = before.config
  closed : after.closed = before.closed
  database : after.writer.database = before.writer.database
  feed : after.writer.feed = before.writer.feed
  blobs : before.writer.blobs.Grown after.writer.blobs

theorem execute_untouched {R : Holdings → Holdings → Prop} (hrest : store.AtRest)
    (hends : Action.EndsAt R Holdings.Kept action store.writer) (h : execute action store = .error error after) :
    store.Untouched after := by
  have hconfig : (stateAfter (execute action) store).config = store.config := by
    rw [stateAfter_execute]
    split <;> rfl
  rw [stateAfter_of_error h] at hconfig
  have hlast := execute_ends hends course_kept hrest
  rw [h] at hlast
  obtain ⟨hafter, hclosed, hkept⟩ := hlast
  rw [Writer.holdings_of_rest hrest, Writer.holdings_of_rest hafter] at hkept
  refine ⟨hconfig, hclosed, ?_, hkept.feed, hkept.blobs⟩
  have hgroup : after.writer.database.group = store.writer.database.group := hafter.trans hrest.symm
  have htables : after.writer.database.tables = store.writer.database.tables := hkept.tables
  calc after.writer.database = ⟨after.writer.database.tables, after.writer.database.group⟩ := rfl
    _ = store.writer.database := by rw [hgroup, htables]

/-- A request that fails leaves the database, its levels and the feed as they were, be it a mutation, a local document or a group of any kind. -/
theorem Attained.failure_atomic (h : store.Attained) :
    (∀ mutation : Mutation, execute mutation.run store = .error error after → store.Untouched after) ∧
    (∀ doc body, putLocal doc body store = .error error after → store.Untouched after) ∧
    (∀ doc, deleteLocal doc store = .error error after → store.Untouched after) ∧
    ∀ {β : Type} (group : Action β), group.Composed → execute (Action.transact group) store = .error error after →
      store.Untouched after := by
  have hanchored := Writer.anchored_of_rest h.atRest
  refine ⟨fun mutation hresult => ?_, fun doc body hresult => ?_, fun doc hresult => ?_,
    fun group hcomposed hresult => ?_⟩
  · exact execute_untouched h.atRest
      (mutation.run_ends covers_any.toCourse (covers_any.runs mutation _) hanchored) hresult
  · unfold putLocal at hresult
    cases hbody : (Body.validate body).mapError StoreError.ofData with
    | error found =>
      rw [hbody] at hresult
      obtain ⟨-, rfl⟩ := EStateM.Result.error.inj hresult
      exact ⟨rfl, rfl, rfl, rfl, .refl store.writer.blobs⟩
    | ok =>
      rw [hbody] at hresult
      exact execute_untouched h.atRest
        (Action.Ends.transact (Action.Follows.statement (Tables.putLocal doc body)).strives _ hanchored) hresult
  · exact execute_untouched h.atRest (Action.deleteLocal_ends doc) hresult
  · exact execute_untouched h.atRest (Action.Ends.transact hcomposed.follows.strives _ hanchored) hresult

/-- The blobs can be written once where the second revision of the group needs two attachments, so nothing but a blob is left of the group. -/
theorem failure_atomic_budget :
    let store := openWith {} { budget := some 1 }
    let group := Command.runAll
      [.mutate (.create (some "a") Body.empty []),
        .mutate (.create (some "b") Body.empty [.plain "x" "t" [1], .plain "y" "t" [2]])]
    ∃ error after, execute (Action.transact group) store = .error error after ∧ store.Untouched after ∧
      after.writer.blobs.blobs.length = 1 := by
  intro store group
  have hfails : (match execute (Action.transact group) store with
      | .ok _ _ => none
      | .error _ after => some after.writer.blobs.blobs.length) = some 1 := by decide +kernel
  cases hresult : execute (Action.transact group) store with
  | ok answers after =>
    rw [hresult] at hfails
    nomatch hfails
  | error error after =>
    rw [hresult] at hfails
    have huntouched := (Attained.opened {} { budget := some 1 }).failure_atomic.2.2.2 group
      (Command.runAll_composed _ ⟨trivial, trivial, trivial⟩) hresult
    exact ⟨error, after, rfl, huntouched, Option.some.inj hfails⟩

end Store

end RevisionForest
