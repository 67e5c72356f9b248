import RevisionForest.Proofs.Nesting
/-!
# What aborts a group

A level that fails leaves the group around it broken, and then the group can only be rolled back, whatever the code around the failed level does with the error. But a mutation opens its level only when its arguments have passed (`Mutation.check`). One that is refused by its arguments leaves the group as it was, so that the group can still commit if the error is swallowed (`Store.refused_inside_committed`). This is the only exception: a group fails exactly if its own code ends with an error or some level inside it has failed, and nothing is left of it then (`Store.Attained.group_fails_iff`).
-/

namespace RevisionForest

/-- What a mutation refuses by its arguments alone, before it opens its level. -/
def Mutation.check : Mutation → Except StoreError Unit
  | .create doc body _ => do
    (Body.validate body).mapError .ofData
    if doc = some "" then
      throw (.invalidInput .emptyDocumentId)
  | .update _ _ body changes => do
    (Body.validate body).mapError .ofData
    (Attachment.checkNames [] changes.put).mapError .invalidInput
  | .delete _ _ => return
  | .deleteAllLeaves _ => return
  | .graft item => item.check

/-! ### What fails inside -/

/-- The command with its error, if it fails. -/
def Command.failure (command : Command) (writer : Writer) : List (Command × StoreError) :=
  match command.run writer with
  | .error (.fault error) _ => [(command, error)]
  | _ => []

mutual

/-- The mutations and groups that a command runs and that fail, with their errors, also if these are swallowed. -/
def Command.failures : Command → Writer → List (Command × StoreError)
  | .mutate mutation, writer => (Command.mutate mutation).failure writer
  | .attempt command, writer => command.failures writer
  | .transact script, writer =>
    Command.failuresAll script (Action.opened writer) ++ (Command.transact script).failure writer
  | _, _ => []

def Command.failuresAll : List Command → Writer → List (Command × StoreError)
  | [], _ => []
  | command :: rest, writer =>
    match command.run writer with
    | .ok _ after => command.failures writer ++ Command.failuresAll rest after
    | .error _ _ => command.failures writer

end

/-- The command is a mutation that was refused by its arguments. -/
def Command.Refused (failure : Command × StoreError) : Prop :=
  ∃ mutation, failure.1 = .mutate mutation ∧ mutation.check = .error failure.2

namespace Action

variable {α β : Type} {action : Action α} {before inside after : Writer} {halt : Halt} {error : StoreError} {body : Bytes}

theorem error_check_iff {condition : Except StoreError Unit} {next : Unit → Action α} :
    (check condition >>= next) before = .error halt after ↔
      (∃ error, condition = .error error ∧ halt = .fault error ∧ after = before) ∨
        condition = .ok () ∧ next () before = .error halt after := by
  cases condition with
  | ok =>
    have hnext : (check (.ok ()) >>= next) before = next () before := rfl
    simp [hnext]
  | error error =>
    have hfail : (check (.error error) >>= next) before = .error (.fault error) before := rfl
    simp [hfail, eq_comm]

theorem broken_of_fault (hopen : before.database.group ≠ none)
    (hends : EndsAt (fun _ _ => True) (fun _ _ => True) action (opened before))
    (h : transact action before = .error (.fault error) after) : ¬after.database.Intact := by
  obtain ⟨old, hold⟩ := Option.ne_none_iff_exists'.mp hopen
  unfold EndsAt at hends
  rw [transact_eq] at h
  cases hresult : action (opened before) with
  | ok value inside =>
    rw [hresult] at h hends
    obtain ⟨group, hgroup, -, hrest⟩ := group_of_opened hends.levels
    rw [hold] at hrest
    simp only [complete_inner hgroup hrest.2.1] at h
    nomatch h
  | error halt inside =>
    rw [hresult] at h hends
    cases halt with
    | panic => nomatch h
    | fault found =>
      obtain ⟨group, hgroup, hmarked, hrest⟩ := group_of_opened hends.levels
      rw [hold] at hrest
      obtain ⟨-, rfl⟩ := EStateM.Result.error.inj h
      intro hintact
      rw [close_inner hgroup hrest.2.1] at hintact
      have hunbroken := hintact _ rfl
      simp [hmarked] at hunbroken

theorem broken_of_edit {work : Edit α} (hopen : before.database.group ≠ none) (hgrows : work.Grows)
    (h : transact (edit work) before = .error (.fault error) after) : ¬after.database.Intact :=
  broken_of_fault hopen (.edit (group_opened before) ⟨hgrows, fun _ _ _ => trivial⟩) h

theorem check_edit_fault {condition : Except StoreError Unit} {work : Edit α} (hopen : before.database.group ≠ none)
    (hgrows : work.Grows) (h : (check condition >>= fun _ => transact (edit work)) before = .error (.fault error) after) :
    (condition = .error error ∧ after = before) ∨ condition = .ok () ∧ ¬after.database.Intact := by
  rcases error_check_iff.mp h with ⟨refusal, hcondition, hhalt, rfl⟩ | ⟨hcondition, hlevel⟩
  · obtain rfl := Halt.fault.inj hhalt
    exact .inl ⟨hcondition, rfl⟩
  · exact .inr ⟨hcondition, broken_of_edit hopen hgrows hlevel⟩

theorem createAs_fault {doc : String} {attachments : List NewAttachment} (hopen : before.database.group ≠ none)
    (h : createAs doc body attachments before = .error (.fault error) after) :
    (Mutation.check (.create (some doc) body attachments) = .error error ∧ after = before) ∨
      Mutation.check (.create (some doc) body attachments) = .ok () ∧ ¬after.database.Intact := by
  rcases error_check_iff.mp h with ⟨refusal, hbody, hhalt, rfl⟩ | ⟨hbody, hguard⟩
  · obtain rfl := Halt.fault.inj hhalt
    exact .inl ⟨by simp [Mutation.check, hbody, bind, Except.bind], rfl⟩
  · by_cases hdoc : doc = ""
    · simp only [if_pos hdoc] at hguard
      obtain ⟨hhalt, rfl⟩ := EStateM.Result.error.inj hguard
      obtain rfl := Halt.fault.inj hhalt
      exact .inl ⟨by simp [Mutation.check, hbody, hdoc, bind, Except.bind, throw, throwThe, MonadExceptOf.throw], rfl⟩
    · simp only [if_neg hdoc] at hguard
      exact .inr ⟨by simp [Mutation.check, hbody, hdoc, bind, Except.bind, pure, Except.pure],
        broken_of_edit hopen (Edit.create_grows doc body attachments) hguard⟩

theorem idAt_ne_empty (moment : Nat) : idAt moment ≠ "" := by
  intro h
  have hlist := congrArg String.toList h
  simp [idAt, Hex.encode] at hlist

theorem create_fault {doc : Option String} {attachments : List NewAttachment} (hopen : before.database.group ≠ none)
    (h : create doc body attachments before = .error (.fault error) after) :
    (Mutation.check (.create doc body attachments) = .error error ∧ after = before) ∨
      Mutation.check (.create doc body attachments) = .ok () ∧ ¬after.database.Intact := by
  cases doc with
  | some doc => exact createAs_fault hopen h
  | none =>
    have hcheck : Mutation.check (.create none body attachments)
        = Mutation.check (.create (some (idAt before.clock)) body attachments) := by
      simp [Mutation.check, idAt_ne_empty]
    rw [create_none] at h
    rcases error_bind_iff.mp h with hmade | ⟨_, _, _, hlast⟩
    · rw [hcheck]
      exact createAs_fault hopen hmade
    · nomatch hlast

theorem update_fault {doc : String} {expected : RevId} {changes : AttachmentChanges}
    (hopen : before.database.group ≠ none) (h : update doc expected body changes before = .error (.fault error) after) :
    (Mutation.check (.update doc expected body changes) = .error error ∧ after = before) ∨
      Mutation.check (.update doc expected body changes) = .ok () ∧ ¬after.database.Intact := by
  rcases error_check_iff.mp h with ⟨refusal, hbody, hhalt, rfl⟩ | ⟨hbody, hnext⟩
  · obtain rfl := Halt.fault.inj hhalt
    exact .inl ⟨by simp [Mutation.check, hbody, bind, Except.bind], rfl⟩
  · have hcheck : Mutation.check (.update doc expected body changes)
        = (Attachment.checkNames [] changes.put).mapError .invalidInput := by
      simp [Mutation.check, hbody, bind, Except.bind]
    rw [hcheck]
    exact check_edit_fault hopen (Edit.update_grows doc expected body changes) hnext

end Action

open RevisionForest.Action

variable {before after : Writer}

/-- Inside an open group a mutation that fails was either refused by its arguments, and then nothing has happened, or it has broken the group. -/
theorem Mutation.run_fault {mutation : Mutation} {error : StoreError} (hopen : before.database.group ≠ none)
    (hanchored : before.database.Anchored) (h : mutation.run before = .error (.fault error) after) :
    (mutation.check = .error error ∧ after = before) ∨ mutation.check = .ok () ∧ ¬after.database.Intact := by
  cases mutation with
  | create doc body attachments => exact create_fault hopen (error_bind_pure_iff.mp h)
  | update doc expected body changes => exact update_fault hopen (error_bind_pure_iff.mp h)
  | delete doc rev => exact .inr ⟨rfl, broken_of_edit hopen (Edit.bury_grows doc rev) (error_bind_pure_iff.mp h)⟩
  | deleteAllLeaves doc =>
    have hends := deleteLiveLeaves_ends covers_any.toCourse hanchored fun revs draft _ rev _ => covers_any.bury doc rev
    exact .inr ⟨rfl, broken_of_fault hopen hends (error_bind_pure_iff.mp h)⟩
  | graft item =>
    rcases error_bind_iff.mp h with hgraft | ⟨found, _, _, hlast⟩
    · exact check_edit_fault hopen (Edit.graft_grows item) hgraft
    · cases found <;> nomatch hlast

/-! ### Groups -/

/-- Where an action ends that does not panic. -/
def Action.EndsIn {α : Type} (action : Action α) (before after : Writer) : Prop :=
  (∃ value, action before = .ok value after) ∨ ∃ error, action before = .error (.fault error) after

theorem Action.endsIn_bind_iff {α β : Type} {action : Action α} {next : α → Action β} :
    (action >>= next).EndsIn before after ↔ (∃ error, action before = .error (.fault error) after) ∨
      ∃ value between, action before = .ok value between ∧ (next value).EndsIn between after := by
  unfold EndsIn
  constructor
  · rintro (⟨result, h⟩ | ⟨error, h⟩)
    · obtain ⟨value, between, hfirst, hnext⟩ := ok_bind_iff.mp h
      exact .inr ⟨value, between, hfirst, .inl ⟨result, hnext⟩⟩
    · rcases error_bind_iff.mp h with hfirst | ⟨value, between, hfirst, hnext⟩
      · exact .inl ⟨error, hfirst⟩
      · exact .inr ⟨value, between, hfirst, .inr ⟨error, hnext⟩⟩
  · rintro (⟨error, hfirst⟩ | ⟨value, between, hfirst, ⟨result, hnext⟩ | ⟨error, hnext⟩⟩)
    · exact .inr ⟨error, error_bind_iff.mpr (.inl hfirst)⟩
    · exact .inl ⟨result, ok_bind_iff.mpr ⟨value, between, hfirst, hnext⟩⟩
    · exact .inr ⟨error, error_bind_iff.mpr (.inr ⟨value, between, hfirst, hnext⟩)⟩

theorem Action.endsIn_pure {α : Type} {value : α} (h : (Pure.pure value : Action α).EndsIn before after) : before = after := by
  rcases h with ⟨found, hpure⟩ | ⟨error, hpure⟩
  · exact (ok_pure_iff.mp hpure).2
  · nomatch hpure

theorem Action.endsIn_bind_pure {α β : Type} {action : Action α} {view : α → β}
    (h : (action >>= fun value => Pure.pure (view value)).EndsIn before after) : action.EndsIn before after := by
  rcases Action.endsIn_bind_iff.mp h with ⟨error, hfault⟩ | ⟨value, between, hok, hlast⟩
  · exact .inr ⟨error, hfault⟩
  · obtain rfl := Action.endsIn_pure hlast
    exact .inl ⟨value, hok⟩

theorem Action.endsIn_putBlob {data : Bytes} (h : (Action.putBlob data).EndsIn before after) :
    after.database = before.database := by
  unfold EndsIn Action.putBlob at h
  cases hput : BlobStore.put data before.blobs with
  | ok digest blobs =>
    simp only [hput] at h
    rcases h with ⟨_, h⟩ | ⟨_, h⟩
    · obtain ⟨-, rfl⟩ := EStateM.Result.ok.inj h
      rfl
    · nomatch h
  | error error blobs =>
    simp only [hput] at h
    rcases h with ⟨_, h⟩ | ⟨_, h⟩
    · nomatch h
    · obtain ⟨-, rfl⟩ := EStateM.Result.error.inj h
      rfl

theorem Action.endsIn_attempt {action : Action Answer} (h : (Action.attempt action).EndsIn before after) :
    action.EndsIn before after := by
  unfold EndsIn Action.attempt at h
  cases hresult : action before with
  | ok answer between =>
    rw [hresult] at h
    rcases h with ⟨_, h⟩ | ⟨_, h⟩
    · obtain ⟨-, rfl⟩ := EStateM.Result.ok.inj h
      exact .inl ⟨answer, hresult⟩
    · nomatch h
  | error halt between =>
    rw [hresult] at h
    cases halt with
    | panic => rcases h with ⟨_, h⟩ | ⟨_, h⟩ <;> nomatch h
    | fault error =>
      rcases h with ⟨_, h⟩ | ⟨_, h⟩
      · obtain ⟨-, rfl⟩ := EStateM.Result.ok.inj h
        exact .inr ⟨error, hresult⟩
      · nomatch h

theorem Action.intact_opened (writer : Writer) : (opened writer).database.Intact ↔ writer.database.Intact := by
  cases hgroup : writer.database.group <;> simp [Database.Intact, opened, hgroup]

theorem Action.endsIn_transact {α : Type} {action : Action α} (hopen : before.database.group ≠ none)
    (hends : EndsAt (fun _ _ => True) (fun _ _ => True) action (opened before)) (h : (transact action).EndsIn before after) :
    (∃ value inside, action (opened before) = .ok value inside ∧ transact action before = .ok value after ∧
        (after.database.Intact ↔ inside.database.Intact)) ∨
      ∃ error, transact action before = .error (.fault error) after ∧ ¬after.database.Intact := by
  rcases h with ⟨value, hok⟩ | ⟨error, hfault⟩
  · obtain ⟨old, hold⟩ := Option.ne_none_iff_exists'.mp hopen
    unfold EndsAt at hends
    have hresult := hok
    rw [transact_eq] at hresult
    cases hinside : action (opened before) with
    | error halt inside =>
      rw [hinside] at hresult
      cases halt <;> nomatch hresult
    | ok found inside =>
      rw [hinside] at hresult hends
      obtain ⟨group, hgroup, -, hrest⟩ := group_of_opened hends.levels
      rw [hold] at hrest
      simp only [complete_inner hgroup hrest.2.1] at hresult
      obtain ⟨rfl, rfl⟩ := EStateM.Result.ok.inj hresult
      refine .inl ⟨found, inside, rfl, hok, ?_⟩
      rw [Database.intact_iff hgroup, Database.intact_iff rfl]
  · exact .inr ⟨error, hfault, broken_of_fault hopen hends hfault⟩

theorem Command.failure_of_fault {command : Command} {error : StoreError}
    (h : command.run before = .error (.fault error) after) : command.failure before = [(command, error)] := by
  simp only [Command.failure, h]

theorem Command.failure_of_ok {command : Command} {answer : Answer} (h : command.run before = .ok answer after) :
    command.failure before = [] := by
  simp only [Command.failure, h]

mutual

/-- A group is broken exactly by the commands in it that fail and were not refused by their arguments. -/
theorem Command.run_intact_iff : ∀ command : Command, command.Plain → ∀ {before after : Writer},
    before.database.group ≠ none → before.database.Anchored → command.run.EndsIn before after →
    (after.database.Intact ↔ before.database.Intact ∧ ∀ failure ∈ command.failures before, Command.Refused failure)
  | .mutate mutation, _, before, after, hopen, hanchored, h => by
    rw [Command.failures]
    rcases endsIn_bind_iff.mp h with ⟨error, hfault⟩ | ⟨outcome, between, hok, hlast⟩
    · rw [Command.failure_of_fault (error_bind_iff.mpr (.inl hfault))]
      simp only [List.mem_singleton, forall_eq]
      rcases mutation.run_fault hopen hanchored hfault with ⟨hcheck, rfl⟩ | ⟨hcheck, hbroken⟩
      · -- Refused before a level was opened, so nothing has changed.
        have hrefused : Command.Refused (.mutate mutation, error) := ⟨mutation, rfl, hcheck⟩
        simp [hrefused]
      · refine iff_of_false hbroken ?_
        rintro ⟨-, other, heq, hrefused⟩
        obtain rfl := Command.mutate.inj heq
        rw [hcheck] at hrefused
        nomatch hrefused
    · obtain rfl := endsIn_pure hlast
      have hrun : (Command.mutate mutation).run before = .ok (.outcome outcome) between :=
        ok_bind_iff.mpr ⟨outcome, between, hok, rfl⟩
      rw [Command.failure_of_ok hrun]
      have hsteady := (mutation.run_matches ⟨rfl, rfl⟩ outcome between hok).1
      simp [hsteady.intact_iff]
  | .operate _, hplain, _, _, _, _, _ => hplain.elim
  | .putBlob data, _, before, after, _, _, h => by
    rw [endsIn_putBlob (endsIn_bind_pure h)]
    simp [Command.failures]
  | .fail error, _, before, after, _, _, h => by
    rcases h with ⟨_, h⟩ | ⟨_, h⟩
    · nomatch h
    · obtain ⟨-, rfl⟩ := EStateM.Result.error.inj h
      simp [Command.failures]
  | .panic, _, before, after, _, _, h => by
    rcases h with ⟨_, h⟩ | ⟨_, h⟩ <;> nomatch h
  | .attempt command, hplain, before, after, hopen, hanchored, h => by
    rw [Command.failures]
    exact command.run_intact_iff hplain hopen hanchored (endsIn_attempt h)
  | .transact script, hplain, before, after, hopen, hanchored, h => by
    -- If the level returns, what it passes on is what the script has left of it; if it fails, it is itself a failure that was not refused.
    rw [Command.failures]
    have hends := Command.runAll_follows covers_any script hplain (opened before) (anchored_opened hanchored)
    rcases endsIn_transact hopen hends (endsIn_bind_pure h) with ⟨answers, inside, hinside, hok, hsame⟩ | ⟨error, hfault, hbroken⟩
    · have hrun : (Command.transact script).run before = .ok (.script answers) after :=
        ok_bind_iff.mpr ⟨answers, after, hok, rfl⟩
      rw [Command.failure_of_ok hrun, List.append_nil, hsame, ← intact_opened before]
      exact Command.runAll_intact_iff script hplain (group_opened before) (anchored_opened hanchored) (.inl ⟨answers, hinside⟩)
    · rw [Command.failure_of_fault (error_bind_iff.mpr (.inl hfault))]
      refine iff_of_false hbroken ?_
      rintro ⟨-, hrefused⟩
      obtain ⟨mutation, heq, -⟩ := hrefused _ (List.mem_append_right _ (List.mem_singleton.mpr rfl))
      nomatch heq

theorem Command.runAll_intact_iff : ∀ script : List Command, Command.AllPlain script → ∀ {before after : Writer},
    before.database.group ≠ none → before.database.Anchored → (Command.runAll script).EndsIn before after →
    (after.database.Intact ↔
      before.database.Intact ∧ ∀ failure ∈ Command.failuresAll script before, Command.Refused failure)
  | [], _, before, after, _, _, h => by
    obtain rfl := endsIn_pure h
    simp [Command.failuresAll]
  | command :: rest, hplain, before, after, hopen, hanchored, h => by
    rw [Command.failuresAll]
    rcases endsIn_bind_iff.mp h with ⟨error, hfault⟩ | ⟨answer, between, hok, hlater⟩
    · simp only [hfault]
      exact command.run_intact_iff hplain.1 hopen hanchored (.inr ⟨error, hfault⟩)
    · have hlevels := ((Command.run_follows covers_any command hplain.1 before hanchored).passed hok).levels
      have hfirst := command.run_intact_iff hplain.1 hopen hanchored (.inl ⟨answer, hok⟩)
      have hrest := Command.runAll_intact_iff rest hplain.2 (fun hnone => hopen (hlevels.none_iff.mpr hnone))
        (hlevels.anchored hanchored) (endsIn_bind_pure hlater)
      simp only [hok]
      rw [hrest, hfirst, List.forall_mem_append, and_assoc]

end

theorem Action.transact_rest_iff {α : Type} {action : Action α} (hrest : before.database.group = none)
    (hends : EndsAt (fun _ _ => True) (fun _ _ => True) action (opened before)) :
    (∃ value after, transact action before = .ok value after) ↔
      ∃ value inside, action (opened before) = .ok value inside ∧ inside.database.Intact := by
  unfold EndsAt at hends
  rw [transact_eq]
  cases hinside : action (opened before) with
  | error halt inside => cases halt <;> simp
  | ok value inside =>
    rw [hinside] at hends
    obtain ⟨group, hgroup, -, hlevels⟩ := group_of_opened hends.levels
    rw [hrest] at hlevels
    obtain ⟨hbefore, houter⟩ := hlevels
    have hsame : (∃ found after, (EStateM.Result.ok value inside : EStateM.Result Halt Writer α) = .ok found after ∧
        after.database.Intact) ↔ inside.database.Intact := by
      simp
    rw [hsame, Database.intact_iff hgroup]
    cases hunbroken : group.unbroken with
    | true => simp [complete_unbroken hgroup houter hunbroken (by simp [hbefore])]
    | false => simp [complete_broken hgroup houter hunbroken]

namespace Store

variable {store : Store} {script : List Command}

theorem execute_group_iff (hopen : store.closed = false) (hrest : store.AtRest) (hplain : Command.AllPlain script) :
    (∃ answer after, execute (Command.transact script).run store = .ok answer after) ↔
      (∃ answers inside, Command.runAll script (Action.opened store.writer) = .ok answers inside) ∧
        ∀ failure ∈ Command.failuresAll script (Action.opened store.writer), Command.Refused failure := by
  have hanchored := anchored_opened (Writer.anchored_of_rest hrest)
  have hlevel := Action.transact_rest_iff hrest
    (Command.runAll_follows covers_any script hplain (Action.opened store.writer) hanchored)
  have hintact : ∀ answers inside, Command.runAll script (Action.opened store.writer) = .ok answers inside →
      (inside.database.Intact ↔ ∀ failure ∈ Command.failuresAll script (Action.opened store.writer), Command.Refused failure) := by
    intro answers inside h
    rw [Command.runAll_intact_iff script hplain (group_opened _) hanchored (.inl ⟨answers, h⟩)]
    exact and_iff_right ((intact_opened _).mpr (Writer.intact_of_rest hrest))
  constructor
  · rintro ⟨answer, after, h⟩
    obtain ⟨-, writer, hrun, -, -⟩ := execute_ok_iff.mp h
    obtain ⟨answers, between, htransact, -⟩ := ok_bind_iff.mp hrun
    obtain ⟨_, inside, hinside, hwhole⟩ := hlevel.mp ⟨answers, between, htransact⟩
    exact ⟨⟨_, inside, hinside⟩, (hintact _ inside hinside).mp hwhole⟩
  · rintro ⟨⟨answers, inside, hinside⟩, hrefused⟩
    obtain ⟨value, after, htransact⟩ := hlevel.mpr ⟨answers, inside, hinside, (hintact answers inside hinside).mpr hrefused⟩
    have hrun : (Command.transact script).run store.writer = .ok (.script value) after :=
      ok_bind_iff.mpr ⟨value, after, htransact, rfl⟩
    have hends := Command.group_ends covers_any hplain store.writer (Writer.anchored_of_rest hrest)
    exact ⟨_, _, execute_ok_iff.mpr ⟨hopen, after, hrun, (hends.passed hrun).levels.none_iff.mp hrest, rfl⟩⟩

/-- A group fails, and leaves nothing, exactly if its own code ends with an error or a panic, or some command in it has failed that was not a mutation refused by its arguments. -/
theorem Attained.group_fails_iff (h : store.Attained) (hopen : store.closed = false) (hplain : Command.AllPlain script) :
    (∃ error after, submit (.transact script) store = .ok (.error error) after ∧ store.Untouched after) ↔
      (∃ halt inside, Command.runAll script (Action.opened store.writer) = .error halt inside) ∨
        ∃ failure ∈ Command.failuresAll script (Action.opened store.writer), ¬Command.Refused failure := by
  have hcommits := execute_group_iff hopen h.atRest hplain
  have hends := Command.group_ends covers_any hplain store.writer (Writer.anchored_of_rest h.atRest)
  constructor
  · rintro ⟨error, after, hsubmit, -⟩
    have hfails : ¬∃ answer after, execute (Command.transact script).run store = .ok answer after := by
      rintro ⟨answer, last, hok⟩
      rw [submit_error_iff.mp hsubmit] at hok
      nomatch hok
    rw [hcommits] at hfails
    cases hinside : Command.runAll script (Action.opened store.writer) with
    | error halt inside => exact .inl ⟨halt, inside, rfl⟩
    | ok answers inside =>
      right
      by_contra hnone
      refine hfails ⟨⟨answers, inside, hinside⟩, fun failure hmem => ?_⟩
      by_contra hadmitted
      exact hnone ⟨failure, hmem, hadmitted⟩
  · intro hwrong
    cases hresult : execute (Command.transact script).run store with
    | error error after =>
      exact ⟨error, after, submit_error_iff.mpr hresult, execute_untouched h.atRest hends hresult⟩
    | ok answer after =>
      obtain ⟨⟨answers, inside, hinside⟩, hrefused⟩ := hcommits.mp ⟨answer, after, hresult⟩
      rcases hwrong with ⟨halt, last, hhalt⟩ | ⟨failure, hmem, hadmitted⟩
      · rw [hinside] at hhalt
        nomatch hhalt
      · exact absurd (hrefused failure hmem) hadmitted

/-- A document is created twice in a group, and the error of the second time is swallowed. -/
theorem group_fails_swallowed :
    let script : List Command :=
      [.mutate (.create (some "a") Body.empty []), .attempt (.mutate (.create (some "a") Body.empty []))]
    ∃ error after, submit (.transact script) (new {}) = .ok (.error error) after ∧ (new {}).Untouched after := by
  intro script
  have hfacts : ((Command.failuresAll script (Action.opened (new {}).writer)).any fun failure =>
      match failure.1 with
      | .mutate mutation => mutation.check.isOk
      | _ => false) = true := by decide +kernel
  obtain ⟨failure, hmem, hadmitted⟩ := List.any_eq_true.mp hfacts
  have hplain : Command.AllPlain script := ⟨trivial, trivial, trivial⟩
  refine ((Attained.opened {} {}).group_fails_iff rfl hplain).mpr (.inr ⟨failure, hmem, ?_⟩)
  rintro ⟨mutation, heq, hrefused⟩
  rw [heq] at hadmitted
  simp [hrefused, Except.isOk, Except.toBool] at hadmitted

/-- A group commits although a document whose body is no JSON object was refused inside it, since the error was swallowed. -/
theorem refused_inside_committed :
    let script : List Command :=
      [.mutate (.create (some "a") Body.empty []), .attempt (.mutate (.create (some "b") (Utf8.encode "[]") []))]
    (Command.failuresAll script (Action.opened (new {}).writer)).length = 1 ∧
      ∃ answer after, submit (.transact script) (new {}) = .ok (.ok answer) after ∧
        after.writer.database.tables.documentNumber? "a" = some 1 := by
  intro script
  have hcommits : (match submit (.transact script) (new {}) with
      | .ok (.ok _) after => after.writer.database.tables.documentNumber? "a"
      | _ => none) = some 1 := by decide +kernel
  refine ⟨by decide +kernel, ?_⟩
  cases hresult : submit (.transact script) (new {}) with
  | error error after =>
    rw [hresult] at hcommits
    nomatch hcommits
  | ok result after =>
    rw [hresult] at hcommits
    cases result with
    | error error => nomatch hcommits
    | ok answer => exact ⟨answer, after, rfl, hcommits⟩

end Store

end RevisionForest
