import RevisionForest.Proofs.OpenLevels
import RevisionForest.Proofs.Reachable
/-!
# The writer recovers

A submitted program takes steps on the database and runs parts of itself as levels, each step chosen by the answers so far, and it may end by an answer, an error or a panic at any point. Every moment of such a run either has no level open or can still be undone to the last moment that had none (`Unwinds`). So what is left of a program, however it ends, is what it had done at its last moment without a level (`Program.recovers`), and the next program starts there (`Writer.serve_recovers`).
-/

namespace RevisionForest

/-- A single step that leaves the physical transaction to the levels. Several steps as one level, or a step that is attempted, are a program. -/
def Operation.Orderly (operation : Operation) : Prop :=
  operation.Single ∧ operation ≠ .loseTransaction

/-- What a submitter can write. Each answer decides how it goes on; also a panic inside a level, if it is caught. -/
inductive Program where
  | stop (result : Except Halt Answer)
  | operate (operation : Operation) (orderly : operation.Orderly) (next : Except Halt Answer → Program)
  | transact (body : Program) (next : Except Halt Answer → Program)

namespace Action

variable {α : Type}

/-- What an action answers. -/
def answer (action : Action α) (writer : Writer) : Except Halt α :=
  match action writer with
  | .ok value _ => .ok value
  | .error halt _ => .error halt

/-- Go on from an action whatever it answers. -/
def whatever (action : Action α) (next : Except Halt α → Action α) : Action α := fun writer =>
  next (action.answer writer) (stateAfter action writer)

end Action

namespace Program

def run : Program → Action Answer
  | .stop (.ok answer) => pure answer
  | .stop (.error halt) => throw halt
  | .operate operation _ next => Action.whatever (Action.transaction operation.run) fun result => (next result).run
  | .transact body next => Action.whatever (Action.transact body.run) fun result => (next result).run

/-- The writer before, between and after the steps of a run. The beginning and the end of a level are steps. -/
def moments : Program → Writer → List Writer
  | .stop _, writer => [writer]
  | .operate operation _ next, writer =>
    let step := Action.transaction operation.run
    writer :: (next (Action.answer step writer)).moments (stateAfter step writer)
  | .transact body next, writer =>
    let level := Action.transact body.run
    writer :: (body.moments (stateAfter (Action.transaction Transaction.begin) writer) ++
      (next (Action.answer level writer)).moments (stateAfter level writer))

end Program

/-! ## One step -/

namespace Database

variable {before between after database : Database} {group : Group} {operation : Operation}

/-- Either no level is open any more, or what an abandonment leaves is the same as before. -/
def Unwinds (before after : Database) : Prop :=
  before.Anchored → after.Anchored ∧ (after.group = none ∨ after.abandon = before.abandon)

theorem unwinds_refl (database : Database) : database.Unwinds database :=
  fun hanchored => ⟨hanchored, .inr rfl⟩

theorem unwinds_of_rest (hrest : after.group = none) : before.Unwinds after :=
  fun _ => ⟨fun group hgroup => absurd (hrest.symm.trans hgroup) (Option.some_ne_none group).symm, .inl hrest⟩

theorem unwinds_of_group {group' : Group} (hbefore : before.group = some group) (hafter : after.group = some group')
    (hsame : group'.before = group.before) : before.Unwinds after := by
  intro hanchored
  have hfound := hanchored group hbefore
  obtain ⟨found, heq⟩ := Option.isSome_iff_exists.mp hfound
  refine ⟨fun other hother => ?_, .inr ?_⟩
  · obtain rfl := Option.some.inj (hafter.symm.trans hother)
    rw [hsame]
    exact hfound
  · simp only [abandon, hbefore, hafter, rollBack, hsame, heq, Option.getD_some]

theorem unwinds_begin (database : Database) : database.Unwinds (stateAfter Operation.begin.run database) := by
  cases hgroup : database.group with
  | none =>
    rw [after_begin_of_rest hgroup]
    intro _
    refine ⟨fun group hopened => ?_, .inr ?_⟩
    · obtain rfl := Option.some.inj hopened
      rfl
    · rw [abandon_of_rest hgroup]
      obtain ⟨tables, _⟩ := database
      obtain rfl := hgroup
      rfl
  | some group =>
    rw [after_begin hgroup]
    exact unwinds_of_group hgroup rfl rfl

theorem unwinds_mark (database : Database) : database.Unwinds (stateAfter Operation.markSuccessful.run database) := by
  cases hgroup : database.group with
  | none =>
    rw [stateAfter_of_error (mark_of_rest hgroup)]
    exact unwinds_refl database
  | some group =>
    rw [after_mark hgroup]
    exact unwinds_of_group hgroup rfl rfl

theorem unwinds_finish (database : Database) : database.Unwinds (stateAfter Operation.finish.run database) := by
  cases hgroup : database.group with
  | none =>
    rw [stateAfter_of_error (finish_of_rest hgroup)]
    exact unwinds_refl database
  | some group =>
    cases houter : group.outer with
    | cons marked outer =>
      rw [stateAfter_of_ok (finish_inner hgroup houter)]
      exact unwinds_of_group hgroup rfl rfl
    | nil =>
      apply unwinds_of_rest
      rw [stateAfter, finish_outermost hgroup houter]
      split_ifs <;> rfl

theorem unwinds_quiet (hquiet : operation.Quiet) (hkeeps : operation ≠ .loseTransaction) (database : Database) :
    database.Unwinds (stateAfter operation.run database) := by
  rw [after_quiet hquiet hkeeps]
  cases hgroup : database.group with
  | none => exact unwinds_of_rest rfl
  | some group =>
    let group' : Group := { group with staged := group.staged ++ stagedBy [operation] }
    have hsame : group'.before = group.before := rfl
    exact unwinds_of_group hgroup rfl hsame

/-- A step either leaves no level open or changes only what an abandonment would undo. -/
theorem unwinds_step (horderly : operation.Orderly) (database : Database) :
    database.Unwinds (stateAfter operation.run database) := by
  obtain ⟨hsingle, hkeeps⟩ := horderly
  cases operation with
  | begin => exact unwinds_begin database
  | markSuccessful => exact unwinds_mark database
  | finish => exact unwinds_finish database
  | abandon => exact unwinds_of_rest database.abandon_rest
  | attempt operation => exact hsingle.elim
  | level operations => exact hsingle.elim
  | _ =>
    refine unwinds_quiet ?_ hkeeps database
    trivial

end Database

namespace Writer

variable {before between after : Writer} {α : Type}

/-- Either no level is open any more, or the recovered writer is the same as before. -/
def Unwinds (before after : Writer) : Prop :=
  before.database.Anchored → after.database.Anchored ∧ (after.database.group = none ∨ after.recover = before.recover)

theorem unwinds_refl (writer : Writer) : writer.Unwinds writer :=
  fun hanchored => ⟨hanchored, .inr rfl⟩

theorem recover_of_rest (hrest : before.database.group = none) : before.recover = before := by
  rw [recover, Database.abandon_of_rest hrest]

theorem unwinds_database {database : Database} (h : before.database.Unwinds database) :
    before.Unwinds { before with database } := by
  intro hanchored
  obtain ⟨hafter, hrest | hsame⟩ := h hanchored
  · exact ⟨hafter, .inl hrest⟩
  · exact ⟨hafter, .inr (by rw [recover, hsame, recover])⟩

theorem stateAfter_transaction (step : Transaction α) (writer : Writer) :
    stateAfter (Action.transaction step) writer = { writer with database := stateAfter step writer.database } := by
  unfold stateAfter Action.transaction
  cases step writer.database <;> rfl

theorem stateAfter_begin (database : Database) :
    stateAfter Transaction.begin database = stateAfter Operation.begin.run database :=
  rfl

theorem stateAfter_finish (database : Database) :
    stateAfter Transaction.finish database = stateAfter Operation.finish.run database := by
  rw [Operation.run, stateAfter, stateAfter]
  simp only [bind, EStateM.bind]
  cases Transaction.finish database <;> rfl

theorem unwinds_opened (writer : Writer) : writer.Unwinds (stateAfter (Action.transaction Transaction.begin) writer) := by
  rw [stateAfter_transaction, stateAfter_begin]
  exact unwinds_database (Database.unwinds_begin writer.database)

theorem unwinds_close (writer : Writer) : writer.Unwinds (Action.close writer) := by
  have hclose : Action.close writer = stateAfter (Action.transaction Transaction.finish) writer := by
    rw [Action.close, stateAfter]
    cases Action.transaction Transaction.finish writer <;> rfl
  rw [hclose, stateAfter_transaction, stateAfter_finish]
  exact unwinds_database (Database.unwinds_finish writer.database)

theorem unwinds_complete (writer : Writer) : writer.Unwinds (stateAfter Action.complete writer) := by
  intro hanchored
  cases hgroup : writer.database.group with
  | none =>
    have hunmarked : Action.complete writer = .error (.fault (.ofStorage (.transaction .markOutside))) writer := by
      simp [Action.complete, Action.transaction, Transaction.markSuccessful, bind, EStateM.bind, get_eq, throw_eq, hgroup]
    rw [stateAfter_of_error hunmarked]
    exact unwinds_refl writer hanchored
  | some group =>
    cases houter : group.outer with
    | cons marked outer =>
      rw [stateAfter_of_ok (Action.complete_inner hgroup houter)]
      exact unwinds_database (Database.unwinds_of_group hgroup rfl rfl) hanchored
    | nil =>
      cases hunbroken : group.unbroken with
      | false =>
        rw [stateAfter_of_error (Action.complete_broken hgroup houter hunbroken)]
        exact unwinds_database (Database.unwinds_of_rest rfl) hanchored
      | true =>
        rw [stateAfter_of_ok (Action.complete_unbroken hgroup houter hunbroken (hanchored group hgroup))]
        exact ⟨anchored_of_rest rfl, .inl rfl⟩

theorem unwinds_transact (body : Action α) (writer : Writer) :
    (stateAfter body (stateAfter (Action.transaction Transaction.begin) writer)).Unwinds (stateAfter (Action.transact body) writer) := by
  have hopened : stateAfter (Action.transaction Transaction.begin) writer = Action.opened writer :=
    stateAfter_of_ok (Action.begin_eq writer)
  rw [hopened, stateAfter, stateAfter, Action.transact_eq]
  cases hbody : body (Action.opened writer) with
  | ok value inside =>
    have hcomplete := unwinds_complete inside
    rw [stateAfter] at hcomplete
    dsimp only
    cases hend : Action.complete inside with
    | ok done outside => rwa [hend] at hcomplete
    | error halt outside => rwa [hend] at hcomplete
  | error halt inside =>
    cases halt with
    | fault error => exact unwinds_close inside
    | panic => exact unwinds_refl inside

end Writer

/-! ## All steps of a run -/

namespace Program

theorem moments_head (program : Program) (writer : Writer) : (program.moments writer).head? = some writer := by
  cases program <;> rfl

theorem moments_last (program : Program) (writer : Writer) :
    (program.moments writer).getLast? = some (stateAfter program.run writer) := by
  induction program generalizing writer with
  | stop result => cases result <;> rfl
  | operate operation orderly next ih =>
    rw [moments, List.getLast?_cons, ih]
    rfl
  | transact body next _ ih =>
    rw [moments, List.getLast?_cons, List.getLast?_append, ih]
    rfl

theorem moments_unwinds (program : Program) (writer : Writer) : (program.moments writer).IsChain Writer.Unwinds := by
  induction program generalizing writer with
  | stop result => exact .singleton writer
  | operate operation orderly next ih =>
    refine .cons (ih _ _) fun after hafter => ?_
    rw [moments_head, Option.mem_some_iff] at hafter
    subst hafter
    rw [Writer.stateAfter_transaction]
    exact Writer.unwinds_database (Database.unwinds_step orderly writer.database)
  | transact body next ihbody ih =>
    refine .cons (List.isChain_append.mpr ⟨ihbody _, ih _ _, fun inside hinside after hafter => ?_⟩) fun opened hopened => ?_
    · rw [moments_last, Option.mem_some_iff] at hinside
      rw [moments_head, Option.mem_some_iff] at hafter
      subst hinside hafter
      exact Writer.unwinds_transact body.run writer
    · rw [List.head?_append, moments_head, Option.some_or, Option.mem_some_iff] at hopened
      subst hopened
      exact Writer.unwinds_opened writer

end Program

theorem Writer.exists_rest {start final : Writer} {moments : List Writer} (hrest : start.database.group = none)
    (hfirst : moments.head? = some start) (hlast : moments.getLast? = some final) (hunwinds : moments.IsChain Writer.Unwinds) :
    final.database.Anchored ∧ ∃ earlier last later, moments = earlier ++ last :: later ∧ last.database.group = none ∧
      (∀ moment ∈ later, moment.database.group ≠ none) ∧ final.recover = last := by
  induction moments using List.reverseRecOn generalizing final with
  | nil => nomatch hfirst
  | append_singleton moments moment ih =>
    obtain rfl : moment = final := by simpa using hlast
    cases hbefore : moments.getLast? with
    | none =>
      obtain rfl := List.getLast?_eq_none_iff.mp hbefore
      obtain rfl : moment = start := by simpa using hfirst
      exact ⟨anchored_of_rest hrest, [], moment, [], rfl, hrest, nofun, recover_of_rest hrest⟩
    | some between =>
      obtain ⟨hchain, -, hstep⟩ := List.isChain_append.mp hunwinds
      have hhead : moments.head? = some start := by
        cases moments with
        | nil => nomatch hbefore
        | cons first rest => exact hfirst
      obtain ⟨hanchored, earlier, last, later, rfl, hlastrest, hopen, hrecover⟩ := ih hhead hbefore hchain
      obtain ⟨hafter, hends⟩ := hstep between hbefore moment rfl hanchored
      refine ⟨hafter, ?_⟩
      by_cases hgroup : moment.database.group = none
      · exact ⟨_, moment, [], rfl, hgroup, nofun, recover_of_rest hgroup⟩
      · refine ⟨earlier, last, later ++ [moment], by simp, hlastrest, fun other hother => ?_,
          (hends.resolve_left hgroup).trans hrecover⟩
        rcases List.mem_append.mp hother with hold | hnew
        · exact hopen other hold
        · rwa [List.mem_singleton.mp hnew]

/-! ## Programs on the queue -/

/-- Serve programs one after another. -/
def Writer.serve : List Program → Writer → List (Except StoreError Answer) × Writer
  | [], writer => ([], writer)
  | program :: rest, writer =>
    let (answer, after) := writer.run program.run
    let (answers, last) := Writer.serve rest after
    (answer :: answers, last)

/-- What the queue guarantees of a program that it takes up with the writer in some state. -/
structure Program.Recovers (program : Program) (start : Writer) : Prop where
  rests : start.database.group = none
  /-- The moments of the run are those from its beginning to its end. -/
  whole : (program.moments start).head? = some start ∧
    (program.moments start).getLast? = some (stateAfter program.run start)
  /-- What is left is what was there at the last moment without a level, and programs that are served later do not see more. -/
  recovered : ∃ earlier last later, program.moments start = earlier ++ last :: later ∧ last.database.group = none ∧
    (∀ moment ∈ later, moment.database.group ≠ none) ∧ (start.run program.run).2 = last ∧
    ∀ rest, start.serve (program :: rest) = ((start.run program.run).1 :: (last.serve rest).1, (last.serve rest).2)
  /-- Nothing is left of a program that did everything inside a group it left open. -/
  untouched : (∀ moment ∈ (program.moments start).tail, moment.database.group ≠ none) → (start.run program.run).2 = start
  panicked : program.run.answer start = .error .panic →
    (start.run program.run).1 = .error (.invariantViolation .panicked)
  left_open : program.run.answer start ≠ .error .panic → (stateAfter program.run start).database.group ≠ none →
    (start.run program.run).1 = .error (.invariantViolation (.levelsLeftOpen (stateAfter program.run start).database.depth))
  failed : ∀ error, (stateAfter program.run start).database.group = none →
    program.run.answer start = .error (.fault error) → (start.run program.run).1 = .error error
  answered : ∀ answer, (stateAfter program.run start).database.group = none →
    program.run.answer start = .ok answer → (start.run program.run).1 = .ok answer

namespace Writer

variable {writer start : Writer} {α : Type}

theorem run_eq (action : Action α) (writer : Writer) :
    writer.run action = (stateAfter action writer).settle (action.answer writer) := by
  rw [run, stateAfter, Action.answer]
  cases action writer <;> rfl

theorem settle_writer (result : Except Halt α) (writer : Writer) : (writer.settle result).2 = writer.recover := by
  have hclosed : (if writer.database.inTransaction then writer.recover else writer) = writer.recover := by
    split_ifs with hopen
    · rfl
    · exact (recover_of_rest (Option.not_isSome_iff_eq_none.mp hopen)).symm
  rcases result with (error | _) | value
  · rw [settle, apply_ite Prod.snd]
    exact hclosed
  · rfl
  · rw [settle, apply_ite Prod.snd]
    exact hclosed

theorem settle_open {result : Except Halt α} (hpanic : result ≠ .error .panic) (hopen : writer.database.group ≠ none) :
    (writer.settle result).1 = .error (.invariantViolation (.levelsLeftOpen writer.database.depth)) := by
  have hinside : writer.database.inTransaction = true := Option.isSome_iff_ne_none.mpr hopen
  rcases result with (error | _) | value
  · rw [settle, if_pos hinside]
  · exact absurd rfl hpanic
  · rw [settle, if_pos hinside]

theorem settle_rest (hrest : writer.database.group = none) :
    (∀ error, (writer.settle (.error (.fault error) : Except Halt α)).1 = .error error) ∧
      ∀ value : α, (writer.settle (.ok value)).1 = .ok value := by
  have hinside : ¬writer.database.inTransaction = true := by simp [Database.inTransaction, hrest]
  exact ⟨fun error => by rw [settle, if_neg hinside], fun value => by rw [settle, if_neg hinside]⟩

theorem serve_append (writer : Writer) (before after : List Program) :
    writer.serve (before ++ after) =
      ((writer.serve before).1 ++ ((writer.serve before).2.serve after).1, ((writer.serve before).2.serve after).2) := by
  induction before generalizing writer with
  | nil => rfl
  | cons program rest ih =>
    simp only [List.cons_append, serve, ih]

end Writer

theorem Program.recovers (program : Program) {start : Writer} (hrest : start.database.group = none) :
    program.Recovers start := by
  obtain ⟨-, earlier, last, later, hsplit, hlast, hopen, hrecover⟩ := Writer.exists_rest hrest
    (program.moments_head start) (program.moments_last start) (program.moments_unwinds start)
  have hwriter : (start.run program.run).2 = last := by
    rw [Writer.run_eq, Writer.settle_writer, hrecover]
  refine ⟨hrest, ⟨program.moments_head start, program.moments_last start⟩,
    ⟨earlier, last, later, hsplit, hlast, hopen, hwriter, fun rest => ?_⟩, fun hinside => ?_, fun hpanic => ?_,
    fun hpanic hleft => ?_, fun error hclosed hanswer => ?_, fun answer hclosed hanswer => ?_⟩
  · rw [← hwriter]
    rfl
  · -- the last moment of rest cannot be a later one, so it is the first
    have hfirst := program.moments_head start
    rw [hsplit] at hfirst hinside
    cases earlier with
    | nil => exact hwriter.trans (Option.some.inj hfirst)
    | cons first earlier => exact absurd hlast (hinside last (List.mem_append_right _ List.mem_cons_self))
  · rw [Writer.run_eq, hpanic]
    rfl
  · rw [Writer.run_eq, Writer.settle_open hpanic hleft]
  · rw [Writer.run_eq, hanswer, (Writer.settle_rest hclosed).1]
  · rw [Writer.run_eq, hanswer, (Writer.settle_rest hclosed).2]

namespace Writer

variable {writer : Writer}

theorem serve_rest (hrest : writer.database.group = none) (programs : List Program) :
    (writer.serve programs).2.database.group = none := by
  induction programs generalizing writer with
  | nil => exact hrest
  | cons program rest ih => exact ih (run_rest program.run writer)

/-- Whatever is submitted, every program finds the writer at rest and leaves no trace of a group that it did not end. -/
theorem serve_recovers (hrest : writer.database.group = none) (before : List Program) (program : Program)
    (after : List Program) :
    program.Recovers (writer.serve before).2 ∧
      writer.serve (before ++ program :: after) =
        ((writer.serve before).1 ++ ((writer.serve before).2.serve (program :: after)).1,
          ((writer.serve before).2.serve (program :: after)).2) :=
  ⟨program.recovers (serve_rest hrest before), serve_append writer before (program :: after)⟩

end Writer

/-- A program that panics inside two levels, one of them begun by hand, after it has written there. -/
def Program.sunk : Program :=
  .transact
    (.operate .begin ⟨trivial, nofun⟩ fun _ =>
      .operate (.write (.insertDocument "d")) ⟨trivial, nofun⟩ fun _ => .stop (.error .panic))
    .stop

theorem Writer.serve_recovers_sunk :
    (⟨{}, {}, { limit := 1 }, 0⟩ : Writer).database.group = none ∧
      Program.sunk.Recovers (Writer.serve [.sunk] ⟨{}, {}, { limit := 1 }, 0⟩).2 ∧
      Writer.serve [.sunk, .sunk, .stop (.ok .done)] ⟨{}, {}, { limit := 1 }, 0⟩ =
        ([.error (.invariantViolation .panicked), .error (.invariantViolation .panicked), .ok .done],
          ⟨{}, {}, { limit := 1 }, 0⟩) := by
  have hrest : (⟨{}, {}, { limit := 1 }, 0⟩ : Writer).database.group = none := rfl
  have hserved := serve_recovers hrest [.sunk] .sunk [.stop (.ok .done)]
  exact ⟨hrest, hserved.1, hserved.2⟩

end RevisionForest
