import RevisionForest.Proofs.Atomicity
/-!
# Levels make no difference to what succeeds

An action that succeeds does the same in any number of levels, since everything it works on is the same there: the tables and blobs as they are, and the feed as it will be when the open group has committed (`Writer.Alike`). What it leaves different is only what the group has staged (`Database.Steady`). So the levels around and between commands that succeed can be taken away one by one (`Action.Matches.level`), and a group of any nesting does what its mutations do when they are submitted one after another (`Store.Attained.transact_transparent`).
-/

namespace RevisionForest

/-- Writers that hold the same, whatever levels are open. -/
structure Writer.Alike (first second : Writer) : Prop where
  holdings : first.holdings = second.holdings
  clock : first.clock = second.clock

/-- The levels are the same, and no level inside has failed meanwhile; only more may be staged. -/
def Database.Steady (before after : Database) : Prop :=
  ∃ staged, after.group = before.group.map fun group => { group with staged }

namespace Database

variable {first second third : Database}

theorem Steady.of_eq (h : second.group = first.group) : first.Steady second := by
  unfold Steady
  cases hgroup : first.group with
  | none => exact ⟨[], h.trans hgroup⟩
  | some group => exact ⟨group.staged, h.trans hgroup⟩

theorem Steady.trans (h : first.Steady second) (h' : second.Steady third) : first.Steady third := by
  obtain ⟨staged, hsecond⟩ := h
  obtain ⟨staged', hthird⟩ := h'
  refine ⟨staged', ?_⟩
  rw [hthird, hsecond, Option.map_map]
  rfl

theorem Steady.none_iff (h : first.Steady second) : first.group = none ↔ second.group = none := by
  obtain ⟨staged, hsecond⟩ := h
  rw [hsecond, Option.map_eq_none_iff]

theorem Steady.intact_iff (h : first.Steady second) : first.Intact ↔ second.Intact := by
  obtain ⟨staged, hsecond⟩ := h
  unfold Intact
  rw [hsecond]
  cases first.group <;> simp

end Database

namespace Writer

variable {first second third : Writer}

theorem Alike.trans (h : first.Alike second) (h' : second.Alike third) : first.Alike third :=
  ⟨h.holdings.trans h'.holdings, h.clock.trans h'.clock⟩

theorem Alike.eq (h : first.Alike second) (hfirst : first.database.group = none)
    (hsecond : second.database.group = none) : first = second := by
  obtain ⟨hholdings, hclock⟩ := h
  rw [holdings_of_rest hfirst, holdings_of_rest hsecond] at hholdings
  obtain ⟨⟨tables, group⟩, blobs, feed, clock⟩ := first
  obtain ⟨⟨tables', group'⟩, blobs', feed', clock'⟩ := second
  obtain ⟨rfl, rfl, rfl⟩ := Holdings.mk.inj hholdings
  obtain rfl : group = none := hfirst
  obtain rfl : group' = none := hsecond
  obtain rfl : clock = clock' := hclock
  rfl

theorem alike_opened (writer : Writer) : writer.Alike (Action.opened writer) :=
  ⟨(Action.holdings_opened writer).symm, rfl⟩

end Writer

namespace Action

variable {α β γ δ : Type} {rel : α → β → Prop} {rel' : γ → δ → Prop} {action : Action α} {action' : Action β}
  {first second before inside after : Writer}

/-- Whenever one action returns from one writer, another returns from another writer, with a value related to the first, and leaves its levels as they were and the writers alike. -/
def Matches (rel : α → β → Prop) (action : Action α) (action' : Action β) (first second : Writer) : Prop :=
  ∀ value after, action first = .ok value after → first.database.Steady after.database ∧
    ∃ value' after', action' second = .ok value' after' ∧ second.database.Steady after'.database ∧
      rel value value' ∧ after.Alike after'

namespace Matches

theorem pure {value : α} {value' : β} (hvalues : rel value value') (halike : first.Alike second) :
    Matches rel (Pure.pure value) (Pure.pure value') first second := by
  intro found after h
  obtain ⟨rfl, rfl⟩ := ok_pure_iff.mp h
  exact ⟨.of_eq rfl, value', second, rfl, .of_eq rfl, hvalues, halike⟩

theorem bind {next : α → Action γ} {next' : β → Action δ} (h : Matches rel action action' first second)
    (hnext : ∀ value value' between between', rel value value' → between.Alike between' →
      Matches rel' (next value) (next' value') between between') :
    Matches rel' (action >>= next) (action' >>= next') first second := by
  intro result after hresult
  obtain ⟨value, between, hfirst, hlast⟩ := ok_bind_iff.mp hresult
  obtain ⟨hsteady, value', between', hfirst', hsteady', hvalues, halike⟩ := h value between hfirst
  obtain ⟨hlater, result', after', hlast', hlater', hresults, halike'⟩ :=
    hnext value value' between between' hvalues halike result after hlast
  exact ⟨hsteady.trans hlater, result', after', ok_bind_iff.mpr ⟨value', between', hfirst', hlast'⟩,
    hsteady'.trans hlater', hresults, halike'⟩

theorem check {condition : Except StoreError Unit} {next : Unit → Action α} {next' : Unit → Action β}
    (h : Matches rel (next ()) (next' ()) first second) :
    Matches rel (check condition >>= next) (check condition >>= next') first second := by
  cases condition with
  | ok => exact h
  | error error =>
    intro value after hresult
    nomatch hresult

theorem guard {condition : Prop} [Decidable condition] {error : StoreError} {next : PUnit → Action α}
    {next' : PUnit → Action β} (h : Matches rel (next ⟨⟩) (next' ⟨⟩) first second) :
    Matches rel (if condition then fail error >>= next else next ⟨⟩) (if condition then fail error >>= next' else next' ⟨⟩)
      first second := by
  by_cases hcondition : condition
  · rw [if_pos hcondition]
    intro value after hresult
    nomatch hresult
  · rw [if_neg hcondition, if_neg hcondition]
    exact h

theorem tick (halike : first.Alike second) : Matches Eq tick tick first second := by
  intro value after h
  obtain ⟨-, rfl⟩ := EStateM.Result.ok.inj h
  exact ⟨.of_eq rfl, _, _, rfl, .of_eq rfl, rfl, ⟨halike.holdings, congrArg (· + 1) halike.clock⟩⟩

theorem steady_install (writer : Writer) (draft : Draft) : writer.database.Steady (install writer draft).database := by
  unfold Database.Steady install Database.stage
  cases writer.database.group with
  | none => exact ⟨[], rfl⟩
  | some group => exact ⟨group.staged ++ draft.events, rfl⟩

theorem edit (work : Edit α) (halike : first.Alike second) (hfirst : first.database.group ≠ none)
    (hsecond : second.database.group ≠ none) : Matches Eq (edit work) (edit work) first second := by
  intro value after h
  obtain ⟨draft, hwork, rfl⟩ := edit_ok h
  obtain ⟨htables, hblobs, hfeed⟩ := Holdings.mk.inj halike.holdings
  have hwork' : work ⟨second.database.tables, second.blobs, []⟩ = .ok value draft := by
    rw [← htables, ← hblobs, hwork]
  refine ⟨steady_install first draft, value, install second draft, ?_, steady_install second draft, rfl, ?_, ?_⟩
  · unfold Action.edit
    rw [hwork']
  · rw [holdings_install hfirst, holdings_install hsecond, halike.holdings]
  · exact halike.clock

end Matches

/-! ### Taking levels away -/

theorem complete_steady (h : (opened before).database.Steady inside.database) :
    ∃ after, complete inside = .ok () after ∧ before.database.Steady after.database ∧ after.Alike inside := by
  obtain ⟨staged, hinside⟩ := h
  cases hbefore : before.database.group with
  | none =>
    have hgroup : inside.database.group = some ⟨some before.database.tables, false, [], true, staged⟩ := by
      rw [hinside]
      simp only [opened, hbefore, Option.map_some]
    refine ⟨_, complete_unbroken hgroup rfl rfl rfl, .of_eq hbefore.symm, ?_, rfl⟩
    simp only [Writer.holdings, Database.staged, hgroup, Feed.publish_nil]
  | some old =>
    have hgroup : inside.database.group
        = some { old with marked := false, outer := old.marked :: old.outer, staged } := by
      rw [hinside]
      simp only [opened, hbefore, Option.map_some]
    refine ⟨_, complete_inner hgroup rfl, ⟨staged, ?_⟩, ?_, rfl⟩
    · simp only [hbefore, Option.map_some]
    · simp only [Writer.holdings, Database.staged, hgroup]

theorem Matches.level (h : Matches rel action action' first (opened second)) :
    Matches rel action (transact action') first second := by
  intro value after hresult
  obtain ⟨hsteady, value', inside, hinside, hsteady', hvalues, halike⟩ := h value after hresult
  obtain ⟨outside, hcomplete, hsame, halike'⟩ := complete_steady hsteady'
  refine ⟨hsteady, value', outside, ?_, hsame, hvalues, ?_⟩
  · rw [transact_eq, hinside]
    simp only [hcomplete]
  · exact halike.trans ⟨halike'.holdings.symm, halike'.clock.symm⟩

theorem Matches.of_level (h : Matches rel action action' (opened first) second) :
    Matches rel (transact action) action' first second := by
  intro value after hresult
  rw [transact_eq] at hresult
  cases hinside : action (opened first) with
  | error halt inside =>
    rw [hinside] at hresult
    cases halt <;> nomatch hresult
  | ok found inside =>
    obtain ⟨hsteady, value', after', hresult', hsteady', hvalues, halike⟩ := h found inside hinside
    obtain ⟨outside, hcomplete, hsame, halike'⟩ := complete_steady hsteady
    rw [hinside] at hresult
    simp only [hcomplete] at hresult
    obtain ⟨rfl, rfl⟩ := EStateM.Result.ok.inj hresult
    exact ⟨hsame, value', after', hresult', hsteady', hvalues, halike'.trans halike⟩

theorem alike_levels (halike : first.Alike second) : (opened first).Alike (opened second) :=
  ⟨((holdings_opened first).trans halike.holdings).trans (holdings_opened second).symm, halike.clock⟩

theorem Matches.transact_edit (work : Edit α) (halike : first.Alike second) :
    Matches Eq (transact (Action.edit work)) (transact (Action.edit work)) first second :=
  .of_level (.level (.edit work (alike_levels halike) (group_opened first) (group_opened second)))

/-! ### Mutations -/

variable {doc : String} {body : Bytes} {attachments : List NewAttachment}

theorem createAs_matches (halike : first.Alike second) :
    Matches Eq (createAs doc body attachments) (createAs doc body attachments) first second :=
  .check (.guard (.transact_edit _ halike))

theorem create_matches (doc : Option String) (halike : first.Alike second) :
    Matches Eq (create doc body attachments) (create doc body attachments) first second := by
  cases doc with
  | some doc => exact createAs_matches halike
  | none =>
    -- Alike writers have made up equally many ids, so both make up the same one now.
    have hmade : Matches Eq (createAs (idAt first.clock) body attachments >>= fun revision => tick >>= fun _ =>
        Pure.pure revision) (createAs (idAt first.clock) body attachments >>= fun revision => tick >>= fun _ =>
        Pure.pure revision) first second :=
      .bind (createAs_matches halike) fun revision revision' _ _ hrevision hbetween =>
        .bind (.tick hbetween) fun _ _ _ _ _ hlast => .pure hrevision hlast
    intro value after hresult
    rw [create_none] at hresult ⊢
    rw [← halike.clock]
    exact hmade value after hresult

theorem deleteEach_matches (revs : List RevId) (halike : first.Alike second) :
    Matches Eq (deleteEach doc revs) (deleteEach doc revs) first second := by
  induction revs generalizing first second with
  | nil => exact .pure rfl halike
  | cons rev rest ih =>
    exact .bind (.transact_edit _ halike) fun tombstone _ _ _ hfirst hbetween =>
      .bind (ih hbetween) fun tombstones _ _ _ hrest hlast => .pure (congrArg₂ List.cons hfirst hrest) hlast

theorem deleteAllLeaves_matches (halike : first.Alike second) :
    Matches Eq (deleteAllLeaves doc) (deleteAllLeaves doc) first second := by
  have hleaves : Matches Eq (edit (Edit.liveLeaves doc)) (edit (Edit.liveLeaves doc)) (opened first) (opened second) :=
    .edit _ (alike_levels halike) (group_opened first) (group_opened second)
  refine .of_level (.level (.bind hleaves fun revs revs' _ _ hrevs hbetween => ?_))
  rw [← hrevs]
  exact deleteEach_matches revs hbetween

theorem graft_matches {item : Graft} (halike : first.Alike second) : Matches Eq (graft item) (graft item) first second :=
  .check (.transact_edit _ halike)

end Action

open RevisionForest.Action

/-- A mutation that succeeds does the same whatever levels are open. -/
theorem Mutation.run_matches (mutation : Mutation) {first second : Writer} (halike : first.Alike second) :
    Matches Eq mutation.run mutation.run first second := by
  cases mutation with
  | create doc body attachments =>
    exact .bind (create_matches doc halike) fun _ _ _ _ hvalue hlast => .pure (congrArg _ hvalue) hlast
  | update doc expected body changes =>
    exact .bind (.check (.check (.transact_edit _ halike))) fun _ _ _ _ hvalue hlast => .pure (congrArg _ hvalue) hlast
  | delete doc rev => exact .bind (.transact_edit _ halike) fun _ _ _ _ hvalue hlast => .pure (congrArg _ hvalue) hlast
  | deleteAllLeaves doc =>
    exact .bind (deleteAllLeaves_matches halike) fun _ _ _ _ hvalue hlast => .pure (congrArg _ hvalue) hlast
  | graft item =>
    refine .bind (graft_matches halike) fun found found' _ _ hvalue hlast => ?_
    obtain rfl : found = found' := hvalue
    cases found with
    | some revision => exact .pure rfl hlast
    | none => exact .pure rfl hlast

/-! ### Groups of mutations -/

mutual

/-- Mutations and groups of them, in whatever nesting. -/
def Command.Mutating : Command → Prop
  | .mutate _ => True
  | .transact script => Command.AllMutating script
  | _ => False

def Command.AllMutating : List Command → Prop
  | [] => True
  | command :: rest => command.Mutating ∧ Command.AllMutating rest

end

mutual

/-- The mutations of a command without the levels around them, in order. -/
def Command.mutations : Command → List Mutation
  | .mutate mutation => [mutation]
  | .transact script => Command.mutationsAll script
  | _ => []

def Command.mutationsAll : List Command → List Mutation
  | [] => []
  | command :: rest => command.mutations ++ Command.mutationsAll rest

end

mutual

/-- What the mutations of a command have answered, without the levels around them, in order. -/
def Answer.outcomes : Answer → List Outcome
  | .outcome made => [made]
  | .script answers => Answer.outcomesAll answers
  | _ => []

def Answer.outcomesAll : List Answer → List Outcome
  | [] => []
  | answer :: rest => answer.outcomes ++ Answer.outcomesAll rest

end

/-- Run mutations one after another; the first error ends them. -/
def Mutation.runEach : List Mutation → Action (List Outcome)
  | [] => return []
  | mutation :: rest => do
    let outcome ← mutation.run
    return outcome :: (← Mutation.runEach rest)

theorem Mutation.runEach_append (early late : List Mutation) :
    Mutation.runEach (early ++ late) = do
      let outcomes ← Mutation.runEach early
      return outcomes ++ (← Mutation.runEach late) := by
  induction early with
  | nil => simp [Mutation.runEach]
  | cons mutation rest ih => simp [Mutation.runEach, ih]

mutual

/-- What a command does in its levels its mutations do one after another. -/
theorem Command.run_transparent : ∀ command : Command, command.Mutating → ∀ {first second : Writer}, first.Alike second →
    Matches (fun outcomes answer => answer.outcomes = outcomes) (Mutation.runEach command.mutations) command.run
      first second
  | .mutate mutation, _, first, second, halike => by
    have hsingle : Mutation.runEach (Command.mutations (.mutate mutation)) = mutation.run >>= fun outcome => pure [outcome] := by
      simp [Command.mutations, Mutation.runEach]
    rw [hsingle, Command.run]
    refine .bind (mutation.run_matches halike) fun outcome outcome' _ _ houtcome hlast => .pure ?_ hlast
    rw [Answer.outcomes, houtcome]
  | .transact script, hmutating, first, second, halike => by
    have hinside := Command.runAll_transparent script hmutating (halike.trans (Writer.alike_opened second))
    rw [Command.mutations, Command.run, ← bind_pure (Mutation.runEach _)]
    refine .bind (.level hinside) fun outcomes answers _ _ hanswers hlast => .pure ?_ hlast
    rw [Answer.outcomes, hanswers]
  | .operate _, hmutating, _, _, _ | .putBlob _, hmutating, _, _, _ | .fail _, hmutating, _, _, _
  | .panic, hmutating, _, _, _ | .attempt _, hmutating, _, _, _ => hmutating.elim

theorem Command.runAll_transparent : ∀ script : List Command, Command.AllMutating script → ∀ {first second : Writer},
    first.Alike second →
    Matches (fun outcomes answers => Answer.outcomesAll answers = outcomes)
      (Mutation.runEach (Command.mutationsAll script)) (Command.runAll script) first second
  | [], _, _, _, halike => .pure rfl halike
  | command :: rest, hmutating, first, second, halike => by
    rw [Command.mutationsAll, Mutation.runEach_append, Command.runAll]
    refine .bind (command.run_transparent hmutating.1 halike) fun outcomes answer _ _ hanswer hbetween => ?_
    refine .bind (Command.runAll_transparent rest hmutating.2 hbetween) fun later answers _ _ hanswers hlast => .pure ?_ hlast
    rw [Answer.outcomesAll, hanswer, hanswers]

end

theorem Command.runAll_append (early late : List Command) :
    Command.runAll (early ++ late) = do
      let answers ← Command.runAll early
      return answers ++ (← Command.runAll late) := by
  induction early with
  | nil => simp [Command.runAll]
  | cons command rest ih => simp [Command.runAll, ih]

mutual

theorem Command.Mutating.plain : ∀ {command : Command}, command.Mutating → command.Plain
  | .mutate _, _ => trivial
  | .transact _, h => Command.AllMutating.plain h
  | .operate _, h | .putBlob _, h | .fail _, h | .panic, h | .attempt _, h => h.elim

theorem Command.AllMutating.plain : ∀ {script : List Command}, Command.AllMutating script → Command.AllPlain script
  | [], _ => trivial
  | _ :: _, h => ⟨h.1.plain, Command.AllMutating.plain h.2⟩

end

theorem Command.allPlain_append {early late : List Command} (h : Command.AllPlain early) (h' : Command.AllPlain late) :
    Command.AllPlain (early ++ late) := by
  induction early with
  | nil => exact h'
  | cons command rest ih => exact ⟨h.1, ih h.2⟩

namespace Store

variable {store after : Store} {outcomes : List Outcome} {script : List Command} {error : StoreError}

theorem submitEach_runs {mutations : List Mutation} (hopen : store.closed = false) (hrest : store.AtRest)
    (h : submitEach (mutations.map .mutate) store = .ok (outcomes.map fun outcome => .ok (.outcome outcome)) after) :
    ∃ writer, Mutation.runEach mutations store.writer = .ok outcomes writer ∧ writer.database.group = none ∧
      { store with writer } = after := by
  induction mutations generalizing store outcomes with
  | nil =>
    obtain ⟨houtcomes, rfl⟩ := ok_pure_iff.mp h
    obtain rfl := List.map_eq_nil_iff.mp houtcomes.symm
    exact ⟨store.writer, rfl, hrest, rfl⟩
  | cons mutation rest ih =>
    obtain ⟨result, between, hfirst, h⟩ := ok_bind_iff.mp h
    obtain ⟨later, _, hlater, hvalue⟩ := ok_bind_iff.mp h
    obtain ⟨houtcomes, rfl⟩ := ok_pure_iff.mp hvalue
    obtain ⟨outcome, outcomes, rfl, rfl, rfl⟩ := List.map_eq_cons_iff.mp houtcomes.symm
    obtain ⟨-, _, hrun, hgroup, rfl⟩ := execute_ok_iff.mp (submit_ok_iff.mp hfirst)
    obtain ⟨made, writer, hmade, hanswered⟩ := ok_bind_iff.mp hrun
    obtain ⟨hanswer, rfl⟩ := ok_pure_iff.mp hanswered
    obtain rfl := Answer.outcome.inj hanswer
    have hopen' : Store.closed { store with writer } = false := hopen
    obtain ⟨last, hlast, hgroup', rfl⟩ := ih hopen' hgroup hlater
    refine ⟨last, ?_, hgroup', rfl⟩
    exact ok_bind_iff.mpr ⟨_, _, hmade, ok_bind_iff.mpr ⟨_, _, hlast, rfl⟩⟩

theorem exists_outcomes_of_submitEach {mutations : List Mutation} {results : List (Except StoreError Answer)}
    (h : submitEach (mutations.map .mutate) store = .ok results after) (hall : ∀ result ∈ results, result.isOk = true) :
    ∃ outcomes : List Outcome, results = outcomes.map fun outcome => .ok (.outcome outcome) := by
  induction mutations generalizing store results with
  | nil =>
    obtain ⟨rfl, -⟩ := ok_pure_iff.mp h
    exact ⟨[], rfl⟩
  | cons mutation rest ih =>
    obtain ⟨result, between, hfirst, h⟩ := ok_bind_iff.mp h
    obtain ⟨later, _, hlater, hvalue⟩ := ok_bind_iff.mp h
    obtain ⟨rfl, rfl⟩ := ok_pure_iff.mp hvalue
    obtain ⟨hok, hlast⟩ := List.forall_mem_cons.mp hall
    obtain ⟨outcomes, rfl⟩ := ih hlater hlast
    cases result with
    | error error => exact absurd hok Bool.false_ne_true
    | ok answer =>
      obtain ⟨-, _, hrun, -, -⟩ := execute_ok_iff.mp (submit_ok_iff.mp hfirst)
      obtain ⟨outcome, _, -, hanswered⟩ := ok_bind_iff.mp hrun
      obtain ⟨rfl, -⟩ := ok_pure_iff.mp hanswered
      exact ⟨outcome :: outcomes, rfl⟩

/-- Mutations that all succeed one after another do the same in a group with any levels between them, and nothing has happened if the group fails after all of them. -/
theorem Attained.transact_transparent (h : store.Attained) (hopen : store.closed = false)
    (hmutating : Command.AllMutating script)
    (heach : submitEach ((Command.mutationsAll script).map .mutate) store
      = .ok (outcomes.map fun outcome => .ok (.outcome outcome)) after) :
    (∃ answers, submit (.transact script) store = .ok (.ok (.script answers)) after ∧
      Answer.outcomesAll answers = outcomes) ∧
    ∀ error, ∃ undone, submit (.transact (script ++ [.fail error])) store = .ok (.error error) undone ∧
      store.Untouched undone := by
  have hrest : store.writer.database.group = none := h.atRest
  obtain ⟨last, hrun, hgroup, rfl⟩ := submitEach_runs hopen hrest heach
  have hinside : Matches (fun outcomes answers => Answer.outcomesAll answers = outcomes)
      (Mutation.runEach (Command.mutationsAll script)) (Command.runAll script) store.writer (Action.opened store.writer) :=
    Command.runAll_transparent script hmutating (Writer.alike_opened store.writer)
  constructor
  · obtain ⟨-, answers, writer, hanswers, hsteady, houtcomes, halike⟩ := hinside.level outcomes last hrun
    have hwriter : writer.database.group = none := hsteady.none_iff.mp hrest
    obtain rfl := halike.eq hgroup hwriter
    refine ⟨answers, ?_, houtcomes⟩
    exact submit_ok_iff.mpr (execute_ok_iff.mpr ⟨hopen, last, ok_bind_iff.mpr ⟨_, _, hanswers, rfl⟩, hgroup, rfl⟩)
  · -- All commands of the script return, so the error at its end is the one that the group fails with.
    intro error
    obtain ⟨-, answers, inside, hanswers, -⟩ := hinside outcomes last hrun
    have hfails : Command.runAll (script ++ [.fail error]) (Action.opened store.writer) = .error (.fault error) inside := by
      rw [Command.runAll_append, bind_of_ok hanswers]
      rfl
    have hgroup : (Command.transact (script ++ [.fail error])).run store.writer = .error (.fault error) (Action.close inside) := by
      simp only [Command.run, bind, EStateM.bind, transact_eq, hfails]
    have hplain : Command.AllPlain (script ++ [.fail error]) :=
      Command.allPlain_append hmutating.plain ⟨trivial, trivial⟩
    have hends := Command.group_ends covers_any hplain store.writer (Writer.anchored_of_rest hrest)
    have hclosed : (Action.close inside).database.group = none := by
      unfold EndsAt at hends
      rw [hgroup] at hends
      exact hends.levels.none_iff.mp hrest
    have hanswered := execute_of_fault hopen hgroup hclosed
    exact ⟨_, submit_error_iff.mpr hanswered, execute_untouched hrest hends hanswered⟩

/-- A revision is merged, and inside a level of its own deleted before another document is created a level deeper. -/
theorem transact_transparent_levels :
    let root : RevId := ⟨1, "a", by decide, by decide⟩
    let script : List Command :=
      [.mutate (.graft { doc := "d", history := [root] }),
        .transact [.mutate (.delete "d" root), .transact [.mutate (.create (some "e") Body.empty [])]]]
    ∃ outcomes after answers,
      submitEach ((Command.mutationsAll script).map .mutate) (new {})
        = .ok (outcomes.map fun outcome => .ok (.outcome outcome)) after ∧
      submit (.transact script) (new {}) = .ok (.ok (.script answers)) after ∧
      Answer.outcomesAll answers = outcomes ∧ outcomes.length = 3 := by
  intro root script
  have hfacts : ((submitEach ((Command.mutationsAll script).map .mutate)).run' (new {})).any
      (fun results => results.length = 3 && results.all Except.isOk) = true := by decide +kernel
  cases hrun : submitEach ((Command.mutationsAll script).map .mutate) (new {}) with
  | error error after =>
    rw [run'_of_error hrun] at hfacts
    exact absurd hfacts Bool.false_ne_true
  | ok results after =>
    rw [run'_of_ok hrun] at hfacts
    simp only [Option.any_some, Bool.and_eq_true, decide_eq_true_eq, List.all_eq_true] at hfacts
    obtain ⟨outcomes, rfl⟩ := exists_outcomes_of_submitEach hrun hfacts.2
    have hmutating : Command.AllMutating script := ⟨trivial, ⟨trivial, ⟨trivial, trivial⟩, trivial⟩, trivial⟩
    obtain ⟨⟨answers, hsubmit, houtcomes⟩, -⟩ := (Attained.opened {} {}).transact_transparent rfl hmutating hrun
    exact ⟨outcomes, after, answers, rfl, hsubmit, houtcomes, (List.length_map _).symm.trans hfacts.1⟩

end Store

end RevisionForest
