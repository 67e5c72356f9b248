import RevisionForest.Proofs.Batches
import RevisionForest.Proofs.Locals
import RevisionForest.Proofs.LostUpdate
/-!
# A graft counts once

A graft that was taken leaves its revision known (`Command.run_took`, `Store.Takes.known`), and a revision once known stays known whatever is asked of the store afterwards (`Store.Onward.preserved`). To merge what is known writes nothing: no document, no revision, no blob and no event, inside a group as well as alone (`Action.graft_known`). So a graft that was taken and committed once is answered as already present for ever after, and leaves the whole store as it is (`Store.Onward.graft_again`).

That a graft in a group was committed can be told from the answers: a group that answers has committed its work, and a level that fails takes the answers of its commands with it (`Command.Took`).
-/

namespace RevisionForest

open Tables

/-- A graft can be asked for, and its revision is known. -/
def Graft.KnownIn (item : Graft) (tables : Tables) : Prop :=
  item.check = .ok () ∧ ∃ rev, item.history.getLast? = some rev ∧ tables.Knows item.doc rev

theorem Graft.KnownIn.mono {item : Graft} {before after : Tables} (h : item.KnownIn before)
    (hextends : before.Extends after) : item.KnownIn after := by
  obtain ⟨hcheck, rev, hrev, hknown⟩ := h
  exact ⟨hcheck, rev, hrev, hextends.knows hknown⟩

namespace Action

variable {writer after : Writer} {item : Graft}

theorem transact_edit_idle {α : Type} {work : Edit α} {value : α}
    (h : work ⟨writer.database.tables, writer.blobs, []⟩ = .ok value ⟨writer.database.tables, writer.blobs, []⟩) :
    transact (edit work) writer = .ok value writer := by
  rcases writer with ⟨⟨tables, group⟩, blobs, feed, clock⟩
  cases group with
  | none => exact transact_edit_of_ok rfl h
  | some group =>
    let inside : Group := { group with marked := false, outer := group.marked :: group.outer }
    have hedit : edit work (opened ⟨⟨tables, some group⟩, blobs, feed, clock⟩)
        = .ok value ⟨⟨tables, some inside⟩, blobs, feed, clock⟩ := by
      simp only [Action.edit, opened, h, install, Database.stage, Option.map_some, List.append_nil, inside]
    have hinside : (⟨⟨tables, some inside⟩, blobs, feed, clock⟩ : Writer).database.group = some inside := rfl
    simp only [transact_eq, hedit, complete_inner hinside rfl, inside]

theorem graft_known (h : item.KnownIn writer.database.tables) : graft item writer = .ok none writer := by
  obtain ⟨hcheck, rev, hrev, hknown⟩ := h
  have hlevel : transact (edit (Edit.graft item)) writer = .ok none writer :=
    transact_edit_idle (Edit.graft_known hrev hknown)
  exact ok_bind_iff.mpr ⟨(), writer, check_ok_iff.mpr ⟨hcheck, rfl⟩, hlevel⟩

theorem run_graft_known (h : item.KnownIn writer.database.tables) :
    (Mutation.graft item).run writer = .ok .alreadyPresent writer :=
  bind_of_ok (graft_known h)

theorem graft_knownIn {found : Option Revision} (healthy : writer.database.tables.Healthy)
    (h : graft item writer = .ok found after) : item.KnownIn after.database.tables := by
  obtain ⟨hcheck, draft, hwork, htables⟩ := graft_ok h
  have hrev := List.getLast?_eq_some_getLast (Graft.check_ok_iff.mp hcheck).2.1
  rw [htables]
  exact ⟨hcheck, _, hrev, Edit.graft_knows healthy hcheck hrev hwork⟩

end Action

/-! ### Commands -/

mutual

/-- A command, given its answer, has taken a graft: one inside it was answered and not undone. -/
def Command.Took (item : Graft) : Command → Answer → Prop
  | .mutate mutation, .outcome _ => mutation = .graft item
  | .attempt command, answer => command.Took item answer
  | .transact script, .script answers => Command.AnyTook item script answers
  | _, _ => False

def Command.AnyTook (item : Graft) : List Command → List Answer → Prop
  | command :: rest, answer :: answers => command.Took item answer ∨ Command.AnyTook item rest answers
  | _, _ => False

end

theorem Command.not_took_failed {item : Graft} (error : StoreError) :
    ∀ command : Command, ¬command.Took item (.failed error)
  | .mutate _ | .operate _ | .putBlob _ | .fail _ | .panic | .transact _ => by simp [Command.Took]
  | .attempt command => by
    rw [Command.Took]
    exact Command.not_took_failed error command

mutual

/-- What a command has taken is known afterwards, unless the command is part of a failed group. -/
theorem Command.run_took {item : Graft} : ∀ (command : Command) {writer after : Writer} {answer : Answer},
    command.Plain → writer.database.Anchored → writer.database.tables.Healthy →
    command.run writer = .ok answer after → after.database.Intact → command.Took item answer →
    item.KnownIn after.database.tables
  | .mutate mutation, writer, after, answer, hplain, hanchored, healthy, h, hintact, htook => by
    obtain ⟨outcome, _, hrun, hvalue⟩ := ok_bind_iff.mp h
    obtain ⟨rfl, rfl⟩ := ok_pure_iff.mp hvalue
    rw [Command.Took] at htook
    rw [htook] at hrun
    obtain ⟨found, between, hgraft, hlast⟩ := ok_bind_iff.mp hrun
    have hknown := Action.graft_knownIn healthy hgraft
    cases found with
    | none =>
      obtain ⟨-, rfl⟩ := ok_pure_iff.mp hlast
      exact hknown
    | some revision =>
      obtain ⟨-, rfl⟩ := ok_pure_iff.mp hlast
      exact hknown
  | .operate _, _, _, _, hplain, _, _, _, _, _ => hplain.elim
  | .putBlob _, _, _, _, _, _, _, _, _, htook => by simp [Command.Took] at htook
  | .fail _, _, _, _, _, _, _, _, _, htook => by simp [Command.Took] at htook
  | .panic, _, _, _, _, _, _, _, _, htook => by simp [Command.Took] at htook
  | .attempt command, writer, after, answer, hplain, hanchored, healthy, h, hintact, htook => by
    simp only [Command.run, Action.attempt] at h
    rw [Command.Took] at htook
    cases hrun : command.run writer with
    | ok found between =>
      rw [hrun] at h
      obtain ⟨rfl, rfl⟩ := EStateM.Result.ok.inj h
      exact Command.run_took command hplain hanchored healthy hrun hintact htook
    | error halt between =>
      rw [hrun] at h
      cases halt with
      | panic => nomatch h
      | fault error =>
        obtain ⟨rfl, rfl⟩ := EStateM.Result.ok.inj h
        exact absurd htook (Command.not_took_failed error command)
  | .transact script, writer, after, answer, hplain, hanchored, healthy, h, hintact, htook => by
    obtain ⟨answers, closed, hrun, hvalue⟩ := ok_bind_iff.mp h
    obtain ⟨rfl, rfl⟩ := ok_pure_iff.mp hvalue
    obtain ⟨inside, hinside, hsame, hintact'⟩ := Action.transact_ok
      ((Command.runAll_follows covers_sound script hplain).strives _ (Action.anchored_opened hanchored)) hrun
    have hknown := Command.runAll_took script hplain (Action.anchored_opened hanchored) healthy hinside
      (hintact' hintact) (by rwa [Command.Took] at htook)
    have hcommitted : closed.database.tables = inside.database.tables := congrArg Holdings.tables hsame
    rw [hcommitted]
    exact hknown

theorem Command.runAll_took {item : Graft} : ∀ (script : List Command) {writer after : Writer} {answers : List Answer},
    Command.AllPlain script → writer.database.Anchored → writer.database.tables.Healthy →
    Command.runAll script writer = .ok answers after → after.database.Intact → Command.AnyTook item script answers →
    item.KnownIn after.database.tables
  | [], _, _, _, _, _, _, _, _, htook => by simp [Command.AnyTook] at htook
  | command :: rest, writer, after, answers, hplain, hanchored, healthy, h, hintact, htook => by
    obtain ⟨answer, between, hfirst, h⟩ := ok_bind_iff.mp h
    obtain ⟨later, _, hrest, hvalue⟩ := ok_bind_iff.mp h
    obtain ⟨rfl, rfl⟩ := ok_pure_iff.mp hvalue
    obtain ⟨hlevels, hsound⟩ := Command.run_sound hplain.1 hanchored healthy hfirst
    have hlater := (Command.runAll_follows covers_sound rest hplain.2 between (hlevels.anchored hanchored)).passed hrest
    have hbetween := hlater.levels.intact hintact
    rw [Command.AnyTook] at htook
    rcases htook with htook | htook
    · have hknown := Command.run_took command hplain.1 hanchored healthy hfirst hbetween htook
      exact hknown.mono (hlater.holdings hintact (hsound hbetween).1).2
    · exact Command.runAll_took rest hplain.2 (hlevels.anchored hanchored) (hsound hbetween).1 hrest hintact htook

end

theorem Writer.run_cons {writer between : Writer} {command : Command} {answer : Answer} (rest : List Command)
    (h : command.run writer = .ok answer between) :
    (writer.run (Command.runAll (command :: rest))).2 = (between.run (Command.runAll rest)).2 := by
  simp only [Writer.run, Command.runAll, bind_of_ok h]
  cases hrun : Command.runAll rest between with
  | ok answers after =>
    simp only [bind_of_ok hrun]
    exact Store.settle_snd (.ok answers) (fun answers => .ok (answer :: answers)) (fun _ => ⟨_, rfl⟩) after
  | error halt after => simp only [error_bind_iff.mpr (.inl hrun)]

theorem Script.run_took {item : Graft} {script : Script} {writer : Writer} (hplain : Command.AllPlain script)
    (hrest : writer.database.group = none) (healthy : writer.database.tables.Healthy)
    (htook : Command.AnyTook item script (script.run writer).1.1) :
    item.KnownIn (writer.run (Command.runAll script)).2.database.tables := by
  induction script generalizing writer with
  | nil => simp [Command.AnyTook] at htook
  | cons command rest ih =>
    rw [Script.run] at htook
    cases hfirst : command.run writer with
    | error halt after =>
      rw [hfirst] at htook
      simp [Command.AnyTook] at htook
    | ok answer between =>
      rw [hfirst] at htook
      obtain ⟨hlevels, hsound⟩ :=
        Command.run_sound hplain.1 (Writer.anchored_of_rest hrest) healthy hfirst
      have hbetween : between.database.group = none := hlevels.none_iff.mp hrest
      obtain ⟨healthy', -⟩ := hsound (Writer.intact_of_rest hbetween)
      rw [Writer.run_cons rest hfirst]
      rcases htook with htook | htook
      · have hknown := Command.run_took command hplain.1 (Writer.anchored_of_rest hrest) healthy hfirst
          (Writer.intact_of_rest hbetween) htook
        obtain ⟨-, hlater⟩ := Writer.run_follows (Command.runAll_follows covers_sound rest hplain.2) hbetween
        exact hknown.mono (hlater healthy').2
      · exact ih hplain.2 hbetween healthy' htook

/-! ### Amid a group -/

/-- Where a writer can be amid the commands of a group: levels were opened and commands were answered. -/
inductive Writer.Within (start : Writer) : Writer → Prop
  | here : Within start start
  | opened {writer : Writer} (h : Within start writer) : Within start (Action.opened writer)
  | command {writer after : Writer} {command : Command} {answer : Answer} (hplain : command.Plain)
    (h : Within start writer) (hrun : command.run writer = .ok answer after) : Within start after

/-- As long as no level has failed, what mutations go along is gone along amid a group. -/
theorem Writer.Within.follows {R : Holdings → Holdings → Prop} (covers : Covers R) {start writer : Writer}
    (h : start.Within writer) (hrest : start.database.group = none) :
    writer.database.Anchored ∧ (writer.database.Intact → R start.holdings writer.holdings) := by
  induction h with
  | here => exact ⟨Writer.anchored_of_rest hrest, fun _ => covers.refl _ _ (.refl start.blobs)⟩
  | @opened writer _ ih =>
    refine ⟨Action.anchored_opened ih.1, fun hintact => ?_⟩
    rw [Action.holdings_opened]
    refine ih.2 fun group hgroup => ?_
    exact hintact { group with marked := false, outer := group.marked :: group.outer }
      (by simp only [Action.opened, hgroup])
  | @command writer after command answer hplain _ hrun ih =>
    have hpassed := (command.run_follows covers hplain writer ih.1).passed hrun
    exact ⟨hpassed.levels.anchored ih.1, fun hintact =>
      covers.trans (ih.2 (hpassed.levels.intact hintact)) (hpassed.holdings hintact)⟩

theorem Writer.Within.sound {start writer : Writer} (h : start.Within writer) (hrest : start.database.group = none)
    (healthy : start.database.tables.Healthy) (hintact : writer.database.Intact) :
    writer.database.tables.Healthy ∧ start.database.tables.Extends writer.database.tables :=
  (h.follows covers_sound hrest).2 hintact healthy

/-! ### Stores -/

namespace Store

variable {before taken later : Store} {item : Graft}

/-- Requests that took a graft and committed it: the graft alone, a command or a script with the graft anywhere inside, or a batch with it at any place. -/
inductive Takes (item : Graft) (before : Store) : Store → Prop
  | graft {found : Option Revision} {after : Store} (h : graft item before = .ok found after) : Takes item before after
  | command {command : Command} {answer : Answer} {after : Store} (hplain : command.Plain)
    (h : submit command before = .ok (.ok answer) after) (htook : command.Took item answer) : Takes item before after
  | script {script : Script} (hplain : Command.AllPlain script)
    (htook : Command.AnyTook item script (executeScript script before).1.1) :
    Takes item before (executeScript script before).2
  | graftAll {first rest : List Graft} {found : Option Revision} {between : Store}
    (h : Store.graft item (graftEach first before).2 = .ok found between) :
    Takes item before (stateAfter (graftAll (first ++ item :: rest)) before)

theorem Takes.attempted {first : Command} (hplain : first.Plain)
    (h : (match submit (.transact [first, .attempt (.transact [.mutate (.graft item)])]) before with
      | .ok (.ok (.script (_ :: .script (.outcome _ :: _) :: _))) _ => true
      | .ok (.ok _) _ | .ok (.error _) _ | .error _ _ => false) = true) :
    before.Takes item (stateAfter (submit (.transact [first, .attempt (.transact [.mutate (.graft item)])])) before) := by
  split at h
  · rename_i answer outcome inner rest after hsubmit
    rw [stateAfter_of_ok hsubmit]
    have hgroup : Command.Plain (.transact [first, .attempt (.transact [.mutate (.graft item)])]) :=
      ⟨hplain, ⟨trivial, trivial⟩, trivial⟩
    exact .command hgroup hsubmit (.inr (.inl (.inl rfl)))
  all_goals exact absurd h Bool.false_ne_true

theorem graft_took {found : Option Revision} {after : Store} (hrest : before.AtRest)
    (healthy : before.writer.database.tables.Healthy) (h : graft item before = .ok found after) :
    after.AtRest ∧ after.writer.database.tables.Healthy ∧ item.KnownIn after.writer.database.tables := by
  have hfollows := (Action.graft_ends (covers_sound.graft item)).follows covers_sound.toCourse
  obtain ⟨hafter, hsound⟩ := execute_follows covers_sound.toCourse hfollows hrest
  rw [stateAfter_of_ok (show execute (Action.graft item) before = .ok found after from h)] at hafter hsound
  obtain ⟨-, writer, hgraft, -, rfl⟩ := execute_ok_iff.mp h
  exact ⟨hafter, (hsound healthy).1, Action.graft_knownIn healthy hgraft⟩

theorem executeScript_answers (script : Script) (store : Store) :
    (executeScript script store).1.1 = if store.closed then [] else (script.run store.writer).1.1 := by
  unfold executeScript
  cases store.closed <;> rfl

theorem Takes.known (h : before.Takes item taken) (hrest : before.AtRest)
    (healthy : before.writer.database.tables.Healthy) :
    taken.AtRest ∧ taken.writer.database.tables.Healthy ∧ item.KnownIn taken.writer.database.tables := by
  cases h with
  | graft hgraft => exact graft_took hrest healthy hgraft
  | @command command answer _ hplain hsubmit htook =>
    have honward : before.Onward (stateAfter (submit command) before) := .command command hplain .start
    obtain ⟨hafter, healthy', -⟩ := honward.preserved hrest healthy
    rw [stateAfter_of_ok hsubmit] at hafter healthy'
    obtain ⟨-, writer, hrun, hgroup, rfl⟩ := execute_ok_iff.mp (submit_ok_iff.mp hsubmit)
    exact ⟨hafter, healthy', Command.run_took command hplain (Writer.anchored_of_rest hrest) healthy hrun
      (Writer.intact_of_rest hgroup) htook⟩
  | @script script hplain htook =>
    have honward : before.Onward (executeScript script before).2 := .script hplain .start
    obtain ⟨hafter, healthy', -⟩ := honward.preserved hrest healthy
    refine ⟨hafter, healthy', ?_⟩
    rw [executeScript_answers] at htook
    rw [executeScript_eq]
    cases hclosed : before.closed with
    | true =>
      rw [hclosed] at htook
      simp [Command.AnyTook] at htook
    | false =>
      rw [hclosed] at htook
      exact Script.run_took hplain hrest healthy htook
  | @graftAll first rest found between hgraft =>
    have hopen : before.closed = false := by
      rw [← graftEach_closed first before]
      exact (execute_ok_iff.mp hgraft).1
    have hlast : stateAfter (Store.graftAll (first ++ item :: rest)) before = (graftEach rest between).2 := by
      rw [stateAfter_graftAll, hopen, Bool.false_and, if_neg Bool.false_ne_true, graftEach_append,
        graftEach_of_ok hgraft]
    obtain ⟨hfirst, hsound⟩ := graftEach_follows covers_sound first hrest
    obtain ⟨hbetween, healthy', hknown⟩ := graft_took hfirst (hsound healthy).1 hgraft
    obtain ⟨hafter, hsound'⟩ := graftEach_follows covers_sound rest hbetween
    rw [hlast]
    exact ⟨hafter, (hsound' healthy').1, hknown.mono (hsound' healthy').2⟩

/-- A graft that was taken and committed is answered as already present ever after, and changes nothing. -/
theorem Onward.graft_again {config : Config} {blobs : BlobStore} (hbefore : (openWith config blobs).Onward before)
    (htaken : before.Takes item taken) (hlater : taken.Onward later) (hopen : later.closed = false) :
    graft item later = .ok none later ∧
      submit (.mutate (.graft item)) later = .ok (.ok (.outcome .alreadyPresent)) later ∧
      ∀ inside, later.writer.Within inside → inside.database.Intact →
        (Mutation.graft item).run inside = .ok .alreadyPresent inside := by
  obtain ⟨hrest, healthy, -⟩ := hbefore.preserved rfl healthy_empty
  obtain ⟨hrest, healthy, hknown⟩ := htaken.known hrest healthy
  obtain ⟨hrest, healthy, hextends⟩ := hlater.preserved hrest healthy
  have hknown' : item.KnownIn later.writer.database.tables := hknown.mono hextends
  refine ⟨execute_ok_iff.mpr ⟨hopen, _, Action.graft_known hknown', hrest, rfl⟩, ?_, fun inside hinside hintact => ?_⟩
  · exact submit_ok_iff.mpr (execute_ok_iff.mpr
      ⟨hopen, _, ok_bind_iff.mpr ⟨_, _, Action.run_graft_known hknown', rfl⟩, hrest, rfl⟩)
  · exact Action.run_graft_known (hknown'.mono (hinside.sound hrest healthy hintact).2)

/-- A graft was taken in an attempt inside a group, then its document was deleted and a local document removed. -/
theorem graft_again_attempted :
    let item : Graft :=
      { doc := "d", history := [⟨2, "b", by decide, by decide⟩, ⟨3, "c", by decide, by decide⟩], body := some Body.empty }
    let other : Graft := { doc := "e", history := [⟨1, "a", by decide, by decide⟩] }
    let group : Command := .transact [.mutate (.graft other), .attempt (.transact [.mutate (.graft item)])]
    let taken := stateAfter (submit group) (new {})
    let later := stateAfter (deleteLocal "l") (stateAfter (submit (.mutate (.deleteAllLeaves "d"))) taken)
    later.writer.database.tables.revisions.length = 4 ∧ graft item later = .ok none later := by
  intro item other group taken later
  have htaken : (new {}).Takes item taken := .attempted trivial (by decide +kernel)
  have hlater : taken.Onward later :=
    .besides (.apart (.deleteLocal "l")) (.command (.mutate (.deleteAllLeaves "d")) trivial .start)
  have hstart : (openWith {} {}).Onward (new {}) := .start
  have hlast : later.closed = false ∧ later.writer.database.tables.revisions.length = 4 := by decide +kernel
  exact ⟨hlast.2, (hstart.graft_again htaken hlater hlast.1).1⟩

end Store

end RevisionForest
