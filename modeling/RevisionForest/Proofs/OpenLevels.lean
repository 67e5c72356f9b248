import RevisionForest.Operation
import RevisionForest.Proofs.Steps
/-!
# The levels of a past

What the steps taken so far have left open, marked and staged can be read off the steps alone. A level is known by the number of steps before its begin, so that no two levels are ever confused. The group that a database holds agrees with its past (`Tracks`): its marks are those of the open levels, its flag says whether all levels that have ended since its outermost begin were marked, and its tables are the ones found there with the writes of all steps since then, or of those since the physical transaction was lost. Each step keeps this, and so it holds after any past (`exists_tracks`).
-/

namespace RevisionForest

/-- The database after some steps, the last one first. -/
def Database.after (start : Database) : List Operation → Database
  | [] => start
  | operation :: past => stateAfter operation.run (start.after past)

/-- The levels that are open, from the inside out, each known by the number of steps before its begin. -/
def openLevels : List Operation → List Nat
  | [] => []
  | .begin :: past => past.length :: openLevels past
  | .finish :: past => (openLevels past).tail
  | .abandon :: _ => []
  | _ :: past => openLevels past

/-- The levels that were ever opened. -/
def levelsBegun : List Operation → List Nat
  | [] => []
  | .begin :: past => past.length :: levelsBegun past
  | _ :: past => levelsBegun past

/-- Whether a level was marked successful while it was the innermost one. -/
def wasMarked : List Operation → Nat → Bool
  | [], _ => false
  | .markSuccessful :: past, level => (openLevels past).head? = some level || wasMarked past level
  | _ :: past, level => wasMarked past level

/-- The events staged, in order. -/
def stagedBy : List Operation → List ChangeEvent
  | [] => []
  | .stage event :: past => stagedBy past ++ [event]
  | _ :: past => stagedBy past

/-- What a step writes, whether or not it fails. -/
def Operation.written : Operation → Tables → Tables
  | .write change, tables => stateAfter change.run tables
  | .damage fault, tables => stateAfter fault.run tables
  | _, tables => tables

/-- The tables with the writes of some steps. -/
def Tables.written (tables : Tables) : List Operation → Tables
  | [] => tables
  | operation :: past => operation.written (tables.written past)

/-- Not made of other steps. -/
def Operation.Single : Operation → Prop
  | .attempt _ | .level _ => False
  | _ => True

/-- Neither opens nor marks nor closes levels. -/
def Operation.Quiet : Operation → Prop
  | .begin | .markSuccessful | .finish | .abandon | .attempt _ | .level _ => False
  | _ => True

variable {operation : Operation} {past since before : List Operation} {level : Nat} {database start : Database}
  {group : Group}

/-! ### Levels -/

@[simp] theorem openLevels_begin : openLevels (.begin :: past) = past.length :: openLevels past := rfl

@[simp] theorem openLevels_mark : openLevels (.markSuccessful :: past) = openLevels past := rfl

@[simp] theorem openLevels_finish : openLevels (.finish :: past) = (openLevels past).tail := rfl

@[simp] theorem levelsBegun_begin : levelsBegun (.begin :: past) = past.length :: levelsBegun past := rfl

@[simp] theorem wasMarked_begin : wasMarked (.begin :: past) = wasMarked past := rfl

@[simp] theorem wasMarked_mark :
    wasMarked (.markSuccessful :: past) level = ((openLevels past).head? = some level || wasMarked past level) := rfl

@[simp] theorem wasMarked_finish : wasMarked (.finish :: past) = wasMarked past := rfl

namespace Operation.Quiet

variable (h : operation.Quiet)

include h

theorem openLevels_cons : openLevels (operation :: past) = openLevels past := by
  cases operation <;> first | rfl | exact h.elim

theorem levelsBegun_cons : levelsBegun (operation :: past) = levelsBegun past := by
  cases operation <;> first | rfl | exact h.elim

theorem wasMarked_cons : wasMarked (operation :: past) = wasMarked past := by
  cases operation <;> first | rfl | exact h.elim

end Operation.Quiet

theorem stagedBy_cons : stagedBy (operation :: past) = stagedBy past ++ stagedBy [operation] := by
  cases operation <;> first | rfl | exact (List.append_nil _).symm

theorem lt_of_mem_openLevels (h : level ∈ openLevels past) : level < past.length := by
  induction past with
  | nil => exact absurd h List.not_mem_nil
  | cons operation past ih =>
    have hlt : level ∈ openLevels past → level < (operation :: past).length := fun hmem =>
      Nat.lt_succ_of_lt (ih hmem)
    cases operation with
    | begin =>
      rcases List.mem_cons.mp h with rfl | hmem
      · exact Nat.lt_succ_self _
      · exact hlt hmem
    | finish => exact hlt (List.mem_of_mem_tail h)
    | abandon => exact absurd h List.not_mem_nil
    | _ => exact hlt h

theorem lt_of_mem_levelsBegun (h : level ∈ levelsBegun past) : level < past.length := by
  induction past with
  | nil => exact absurd h List.not_mem_nil
  | cons operation past ih =>
    have hlt : level ∈ levelsBegun past → level < (operation :: past).length := fun hmem =>
      Nat.lt_succ_of_lt (ih hmem)
    cases operation with
    | begin =>
      rcases List.mem_cons.mp h with rfl | hmem
      · exact Nat.lt_succ_self _
      · exact hlt hmem
    | _ => exact hlt h

theorem mem_levelsBegun_of_open (h : level ∈ openLevels past) : level ∈ levelsBegun past := by
  induction past with
  | nil => exact h
  | cons operation past ih =>
    cases operation with
    | begin =>
      rcases List.mem_cons.mp h with rfl | hmem
      · exact List.mem_cons_self
      · exact List.mem_cons_of_mem _ (ih hmem)
    | finish => exact ih (List.mem_of_mem_tail h)
    | abandon => exact absurd h List.not_mem_nil
    | _ => exact ih h

theorem openLevels_descending (past : List Operation) : (openLevels past).Pairwise (· > ·) := by
  induction past with
  | nil => exact .nil
  | cons operation past ih =>
    cases operation with
    | begin => exact .cons (fun _ hmem => lt_of_mem_openLevels hmem) ih
    | finish => exact ih.tail
    | abandon => exact .nil
    | _ => exact ih

theorem mem_openLevels_of_append (newer : List Operation) (h : level ∈ openLevels (newer ++ past))
    (hbegun : level < past.length) : level ∈ openLevels past := by
  induction newer with
  | nil => exact h
  | cons operation newer ih =>
    apply ih
    rw [List.cons_append] at h
    cases operation with
    | begin =>
      refine (List.mem_cons.mp h).resolve_left fun heq => ?_
      rw [heq, List.length_append] at hbegun
      omega
    | finish => exact List.mem_of_mem_tail h
    | abandon => exact absurd h List.not_mem_nil
    | _ => exact h

theorem lt_of_wasMarked (h : wasMarked past level = true) : level < past.length := by
  induction past with
  | nil => nomatch h
  | cons operation past ih =>
    cases operation with
    | markSuccessful =>
      simp only [wasMarked, Bool.or_eq_true, decide_eq_true_eq] at h
      rcases h with htop | hold
      · exact Nat.lt_succ_of_lt (lt_of_mem_openLevels (List.mem_of_head? htop))
      · exact Nat.lt_succ_of_lt (ih hold)
    | _ => exact Nat.lt_succ_of_lt (ih h)

theorem wasMarked_length (past : List Operation) : wasMarked past past.length = false :=
  Bool.eq_false_iff.mpr fun hmarked => Nat.lt_irrefl _ (lt_of_wasMarked hmarked)

/-! ### Steps -/

namespace Database

theorem after_begin_of_rest (hrest : database.group = none) :
    stateAfter Operation.begin.run database = ⟨database.tables, some ⟨some database.tables, false, [], true, []⟩⟩ := by
  obtain ⟨tables, group⟩ := database
  obtain rfl : group = none := hrest
  rfl

theorem after_begin (hgroup : database.group = some group) :
    stateAfter Operation.begin.run database
      = ⟨database.tables, some { group with marked := false, outer := group.marked :: group.outer }⟩ := by
  obtain ⟨tables, _⟩ := database
  obtain rfl := hgroup
  rfl

theorem mark_of_rest (hrest : database.group = none) :
    Operation.markSuccessful.run database = .error (.transaction .markOutside) database := by
  obtain ⟨tables, group⟩ := database
  obtain rfl : group = none := hrest
  rfl

theorem after_mark (hgroup : database.group = some group) :
    stateAfter Operation.markSuccessful.run database = ⟨database.tables, some { group with marked := true }⟩ := by
  obtain ⟨tables, _⟩ := database
  obtain rfl := hgroup
  rfl

theorem finish_of_rest (hrest : database.group = none) :
    Operation.finish.run database = .error (.transaction .endWithoutBegin) database := by
  obtain ⟨tables, group⟩ := database
  obtain rfl : group = none := hrest
  rfl

theorem finish_inner {marked : Bool} {outer : List Bool} (hgroup : database.group = some group)
    (houter : group.outer = marked :: outer) :
    Operation.finish.run database = .ok (.ending .nested)
      ⟨database.tables, some { group with marked, outer, unbroken := group.unbroken && group.marked }⟩ := by
  obtain ⟨tables, _⟩ := database
  obtain ⟨found, top, _, unbroken, staged⟩ := group
  obtain rfl := hgroup
  obtain rfl := houter
  rfl

theorem finish_outermost (hgroup : database.group = some group) (houter : group.outer = []) :
    Operation.finish.run database =
      if (group.unbroken && group.marked) = false then .ok (.ending .rolledBack) ⟨group.before.getD database.tables, none⟩
      else if group.before = none then .error (.table .nothingToCommit) ⟨database.tables, none⟩
      else .ok (.ending (.committed group.staged)) ⟨database.tables, none⟩ := by
  obtain ⟨tables, _⟩ := database
  obtain ⟨found, marked, _, unbroken, staged⟩ := group
  obtain rfl := hgroup
  obtain rfl := houter
  cases found <;> cases unbroken <;> cases marked <;> rfl

theorem abandon_nothing (hrest : database.group = none) : Operation.abandon.run database = .ok (.count 0) database := by
  obtain ⟨tables, group⟩ := database
  obtain rfl : group = none := hrest
  rfl

theorem abandon_group (hgroup : database.group = some group) :
    Operation.abandon.run database = .ok (.count 0) ⟨group.before.getD database.tables, none⟩ := by
  obtain ⟨tables, _⟩ := database
  obtain rfl := hgroup
  rfl

theorem lose_of_rest (hrest : database.group = none) :
    Operation.loseTransaction.run database = .error (.table .nothingToRollBack) database := by
  obtain ⟨tables, group⟩ := database
  obtain rfl : group = none := hrest
  rfl

theorem after_lose (hgroup : database.group = some group) :
    stateAfter Operation.loseTransaction.run database
      = ⟨group.before.getD database.tables, some { group with before := none }⟩ := by
  obtain ⟨tables, _⟩ := database
  obtain ⟨found, marked, outer, unbroken, staged⟩ := group
  obtain rfl := hgroup
  cases found <;> rfl

theorem stateAfter_statement {α : Type} (action : Statement α) (database : Database) :
    stateAfter (Transaction.statement action) database = { database with tables := stateAfter action database.tables } := by
  unfold stateAfter Transaction.statement
  cases action database.tables <;> rfl

theorem stateAfter_query {α : Type} (read : Tables → Tables.Query α) (database : Database) :
    stateAfter (Transaction.query read) database = database := by
  have hsame : stateAfter (Statement.query read) database.tables = database.tables := by
    rw [stateAfter, Statement.query, bind_of_ok get_eq]
    cases read database.tables <;> rfl
  rw [Transaction.query, stateAfter_statement, hsame]

/-- A quiet step writes and stages, unless it loses the physical transaction. -/
theorem after_quiet (hquiet : operation.Quiet) (hkeeps : operation ≠ .loseTransaction) (database : Database) :
    stateAfter operation.run database
      = { database with tables := operation.written database.tables }.stage (stagedBy [operation]) := by
  have hsame : database.stage [] = database := by
    obtain ⟨tables, _ | ⟨found, marked, outer, unbroken, staged⟩⟩ := database
    · rfl
    · simp [Database.stage]
  have hwritten : ∀ tables, ({ database with tables } : Database).stage [] = { database with tables } := by
    intro tables
    obtain ⟨_, _ | ⟨found, marked, outer, unbroken, staged⟩⟩ := database
    · rfl
    · simp [Database.stage]
  cases operation with
  | ask question => exact (stateAfter_query question database).trans hsame.symm
  | write change => exact (stateAfter_statement change.run database).trans (hwritten _).symm
  | damage fault => exact (stateAfter_statement fault.run database).trans (hwritten _).symm
  | depth => exact hsame.symm
  | stage event => rfl
  | vacuum =>
    refine Eq.trans ?_ hsame.symm
    obtain ⟨tables, _ | group⟩ := database <;> rfl
  | fail error => exact hsame.symm
  | loseTransaction => exact absurd rfl hkeeps
  | begin | markSuccessful | finish | abandon | attempt _ | level _ => exact hquiet.elim

end Database

/-! ### Groups -/

/-- A group that found some tables has tables to return to and tables in front of them: those that it found and what was written since then, or, once the physical transaction is lost, none and what was written since the loss. -/
def Stands (found : Tables) (since : List Operation) (target : Option Tables) (tables : Tables) : Prop :=
  (.loseTransaction ∉ since ∧ target = some found ∧ tables = found.written since) ∨
    ∃ late early, since = late ++ .loseTransaction :: early ∧ .loseTransaction ∉ early ∧
      target = none ∧ tables = found.written late

theorem Stands.write {found : Tables} {target : Option Tables} (h : Stands found since target tables)
    (hkeeps : operation ≠ .loseTransaction) : Stands found (operation :: since) target (operation.written tables) := by
  rcases h with ⟨hnever, htarget, rfl⟩ | ⟨late, early, rfl, hfirst, htarget, rfl⟩
  · refine .inl ⟨fun hmem => ?_, htarget, rfl⟩
    rcases List.mem_cons.mp hmem with heq | hold
    · exact hkeeps heq.symm
    · exact hnever hold
  · exact .inr ⟨operation :: late, early, rfl, hfirst, htarget, rfl⟩

theorem Stands.lose {found : Tables} {target : Option Tables} (h : Stands found since target tables) :
    Stands found (.loseTransaction :: since) none (target.getD tables) := by
  rcases h with ⟨hnever, rfl, -⟩ | ⟨late, early, rfl, hfirst, rfl, rfl⟩
  · exact .inr ⟨[], since, rfl, hnever, rfl, rfl⟩
  · exact .inr ⟨.loseTransaction :: late, early, rfl, hfirst, rfl, rfl⟩

/-- The open group agrees with the past, in which its outermost level was begun after `before`. -/
structure Tracks (start : Database) (past since before : List Operation) (group : Group) : Prop where
  split : past = since ++ .begin :: before
  opened : (start.after past).group = some group
  outermost : (openLevels past).getLast? = some before.length
  marks : group.marked :: group.outer = (openLevels past).map (wasMarked past)
  unbroken : group.unbroken = true ↔ ∀ level ∈ levelsBegun past, before.length ≤ level →
    level ∉ openLevels past → wasMarked past level = true
  staged : group.staged = stagedBy since
  stands : Stands (start.after before).tables since group.before (start.after past).tables

theorem tracks_begin (hrest : (start.after past).group = none) (hnone : openLevels past = []) :
    Tracks start (.begin :: past) [] past ⟨some (start.after past).tables, false, [], true, []⟩ := by
  have hafter : start.after (.begin :: past) = _ := Database.after_begin_of_rest hrest
  refine ⟨rfl, by rw [hafter], by rw [openLevels_begin, hnone]; rfl, ?_, ?_, rfl,
    .inl ⟨List.not_mem_nil, rfl, by rw [hafter]; rfl⟩⟩
  · rw [openLevels_begin, hnone, wasMarked_begin, List.map_cons, List.map_nil, wasMarked_length]
  · refine iff_of_true rfl fun level hlevel hle hclosed => ?_
    rcases List.mem_cons.mp hlevel with rfl | hold
    · exact absurd List.mem_cons_self hclosed
    · exact absurd (lt_of_mem_levelsBegun hold) (Nat.not_lt.mpr hle)

namespace Tracks

theorem openLevels_ne (h : Tracks start past since before group) : openLevels past ≠ [] := by
  intro hnone
  have hlast := h.outermost
  rw [hnone] at hlast
  nomatch hlast

theorem quiet (h : Tracks start past since before group) (hquiet : operation.Quiet)
    (hkeeps : operation ≠ .loseTransaction) :
    ∃ group', Tracks start (operation :: past) (operation :: since) before group' := by
  have hafter : start.after (operation :: past) = _ := Database.after_quiet hquiet hkeeps (start.after past)
  refine ⟨{ group with staged := group.staged ++ stagedBy [operation] }, ?_⟩
  refine ⟨by rw [h.split]; rfl, ?_, ?_, ?_, ?_, ?_, ?_⟩
  · rw [hafter, Database.stage, h.opened]
    rfl
  · rw [hquiet.openLevels_cons, h.outermost]
  · rw [hquiet.openLevels_cons, hquiet.wasMarked_cons]
    exact h.marks
  · rw [hquiet.openLevels_cons, hquiet.wasMarked_cons, hquiet.levelsBegun_cons]
    exact h.unbroken
  · rw [h.staged]
    exact stagedBy_cons.symm
  · rw [hafter]
    exact h.stands.write hkeeps

theorem lose (h : Tracks start past since before group) :
    ∃ group', Tracks start (.loseTransaction :: past) (.loseTransaction :: since) before group' := by
  have hafter : start.after (.loseTransaction :: past) = _ := Database.after_lose h.opened
  refine ⟨{ group with before := none }, by rw [h.split]; rfl, by rw [hafter], h.outermost, h.marks, h.unbroken,
    h.staged, ?_⟩
  rw [hafter]
  exact h.stands.lose

theorem begin (h : Tracks start past since before group) :
    ∃ group', Tracks start (.begin :: past) (.begin :: since) before group' := by
  have hafter : start.after (.begin :: past) = _ := Database.after_begin h.opened
  refine ⟨{ group with marked := false, outer := group.marked :: group.outer }, by rw [h.split]; rfl, by rw [hafter],
    ?_, ?_, ?_, h.staged, ?_⟩
  · rw [openLevels_begin, List.getLast?_cons, h.outermost]
    rfl
  · rw [openLevels_begin, wasMarked_begin, List.map_cons, wasMarked_length, h.marks]
  · refine h.unbroken.trans ⟨fun hall level hlevel hle hclosed => ?_, fun hall level hlevel hle hclosed => ?_⟩
    · rcases List.mem_cons.mp hlevel with rfl | hold
      · exact absurd List.mem_cons_self hclosed
      · exact hall level hold hle fun hopen => hclosed (List.mem_cons_of_mem _ hopen)
    · refine hall level (List.mem_cons_of_mem _ hlevel) hle fun hopen => ?_
      rcases List.mem_cons.mp hopen with rfl | hopen
      · exact Nat.lt_irrefl _ (lt_of_mem_levelsBegun hlevel)
      · exact hclosed hopen
  · rw [hafter]
    exact h.stands.write (by nofun)

theorem mark (h : Tracks start past since before group) :
    ∃ group', Tracks start (.markSuccessful :: past) (.markSuccessful :: since) before group' := by
  have hafter : start.after (.markSuccessful :: past) = _ := Database.after_mark h.opened
  obtain ⟨top, rest, hopen⟩ := List.exists_cons_of_ne_nil h.openLevels_ne
  have hdescending := openLevels_descending past
  rw [hopen] at hdescending
  have hmarks := h.marks
  rw [hopen, List.map_cons, List.cons.injEq] at hmarks
  have hothers : ∀ level, level ≠ top → wasMarked (.markSuccessful :: past) level = wasMarked past level := by
    intro level hne
    rw [wasMarked_mark, hopen, List.head?_cons, decide_eq_false fun heq => hne (Option.some.inj heq).symm, Bool.false_or]
  refine ⟨{ group with marked := true }, by rw [h.split]; rfl, by rw [hafter], h.outermost, ?_, ?_, h.staged, ?_⟩
  · rw [openLevels_mark, hopen, List.map_cons, wasMarked_mark, hopen, List.head?_cons, decide_eq_true rfl, Bool.true_or]
    refine congrArg _ (hmarks.2.trans (List.map_congr_left fun level hlevel => (hothers level ?_).symm))
    exact Nat.ne_of_lt ((List.pairwise_cons.mp hdescending).1 level hlevel)
  · refine h.unbroken.trans (forall_congr' fun level => forall_congr' fun hlevel => forall_congr' fun hle =>
      forall_congr' fun hclosed => ?_)
    rw [hothers level fun heq => hclosed (heq ▸ hopen ▸ List.mem_cons_self)]
  · rw [hafter]
    exact h.stands.write (by nofun)

theorem le_of_open (h : Tracks start past since before group) (hopen : level ∈ openLevels past) : before.length ≤ level := by
  obtain ⟨inner, hinner⟩ := List.getLast?_eq_some_iff.mp h.outermost
  have hdescending := openLevels_descending past
  rw [hinner] at hdescending hopen
  rcases List.mem_append.mp hopen with hmem | hlast
  · exact Nat.le_of_lt ((List.pairwise_append.mp hdescending).2.2 level hmem _ (List.mem_singleton.mpr rfl))
  · exact Nat.le_of_eq (List.mem_singleton.mp hlast).symm

theorem unbroken_iff (h : Tracks start past since before group) (hopen : openLevels past = [level]) :
    (group.unbroken && group.marked) = true ↔
      ∀ level ∈ levelsBegun past, before.length ≤ level → wasMarked past level = true := by
  have hmarks := h.marks
  rw [hopen, List.map_cons, List.cons.injEq] at hmarks
  have hlevel : level ∈ openLevels past := hopen ▸ List.mem_singleton.mpr rfl
  rw [Bool.and_eq_true, h.unbroken, hmarks.1, hopen]
  constructor
  · rintro ⟨hall, hmarked⟩ other hother hle
    by_cases heq : other = level
    · exact heq ▸ hmarked
    · exact hall other hother hle fun hmem => heq (List.mem_singleton.mp hmem)
  · intro hall
    exact ⟨fun other hother hle _ => hall other hother hle,
      hall level (mem_levelsBegun_of_open hlevel) (h.le_of_open hlevel)⟩

theorem outer_eq_nil (h : Tracks start past since before group) (hopen : openLevels past = [level]) : group.outer = [] := by
  have hmarks := h.marks
  rw [hopen, List.map_cons, List.cons.injEq] at hmarks
  exact hmarks.2

theorem close (h : Tracks start past since before group) (hopen : openLevels past = [level]) :
    (start.after (.finish :: past)).group = none := by
  rw [Database.after, stateAfter, Database.finish_outermost h.opened (h.outer_eq_nil hopen)]
  by_cases hbroken : (group.unbroken && group.marked) = false
  · rw [if_pos hbroken]
  · rw [if_neg hbroken]
    by_cases hlost : group.before = none
    · rw [if_pos hlost]
    · rw [if_neg hlost]

theorem finish {top next : Nat} {rest : List Nat} (h : Tracks start past since before group)
    (hopen : openLevels past = top :: next :: rest) :
    ∃ group', Tracks start (.finish :: past) (.finish :: since) before group' ∧
      Operation.finish.run (start.after past) = .ok (.ending .nested) ⟨(start.after past).tables, some group'⟩ := by
  have hdescending := openLevels_descending past
  rw [hopen] at hdescending
  have hmarks := h.marks
  rw [hopen, List.map_cons, List.map_cons, List.cons.injEq] at hmarks
  have hfinish := Database.finish_inner h.opened hmarks.2
  have hafter : start.after (.finish :: past) = _ := stateAfter_of_ok hfinish
  have htop : top ∈ openLevels past := hopen ▸ List.mem_cons_self
  refine ⟨{ group with
      marked := wasMarked past next
      outer := rest.map (wasMarked past)
      unbroken := group.unbroken && group.marked },
    ⟨by rw [h.split]; rfl, by rw [hafter], ?_, ?_, ?_, h.staged, ?_⟩, hfinish⟩
  · rw [← h.outermost, openLevels_finish, hopen, List.getLast?_cons_cons]
    rfl
  · rw [openLevels_finish, hopen]
    rfl
  · rw [Bool.and_eq_true, h.unbroken, hmarks.1, openLevels_finish, wasMarked_finish, hopen, List.tail_cons]
    constructor
    · rintro ⟨hall, hmarked⟩ level hlevel hle hclosed
      by_cases heq : level = top
      · exact heq ▸ hmarked
      · exact hall level hlevel hle fun hmem => hclosed ((List.mem_cons.mp hmem).resolve_left heq)
    · intro hall
      refine ⟨fun level hlevel hle hclosed => hall level hlevel hle fun hmem => hclosed (List.mem_cons_of_mem _ hmem), ?_⟩
      have hbegun : top ∈ levelsBegun past := mem_levelsBegun_of_open htop
      exact hall top hbegun (h.le_of_open htop) fun hmem =>
        Nat.lt_irrefl _ ((List.pairwise_cons.mp hdescending).1 top hmem)
  · rw [hafter]
    exact h.stands.write (by nofun)

end Tracks

theorem rest_step (hrest : database.group = none) (hsingle : operation.Single) (hbegin : operation ≠ .begin) :
    (stateAfter operation.run database).group = none := by
  cases operation with
  | begin => exact absurd rfl hbegin
  | markSuccessful => rw [stateAfter_of_error (Database.mark_of_rest hrest), hrest]
  | finish => rw [stateAfter_of_error (Database.finish_of_rest hrest), hrest]
  | abandon => rw [stateAfter_of_ok (Database.abandon_nothing hrest), hrest]
  | loseTransaction => rw [stateAfter_of_error (Database.lose_of_rest hrest), hrest]
  | attempt operation => exact hsingle.elim
  | level operations => exact hsingle.elim
  | ask _ | write _ | damage _ | depth | stage _ | vacuum | fail _ =>
    refine (congrArg Database.group (Database.after_quiet (by trivial) (by nofun) database)).trans ?_
    rw [Database.stage, hrest]
    rfl

/-- After any past no level is open and the database is at rest, or its group agrees with the past. -/
theorem exists_tracks (hrest : start.group = none) (hsingle : ∀ operation ∈ past, operation.Single) :
    (openLevels past = [] ∧ (start.after past).group = none) ∨
      ∃ since before group, Tracks start past since before group := by
  induction past with
  | nil => exact .inl ⟨rfl, hrest⟩
  | cons operation past ih =>
    have hstep := hsingle operation List.mem_cons_self
    rcases ih fun other hother => hsingle other (List.mem_cons_of_mem _ hother) with
      ⟨hnone, hclosed⟩ | ⟨since, before, group, htracks⟩
    · cases operation with
      | begin => exact .inr ⟨_, _, _, tracks_begin hclosed hnone⟩
      | finish => exact .inl ⟨by rw [openLevels_finish, hnone, List.tail_nil], rest_step hclosed hstep (by nofun)⟩
      | abandon => exact .inl ⟨rfl, rest_step hclosed hstep (by nofun)⟩
      | _ => exact .inl ⟨hnone, rest_step hclosed hstep (by nofun)⟩
    · cases operation with
      | begin => exact .inr ⟨_, _, htracks.begin⟩
      | markSuccessful => exact .inr ⟨_, _, htracks.mark⟩
      | loseTransaction => exact .inr ⟨_, _, htracks.lose⟩
      | finish =>
        match hopen : openLevels past with
        | [] => exact absurd hopen htracks.openLevels_ne
        | [level] => exact .inl ⟨by rw [openLevels_finish, hopen, List.tail_cons], htracks.close hopen⟩
        | top :: next :: rest =>
          obtain ⟨group', htracks', -⟩ := htracks.finish hopen
          exact .inr ⟨_, _, group', htracks'⟩
      | abandon => exact .inl ⟨rfl, congrArg Database.group (stateAfter_of_ok (Database.abandon_group htracks.opened))⟩
      | attempt operation => exact hstep.elim
      | level operations => exact hstep.elim
      | _ => exact .inr ⟨_, _, htracks.quiet trivial (by nofun)⟩

end RevisionForest
