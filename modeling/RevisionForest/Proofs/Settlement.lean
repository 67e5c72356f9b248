import RevisionForest.Proofs.OpenLevels
/-!
# How a group ends

A group is one transaction whatever happens inside it. It commits at the end of its outermost level if all levels opened since then were marked while they were the innermost, and returns to the tables that it found if not or if it is abandoned (`Database.group_atomic`). All this can be told from the steps, since the open group agrees with them (`exists_tracks`).

A group that has lost the physical transaction has nothing to return to. However it is closed, it never commits, and what was written after the loss stays (`Database.group_lost`).
-/

namespace RevisionForest

/-- Every level opened since a moment was marked while it was the innermost one. -/
def AllMarked (past : List Operation) (moment : Nat) : Prop :=
  ∀ level ∈ levelsBegun past, moment ≤ level → wasMarked past level = true

instance (past : List Operation) (moment : Nat) : Decidable (AllMarked past moment) :=
  inferInstanceAs (Decidable (∀ level ∈ levelsBegun past, moment ≤ level → wasMarked past level = true))

variable {past since before late early : List Operation} {level : Nat} {start : Database} {group : Group}

theorem split_unique {since' before' : List Operation} (h : since ++ .begin :: before = since' ++ .begin :: before')
    (hlength : before.length = before'.length) : since = since' ∧ before = before' := by
  obtain ⟨rfl, hrest⟩ := List.append_inj' h (congrArg Nat.succ hlength)
  exact ⟨rfl, (List.cons.inj hrest).2⟩

theorem loss_unique {late' early' : List Operation} (h : late ++ .loseTransaction :: early = late' ++ .loseTransaction :: early')
    (hfirst : .loseTransaction ∉ early) (hfirst' : .loseTransaction ∉ early') : late = late' := by
  rcases List.append_eq_append_iff.mp h with ⟨between, rfl, hrest⟩ | ⟨between, rfl, hrest⟩
  · cases between with
    | nil => exact (List.append_nil late).symm
    | cons step between =>
      exact absurd (List.mem_append_right _ List.mem_cons_self) ((List.cons.inj hrest).2 ▸ hfirst)
  · cases between with
    | nil => exact List.append_nil late'
    | cons step between =>
      exact absurd (List.mem_append_right _ List.mem_cons_self) ((List.cons.inj hrest).2 ▸ hfirst')

namespace Tracks

theorem depth_eq (h : Tracks start past since before group) : (start.after past).depth = (openLevels past).length := by
  have hmarks := congrArg List.length h.marks
  rw [List.length_map, List.length_cons] at hmarks
  rw [Database.depth, h.opened]
  exact hmarks

theorem eq_of_open (h : Tracks start past since before group) (hopen : openLevels past = [level]) :
    level = before.length := by
  have hlast := h.outermost
  rw [hopen] at hlast
  exact Option.some.inj hlast

theorem finish_last (h : Tracks start past since before group) (hopen : openLevels past = [level]) :
    Operation.finish.run (start.after past) =
      if AllMarked past before.length then
        if group.before = none then .error (.table .nothingToCommit) ⟨(start.after past).tables, none⟩
        else .ok (.ending (.committed (stagedBy since))) ⟨(start.after past).tables, none⟩
      else .ok (.ending .rolledBack) ⟨group.before.getD (start.after past).tables, none⟩ := by
  have hunbroken : (group.unbroken && group.marked) = true ↔ AllMarked past before.length := h.unbroken_iff hopen
  rw [Database.finish_outermost h.opened (h.outer_eq_nil hopen), ← h.staged]
  by_cases hall : AllMarked past before.length
  · rw [if_pos hall, if_neg (by rw [hunbroken.mpr hall]; nofun)]
  · rw [if_neg hall, if_pos (Bool.eq_false_iff.mpr fun htrue => hall (hunbroken.mp htrue))]

/-- Since its begin the group has never been closed. -/
theorem open_since (h : Tracks start past since before group) {inside : List Operation} (hinside : inside <:+ since) :
    openLevels (inside ++ .begin :: before) ≠ [] := by
  obtain ⟨newer, rfl⟩ := hinside
  have hopen : before.length ∈ openLevels past := List.mem_of_getLast? h.outermost
  rw [h.split, List.append_assoc] at hopen
  refine List.ne_nil_of_mem (mem_openLevels_of_append newer hopen ?_)
  rw [List.length_append, List.length_cons]
  omega

theorem stands_of_kept (h : Tracks start past since before group) (hkept : .loseTransaction ∉ since) :
    group.before = some (start.after before).tables ∧
      (start.after past).tables = (start.after before).tables.written since := by
  rcases h.stands with ⟨-, hstands⟩ | ⟨late, early, rfl, -⟩
  · exact hstands
  · exact absurd (List.mem_append_right _ List.mem_cons_self) hkept

theorem stands_of_lost (h : Tracks start past (late ++ .loseTransaction :: early) before group)
    (hfirst : .loseTransaction ∉ early) :
    group.before = none ∧ (start.after past).tables = (start.after before).tables.written late := by
  rcases h.stands with ⟨hnever, -⟩ | ⟨late', early', hsplit, hfirst', hstands⟩
  · exact absurd (List.mem_append_right _ List.mem_cons_self) hnever
  · exact loss_unique hsplit hfirst hfirst' ▸ hstands

theorem finish_nested (h : Tracks start past since before group) (hinner : openLevels past ≠ [before.length]) :
    ∃ inside, Operation.finish.run (start.after past) = .ok (.ending .nested) inside ∧
      inside.tables = (start.after past).tables := by
  match hopen : openLevels past with
  | [] => exact absurd hopen h.openLevels_ne
  | [level] => exact absurd (h.eq_of_open hopen ▸ hopen) hinner
  | top :: next :: rest =>
    obtain ⟨group', -, hfinish⟩ := h.finish hopen
    exact ⟨_, hfinish, rfl⟩

end Tracks

namespace Database

/-- A group commits exactly if all its levels were marked before they ended, and otherwise leaves the tables that it found. -/
theorem group_atomic (tables : Tables) (past : List Operation) (hsingle : ∀ operation ∈ past, operation.Single)
    (hkept : .loseTransaction ∉ past) :
    let database := Database.after ⟨tables, none⟩ past
    database.depth = (openLevels past).length ∧
    ((openLevels past = [] ∧
        Operation.finish.run database = .error (.transaction .endWithoutBegin) database ∧
        Operation.markSuccessful.run database = .error (.transaction .markOutside) database ∧
        Operation.abandon.run database = .ok (.count 0) database) ∨
      ∃ since before, past = since ++ .begin :: before ∧ (openLevels past).getLast? = some before.length ∧
        (∀ inside, inside <:+ since → openLevels (inside ++ .begin :: before) ≠ []) ∧
        let found := (Database.after ⟨tables, none⟩ before).tables
        Operation.abandon.run database = .ok (.count 0) ⟨found, none⟩ ∧
        (openLevels past ≠ [before.length] → ∃ inside, Operation.finish.run database = .ok (.ending .nested) inside ∧
          inside.tables = database.tables) ∧
        (openLevels past = [before.length] → Operation.finish.run database =
          if AllMarked past before.length then .ok (.ending (.committed (stagedBy since))) ⟨found.written since, none⟩
          else .ok (.ending .rolledBack) ⟨found, none⟩)) := by
  intro database
  have hstart : (⟨tables, none⟩ : Database).group = none := rfl
  rcases exists_tracks hstart hsingle with ⟨hnone, hrest⟩ | ⟨since, before, group, htracks⟩
  · refine ⟨?_, .inl ⟨hnone, finish_of_rest hrest, mark_of_rest hrest, abandon_nothing hrest⟩⟩
    rw [hnone, depth, hrest]
    rfl
  · refine ⟨htracks.depth_eq, .inr ⟨since, before, htracks.split, htracks.outermost,
      fun inside => htracks.open_since, ?_⟩⟩
    obtain ⟨htarget, htables⟩ := htracks.stands_of_kept fun hlost => hkept (htracks.split ▸ List.mem_append_left _ hlost)
    refine ⟨?_, htracks.finish_nested, fun hlast => ?_⟩
    · rw [abandon_group htracks.opened, htarget]
      rfl
    · rw [htracks.finish_last hlast, htarget, htables]
      rfl

/-- A level that was marked again after its inner level had ended, in a database with an older group behind it. -/
theorem group_atomic_nested :
    let event : ChangeEvent := ⟨"a", none, none⟩
    let older : List Operation := [.finish, .write (.insertDocument "z"), .stage event, .begin]
    let newer : List Operation :=
      [.markSuccessful, .finish, .markSuccessful, .stage event, .write (.insertDocument "a"), .begin]
    let past := newer ++ .begin :: older
    ∃ after, Operation.finish.run (Database.after {} past) = .ok (.ending (.committed [event])) after ∧
      after.tables.documents.map (·.id) = ["a"] := by
  intro event older newer past
  have hsingle : ∀ operation ∈ past, operation.Single := by simp [past, newer, older, Operation.Single]
  have hkept : .loseTransaction ∉ past := by simp [past, newer, older]
  rcases (group_atomic {} past hsingle hkept).2 with ⟨hnone, -⟩ | ⟨since, before, hsplit, hlast, -, -, -, hfinish⟩
  · exact absurd hnone (by decide)
  · obtain ⟨rfl, rfl⟩ : newer = since ∧ older = before := split_unique hsplit (Option.some.inj hlast)
    exact ⟨_, (hfinish rfl).trans (if_pos (by decide)), by decide +kernel⟩

/-- A group that has lost the physical transaction never commits, and leaves the tables that it found with the writes since the loss. -/
theorem group_lost (tables : Tables) (late early before : List Operation)
    (hsingle : ∀ operation ∈ late ++ .loseTransaction :: early ++ .begin :: before, operation.Single)
    (hfirst : .loseTransaction ∉ early)
    (houtermost : (openLevels (late ++ .loseTransaction :: early ++ .begin :: before)).getLast? = some before.length) :
    let past := late ++ .loseTransaction :: early ++ .begin :: before
    let database := Database.after ⟨tables, none⟩ past
    let left := (Database.after ⟨tables, none⟩ before).tables.written late
    Operation.abandon.run database = .ok (.count 0) ⟨left, none⟩ ∧
    (openLevels past ≠ [before.length] → ∃ inside, Operation.finish.run database = .ok (.ending .nested) inside) ∧
    (openLevels past = [before.length] → Operation.finish.run database =
      if AllMarked past before.length then .error (.table .nothingToCommit) ⟨left, none⟩
      else .ok (.ending .rolledBack) ⟨left, none⟩) := by
  intro past database left
  have hstart : (⟨tables, none⟩ : Database).group = none := rfl
  rcases exists_tracks hstart hsingle with ⟨hnone, -⟩ | ⟨since, before', group, htracks⟩
  · rw [hnone] at houtermost
    nomatch houtermost
  · have hlength := Option.some.inj (houtermost.symm.trans htracks.outermost)
    obtain ⟨rfl, rfl⟩ := split_unique htracks.split hlength
    obtain ⟨htarget, htables⟩ := htracks.stands_of_lost hfirst
    refine ⟨?_, fun hinner => ?_, fun hlast => ?_⟩
    · rw [abandon_group htracks.opened, htarget, htables]
      rfl
    · obtain ⟨inside, hfinish, -⟩ := htracks.finish_nested hinner
      exact ⟨inside, hfinish⟩
    · rw [htracks.finish_last hlast, htarget, htables]
      rfl

/-- The outermost level ends without success, and what was written after the loss is still there. -/
theorem group_lost_leaves :
    let past : List Operation := [.write (.insertDocument "b"), .loseTransaction, .begin]
    ∃ after, Operation.finish.run (Database.after {} past) = .ok (.ending .rolledBack) after ∧
      after.tables ≠ (Database.after {} []).tables :=
  ⟨_, rfl, by decide +kernel⟩

/-- What was written before the loss is gone, whether the group is abandoned or ended. -/
theorem group_lost_nested :
    let late : List Operation := [.write (.insertDocument "b"), .markSuccessful, .finish, .markSuccessful]
    let early : List Operation := [.begin, .write (.insertDocument "a")]
    let past := late ++ .loseTransaction :: early ++ .begin :: []
    let left := (Tables.written {} late)
    left.documents.map (·.id) = ["b"] ∧
      Operation.abandon.run (Database.after {} past) = .ok (.count 0) ⟨left, none⟩ ∧
      Operation.finish.run (Database.after {} past) = .error (.table .nothingToCommit) ⟨left, none⟩ := by
  intro late early past left
  have hsingle : ∀ operation ∈ past, operation.Single := by simp [past, late, early, Operation.Single]
  obtain ⟨habandon, -, hfinish⟩ := group_lost {} late early [] hsingle (by simp [early]) rfl
  exact ⟨by decide +kernel, habandon, (hfinish rfl).trans (if_pos (by decide))⟩

end Database

end RevisionForest
