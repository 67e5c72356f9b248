import RevisionForest.Proofs.Execution
import RevisionForest.Proofs.Locals
/-!
# What is asked of a store

A store becomes another one by commands, alone or in scripts, and by requests besides that make no mutation (`Store.Becomes`). Which commands may be made, and what happens besides, are parameters, so that each relation between an earlier and a later store is an instance: all that a caller can do short of giving up the tables (`Store.Onward`), the same but nothing that the events or the blobs take part in (`Store.Later`), and runs of which the mutations are restricted (`Store.MadeBy`). What holds along the first holds along the other two (`Store.Later.onward`, `Store.MadeBy.onward`). There is one induction over what was requested (`Store.Becomes.follows`); what differs is only what the commands and the other requests keep.
-/

namespace RevisionForest

variable {R : Holdings → Holdings → Prop}

theorem Command.allPlain_iff {script : List Command} : Command.AllPlain script ↔ ∀ command ∈ script, command.Plain := by
  induction script with
  | nil => simp [Command.AllPlain]
  | cons command rest ih => simp [Command.AllPlain, ih]

theorem Command.runAll_follows_each (course : Course R) {script : List Command}
    (h : ∀ command ∈ script, Action.Follows R command.run) : Action.Follows R (Command.runAll script) := by
  induction script with
  | nil => exact .pure course []
  | cons command rest ih =>
    have hrest := ih fun other hother => h other (List.mem_cons_of_mem _ hother)
    exact (h command List.mem_cons_self).bind course fun _ => hrest.bind course fun _ => .pure course _

theorem course_aside : Course Holdings.Aside where
  refl := fun tables _ _ _ hgrown => ⟨.refl tables, hgrown, rfl⟩
  trans := by
    intro first second third hfirst hsecond
    refine ⟨?_, hfirst.blobs.trans hsecond.blobs, hsecond.feed.trans hfirst.feed⟩
    show { first.tables with locals := third.tables.locals } = third.tables
    rw [← show { second.tables with locals := third.tables.locals } = third.tables from hsecond.tables,
      ← show { first.tables with locals := second.tables.locals } = second.tables from hfirst.tables]

namespace Store

variable {may may' : Command → Prop} {besides besides' : Store → Store → Prop} {start store after : Store}

/-! ### Requests -/

/-- What a store becomes by commands that may be made, alone or in scripts, and by other requests besides. -/
inductive Becomes (may : Command → Prop) (besides : Store → Store → Prop) (start : Store) : Store → Prop
  | start : Becomes may besides start start
  | command {store : Store} (command : Command) (hmay : may command) (h : Becomes may besides start store) :
    Becomes may besides start (stateAfter (submit command) store)
  | script {store : Store} (script : Script) (hmay : ∀ command ∈ script, may command)
    (h : Becomes may besides start store) : Becomes may besides start (executeScript script store).2
  | besides {store after : Store} (hbesides : besides store after) (h : Becomes may besides start store) :
    Becomes may besides start after

/-- Requests that make no mutation, no event and no blob. Other stores make up ids too, so their number may have gone up in between. -/
inductive Apart (store : Store) : Store → Prop
  | putLocal (doc : String) (body : Bytes) : Apart store (stateAfter (putLocal doc body) store)
  | deleteLocal (doc : String) : Apart store (stateAfter (deleteLocal doc) store)
  | compact : Apart store (stateAfter compact store)
  | elapsed (clock : Nat) : Apart store { store with writer := { store.writer with clock } }

/-- Requests that make no mutation and give up no tables. Only if they may be lossy do they give up blobs. -/
inductive Besides (lossy : Prop) (store : Store) : Store → Prop
  | apart {after : Store} (h : store.Apart after) : Besides lossy store after
  | subscribed (capacity : Option Nat) : Besides lossy store (store.subscribe capacity).2
  | drained (ticket : Nat) (most : Option Nat) : Besides lossy store (store.drain ticket most).2.2
  | unsubscribed (ticket : Nat) : Besides lossy store (store.unsubscribe ticket)
  | closed : Besides lossy store store.close
  | reopened (htables : store.config.keepsTables = true) (hblobs : lossy ∨ store.config.keepsBlobs = true) :
    Besides lossy store store.reopen
  | bereft (hlossy : lossy) (data : Bytes) : Besides lossy store (store.loseBlob data).2

/-- What has become of a store by commands, batches, local documents and compaction, with one feed all along. -/
def Later (start store : Store) : Prop :=
  start.Becomes Command.Plain Apart store

/-- What has become of a store by any requests that a caller can make of it, short of giving up its tables. -/
def Onward (start store : Store) : Prop :=
  start.Becomes Command.Plain (Besides True) store

/-- What has become of a store by requests of any kind, of which each mutation is one that may be made. -/
def MadeBy (may : Mutation → Prop) (start store : Store) : Prop :=
  start.Becomes (fun command => command.Plain ∧ ∀ mutation, command.Makes mutation → may mutation) (Besides True) store

theorem Becomes.mono (hmay : ∀ command, may command → may' command)
    (hbesides : ∀ store after, besides store after → besides' store after) (h : start.Becomes may besides store) :
    start.Becomes may' besides' store := by
  induction h with
  | start => exact .start
  | command command hcommand _ ih => exact .command command (hmay command hcommand) ih
  | script script hscript _ ih => exact .script script (fun command hmem => hmay command (hscript command hmem)) ih
  | besides hstep _ ih => exact .besides (hbesides _ _ hstep) ih

theorem Becomes.graftAll {items : List Graft} (hmay : ∀ item ∈ items, may (.mutate (.graft item)))
    (h : start.Becomes may besides store) : start.Becomes may besides (stateAfter (graftAll items) store) := by
  have heach : start.Becomes may besides (graftEach items store).2 := by
    induction items generalizing store with
    | nil => exact h
    | cons item rest ih =>
      have hfirst := h.command (.mutate (.graft item)) (hmay item List.mem_cons_self)
      rw [stateAfter_submit_graft] at hfirst
      rw [graftEach_cons_snd]
      exact ih (fun other hother => hmay other (List.mem_cons_of_mem _ hother)) hfirst
  rw [stateAfter_graftAll]
  split
  · exact h
  · exact heach

theorem Onward.script {script : Script} (hplain : Command.AllPlain script) (h : start.Onward store) :
    start.Onward (executeScript script store).2 :=
  Becomes.script script (Command.allPlain_iff.mp hplain) h

theorem Onward.graftAll (items : List Graft) (h : start.Onward store) :
    start.Onward (stateAfter (graftAll items) store) :=
  Becomes.graftAll (fun _ _ => trivial) h

theorem Later.onward (h : start.Later store) : start.Onward store :=
  Becomes.mono (fun _ => id) (fun _ _ => .apart) h

theorem MadeBy.graftAll {may : Mutation → Prop} {items : List Graft} (hmay : ∀ item ∈ items, may (.graft item))
    (h : start.MadeBy may store) : start.MadeBy may (stateAfter (graftAll items) store) :=
  Becomes.graftAll (fun item hmem => ⟨trivial, fun _ hmakes => hmakes ▸ hmay item hmem⟩) h

theorem MadeBy.onward {may : Mutation → Prop} (h : start.MadeBy may store) : start.Onward store :=
  Becomes.mono (fun _ => And.left) (fun _ _ => id) h

/-! ### What requests keep -/

/-- A store goes along every relation that commands and the other requests go along. -/
theorem Becomes.follows (course : Course R) (hcommand : ∀ command, may command → Action.Follows R command.run)
    (hbesides : ∀ store after, besides store after → store.AtRest →
      after.AtRest ∧ R store.writer.holdings after.writer.holdings)
    (h : start.Becomes may besides store) (hrest : start.AtRest) :
    store.AtRest ∧ R start.writer.holdings store.writer.holdings := by
  have hstep : ∀ {between last : Store}, between.AtRest ∧ R start.writer.holdings between.writer.holdings →
      (between.AtRest → last.AtRest ∧ R between.writer.holdings last.writer.holdings) →
      last.AtRest ∧ R start.writer.holdings last.writer.holdings := by
    rintro between last ⟨hbetween, hfirst⟩ hlast
    obtain ⟨hafter, hsecond⟩ := hlast hbetween
    exact ⟨hafter, course.trans hfirst hsecond⟩
  induction h with
  | start => exact ⟨hrest, course.refl _ _ (.refl start.writer.blobs)⟩
  | command command hmay _ ih =>
    rw [stateAfter_submit]
    exact hstep ih (execute_follows course (hcommand command hmay))
  | script script hmay _ ih =>
    have hscript := Command.runAll_follows_each course fun command hmem => hcommand command (hmay command hmem)
    rw [executeScript_eq, ← stateAfter_execute]
    exact hstep ih (execute_follows course hscript)
  | besides hother _ ih => exact hstep ih (hbesides _ _ hother)

theorem Apart.aside (h : store.Apart after) (hrest : store.AtRest) :
    after.AtRest ∧ store.writer.holdings.Aside after.writer.holdings := by
  have hsame : store.writer.holdings.Aside store.writer.holdings := course_aside.refl _ _ (.refl store.writer.blobs)
  cases h with
  | putLocal doc body =>
    unfold Store.putLocal
    cases (Body.validate body).mapError StoreError.ofData with
    | error error => exact ⟨hrest, hsame⟩
    | ok => exact execute_follows course_aside (Action.putLocal_follows course_aside id doc body) hrest
  | deleteLocal doc => exact execute_follows course_aside (Action.deleteLocal_follows course_aside id doc) hrest
  | compact => exact execute_follows course_aside (Action.vacuum_follows course_aside) hrest
  | elapsed clock => exact ⟨hrest, hsame⟩

theorem Besides.aside {lossy : Prop} (h : store.Besides lossy after) (hrest : store.AtRest) :
    after.AtRest ∧ store.writer.database.tables.Aside after.writer.database.tables ∧
      (lossy ∨ store.writer.blobs.Grown after.writer.blobs) := by
  have hsame : store.writer.database.tables.Aside store.writer.database.tables ∧
      (lossy ∨ store.writer.blobs.Grown store.writer.blobs) := ⟨.refl _, .inr (.refl _)⟩
  cases h with
  | apart hapart =>
    obtain ⟨hafter, haside⟩ := hapart.aside hrest
    exact ⟨hafter, haside.tables, .inr haside.blobs⟩
  | subscribed | drained | unsubscribed | closed => exact ⟨hrest, hsame⟩
  | reopened htables hblobs =>
    refine ⟨rfl, ?_, hblobs.imp_right fun hkept => ?_⟩
    · simp only [reopen, htables, ↓reduceIte]
      exact .refl _
    · simp only [reopen, hkept, ↓reduceIte]
      exact .refl _
  | bereft hlossy data => exact ⟨hrest, .refl _, .inl hlossy⟩

end Store

end RevisionForest
