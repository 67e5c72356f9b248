import RevisionForest.Proofs.Merging
import RevisionForest.Proofs.Reachable
import RevisionForest.Proofs.Standings
/-!
# Events replay to the store

Published events lead from the standings that were to those that are, and each starts where the one before it ended (`Chronicle`). Edits extend the chronicle of their draft by at most one event; levels keep the events of those that commit and drop the rest together with their tables; so the events published since a store was opened are a chronicle of its standings at every moment between two submissions. To replay a chronicle gives the standings at its end, and at every event those that the event starts from. Whoever subscribed to an empty store and reads without a limit can keep up with the winner of every document (`Store.Later.events_replay`).
-/

namespace RevisionForest

/-- Events that lead from some standings to others one by one. -/
inductive Chronicle : Standings → List ChangeEvent → Standings → Prop
  | nil (standings : Standings) : Chronicle standings [] standings
  | cons {before between after : Standings} {event : ChangeEvent} {rest : List ChangeEvent}
    (hfirst : event.Tells before between) (hrest : Chronicle between rest after) : Chronicle before (event :: rest) after

/-- The standings after some events, if there was no winner before them. -/
def replay (events : List ChangeEvent) : Standings :=
  events.foldl (fun standings event => event.turn standings) fun _ => none

theorem replay_concat (events : List ChangeEvent) (event : ChangeEvent) :
    replay (events ++ [event]) = event.turn (replay events) :=
  List.foldl_concat ..

namespace Chronicle

variable {before between after : Standings} {events early late : List ChangeEvent} {event : ChangeEvent}

theorem single (h : event.Tells before after) : Chronicle before [event] after :=
  .cons h (.nil after)

theorem append (h : Chronicle before early between) (h' : Chronicle between late after) :
    Chronicle before (early ++ late) after := by
  induction h with
  | nil standings => exact h'
  | cons hfirst _ ih => exact .cons hfirst (ih h')

theorem foldl_eq (h : Chronicle before events after) :
    events.foldl (fun standings event => event.turn standings) before = after := by
  induction h with
  | nil standings => rfl
  | cons hfirst _ ih => rw [List.foldl_cons, hfirst.turn, ih]

theorem exists_between (h : Chronicle before (early ++ late) after) :
    ∃ between, Chronicle before early between ∧ Chronicle between late after := by
  induction early generalizing before with
  | nil => exact ⟨before, .nil before, h⟩
  | cons first rest ih =>
    cases h with
    | cons hfirst hrest =>
      obtain ⟨between, hearly, hlate⟩ := ih hrest
      exact ⟨between, .cons hfirst hearly, hlate⟩

theorem replay_eq (h : Chronicle (fun _ => none) events after) : replay events = after :=
  h.foldl_eq

/-- Each event of a chronicle starts from what the events before it replay to. -/
theorem prev_eq (h : Chronicle (fun _ => none) (early ++ event :: late) after) :
    event.prev = replay early event.doc := by
  obtain ⟨between, hearly, hlate⟩ := h.exists_between
  cases hlate with
  | cons hfirst _ => rw [hfirst.prev, hearly.replay_eq]

end Chronicle

/-! ### Edits -/

/-- What an edit announces leads from the standings before it to those after it. -/
def Draft.Chronicles (before after : Draft) : Prop :=
  ∃ events, after.events = before.events ++ events ∧ Chronicle before.tables.standings events after.tables.standings

theorem Draft.Chronicles.single {before after : Draft} {event : ChangeEvent}
    (h : event.Tells before.tables.standings after.tables.standings) (hevents : after.events = before.events ++ [event]) :
    before.Chronicles after :=
  ⟨[event], hevents, .single h⟩

namespace Edit

open Tables

variable {draft draft' : Draft} {doc : String} {body : Bytes} {revision : Revision}

theorem create_chronicles {attachments : List NewAttachment} (healthy : draft.tables.Healthy)
    (h : create doc body attachments draft = .ok revision draft') : draft.Chronicles draft' := by
  obtain ⟨⟨hnamed, hfree, -, -, hevents⟩, hafter, hgains⟩ := create_effect healthy h
  have hopen := openTables_of_free hnamed hfree
  obtain ⟨hopened, hnumber, -⟩ := openTables_ok healthy hopen
  -- Compared with the tables in which the document is registered already, a single row was added.
  have hfresh : (draft.tables.register doc).own (draft.tables.lastNumber + 1) = [] :=
    own_eq_nil_iff.mpr healthy.shape.fresh_lastNumber
  have hsole : draft'.tables.own (draft.tables.lastNumber + 1) = _ :=
    hgains.own_of_home (List.forall_mem_singleton.mpr rfl)
  rw [hfresh, List.nil_append] at hsole
  refine .single ?_ hevents
  rw [← openTables_standings healthy hopen]
  exact hgains.tells hopened hafter hnumber (List.forall_mem_singleton.mpr rfl) (hopened.currentWinner_eq_none_iff.mpr hfresh)
    (hafter.currentWinner_of_sole hsole rfl)

theorem update_chronicles {expected : RevId} {changes : AttachmentChanges} (healthy : draft.tables.Healthy)
    (h : update doc expected body changes draft = .ok revision draft') : draft.Chronicles draft' := by
  obtain ⟨number, _, _, _, ⟨hnumber, -⟩, hafter, -, hderives⟩ := update_effect healthy h
  obtain ⟨found, _, _, _, _, ⟨hfound, -, hprev, -⟩, _, _, _, _, _, _, _, _, -, -, -, -, -, hpick, -, rfl⟩ := update_ok h
  obtain rfl := Option.some.inj (hnumber.symm.trans hfound)
  exact .single (hderives.tells healthy hafter hnumber hprev (hafter.currentWinner_of_pickWinner hpick)) rfl

theorem bury_chronicles {rev : RevId} (healthy : draft.tables.Healthy)
    (h : bury doc rev draft = .ok revision draft') : draft.Chronicles draft' := by
  obtain ⟨number, _, ⟨hnumber, -⟩, hafter, -, hderives⟩ := bury_effect healthy h
  obtain ⟨found, target, prev, ⟨hfound, -, -, -, hprev⟩, insertion, inserted, new, crowned, hwork, -, rfl⟩ :=
    bury_ok_iff.mp h
  obtain rfl := Option.some.inj (hnumber.symm.trans hfound)
  refine .single (hderives.tells healthy hafter hnumber hprev ?_) rfl
  -- Of a winner the election says who is next; of a loser the event repeats the winner that was read before.
  rcases hwork with ⟨-, _, -, -, hpick⟩ | ⟨hloser, hinsert, rfl, rfl⟩
  · exact hafter.currentWinner_of_pickWinner hpick
  · rcases insertRevision_ok_iff.mp hinsert with ⟨_, -, -, rfl⟩ | ⟨-, -, rfl⟩
    · exact hprev
    · exact (currentWinner_push hloser).trans hprev

theorem graft_chronicles {item : Graft} {found : Option Revision} (healthy : draft.tables.Healthy)
    (hgap : Graft.gap? item.history = none) (h : graft item draft = .ok found draft') : draft.Chronicles draft' := by
  obtain ⟨rev, number, opened, ⟨hrev, hopen, hafter⟩, hcases⟩ := graft_effect healthy hgap h
  obtain ⟨hopened, hnumber, -⟩ := openTables_ok healthy hopen
  obtain ⟨rev', number', opened', hrev', hopen', hwork⟩ := graft_ok_iff.mp h
  obtain rfl := Option.some.inj (hrev.symm.trans hrev')
  obtain ⟨rfl, rfl⟩ := EStateM.Result.ok.inj (hopen.symm.trans hopen')
  rcases hwork with ⟨-, -, rfl⟩ | ⟨hnew, prev, _, _, _, _, _, _, elected, _, _, hprev, -, -, -, -, hpick, -, -, rfl⟩
  · refine ⟨[], (List.append_nil _).symm, ?_⟩
    rw [← openTables_standings healthy hopen]
    exact .nil _
  · rcases hcases with ⟨hthere, -⟩ | ⟨-, -, hgains⟩
    · rw [hnew] at hthere
      nomatch hthere
    · refine .single ?_ rfl
      rw [← openTables_standings healthy hopen]
      exact hgains.tells hopened hafter hnumber (document_of_mem_branch rfl) hprev
        (hafter.currentWinner_of_pickWinner hpick)

end Edit

/-! ### Holdings -/

/-- Healthy tables stay healthy, and what is published leads from their standings before to those after. -/
def Holdings.Chronicled (before after : Holdings) : Prop :=
  before.tables.Healthy → after.tables.Healthy ∧
    ∃ events, after.feed = before.feed.publish events ∧ Chronicle before.tables.standings events after.tables.standings

theorem course_chronicled : Course Holdings.Chronicled where
  refl := fun tables _ _ _ _ healthy => ⟨healthy, [], rfl, .nil tables.standings⟩
  trans := by
    intro first second third hfirst hsecond healthy
    obtain ⟨hbetween, early, hearly, hchronicle⟩ := hfirst healthy
    obtain ⟨hafter, late, hlate, hchronicle'⟩ := hsecond hbetween
    exact ⟨hafter, early ++ late, by rw [hlate, hearly, Feed.publish_append], hchronicle.append hchronicle'⟩

theorem Holdings.Aside.chronicled {before after : Holdings} (h : before.Aside after) : before.Chronicled after := by
  refine fun healthy => ⟨h.tables.healthy healthy, [], h.feed, ?_⟩
  rw [← show { before.tables with locals := after.tables.locals } = after.tables from h.tables]
  exact .nil before.tables.standings

/-- What an edit announces is published as soon as nothing can undo it any more. -/
theorem Edit.Runs.chronicled {α : Type} {work : Edit α} (hsound : work.Runs Holdings.Sound)
    (h : ∀ draft value draft', draft.tables.Healthy → work draft = .ok value draft' → draft.Chronicles draft') :
    work.Runs Holdings.Chronicled := by
  refine ⟨hsound.1, fun draft value draft' hwork feed healthy => ?_⟩
  obtain ⟨events, hevents, hchronicle⟩ := h draft value draft' healthy hwork
  refine ⟨(hsound.2 draft value draft' hwork feed healthy).1, events, ?_, hchronicle⟩
  rw [Draft.holdings, Draft.holdings, hevents, Feed.publish_append]

theorem covers_chronicled : Covers Holdings.Chronicled where
  toCourse := course_chronicled
  create := fun doc body attachments hdoc hbody =>
    (covers_sound.create doc body attachments hdoc hbody).chronicled fun _ _ _ => Edit.create_chronicles
  update := fun doc expected body changes hbody hnames =>
    (covers_sound.update doc expected body changes hbody hnames).chronicled fun _ _ _ => Edit.update_chronicles
  bury := fun doc rev => (covers_sound.bury doc rev).chronicled fun _ _ _ => Edit.bury_chronicles
  graft := fun item hcheck => (covers_sound.graft item hcheck).chronicled fun _ _ _ healthy =>
    Edit.graft_chronicles healthy (Graft.check_ok_iff.mp hcheck).2.2.1

/-! ### Stores -/

namespace Store

variable {start store : Store}

theorem Later.chronicle (h : start.Later store) (hrest : start.AtRest) (healthy : start.writer.database.tables.Healthy) :
    store.writer.database.tables.Healthy ∧ ∃ events, store.writer.feed = start.writer.feed.publish events ∧
      Chronicle start.writer.database.tables.standings events store.writer.database.tables.standings := by
  have hapart : ∀ store after : Store, store.Apart after → store.AtRest →
      after.AtRest ∧ store.writer.holdings.Chronicled after.writer.holdings := by
    intro store after hother hbetween
    obtain ⟨hafter, haside⟩ := hother.aside hbetween
    exact ⟨hafter, haside.chronicled⟩
  obtain ⟨hafter, hchronicled⟩ :=
    h.follows covers_chronicled.toCourse (fun command => command.run_follows covers_chronicled) hapart hrest
  rw [Writer.holdings_of_rest hrest, Writer.holdings_of_rest hafter] at hchronicled
  exact hchronicled healthy

/-- A new store whose first subscriber, of ticket 0, can hold any number of events. -/
def observed (config : Config) (blobs : BlobStore) : Store :=
  ((openWith config blobs).subscribe none).2

/-- The first subscriber of an empty store finds in the events, replayed in order, the winner of each document that has a revision, and at each event the winner that it starts from. -/
theorem Later.events_replay {config : Config} {blobs : BlobStore} (h : (observed config blobs).Later store) :
    ∃ events rest, store.drain 0 none = (events, .empty, rest) ∧
      (∀ doc winner, replay events doc = some winner ↔
        ∃ number, store.writer.database.tables.documentNumber? doc = some number ∧
          store.writer.database.tables.currentWinner number = .ok (some winner)) ∧
      (∀ doc, (∃ winner, replay events doc = some winner) ↔
        ∃ number, store.writer.database.tables.documentNumber? doc = some number ∧
          ∃ row ∈ store.writer.database.tables.revisions, row.document = number) ∧
      ∀ early event late, events = early ++ event :: late → event.prev = replay early event.doc := by
  obtain ⟨healthy, events, hfeed, hchronicle⟩ := h.chronicle rfl healthy_empty
  have hreplay : replay events = store.writer.database.tables.standings := hchronicle.replay_eq
  have hheard : store.writer.feed.find? 0 = some ⟨0, none, events, true, true⟩ := by
    rw [hfeed, Feed.find?_publish]
    exact congrArg some (Subscriber.foldl_deliver_of_open _ rfl rfl rfl events)
  have hdrain : ∃ rest, store.drain 0 none = (events, .empty, rest) := by
    simp only [drain, Feed.drain_of_find? hheard]
    exact ⟨_, rfl⟩
  obtain ⟨rest, hdrain⟩ := hdrain
  refine ⟨events, rest, hdrain, fun doc winner => ?_, fun doc => ?_, fun early event late hsplit => ?_⟩
  · rw [hreplay]
    exact Tables.standings_eq_some_iff
  · rw [hreplay]
    exact healthy.exists_standing_iff
  · rw [hsplit] at hchronicle
    exact hchronicle.prev_eq

/-- The second event of a document starts from its first, whatever a group that panicked has done in between. -/
theorem events_replay_panicked :
    let first : RevId := ⟨1, "a", by decide, by decide⟩
    let second : RevId := ⟨2, "b", by decide, by decide⟩
    let store := stateAfter (submit (.mutate (.graft { doc := "d", history := [first, second] })))
      (stateAfter (submit (.transact [.mutate (.graft { doc := "d", history := [second] }), .panic]))
        (stateAfter (submit (.mutate (.graft { doc := "d", history := [first] }))) (observed {} {})))
    ∃ event event' rest, store.drain 0 none = ([event, event'], .empty, rest) ∧ event.prev = none ∧
      event'.prev = event.new ∧ store.writer.database.tables.currentWinner 1 = .ok event'.new := by
  intro first second store
  have hlater : (observed {} {}).Later store :=
    .command _ trivial (.command _ ⟨trivial, trivial, trivial⟩ (.command _ trivial .start))
  obtain ⟨events, rest, hdrain, hwinners, hdocuments, hprev⟩ := hlater.events_replay
  have hdocs : (store.drain 0 none).1.map (·.doc) = ["d", "d"] := by decide +kernel
  have hnumber : store.writer.database.tables.documentNumber? "d" = some 1 := by decide +kernel
  have hrow : ∃ row ∈ store.writer.database.tables.revisions, row.document = 1 := by decide +kernel
  rw [hdrain] at hdocs
  obtain ⟨event, _, rfl, hdoc, hdocs⟩ := List.map_eq_cons_iff.mp hdocs
  obtain ⟨event', _, rfl, hdoc', hdocs⟩ := List.map_eq_cons_iff.mp hdocs
  obtain rfl := List.map_eq_nil_iff.mp hdocs
  refine ⟨event, event', rest, hdrain, hprev [] event [event'] rfl, ?_, ?_⟩
  · have hfirst : replay ([] ++ [event]) event.doc = event.new := by rw [replay_concat, event.turn_self]
    rw [hprev [event] event' [] rfl, hdoc', ← hdoc]
    exact hfirst
  · obtain ⟨winner, hwinner⟩ := (hdocuments "d").mpr ⟨1, hnumber, hrow⟩
    have hlast : replay ([event] ++ [event']) event'.doc = event'.new := by rw [replay_concat, event'.turn_self]
    obtain ⟨number, hfound, hcurrent⟩ := (hwinners "d" winner).mp hwinner
    obtain rfl := Option.some.inj (hnumber.symm.trans hfound)
    rw [hcurrent, ← hwinner, ← hdoc']
    exact congrArg Except.ok hlast

end Store

end RevisionForest
