import Mathlib.Data.List.DropRight
import RevisionForest.Proofs.Announcements
/-!
# What a receiver gets

Receivers subscribe to a feed, read from it and are dropped while events are published in batches. Seen from one receiver, a run is what concerns it: the events, one by one, and its own readings (`Traffic.receiver?_run`). So no receiver affects another, and what it gets is found by induction over these steps alone: the events since it subscribed, in order, up to the one at which it was cut off (`Subscription.delivery`).
-/

namespace RevisionForest

/-- A feed, and what has been read from it with each ticket. -/
structure Traffic where
  feed : Feed
  received : Nat → List ChangeEvent

namespace Traffic

inductive Step where
  | subscribe (capacity : Option Nat)
  | publish (events : List ChangeEvent)
  /-- A receiver reads up to so many events, all if no number is given. -/
  | receive (ticket : Nat) (most : Option Nat)
  | drop (ticket : Nat)
  deriving DecidableEq

namespace Step

/-- The events that a step publishes. -/
def events : Step → List ChangeEvent
  | .publish events => events
  | .subscribe _ | .receive _ _ | .drop _ => []

/-- A step, with a batch of events taken one event at a time. -/
def singly : Step → List Step
  | .publish events => events.map fun event => .publish [event]
  | step => [step]

/-- What of a step concerns the holder of a ticket, said with ticket 0. -/
def concerning (ticket : Nat) : Step → List Step
  | .subscribe _ => []
  | .publish events => [.publish events]
  | .receive reader most => if reader = ticket then [.receive 0 most] else []
  | .drop reader => if reader = ticket then [.drop 0] else []

end Step

/-- The events published by steps, in order. -/
def published (steps : List Step) : List ChangeEvent :=
  steps.flatMap Step.events

/-- A new feed that keeps a history of so many events. -/
def opened (limit : Nat) : Traffic :=
  ⟨{ limit }, fun _ => []⟩

def step (traffic : Traffic) : Step → Traffic
  | .subscribe capacity => { traffic with feed := (traffic.feed.subscribe capacity).2 }
  | .publish events => { traffic with feed := traffic.feed.publish events }
  | .receive ticket most =>
    let answer := traffic.feed.drain ticket most
    ⟨answer.2.2, Function.update traffic.received ticket (traffic.received ticket ++ answer.1)⟩
  | .drop ticket => { traffic with feed := traffic.feed.drop ticket }

def run (traffic : Traffic) (steps : List Step) : Traffic :=
  steps.foldl step traffic

end Traffic

/-! ## One receiver -/

namespace Subscriber

variable (subscriber : Subscriber)

theorem deliver_cases (event : ChangeEvent) :
    (subscriber.connected = false ∧ subscriber.deliver event = subscriber) ∨
      (subscriber.connected = true ∧ subscriber.receiving = true ∧ subscriber.hasRoom = true ∧
        subscriber.deliver event = { subscriber with pending := subscriber.pending ++ [event] }) ∨
      (subscriber.connected = true ∧ (subscriber.receiving = true → subscriber.hasRoom = false) ∧
        subscriber.deliver event = { subscriber with connected := false }) := by
  unfold deliver
  cases subscriber.connected <;> cases subscriber.receiving <;> cases subscriber.hasRoom <;> simp

theorem deliver_frame (event : ChangeEvent) :
    subscriber.deliver event =
      { subscriber with
        pending := (subscriber.deliver event).pending
        connected := (subscriber.deliver event).connected } := by
  rcases subscriber.deliver_cases event with ⟨-, h⟩ | ⟨-, -, -, h⟩ | ⟨-, -, h⟩ <;> rw [h]

theorem foldl_deliver_frame (events : List ChangeEvent) :
    events.foldl deliver subscriber =
      { subscriber with
        pending := (events.foldl deliver subscriber).pending
        connected := (events.foldl deliver subscriber).connected } := by
  induction events generalizing subscriber with
  | nil => rfl
  | cons event rest ih =>
    rw [List.foldl_cons, ih, deliver_frame]

theorem foldl_deliver_retagged (ticket : Nat) (events : List ChangeEvent) :
    events.foldl deliver { subscriber with ticket } = { events.foldl deliver subscriber with ticket } := by
  induction events generalizing subscriber with
  | nil => rfl
  | cons event rest ih =>
    have hdeliver : deliver { subscriber with ticket } event = { subscriber.deliver event with ticket } := by
      have hroom : hasRoom { subscriber with ticket } = subscriber.hasRoom := rfl
      simp only [deliver, hroom]
      split_ifs <;> rfl
    rw [List.foldl_cons, hdeliver, ih, List.foldl_cons]

theorem drain_frame (most : Option Nat) :
    (subscriber.drain most).2.2 = { subscriber with pending := (subscriber.drain most).2.2.pending } := by
  cases most <;> rfl

theorem drain_append (most : Option Nat) :
    (subscriber.drain most).1 ++ (subscriber.drain most).2.2.pending = subscriber.pending := by
  cases most with
  | none => exact List.append_nil _
  | some most => exact List.take_append_drop most subscriber.pending

theorem drain_events (most : Option Nat) :
    (subscriber.drain most).1 = subscriber.pending.take (most.getD subscriber.pending.length) := by
  cases most with
  | none => exact (List.take_length).symm
  | some most => rfl

theorem drain_end (most : Option Nat) :
    (subscriber.drain most).2.1 = .disconnected ↔
      subscriber.connected = false ∧ ∀ number, most = some number → subscriber.pending.length < number := by
  cases most with
  | none => cases hconnected : subscriber.connected <;> simp [drain, hconnected]
  | some most =>
    by_cases hmost : most ≤ subscriber.pending.length
    · simp [drain, hmost]
    · cases hconnected : subscriber.connected <;> simp [drain, hmost, hconnected, Nat.lt_of_not_le hmost]

end Subscriber

/-- A receiver: its side of the feed, and what it has read. -/
structure Receiver where
  subscriber : Subscriber
  received : List ChangeEvent

namespace Receiver

/-- What it has read, followed by what it has buffered. -/
def gained (receiver : Receiver) : List ChangeEvent :=
  receiver.received ++ receiver.subscriber.pending

/-- A receiver that has just subscribed. -/
def fresh (ticket : Nat) (capacity : Option Nat) : Receiver :=
  ⟨⟨ticket, capacity, [], true, true⟩, []⟩

/-- What a step on the feed means to one receiver. -/
def step (receiver : Receiver) : Traffic.Step → Receiver
  | .subscribe _ => receiver
  | .publish events => { receiver with subscriber := events.foldl Subscriber.deliver receiver.subscriber }
  | .receive reader most =>
    if reader = receiver.subscriber.ticket then
      ⟨(receiver.subscriber.drain most).2.2, receiver.received ++ (receiver.subscriber.drain most).1⟩
    else receiver
  | .drop reader =>
    if reader = receiver.subscriber.ticket then { receiver with subscriber.receiving := false } else receiver

def run (receiver : Receiver) (steps : List Traffic.Step) : Receiver :=
  steps.foldl step receiver

variable {receiver : Receiver} {events : List ChangeEvent} {steps early late : List Traffic.Step} {bound : Nat}

theorem run_append (receiver : Receiver) (early late : List Traffic.Step) :
    receiver.run (early ++ late) = (receiver.run early).run late :=
  List.foldl_append

theorem step_frame (receiver : Receiver) (step : Traffic.Step) :
    ∃ pending connected receiving,
      (receiver.step step).subscriber = { receiver.subscriber with pending, connected, receiving } := by
  cases step with
  | subscribe capacity => exact ⟨_, _, _, rfl⟩
  | publish events => exact ⟨_, _, _, Subscriber.foldl_deliver_frame receiver.subscriber events⟩
  | receive reader most =>
    rw [Receiver.step]
    split
    · exact ⟨_, _, _, Subscriber.drain_frame receiver.subscriber most⟩
    · exact ⟨_, _, _, rfl⟩
  | drop reader =>
    rw [Receiver.step]
    split <;> exact ⟨_, _, _, rfl⟩

@[simp]
theorem step_ticket (receiver : Receiver) (step : Traffic.Step) :
    (receiver.step step).subscriber.ticket = receiver.subscriber.ticket := by
  obtain ⟨_, _, _, hframe⟩ := receiver.step_frame step
  rw [hframe]

@[simp]
theorem step_capacity (receiver : Receiver) (step : Traffic.Step) :
    (receiver.step step).subscriber.capacity = receiver.subscriber.capacity := by
  obtain ⟨_, _, _, hframe⟩ := receiver.step_frame step
  rw [hframe]

theorem step_receiving (receiver : Receiver) (step : Traffic.Step) :
    (receiver.step step).subscriber.receiving = true ↔
      receiver.subscriber.receiving = true ∧ .drop receiver.subscriber.ticket ≠ step := by
  cases step with
  | subscribe capacity => simp [Receiver.step]
  | publish events =>
    show (events.foldl Subscriber.deliver receiver.subscriber).receiving = true ↔ _
    rw [Subscriber.foldl_deliver_frame]
    simp
  | receive reader most =>
    unfold Receiver.step
    dsimp only
    split
    · rw [Subscriber.drain_frame]
      simp
    · simp
  | drop reader =>
    unfold Receiver.step
    dsimp only
    split <;> rename_i hreader
    · simp [hreader]
    · simp [Ne.symm hreader]

theorem run_capacity (receiver : Receiver) (steps : List Traffic.Step) :
    (receiver.run steps).subscriber.capacity = receiver.subscriber.capacity := by
  induction steps generalizing receiver with
  | nil => rfl
  | cons step rest ih => exact (ih (receiver.step step)).trans (receiver.step_capacity step)

theorem run_receiving (receiver : Receiver) (steps : List Traffic.Step) :
    (receiver.run steps).subscriber.receiving = true ↔
      receiver.subscriber.receiving = true ∧ .drop receiver.subscriber.ticket ∉ steps := by
  induction steps generalizing receiver with
  | nil => simp [run]
  | cons step rest ih =>
    have hrest := ih (receiver.step step)
    rw [step_ticket, step_receiving] at hrest
    rw [List.mem_cons, not_or, ← and_assoc]
    exact hrest

/-! ### In order and without a gap -/

/-- What holds of a receiver when these events were published since it subscribed. -/
structure Fed (receiver : Receiver) (events : List ChangeEvent) : Prop where
  in_order : receiver.gained <+: events
  complete : receiver.subscriber.connected = true → receiver.gained = events
  unlimited : receiver.subscriber.capacity = none → receiver.subscriber.receiving = true →
    receiver.subscriber.connected = true
  limited : ∀ bound, receiver.subscriber.capacity = some bound → receiver.subscriber.pending.length ≤ bound

theorem fed_fresh (ticket : Nat) (capacity : Option Nat) : (fresh ticket capacity).Fed [] :=
  ⟨List.prefix_rfl, fun _ => rfl, fun _ _ => rfl, fun bound _ => Nat.zero_le bound⟩

theorem Fed.deliver (h : receiver.Fed events) (event : ChangeEvent) :
    Fed ⟨receiver.subscriber.deliver event, receiver.received⟩ (events ++ [event]) := by
  rcases receiver.subscriber.deliver_cases event with
    ⟨hcut, hsame⟩ | ⟨hconnected, -, hroom, hnew⟩ | ⟨hconnected, hfull, hcut⟩
  · rw [hsame]
    exact ⟨h.in_order.trans (List.prefix_append _ _), fun hconnected => by simp [hcut] at hconnected,
      h.unlimited, h.limited⟩
  · have hgained : receiver.received ++ (receiver.subscriber.pending ++ [event]) = events ++ [event] := by
      rw [← List.append_assoc]
      exact congrArg (· ++ [event]) (h.complete hconnected)
    rw [hnew]
    refine ⟨hgained ▸ List.prefix_rfl, fun _ => hgained, fun _ _ => hconnected, fun bound hbound => ?_⟩
    have hlength : receiver.subscriber.pending.length < bound := by
      have hcapacity : receiver.subscriber.capacity = some bound := hbound
      rw [Subscriber.hasRoom, hcapacity] at hroom
      exact of_decide_eq_true hroom
    exact List.length_append ▸ hlength
  · rw [hcut]
    refine ⟨h.in_order.trans (List.prefix_append _ _), fun hconnected => absurd hconnected Bool.false_ne_true,
      fun hcapacity hreceiving => ?_, h.limited⟩
    have hroom : receiver.subscriber.hasRoom = true := by
      have hnone : receiver.subscriber.capacity = none := hcapacity
      rw [Subscriber.hasRoom, hnone]
    exact absurd hroom (by simp [hfull hreceiving])

theorem Fed.foldl_deliver (h : receiver.Fed events) (batch : List ChangeEvent) :
    Fed ⟨batch.foldl Subscriber.deliver receiver.subscriber, receiver.received⟩ (events ++ batch) := by
  induction batch generalizing receiver events with
  | nil => rwa [List.append_nil]
  | cons event rest ih =>
    rw [← List.singleton_append, ← List.append_assoc]
    exact ih (h.deliver event)

theorem Fed.step (h : receiver.Fed events) (step : Traffic.Step) : (receiver.step step).Fed (events ++ step.events) := by
  cases step with
  | subscribe capacity => rwa [Traffic.Step.events, List.append_nil]
  | publish batch => exact h.foldl_deliver batch
  | receive reader most =>
    rw [Traffic.Step.events, List.append_nil, Receiver.step]
    split
    · have hgained : receiver.received ++ (receiver.subscriber.drain most).1 ++
          (receiver.subscriber.drain most).2.2.pending = receiver.gained := by
        rw [List.append_assoc, Subscriber.drain_append, gained]
      have hshorter : (receiver.subscriber.drain most).2.2.pending.length ≤ receiver.subscriber.pending.length := by
        have hlength := congrArg List.length (receiver.subscriber.drain_append most)
        rw [List.length_append] at hlength
        omega
      have hwhole : receiver.received ++ (receiver.subscriber.drain most).1 ++
          (receiver.subscriber.drain most).2.2.pending <+: events := hgained ▸ h.in_order
      rw [Subscriber.drain_frame]
      exact ⟨hwhole, fun hconnected => hgained.trans (h.complete hconnected), h.unlimited,
        fun bound hbound => hshorter.trans (h.limited bound hbound)⟩
    · exact h
  | drop reader =>
    rw [Traffic.Step.events, List.append_nil, Receiver.step]
    split
    · exact ⟨h.in_order, h.complete, nofun, h.limited⟩
    · exact h

theorem Fed.run (h : receiver.Fed events) (steps : List Traffic.Step) :
    (receiver.run steps).Fed (events ++ Traffic.published steps) := by
  induction steps generalizing receiver events with
  | nil => rwa [Traffic.published, List.flatMap_nil, List.append_nil]
  | cons step rest ih =>
    rw [Traffic.published, List.flatMap_cons, ← List.append_assoc]
    exact ih (h.step step)

/-! ### Cut off -/

theorem step_of_cut (hcut : receiver.subscriber.connected = false) (step : Traffic.Step) :
    (receiver.step step).subscriber.connected = false ∧ (receiver.step step).gained = receiver.gained := by
  cases step with
  | subscribe capacity => exact ⟨hcut, rfl⟩
  | publish events =>
    have hsame : events.foldl Subscriber.deliver receiver.subscriber = receiver.subscriber := by
      induction events with
      | nil => rfl
      | cons event rest ih => rw [List.foldl_cons, Subscriber.deliver, hcut, if_neg Bool.false_ne_true, ih]
    rw [Receiver.step, hsame]
    exact ⟨hcut, rfl⟩
  | receive reader most =>
    rw [Receiver.step]
    split
    · refine ⟨by rw [Subscriber.drain_frame]; exact hcut, ?_⟩
      rw [gained, List.append_assoc, Subscriber.drain_append, gained]
    · exact ⟨hcut, rfl⟩
  | drop reader =>
    rw [Receiver.step]
    split <;> exact ⟨hcut, rfl⟩

theorem run_of_cut (hcut : receiver.subscriber.connected = false) (steps : List Traffic.Step) :
    (receiver.run steps).subscriber.connected = false ∧ (receiver.run steps).gained = receiver.gained := by
  induction steps generalizing receiver with
  | nil => exact ⟨hcut, rfl⟩
  | cons step rest ih =>
    obtain ⟨hstep, hgained⟩ := step_of_cut hcut step
    obtain ⟨hrest, hsame⟩ := ih hstep
    exact ⟨hrest, hsame.trans hgained⟩

theorem connected_of_append (h : (receiver.run (early ++ late)).subscriber.connected = true) :
    (receiver.run early).subscriber.connected = true := by
  by_contra hcut
  rw [run_append, (run_of_cut (Bool.eq_false_iff.mpr hcut) late).1] at h
  exact Bool.false_ne_true h

theorem room_of_connected {event : ChangeEvent} (hcapacity : receiver.subscriber.capacity = some bound)
    (h : (receiver.run (early ++ .publish [event] :: late)).subscriber.connected = true) :
    (receiver.run early).subscriber.pending.length < bound := by
  rw [← List.singleton_append, ← List.append_assoc] at h
  have hthen := connected_of_append h
  rw [run_append] at hthen
  replace hthen : ((receiver.run early).subscriber.deliver event).connected = true := hthen
  rcases (receiver.run early).subscriber.deliver_cases event with ⟨hcut, hsame⟩ | ⟨-, -, hroom, -⟩ | ⟨-, -, hcut⟩
  · rw [hsame, hcut] at hthen
    exact absurd hthen Bool.false_ne_true
  · rw [Subscriber.hasRoom, run_capacity receiver early, hcapacity] at hroom
    exact of_decide_eq_true hroom
  · rw [hcut] at hthen
    exact absurd hthen Bool.false_ne_true

/-- No step publishes more than one event. -/
def OneByOne (steps : List Traffic.Step) : Prop :=
  ∀ events, .publish events ∈ steps → ∃ event, events = [event]

/-- A receiver that was cut off while it was there met an event with its buffer full. -/
theorem exists_cut (hsingle : OneByOne steps) (hfed : receiver.Fed events)
    (hcapacity : receiver.subscriber.capacity = some bound) (hconnected : receiver.subscriber.connected = true)
    (hreceiving : (receiver.run steps).subscriber.receiving = true)
    (hcut : (receiver.run steps).subscriber.connected = false) :
    ∃ early event late, steps = early ++ .publish [event] :: late ∧
      (receiver.run early).subscriber.connected = true ∧
      (receiver.run early).subscriber.pending.length = bound ∧
      (receiver.run (early ++ [.publish [event]])).subscriber.connected = false ∧
      (receiver.run steps).gained = (receiver.run early).gained := by
  induction steps generalizing receiver events with
  | nil => exact absurd (hconnected.symm.trans hcut) (by decide)
  | cons step rest ih =>
    have hstill : (receiver.step step).subscriber.receiving = true := ((run_receiving _ rest).mp hreceiving).1
    cases hnext : (receiver.step step).subscriber.connected with
    | true =>
      obtain ⟨early, event, late, rfl, hearly⟩ := ih (fun batch hbatch => hsingle batch (List.mem_cons_of_mem _ hbatch))
        (hfed.step step) ((receiver.step_capacity step).trans hcapacity) hnext hreceiving hcut
      exact ⟨step :: early, event, late, rfl, hearly⟩
    | false =>
      cases step with
      | subscribe capacity => exact absurd (hconnected.symm.trans hnext) (by decide)
      | publish batch =>
        obtain ⟨event, rfl⟩ := hsingle batch List.mem_cons_self
        have hthen : (receiver.subscriber.deliver event).connected = false := hnext
        rcases receiver.subscriber.deliver_cases event with ⟨hcut, -⟩ | ⟨-, -, -, hnew⟩ | ⟨-, hfull, hlost⟩
        · exact absurd (hconnected.symm.trans hcut) (by decide)
        · rw [hnew] at hthen
          exact absurd (hconnected.symm.trans hthen) (by decide)
        · have hroom := hfull ((receiver.step_receiving _).mp hstill).1
          rw [Subscriber.hasRoom, hcapacity] at hroom
          have hgained : (receiver.step (.publish [event])).gained = receiver.gained := by
            rw [Receiver.step, List.foldl_cons, List.foldl_nil, hlost]
            rfl
          exact ⟨[], event, rest, rfl, hconnected,
            le_antisymm (hfed.limited bound hcapacity) (not_lt.mp (of_decide_eq_false hroom)), hnext,
            (run_of_cut hnext rest).2.trans hgained⟩
      | receive reader most =>
        rw [Receiver.step] at hnext
        split at hnext
        · rw [Subscriber.drain_frame] at hnext
          exact absurd (hconnected.symm.trans hnext) (by decide)
        · exact absurd (hconnected.symm.trans hnext) (by decide)
      | drop reader =>
        rw [Receiver.step] at hnext
        split at hnext <;> exact absurd (hconnected.symm.trans hnext) (by decide)

/-! ### What concerns a receiver -/

/-- The same receiver under another ticket. -/
def retagged (receiver : Receiver) (ticket : Nat) : Receiver :=
  { receiver with subscriber.ticket := ticket }

theorem retagged_step (receiver : Receiver) (step : Traffic.Step) :
    (receiver.step step).retagged 0 = (receiver.retagged 0).run (step.concerning receiver.subscriber.ticket) := by
  cases step with
  | subscribe capacity => rfl
  | publish events =>
    exact congrArg (Receiver.mk · receiver.received) (Subscriber.foldl_deliver_retagged _ 0 events).symm
  | receive reader most =>
    rw [Receiver.step, Traffic.Step.concerning]
    split
    · cases most <;> rfl
    · rfl
  | drop reader =>
    rw [Receiver.step, Traffic.Step.concerning]
    split <;> rfl

theorem retagged_run (receiver : Receiver) (steps : List Traffic.Step) :
    (receiver.run steps).retagged 0 =
      (receiver.retagged 0).run (steps.flatMap (Traffic.Step.concerning receiver.subscriber.ticket)) := by
  induction steps generalizing receiver with
  | nil => rfl
  | cons step rest ih =>
    have hrest := ih (receiver.step step)
    rw [step_ticket, retagged_step, ← run_append] at hrest
    exact hrest

theorem run_singly (receiver : Receiver) (steps : List Traffic.Step) :
    receiver.run (steps.flatMap Traffic.Step.singly) = receiver.run steps := by
  induction steps generalizing receiver with
  | nil => rfl
  | cons step rest ih =>
    have hstep : receiver.run step.singly = receiver.step step := by
      cases step with
      | publish events =>
        induction events generalizing receiver with
        | nil => rfl
        | cons event batch ihbatch => exact ihbatch (receiver.step (.publish [event]))
      | _ => rfl
    rw [List.flatMap_cons, run_append, hstep, ih]
    rfl

theorem oneByOne_singly (steps : List Traffic.Step) : OneByOne (steps.flatMap Traffic.Step.singly) := by
  intro events hpublish
  obtain ⟨step, -, hstep⟩ := List.mem_flatMap.mp hpublish
  cases step with
  | publish batch =>
    obtain ⟨event, -, hevent⟩ := List.mem_map.mp hstep
    exact ⟨event, (Traffic.Step.publish.inj hevent).symm⟩
  | _ => simp [Traffic.Step.singly] at hstep

end Receiver

/-! ## The feed with its receivers -/

namespace Feed

theorem find?_update {feed : Feed} {reader ticket : Nat} {change : Subscriber → Subscriber}
    (hkeep : ∀ subscriber, subscriber.ticket = reader → (change subscriber).ticket = reader) :
    (feed.update reader change).find? ticket =
      (feed.find? ticket).map fun subscriber => if subscriber.ticket = reader then change subscriber else subscriber := by
  have htest : ((fun subscriber : Subscriber => decide (subscriber.ticket = ticket)) ∘
      fun subscriber => if subscriber.ticket = reader then change subscriber else subscriber)
        = fun subscriber => decide (subscriber.ticket = ticket) := by
    funext subscriber
    rw [Function.comp_apply]
    split
    next hreader => rw [hkeep subscriber hreader, hreader]
    next => rfl
  simp only [update, find?, List.find?_map, htest]

variable {feed : Feed} {ticket : Nat} {subscriber : Subscriber}

theorem ticket_of_find? (h : feed.find? ticket = some subscriber) : subscriber.ticket = ticket :=
  of_decide_eq_true (List.find?_some (p := fun subscriber : Subscriber => subscriber.ticket = ticket) h)

theorem drain_ticket (h : feed.find? ticket = some subscriber) (most : Option Nat) :
    (subscriber.drain most).2.2.ticket = ticket := by
  have hticket := ticket_of_find? h
  rw [Subscriber.drain_frame]
  exact hticket

theorem drain_eq (h : feed.find? ticket = some subscriber) (most : Option Nat) :
    feed.drain ticket most = ((subscriber.drain most).1, (subscriber.drain most).2.1,
      feed.update ticket fun _ => (subscriber.drain most).2.2) := by
  rw [drain, h]

theorem find?_drain (h : feed.find? ticket = some subscriber) (reader : Nat) (most : Option Nat) :
    (feed.drain reader most).2.2.find? ticket =
      some (if reader = ticket then (subscriber.drain most).2.2 else subscriber) := by
  have hticket := ticket_of_find? h
  split
  next hreader =>
    subst hreader
    rw [drain_eq h, find?_update fun _ _ => drain_ticket h most, h, Option.map_some, if_pos hticket]
  next hreader =>
    cases hother : feed.find? reader with
    | none => rw [drain, hother]; exact h
    | some other =>
      rw [drain_eq hother, find?_update fun _ _ => drain_ticket hother most, h, Option.map_some,
        if_neg (hticket ▸ Ne.symm hreader)]

theorem find?_drop (feed : Feed) (reader ticket : Nat) :
    (feed.drop reader).find? ticket = (feed.find? ticket).map fun subscriber =>
      if reader = ticket then { subscriber with receiving := false } else subscriber := by
  have hkeep : ∀ other : Subscriber, other.ticket = reader → ({ other with receiving := false } : Subscriber).ticket = reader :=
    fun other hreader => hreader
  rw [drop, find?_update hkeep]
  refine Option.map_congr fun subscriber hfind => ?_
  rw [ticket_of_find? hfind]
  simp only [eq_comm]

theorem find?_subscribe (h : feed.find? ticket = some subscriber) (capacity : Option Nat) :
    (feed.subscribe capacity).2.find? ticket = some subscriber := by
  have hold : feed.subscribers.find? (fun subscriber => subscriber.ticket = ticket) = some subscriber := h
  rw [subscribe, find?, List.find?_append, hold, Option.some_or]

end Feed

namespace Traffic

variable {traffic : Traffic} {ticket : Nat} {receiver : Receiver}

theorem run_append (traffic : Traffic) (early late : List Step) : traffic.run (early ++ late) = (traffic.run early).run late :=
  List.foldl_append

/-- The receiver with a ticket. -/
def receiver? (traffic : Traffic) (ticket : Nat) : Option Receiver :=
  (traffic.feed.find? ticket).map fun subscriber => ⟨subscriber, traffic.received ticket⟩

theorem receiver?_step (h : traffic.receiver? ticket = some receiver) (step : Step) :
    (traffic.step step).receiver? ticket = some (receiver.step step) := by
  obtain ⟨subscriber, hfind, rfl⟩ := Option.map_eq_some_iff.mp h
  have hticket := Feed.ticket_of_find? hfind
  cases step with
  | subscribe capacity => rw [receiver?, Traffic.step, Feed.find?_subscribe hfind]; rfl
  | publish events => rw [receiver?, Traffic.step, Feed.find?_publish, hfind]; rfl
  | receive reader most =>
    rw [receiver?, Traffic.step, Feed.find?_drain hfind, Option.map_some, Receiver.step]
    simp only [hticket]
    split
    next hreader =>
      subst hreader
      simp only [Feed.drain_eq hfind, Function.update_self]
    next hreader => simp only [Function.update_of_ne (Ne.symm hreader)]
  | drop reader =>
    rw [receiver?, Traffic.step, Feed.find?_drop, hfind, Option.map_some, Option.map_some, Receiver.step]
    simp only [hticket]
    split <;> rfl

theorem receiver?_run (h : traffic.receiver? ticket = some receiver) (steps : List Step) :
    (traffic.run steps).receiver? ticket = some (receiver.run steps) := by
  induction steps generalizing traffic receiver with
  | nil => exact h
  | cons step rest ih => exact ih (receiver?_step h step)

/-- Tickets not given out yet belong to nobody, and nothing is read with them. -/
def Tidy (traffic : Traffic) : Prop :=
  ∀ ticket, traffic.feed.nextTicket ≤ ticket → traffic.feed.find? ticket = none ∧ traffic.received ticket = []

theorem tidy_opened (limit : Nat) : (opened limit).Tidy :=
  fun _ _ => ⟨rfl, rfl⟩

theorem Tidy.step (h : traffic.Tidy) (step : Step) : (traffic.step step).Tidy := by
  cases step with
  | subscribe capacity =>
    intro ticket hticket
    obtain ⟨hfind, hreceived⟩ := h ticket (Nat.le_of_succ_le hticket)
    have hold : traffic.feed.subscribers.find? (fun subscriber => subscriber.ticket = ticket) = none := hfind
    have hnew : ¬traffic.feed.nextTicket = ticket := Nat.ne_of_lt hticket
    refine ⟨?_, hreceived⟩
    rw [Traffic.step, Feed.subscribe, Feed.find?, List.find?_append, hold]
    simp [hnew]
  | publish events =>
    intro ticket hticket
    have hnext : (traffic.feed.publish events).nextTicket = traffic.feed.nextTicket := by
      unfold Feed.publish
      split <;> rfl
    obtain ⟨hfind, hreceived⟩ := h ticket (hnext ▸ hticket)
    exact ⟨by rw [Traffic.step, Feed.find?_publish, hfind]; rfl, hreceived⟩
  | receive reader most =>
    cases hreader : traffic.feed.find? reader with
    | none =>
      have hdrain : traffic.feed.drain reader most = ([], .disconnected, traffic.feed) := by rw [Feed.drain, hreader]
      simpa [Traffic.step, hdrain] using h
    | some subscriber =>
      intro ticket hticket
      rw [Traffic.step, Feed.drain_eq hreader] at hticket ⊢
      obtain ⟨hfind, hreceived⟩ := h ticket hticket
      have hother : ticket ≠ reader := by
        rintro rfl
        exact Option.some_ne_none subscriber (hreader.symm.trans hfind)
      exact ⟨by rw [Feed.find?_update fun _ _ => Feed.drain_ticket hreader most, hfind]; rfl,
        (Function.update_of_ne hother _ _).trans hreceived⟩
  | drop reader =>
    intro ticket hticket
    obtain ⟨hfind, hreceived⟩ := h ticket hticket
    exact ⟨by rw [Traffic.step, Feed.find?_drop, hfind]; rfl, hreceived⟩

theorem Tidy.run (h : traffic.Tidy) (steps : List Step) : (traffic.run steps).Tidy := by
  induction steps generalizing traffic with
  | nil => exact h
  | cons step rest ih => exact ih (h.step step)

theorem Tidy.receiver?_subscribe (h : traffic.Tidy) (capacity : Option Nat) :
    (traffic.step (.subscribe capacity)).receiver? traffic.feed.nextTicket =
      some (Receiver.fresh traffic.feed.nextTicket capacity) := by
  obtain ⟨hfind, hreceived⟩ := h traffic.feed.nextTicket le_rfl
  have hold : traffic.feed.subscribers.find? (fun subscriber => subscriber.ticket = traffic.feed.nextTicket) = none := hfind
  rw [receiver?, Traffic.step, Feed.subscribe, Feed.find?, List.find?_append, hold, hreceived]
  simp [Receiver.fresh]

theorem step_limit (traffic : Traffic) (step : Step) : (traffic.step step).feed.limit = traffic.feed.limit := by
  cases step with
  | subscribe capacity => rfl
  | publish events =>
    rw [Traffic.step, Feed.publish]
    split <;> rfl
  | receive reader most =>
    rw [Traffic.step, Feed.drain]
    split <;> rfl
  | drop reader => rfl

theorem history_step {earlier : List ChangeEvent} (h : traffic.feed.history = earlier.rtake traffic.feed.limit)
    (step : Step) : (traffic.step step).feed.history = (earlier ++ step.events).rtake traffic.feed.limit := by
  cases step with
  | subscribe capacity => rwa [Step.events, List.append_nil]
  | publish events =>
    cases events with
    | nil => rwa [Step.events, List.append_nil]
    | cons event rest =>
      show (traffic.feed.history ++ event :: rest).drop _ = _
      rw [h]
      exact drop_end_append traffic.feed.limit earlier (event :: rest)
  | receive reader most =>
    have hdrain : (traffic.feed.drain reader most).2.2.history = traffic.feed.history := by
      unfold Feed.drain
      split <;> rfl
    rw [Step.events, List.append_nil, Traffic.step, hdrain, h]
  | drop reader => rwa [Step.events, List.append_nil]

theorem history_run {earlier : List ChangeEvent} (h : traffic.feed.history = earlier.rtake traffic.feed.limit)
    (steps : List Step) : (traffic.run steps).feed.history = (earlier ++ published steps).rtake traffic.feed.limit := by
  induction steps generalizing traffic earlier with
  | nil => rwa [published, List.flatMap_nil, List.append_nil]
  | cons step rest ih =>
    rw [published, List.flatMap_cons, ← List.append_assoc, ← step_limit traffic step]
    exact ih (step_limit traffic step ▸ history_step h step)

theorem published_append (early late : List Step) : published (early ++ late) = published early ++ published late :=
  List.flatMap_append

theorem published_singly (steps : List Step) : published (steps.flatMap Step.singly) = published steps := by
  have hstep : ∀ step : Step, step.singly.flatMap Step.events = step.events := by
    intro step
    cases step with
    | publish events => simp [Step.singly, Step.events, List.flatMap_map]
    | _ => rfl
  simp only [published, List.flatMap_assoc, hstep]

end Traffic

/-! ## What a subscription gets -/

/-- A receiver with its past: on a feed that keeps a history of `limit` events it subscribed, after some steps, with a buffer for `capacity` events. -/
structure Subscription where
  limit : Nat
  before : List Traffic.Step
  capacity : Option Nat

namespace Subscription

variable (subscription : Subscription) (steps : List Traffic.Step)

def opened : Traffic :=
  (Traffic.opened subscription.limit).run subscription.before

/-- The ticket that it was given. -/
def ticket : Nat :=
  (subscription.opened.feed.subscribe subscription.capacity).1

/-- The feed after steps since the subscription. -/
def after : Traffic :=
  subscription.opened.run (.subscribe subscription.capacity :: steps)

def receiver? : Option Receiver :=
  (subscription.after steps).receiver? subscription.ticket

/-- What it has read. -/
def received : List ChangeEvent :=
  (subscription.receiver? steps).elim [] (·.received)

/-- What it has not read yet. -/
def buffered : List ChangeEvent :=
  (subscription.receiver? steps).elim [] (·.subscriber.pending)

/-- Whether the feed still delivers to it. -/
def connected : Bool :=
  (subscription.receiver? steps).any (·.subscriber.connected)

/-- What of the steps concerns the receiver, said as if it were the first. -/
def own : List Traffic.Step :=
  steps.flatMap (Traffic.Step.concerning subscription.ticket)

/-- The only subscription to a new feed. -/
def alone (capacity : Option Nat) : Subscription :=
  ⟨0, [], capacity⟩

end Subscription

/-- What a receiver can rely on after the steps since it subscribed. -/
structure Delivery (subscription : Subscription) (since : List Traffic.Step) : Prop where
  present : (subscription.receiver? since).isSome = true
  in_order : subscription.received since ++ subscription.buffered since <+: Traffic.published since
  complete : subscription.connected since = true →
    subscription.received since ++ subscription.buffered since = Traffic.published since
  unlimited : subscription.capacity = none → .drop subscription.ticket ∉ since → subscription.connected since = true
  /-- A batch is received as if its events were published one by one. -/
  singly : subscription.receiver? (since.flatMap Traffic.Step.singly) = subscription.receiver? since
  /-- While it stays connected, no event finds the buffer full. -/
  kept_up : ∀ bound, subscription.capacity = some bound → subscription.connected since = true →
    ∀ early event late, since.flatMap Traffic.Step.singly = early ++ .publish [event] :: late →
      (subscription.buffered early).length < bound
  /-- It is cut off by an event that finds the buffer full, and that is the first event that it does not get. -/
  cut_off : ∀ bound, subscription.capacity = some bound → .drop subscription.ticket ∉ since →
    subscription.connected since = false →
    ∃ early event late, since.flatMap Traffic.Step.singly = early ++ .publish [event] :: late ∧
      subscription.connected early = true ∧ (subscription.buffered early).length = bound ∧
      subscription.connected (early ++ [.publish [event]]) = false ∧
      subscription.received since ++ subscription.buffered since = Traffic.published early
  /-- Without any room, the first event cuts it off. -/
  no_room : subscription.capacity = some 0 → .drop subscription.ticket ∉ since →
    (subscription.connected since = true ↔ Traffic.published since = [])
  /-- A reading gives the front of the buffer, also after the cut. -/
  reads : ∀ most, ((subscription.after since).feed.drain subscription.ticket most).1 =
    (subscription.buffered since).take (most.getD (subscription.buffered since).length)
  /-- Only who asks for more than the buffer holds is told of the cut. -/
  ends : ∀ most, ((subscription.after since).feed.drain subscription.ticket most).2.1 = .disconnected ↔
    subscription.connected since = false ∧ ∀ number, most = some number → (subscription.buffered since).length < number
  /-- What other receivers do makes no difference, nor what happened before. -/
  as_alone :
    subscription.received since = (Subscription.alone subscription.capacity).received (subscription.own since) ∧
    subscription.buffered since = (Subscription.alone subscription.capacity).buffered (subscription.own since) ∧
    subscription.connected since = (Subscription.alone subscription.capacity).connected (subscription.own since)
  /-- The history is the end of what was published, also before. -/
  recent : (subscription.after since).feed.history =
    (Traffic.published subscription.before ++ Traffic.published since).rtake subscription.limit

namespace Subscription

variable {subscription : Subscription} {since early late : List Traffic.Step}

/-- The receiver by itself. -/
def holder (subscription : Subscription) (since : List Traffic.Step) : Receiver :=
  (Receiver.fresh subscription.ticket subscription.capacity).run since

theorem receiver?_eq (subscription : Subscription) (since : List Traffic.Step) :
    subscription.receiver? since = some (subscription.holder since) :=
  Traffic.receiver?_run (((Traffic.tidy_opened subscription.limit).run subscription.before).receiver?_subscribe
    subscription.capacity) since

theorem received_eq (subscription : Subscription) (since : List Traffic.Step) :
    subscription.received since = (subscription.holder since).received := by
  rw [received, receiver?_eq]
  rfl

theorem buffered_eq (subscription : Subscription) (since : List Traffic.Step) :
    subscription.buffered since = (subscription.holder since).subscriber.pending := by
  rw [buffered, receiver?_eq]
  rfl

theorem connected_eq (subscription : Subscription) (since : List Traffic.Step) :
    subscription.connected since = (subscription.holder since).subscriber.connected := by
  rw [connected, receiver?_eq]
  rfl

theorem gained_eq (subscription : Subscription) (since : List Traffic.Step) :
    subscription.received since ++ subscription.buffered since = (subscription.holder since).gained := by
  rw [received_eq, buffered_eq, Receiver.gained]

theorem holder_fed (subscription : Subscription) (since : List Traffic.Step) :
    (subscription.holder since).Fed (Traffic.published since) :=
  (Receiver.fed_fresh subscription.ticket subscription.capacity).run since

theorem holder_receiving (hstays : .drop subscription.ticket ∉ since) :
    (subscription.holder since).subscriber.receiving = true :=
  (Receiver.run_receiving _ since).mpr ⟨rfl, hstays⟩

theorem kept_up {bound : Nat} {event : ChangeEvent} (hcapacity : subscription.capacity = some bound)
    (hconnected : subscription.connected since = true)
    (hsplit : since.flatMap Traffic.Step.singly = early ++ .publish [event] :: late) :
    (subscription.buffered early).length < bound := by
  rw [connected_eq, holder, ← Receiver.run_singly, hsplit] at hconnected
  rw [buffered_eq]
  exact Receiver.room_of_connected hcapacity hconnected

theorem cut_off {bound : Nat} (hcapacity : subscription.capacity = some bound)
    (hstays : .drop subscription.ticket ∉ since) (hcut : subscription.connected since = false) :
    ∃ early event late, since.flatMap Traffic.Step.singly = early ++ .publish [event] :: late ∧
      subscription.connected early = true ∧ (subscription.buffered early).length = bound ∧
      subscription.connected (early ++ [.publish [event]]) = false ∧
      subscription.received since ++ subscription.buffered since = Traffic.published early := by
  have hreceiving := holder_receiving hstays
  rw [connected_eq] at hcut
  rw [holder, ← Receiver.run_singly] at hreceiving hcut
  obtain ⟨early, event, late, hsplit, hconnected, hfull, hthen, hgained⟩ := Receiver.exists_cut
    (Receiver.oneByOne_singly since) (Receiver.fed_fresh subscription.ticket subscription.capacity) hcapacity rfl hreceiving hcut
  rw [Receiver.run_singly] at hgained
  refine ⟨early, event, late, hsplit, by rwa [connected_eq], by rwa [buffered_eq], by rwa [connected_eq], ?_⟩
  rw [gained_eq]
  exact hgained.trans ((holder_fed subscription early).complete hconnected)

theorem no_room (hcapacity : subscription.capacity = some 0) (hstays : .drop subscription.ticket ∉ since) :
    subscription.connected since = true ↔ Traffic.published since = [] := by
  rw [← Traffic.published_singly]
  constructor
  · intro hconnected
    refine List.eq_nil_iff_forall_not_mem.mpr fun event hevent => ?_
    obtain ⟨step, hstep, hmem⟩ := List.mem_flatMap.mp hevent
    obtain ⟨early, late, hsplit⟩ := List.append_of_mem hstep
    cases step with
    | publish events =>
      obtain ⟨first, rfl⟩ := Receiver.oneByOne_singly since events hstep
      exact Nat.not_lt_zero _ (kept_up hcapacity hconnected hsplit)
    | _ => exact nomatch hmem
  · intro hsilent
    by_contra hcut
    obtain ⟨early, event, late, hsplit, -⟩ := cut_off hcapacity hstays (Bool.eq_false_iff.mpr hcut)
    rw [hsplit, Traffic.published_append] at hsilent
    exact absurd (List.append_eq_nil_iff.mp hsilent).2 (List.cons_ne_nil event _)

theorem drain_eq (subscription : Subscription) (since : List Traffic.Step) (most : Option Nat) :
    ∃ subscriber : Subscriber, subscriber.pending = subscription.buffered since ∧ subscriber.connected = subscription.connected since ∧
      ((subscription.after since).feed.drain subscription.ticket most).1 = (subscriber.drain most).1 ∧
      ((subscription.after since).feed.drain subscription.ticket most).2.1 = (subscriber.drain most).2.1 := by
  obtain ⟨subscriber, hfind, hreceiver⟩ := Option.map_eq_some_iff.mp (receiver?_eq subscription since)
  refine ⟨subscriber, ?_, ?_, by rw [Feed.drain_eq hfind], by rw [Feed.drain_eq hfind]⟩
  · rw [buffered_eq, ← hreceiver]
  · rw [connected_eq, ← hreceiver]

/-- A receiver gets what it would get if it were the only one. -/
theorem retagged_eq (subscription : Subscription) (since : List Traffic.Step) :
    (subscription.holder since).retagged 0 =
      (alone subscription.capacity).holder (subscription.own since) :=
  Receiver.retagged_run _ since

/-- The feed delivers to each receiver as if there were no other. -/
theorem delivery (subscription : Subscription) (since : List Traffic.Step) : Delivery subscription since where
  present := by rw [receiver?_eq]; rfl
  in_order := by rw [gained_eq]; exact (holder_fed subscription since).in_order
  complete := by rw [gained_eq, connected_eq]; exact (holder_fed subscription since).complete
  unlimited hcapacity hstays := by
    rw [connected_eq]
    exact (holder_fed subscription since).unlimited ((Receiver.run_capacity _ since).trans hcapacity) (holder_receiving hstays)
  singly := by rw [receiver?_eq, receiver?_eq, holder, Receiver.run_singly, holder]
  kept_up bound hcapacity hconnected early event late hsplit := kept_up hcapacity hconnected hsplit
  cut_off bound hcapacity hstays hcut := cut_off hcapacity hstays hcut
  no_room := no_room
  reads most := by
    obtain ⟨subscriber, hbuffered, -, hevents, -⟩ := drain_eq subscription since most
    rw [hevents, Subscriber.drain_events, hbuffered]
  ends most := by
    obtain ⟨subscriber, hbuffered, hconnected, -, hend⟩ := drain_eq subscription since most
    rw [hend, Subscriber.drain_end, hbuffered, hconnected]
  as_alone := by
    have halone := retagged_eq subscription since
    refine ⟨?_, ?_, ?_⟩
    · rw [received_eq, received_eq]
      exact congrArg (·.received) halone
    · rw [buffered_eq, buffered_eq]
      exact congrArg (·.subscriber.pending) halone
    · rw [connected_eq, connected_eq]
      exact congrArg (·.subscriber.connected) halone
  recent := by
    have hnew : (Traffic.opened subscription.limit).feed.history = ([] : List ChangeEvent).rtake subscription.limit :=
      (List.drop_nil).symm
    have hhistory := Traffic.history_run hnew (subscription.before ++ .subscribe subscription.capacity :: since)
    rwa [List.nil_append, Traffic.published_append, Traffic.run_append] at hhistory

/-- The second event of a batch may be the one that cuts off. -/
example :
    (alone (some 1)).buffered [.publish [⟨"a", none, none⟩, ⟨"b", none, none⟩, ⟨"c", none, none⟩]] = [⟨"a", none, none⟩] :=
  rfl

end Subscription

end RevisionForest
