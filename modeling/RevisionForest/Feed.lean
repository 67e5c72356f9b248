import RevisionForest.Event

/-!
# The change feed

Committed events go to every subscriber, in order, and into a history of limited length. A subscriber with a limited buffer that is full when an event comes is disconnected at that event, and so is one whose receiver is gone; it gets nothing of the rest of the batch. What it has buffered stays readable. No subscriber affects another.
-/

namespace RevisionForest

structure Subscriber where
  ticket : Nat
  /-- How many events it can hold unread; no limit if absent. -/
  capacity : Option Nat
  /-- The events not read yet. -/
  pending : List ChangeEvent
  /-- Whether the feed still delivers to it. -/
  connected : Bool
  /-- Whether its receiver still exists. -/
  receiving : Bool
  deriving DecidableEq

structure Feed where
  /-- How many events the history keeps. -/
  limit : Nat
  history : List ChangeEvent := []
  subscribers : List Subscriber := []
  /-- The ticket of the next subscriber. -/
  nextTicket : Nat := 0
  deriving DecidableEq

/-- How a reading of events ended. -/
inductive DrainEnd where
  | empty
  | disconnected
  /-- As many events as wanted were read. -/
  | more
  deriving DecidableEq

namespace Subscriber

def hasRoom (subscriber : Subscriber) : Bool :=
  match subscriber.capacity with
  | none => true
  | some capacity => subscriber.pending.length < capacity

def deliver (subscriber : Subscriber) (event : ChangeEvent) : Subscriber :=
  if subscriber.connected then
    if subscriber.receiving && subscriber.hasRoom then
      { subscriber with pending := subscriber.pending ++ [event] }
    else
      { subscriber with connected := false }
  else
    subscriber

/-- Read up to `most` events, all if no number is given. -/
def drain (subscriber : Subscriber) (most : Option Nat) : List ChangeEvent × DrainEnd × Subscriber :=
  let silent := if subscriber.connected then DrainEnd.empty else .disconnected
  match most with
  | none => (subscriber.pending, silent, { subscriber with pending := [] })
  | some most =>
    (subscriber.pending.take most,
      if most ≤ subscriber.pending.length then .more else silent,
      { subscriber with pending := subscriber.pending.drop most })

end Subscriber

namespace Feed

/-- Receive every event published from now on. -/
def subscribe (feed : Feed) (capacity : Option Nat) : Nat × Feed :=
  (feed.nextTicket,
    { feed with
      subscribers := feed.subscribers ++ [⟨feed.nextTicket, capacity, [], true, true⟩]
      nextTicket := feed.nextTicket + 1 })

def find? (feed : Feed) (ticket : Nat) : Option Subscriber :=
  feed.subscribers.find? fun subscriber => subscriber.ticket = ticket

def update (feed : Feed) (ticket : Nat) (change : Subscriber → Subscriber) : Feed :=
  { feed with subscribers := feed.subscribers.map fun subscriber =>
      if subscriber.ticket = ticket then change subscriber else subscriber }

/-- Drop a receiver; the feed notices at the next event. -/
def drop (feed : Feed) (ticket : Nat) : Feed :=
  feed.update ticket fun subscriber => { subscriber with receiving := false }

/-- Read events that a subscriber has received. -/
def drain (feed : Feed) (ticket : Nat) (most : Option Nat) : List ChangeEvent × DrainEnd × Feed :=
  match feed.find? ticket with
  | none => ([], .disconnected, feed)
  | some subscriber =>
    let (events, ending, rest) := subscriber.drain most
    (events, ending, feed.update ticket fun _ => rest)

/-- Announce events, in order; without an event nothing happens. -/
def publish (feed : Feed) (events : List ChangeEvent) : Feed :=
  if events.isEmpty then feed
  else
    let history := feed.history ++ events
    { feed with
      history := history.drop (history.length - feed.limit)
      subscribers := feed.subscribers.map fun subscriber => events.foldl Subscriber.deliver subscriber }

/-- A feed without history that delivers to nobody; what earlier subscribers have buffered stays readable. -/
def restart (feed : Feed) : Feed :=
  { feed with
    history := []
    subscribers := feed.subscribers.map fun subscriber => { subscriber with connected := false } }

/-- The subscribers that the feed still delivers to. -/
def count (feed : Feed) : Nat :=
  feed.subscribers.countP (·.connected)

end Feed

end RevisionForest
