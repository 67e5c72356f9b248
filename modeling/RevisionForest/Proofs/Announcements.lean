import RevisionForest.Feed
/-!
# Announcements add up

Publishing lets lists of events act on feeds: to publish nothing changes nothing, and to publish one list after another is to publish both at once. So a feed does not show whether its events came from one commit or from many. A subscriber who is there, is connected and has no limit misses nothing of it.
-/

namespace RevisionForest

theorem drop_end_append {α : Type} (kept : Nat) (early late : List α) :
    (early.drop (early.length - kept) ++ late).drop ((early.drop (early.length - kept) ++ late).length - kept)
      = (early ++ late).drop ((early ++ late).length - kept) := by
  have hjoin : early.drop (early.length - kept) ++ late = (early ++ late).drop (early.length - kept) :=
    (List.drop_append_of_le_length (Nat.sub_le _ _)).symm
  rw [hjoin, List.drop_drop, List.length_drop]
  congr 1
  rw [List.length_append]
  omega

namespace Subscriber

theorem deliver_ticket (subscriber : Subscriber) (event : ChangeEvent) :
    (subscriber.deliver event).ticket = subscriber.ticket := by
  unfold deliver
  split
  · split <;> rfl
  · rfl

theorem foldl_deliver_ticket (subscriber : Subscriber) (events : List ChangeEvent) :
    (events.foldl deliver subscriber).ticket = subscriber.ticket := by
  induction events generalizing subscriber with
  | nil => rfl
  | cons event rest ih => rw [List.foldl_cons, ih, deliver_ticket]

theorem foldl_deliver_of_open (subscriber : Subscriber) (hunlimited : subscriber.capacity = none)
    (hconnected : subscriber.connected = true) (hreceiving : subscriber.receiving = true) (events : List ChangeEvent) :
    events.foldl deliver subscriber = { subscriber with pending := subscriber.pending ++ events } := by
  induction events generalizing subscriber with
  | nil => rw [List.foldl_nil, List.append_nil]
  | cons event rest ih =>
    have hdeliver : subscriber.deliver event = { subscriber with pending := subscriber.pending ++ [event] } := by
      simp [deliver, hasRoom, hunlimited, hconnected, hreceiving]
    have hrest := ih { subscriber with pending := subscriber.pending ++ [event] } hunlimited hconnected hreceiving
    rw [List.foldl_cons, hdeliver, hrest, List.append_assoc, List.singleton_append]

end Subscriber

namespace Feed

@[simp]
theorem publish_nil (feed : Feed) : feed.publish [] = feed :=
  rfl

theorem publish_append (feed : Feed) (early late : List ChangeEvent) :
    feed.publish (early ++ late) = (feed.publish early).publish late := by
  match early, late with
  | [], late => rfl
  | early, [] => rw [List.append_nil, publish_nil]
  | first :: early, second :: late =>
    simp only [publish, List.cons_append, List.isEmpty_cons, Bool.false_eq_true, ↓reduceIte, List.map_map]
    rw [drop_end_append]
    simp [Function.comp_def]

theorem find?_publish (feed : Feed) (events : List ChangeEvent) (ticket : Nat) :
    (feed.publish events).find? ticket = (feed.find? ticket).map fun subscriber => events.foldl Subscriber.deliver subscriber := by
  cases events with
  | nil => simp
  | cons event rest =>
    have htest : ((fun subscriber : Subscriber => decide (subscriber.ticket = ticket)) ∘
        fun subscriber => (event :: rest).foldl Subscriber.deliver subscriber)
          = fun subscriber => decide (subscriber.ticket = ticket) := by
      funext subscriber
      rw [Function.comp_apply, Subscriber.foldl_deliver_ticket]
    simp only [publish, List.isEmpty_cons, Bool.false_eq_true, ↓reduceIte, find?, List.find?_map, htest]

theorem drain_of_find? {feed : Feed} {ticket : Nat} {subscriber : Subscriber} (h : feed.find? ticket = some subscriber) :
    feed.drain ticket none = (subscriber.pending, if subscriber.connected then .empty else .disconnected,
      feed.update ticket fun _ => { subscriber with pending := [] }) := by
  rw [drain, h]
  rfl

end Feed

end RevisionForest
