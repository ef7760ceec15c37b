import RemoteInput.Wire.Config
import RemoteInput.Wire.Protocol

/-!
# The bounded input queue of `queueing.py`

Each item also carries the accepted events it stands for. The code keeps only the merged event; no definition here
reads the list to decide anything.
-/

namespace RemoteInput

/-- A queued event, the time of its oldest constituent, and the accepted events merged into it, oldest first. -/
structure Item where
  event : Event
  entered : Time
  parts : List Event
  deriving DecidableEq

/-- `InputQueue`. -/
structure InputQueue where
  items : List Item := []
  limit : Nat := queueLimit
  maxAge : Time := maxQueueAge
  failed : Bool := false
  deriving DecidableEq

/-- What `put` leaves, returns, and whether it calls `wake`. -/
structure Put where
  queue : InputQueue
  ok : Bool
  wake : Bool

/-- What `pop` returns; `overload` is the exception `Overload`. -/
inductive Pop where
  | overload
  | empty
  | item (item : Item) (age : Time)
  deriving DecidableEq

/-- Adjacent moves of one epoch are merged. -/
def Event.coalesces (last event : Event) : Prop :=
  event.op = .move ∧ last.op = .move ∧ last.epoch = event.epoch

instance (last event : Event) : Decidable (last.coalesces event) :=
  inferInstanceAs (Decidable (_ ∧ _))

/-- The merged move: the deltas add up, every other field is the last one's. -/
def Event.merge (last event : Event) : Event :=
  { event with a := last.a + event.a, b := last.b + event.b }

/-- The sum of two moves that the queue gives up on. -/
def Event.outOfRange (event : Event) : Prop := max |event.a| |event.b| > 1000000

instance (event : Event) : Decidable event.outOfRange :=
  inferInstanceAs (Decidable (_ > _))

namespace InputQueue

/-- Drop everything and refuse further events until `clear`. -/
def fail (q : InputQueue) : InputQueue := { q with items := [], failed := true }

/-- `clear()`. -/
def clear (q : InputQueue) : InputQueue := { q with items := [], failed := false }

/-- The head has waited longer than `max_age`. -/
def headExpired (q : InputQueue) (now : Time) : Prop :=
  ∃ it ∈ q.items.head?, now - it.entered > q.maxAge

instance (q : InputQueue) (now : Time) : Decidable (q.headExpired now) :=
  match h : q.items.head? with
  | none => isFalse (by simp [headExpired, h])
  | some it => decidable_of_iff (now - it.entered > q.maxAge) (by simp [headExpired, h])

/-- The tail that `event` is merged into. -/
def mergeTail (q : InputQueue) (event : Event) : Option Item :=
  q.items.getLast?.filter (fun last => last.event.coalesces event)

/-- The locked section of `put` on a queue that has not failed. -/
def accept (q : InputQueue) (now : Time) (event : Event) : InputQueue :=
  if q.headExpired now then q.fail
  else match q.mergeTail event with
    | some last =>
        if (last.event.merge event).outOfRange then q.fail
        -- The new sequence number and stamp acknowledge the last constituent; the age remains the oldest.
        else { q with items := q.items.dropLast ++
                 [⟨last.event.merge event, last.entered, last.parts ++ [event]⟩] }
    | none =>
        if q.items.length ≥ q.limit then q.fail
        else { q with items := q.items ++ [⟨event, now, [event]⟩] }

/-- `put(event)` at clock reading `now`. -/
def put (q : InputQueue) (now : Time) (event : Event) : Put :=
  if q.failed then ⟨q, false, false⟩
  else
    let q' := q.accept now event
    ⟨q', !q'.failed, q.items.isEmpty || q'.failed⟩

/-- `pop()` at clock reading `now`. -/
def pop (q : InputQueue) (now : Time) : InputQueue × Pop :=
  if q.failed then (q, .overload)
  else match q.items with
    | [] => (q, .empty)
    | it :: rest =>
        if now - it.entered > q.maxAge then (q.fail, .overload)
        else ({ q with items := rest }, .item it (now - it.entered))

end InputQueue

end RemoteInput
