import RemoteInput.Wire.Queueing

/-!
# Runs of the queue

The calls of one queue, each at a reading of its clock, with the events that `put` has accepted and those that `pop` has
returned since the last `clear`.
-/

namespace RemoteInput

inductive QueueOp where
  | put (now : Time) (event : Event)
  | pop (now : Time)
  | clear

/-- What `pop` returned at a reading of the clock. -/
structure Popped where
  now : Time
  event : Event
  age : Time
  deriving DecidableEq

structure QueueRun where
  queue : InputQueue
  accepted : List (Time × Event) := []
  popped : List Popped := []

namespace QueueRun

def step (r : QueueRun) : QueueOp → QueueRun
  | .put now event =>
      let put := r.queue.put now event
      { r with queue := put.queue, accepted := if put.ok then r.accepted ++ [(now, event)] else r.accepted }
  | .pop now =>
      match r.queue.pop now with
      | (queue, .item item age) => { r with queue := queue, popped := r.popped ++ [⟨now, item.event, age⟩] }
      | (queue, _) => { r with queue := queue }
  | .clear => { queue := r.queue.clear }

/-- A run from a cleared queue. -/
def exec (q : InputQueue) (ops : List QueueOp) : QueueRun := ops.foldl step { queue := q.clear }

theorem exec_concat (q : InputQueue) (ops : List QueueOp) (op : QueueOp) : exec q (ops ++ [op]) = (exec q ops).step op :=
  List.foldl_concat ..

/-- The call failed: `put` returned false, or `pop` raised `Overload`. -/
def Fails (r : QueueRun) : QueueOp → Prop
  | .put now event => (r.queue.put now event).ok = false
  | .pop now => (r.queue.pop now).2 = .overload
  | .clear => False

end QueueRun

/-- The reading of the clock that a call makes. -/
def QueueOp.readings : QueueOp → List Time
  | .put now _ | .pop now => [now]
  | .clear => []

end RemoteInput
