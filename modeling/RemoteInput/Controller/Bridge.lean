import RemoteInput.Controller.Semantics
import RemoteInput.Lib.Wakeup

/-!
# Threads on the controller's queue

`InputQueue.put` in its two steps, `Controller.sender` up to each place where the hook thread can come in, and the handlers
that clear the queue. A controller has a sender for each connection, one after the other.
-/

namespace RemoteInput

/-- Where `sender` stands: before `pop`, with an event, and in the handler of `Overload`. -/
inductive SenderPoint where
  | popping
  | popped (event : Event)
  | stopping
  deriving DecidableEq

/-- The calls that clear the queue. -/
inductive Clearing where
  | stop
  | activate (env : ControllerEnv)
  | disconnect

namespace Controller

/-- The locked section of `put(event)`; the producer keeps `empty or not ok`. -/
def putQueue (input : Time × Event) (c : Controller) : Controller × Bool :=
  ({ c with queue := (c.queue.put input.1 input.2).queue }, (c.queue.put input.1 input.2).wake)

def clearing : Clearing → Controller → Controller
  | .stop, c => c.stopControl
  | .activate env, c => c.activate env
  | .disconnect, c => c.disconnect

/-- `sender` from one point to the next. -/
def senderTurn (env : ControllerEnv) (point : SenderPoint) (c : Controller) : Controller × Wakeup.Turn SenderPoint :=
  match point with
  | .popping =>
      match c.queue.pop env.now with
      | (queue, .overload) => ({ c with queue := queue }, .next .stopping)
      | (queue, .empty) => ({ c with queue := queue }, .wait)
      | (queue, .item item _) => ({ c with queue := queue }, .next (.popped item.event))
  | .popped event => (if c.epoch = 0 ∨ event.epoch ≠ c.epoch then c else c.send env event, .next .popping)
  | .stopping => (c.stopControl, .wait)

def bridge : Wakeup.Bridge Controller (Time × Event) Bool Clearing SenderPoint ControllerEnv where
  put := putQueue
  wakes _ wake := wake
  other := clearing
  first := .popping
  drain := senderTurn
  restarts := true

/-- The state after a run from a controller without a sender. -/
def runBridge (c : Controller) (actions : List (Wakeup.Action (Time × Event) Clearing ControllerEnv)) :
    Option (Wakeup.State Controller Bool SenderPoint) := Runs.exec bridge.step { shared := c, consumer := .ended } actions

/-- A pass of `sender` is a turn, and one more unless the queue was empty. -/
theorem sender_turns (env : ControllerEnv) (c : Controller) :
    c.sender env = match c.senderTurn env .popping with
      | (c, .next point) => (c.senderTurn env point).1
      | (c, _) => c := by
  unfold sender senderTurn
  dsimp only
  rcases c.queue.pop env.now with ⟨queue, _ | _ | _⟩ <;> rfl

end Controller

end RemoteInput
