import RemoteInput.Controller.Semantics
import RemoteInput.Lib.Runs

/-!
# The controller's two threads

The hook thread calls `toggle`, `enqueue` and `stop_control`, the event loop runs everything else and `stop_control` too.
Here a step is one call of `capture.set_active`, one read or write of `epoch` or `pending_epoch`, or one operation of the
queue. A callback of a hook event holds the policy's lock, for which `set_active` has to wait. Handlers of the loop that
write none of these are one step.
-/

namespace RemoteInput

/-- The next statement of `stop_control`, or of the `finally` of a connection. `mark` is how many activations had begun when
`pending_epoch` was cleared. -/
inductive StopPoint where
  | capture
  | connection
  | epoch
  | pending
  | queue (mark : Nat)
  | schedule (mark : Nat)
  deriving DecidableEq

/-- Where the hook thread stands. -/
inductive HookPoint where
  | idle
  | toggle
  | toggling
  | enqueue (input : Input)
  | enqueuing (input : Input)
  | putting (event : Event)
  | stopping (point : StopPoint)
  deriving DecidableEq

/-- Where the event loop stands. From `checked` to `requesting` it is in the branch of `reader` for `activated`. -/
inductive LoopPoint where
  | idle
  | activate
  | activating
  | drawing
  | clearing
  | sending
  | activated (epoch : Nat)
  | compared
  | checked
  | loaded (epoch activation : Nat)
  | assigned (activation : Nat)
  | requesting (activation : Nat)
  | popped (event : Event)
  | matching (event : Event)
  | stopping (closing : Bool) (point : StopPoint)
  deriving DecidableEq

/-- A call of `set_active(True)` for the n-th activation, and a stop that is done with the activations up to the n-th. -/
inductive StopDeed where
  | requested (activation : Nat)
  | stopped (activation : Nat)
  deriving DecidableEq

/-- `Controller` and its threads. `begun` and `deeds` are there for the reader of the model. -/
structure ControllerThreads where
  controller : Controller := {}
  hook : HookPoint := .idle
  /-- The hook thread holds the policy's lock. -/
  locked : Bool := false
  loop : LoopPoint := .idle
  begun : Nat := 0
  deeds : List StopDeed := []

namespace ControllerThreads

/-- One statement of `stop_control`, or of the `finally` of a connection, and the next one. -/
def stop (closing : Bool) (t : ControllerThreads) : StopPoint → ControllerThreads × Option StopPoint
  | .capture =>
      ({ t with controller := { t.controller with active := false } }, some (if closing then .connection else .epoch))
  | .connection => ({ t with controller := { t.controller with connected := false } }, some .epoch)
  | .epoch => ({ t with controller := { t.controller with epoch := 0 } }, some .pending)
  | .pending => ({ t with controller := { t.controller with pendingEpoch := 0 } }, some (.queue t.begun))
  | .queue mark =>
      if closing then
        ({ t with controller := { t.controller with lease := 0, outbox := none, queue := t.controller.queue.clear },
                  deeds := t.deeds ++ [.stopped mark] }, none)
      else ({ t with controller := { t.controller with queue := t.controller.queue.clear } }, some (.schedule mark))
  | .schedule mark =>
      ({ t with controller := t.controller.schedule .sendReset, deeds := t.deeds ++ [.stopped mark] }, none)

/-! ## The hook thread -/

/-- The hook thread goes on, or its callback returns. -/
def hookTo (point : HookPoint) (t : ControllerThreads) : ControllerThreads :=
  { t with hook := point, locked := if point = .idle then false else t.locked }

/-- One step of the hook thread; `none` when it is idle. -/
def hookStep (env : ControllerEnv) (t : ControllerThreads) : Option ControllerThreads :=
  let c := t.controller
  match t.hook with
  | .idle => none
  | .toggle => some (t.hookTo (if c.epoch ≠ 0 then .stopping .capture else .toggling))
  | .toggling =>
      if c.pendingEpoch ≠ 0 then some (t.hookTo (.stopping .capture))
      else some ({ t with controller := c.schedule .activate }.hookTo .idle)
  | .enqueue input => some (t.hookTo (if c.connected = false ∨ c.epoch = 0 then .idle else .enqueuing input))
  | .enqueuing input => some (t.hookTo (.putting { input.event with epoch := c.epoch }))
  | .putting event =>
      let put := c.queue.put env.now event
      some ({ t with controller := { c with queue := put.queue } }.hookTo (if put.ok then .idle else .stopping .capture))
  | .stopping point =>
      let (t, next) := t.stop false point
      some (t.hookTo (next.elim .idle .stopping))

/-! ## The event loop -/

def loopTo (point : LoopPoint) (t : ControllerThreads) : ControllerThreads := { t with loop := point }

/-- One step of the event loop; `none` when it is idle or has to wait for the lock. -/
def loopStep (env : ControllerEnv) (t : ControllerThreads) : Option ControllerThreads :=
  let c := t.controller
  match t.loop with
  | .idle => none
  | .activate => some (t.loopTo (if c.epoch ≠ 0 then .idle else .activating))
  | .activating =>
      some (t.loopTo (if c.pendingEpoch ≠ 0 ∨ c.connected = false ∨ c.lease = 0 ∨
        env.now - c.leaseReceived ≥ c.network.timeout then .idle else .drawing))
  | .drawing =>
      some ({ t with controller := { c with pendingEpoch := orOne env.bits,
                                            activateDeadline := env.now + c.network.inputTimeout },
                     begun := t.begun + 1 }.loopTo .clearing)
  | .clearing => some ({ t with controller := { c with queue := c.queue.clear } }.loopTo .sending)
  | .sending => some ({ t with controller := c.send env { op := .activate, epoch := c.pendingEpoch } }.loopTo .idle)
  | .activated epoch =>
      if epoch ≠ c.pendingEpoch then some ({ t with controller := c.sendReset env }.loopTo .idle)
      else some (t.loopTo .compared)
  | .compared =>
      if c.pendingEpoch = 0 then some ({ t with controller := c.sendReset env }.loopTo .idle)
      else some (t.loopTo .checked)
  | .checked => some (t.loopTo (.loaded c.pendingEpoch t.begun))
  | .loaded epoch activation => some ({ t with controller := { c with epoch := epoch } }.loopTo (.assigned activation))
  | .assigned activation => some ({ t with controller := { c with pendingEpoch := 0 } }.loopTo (.requesting activation))
  | .requesting activation =>
      if t.locked then none
      else
        some ({ t with controller := { c with active := true },
                       deeds := t.deeds ++ [StopDeed.requested activation] }.loopTo .idle)
  | .popped event => some (t.loopTo (if c.epoch = 0 then .idle else .matching event))
  | .matching event =>
      some ({ t with controller := if event.epoch ≠ c.epoch then c else c.send env event }.loopTo .idle)
  | .stopping closing point =>
      if point = .capture ∧ t.locked then none
      else
        let (t, next) := t.stop closing point
        some (t.loopTo (next.elim .idle (.stopping closing)))

/-- What the idle event loop turns to. `stop_control` has many callers there. -/
inductive LoopTask where
  | activated (epoch : Nat)
  | ack (op epoch seq stamp : Nat)
  | challenge (nonce : Nat)
  | callback
  | sender
  | probe
  | stop
  | connect
  | close
  deriving DecidableEq

def begin (env : ControllerEnv) (t : ControllerThreads) : LoopTask → Option ControllerThreads
  | .activated epoch => some (t.loopTo (.activated epoch))
  | .ack op epoch seq stamp => some { t with controller := t.controller.readAck env op epoch seq stamp }
  | .challenge nonce => some { t with controller := t.controller.readChallenge env nonce }
  | .callback =>
      match t.controller.scheduled with
      | [] => none
      | .activate :: rest => some ({ t with controller := { t.controller with scheduled := rest } }.loopTo .activate)
      | .sendReset :: rest => some { t with controller := { t.controller with scheduled := rest }.sendReset env }
  | .sender =>
      match t.controller.queue.pop env.now with
      | (queue, .overload) =>
          some ({ t with controller := { t.controller with queue := queue } }.loopTo (.stopping false .capture))
      | (queue, .empty) => some { t with controller := { t.controller with queue := queue } }
      | (queue, .item item _) =>
          some ({ t with controller := { t.controller with queue := queue } }.loopTo (.popped item.event))
  | .probe => some { t with controller := t.controller.probe env }
  | .stop => some (t.loopTo (.stopping false .capture))
  | .connect => some { t with controller := t.controller.connect }
  | .close => some (t.loopTo (.stopping true .capture))

end ControllerThreads

/-- A call from the hook thread. Keys and the mouse call with the policy's lock, the watchdogs without. -/
inductive HookCall where
  | toggle
  | enqueue (input : Input)
  | stop (locked : Bool)

/-- One step of one thread. -/
inductive ControllerAction where
  | call (call : HookCall)
  | hook (env : ControllerEnv)
  | begin (env : ControllerEnv) (task : ControllerThreads.LoopTask)
  | loop (env : ControllerEnv)

namespace ControllerThreads

/-- The hook thread starts a call. -/
def call (t : ControllerThreads) : HookCall → ControllerThreads
  | .toggle => { t with hook := .toggle, locked := true }
  | .enqueue input => { t with hook := .enqueue input, locked := true }
  | .stop locked => { t with hook := .stopping .capture, locked := locked }

def step (t : ControllerThreads) : ControllerAction → Option ControllerThreads
  | .call call => if t.hook = .idle then some (t.call call) else none
  | .hook env => t.hookStep env
  | .begin env task => if t.loop = .idle then t.begin env task else none
  | .loop env => t.loopStep env

/-- The state after a run. -/
def run (t : ControllerThreads) (actions : List ControllerAction) : Option ControllerThreads := Runs.exec step t actions

end ControllerThreads

end RemoteInput
