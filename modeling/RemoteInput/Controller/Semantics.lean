import RemoteInput.Wire.Outbox
import RemoteInput.Wire.Queueing
import RemoteInput.Wire.Timing

/-!
# The controller (`controller.py`)

One definition for each handler, each atomic: the callbacks of the capture (`enqueue`, `toggle`, `stop_control`), the
scheduled functions and one pass of each task of a connection. `log` is there for the reader of the model; no definition
reads it.
-/

namespace RemoteInput

/-- What a handler reads from outside: clocks, `secrets.randbits(64)` and `capture.healthy()`. -/
structure ControllerEnv where
  now : Time
  /-- `time.perf_counter_ns()`. -/
  stamp : Nat := 0
  bits : Nat := 0
  healthy : Bool := true

/-- The functions that are handed to `call_soon_threadsafe`. -/
inductive Callback where
  | activate
  | sendReset
  deriving DecidableEq, Repr

/-- The events that the capture emits. -/
inductive Input where
  | move (dx dy : Int)
  | key (k : Int) (down : Bool)
  | button (b : Int) (down : Bool)
  | scroll (h v : Int)
  deriving DecidableEq, Repr

def Input.event : Input → Event
  | .move dx dy => { op := .move, a := dx, b := dy }
  | .key k down => { op := .key, a := k, b := if down then 1 else 0 }
  | .button b down => { op := .button, a := b, b := if down then 1 else 0 }
  | .scroll h v => { op := .scroll, a := h, b := v }

theorem Input.isInput (input : Input) : input.event.op.isInput = true := by cases input <;> rfl

/-- What the controller did: an event that the capture emitted, a stop of an epoch and a pending epoch, a frame put on the
outbox. -/
inductive Deed where
  | emitted (event : Event)
  | stopped (epoch pendingEpoch : Nat)
  | sent (frame : Event)
  deriving DecidableEq, Repr

/-- The frames that were put on the outbox, oldest first. -/
def sentFrames (log : List Deed) : List Event :=
  log.filterMap fun
    | .sent frame => some frame
    | _ => none

/-- `Controller`. -/
structure Controller where
  queue : InputQueue := {}
  /-- What `capture.set_active` was told last. -/
  active : Bool := false
  network : NetworkTiming := {}
  connected : Bool := false
  epoch : Nat := 0
  pendingEpoch : Nat := 0
  seq : Nat := 0
  lease : Nat := 0
  leaseReceived : Time := 0
  lastAck : Time := 0
  activateDeadline : Time := 0
  /-- `last_probe` of `monitor`. -/
  lastProbe : Time := 0
  outbox : Option (Outbox Event) := none
  scheduled : List Callback := []
  log : List Deed := []

namespace Controller

/-! ## Frames -/

/-- `frame(event)`. -/
def frame (env : ControllerEnv) (c : Controller) (event : Event) : Event :=
  { event with seq := c.seq + 1, stamp := env.stamp, lease := c.lease }

/-- `outbox.put(self.frame(event).pack())`. -/
def send (env : ControllerEnv) (event : Event) (c : Controller) : Controller :=
  { c with seq := c.seq + 1, outbox := c.outbox.map (·.put env.now (c.frame env event)),
           log := c.log ++ [.sent (c.frame env event)] }

/-- `_schedule(function)`. -/
def schedule (callback : Callback) (c : Controller) : Controller := { c with scheduled := c.scheduled ++ [callback] }

/-- `send_reset(reason)`. -/
def sendReset (env : ControllerEnv) (c : Controller) : Controller :=
  if c.outbox.isSome then c.send env { op := .reset } else c

/-- `stop_control(reason)`. -/
def stopControl (c : Controller) : Controller :=
  schedule .sendReset
    { c with active := false, epoch := 0, pendingEpoch := 0, queue := c.queue.clear,
             log := c.log ++ [.stopped c.epoch c.pendingEpoch] }

/-! ## Callbacks of the capture -/

/-- The branch of `enqueue` for an active epoch. -/
def capture (env : ControllerEnv) (event : Event) (c : Controller) : Controller :=
  let event := { event with epoch := c.epoch }
  let put := c.queue.put env.now event
  let c := { c with queue := put.queue, log := c.log ++ [.emitted event] }
  if put.ok then c else c.stopControl

/-- `enqueue(event)`. -/
def enqueue (env : ControllerEnv) (event : Event) (c : Controller) : Controller :=
  if c.connected = false ∨ c.epoch = 0 then c else c.capture env event

/-- `toggle()`. -/
def toggle (c : Controller) : Controller :=
  if c.epoch ≠ 0 ∨ c.pendingEpoch ≠ 0 then c.stopControl else c.schedule .activate

/-! ## Scheduled functions -/

/-- `activate()`. -/
def activate (env : ControllerEnv) (c : Controller) : Controller :=
  if c.epoch ≠ 0 ∨ c.pendingEpoch ≠ 0 then c
  else if c.connected = false ∨ c.lease = 0 ∨ env.now - c.leaseReceived ≥ c.network.timeout then c
  else
    { c with pendingEpoch := orOne env.bits, activateDeadline := env.now + c.network.inputTimeout,
             queue := c.queue.clear }.send env { op := .activate, epoch := orOne env.bits }

/-- The loop calls the oldest scheduled function. -/
def callback (env : ControllerEnv) (c : Controller) : Option Controller :=
  match c.scheduled with
  | [] => none
  | .activate :: rest => some ({ c with scheduled := rest }.activate env)
  | .sendReset :: rest => some ({ c with scheduled := rest }.sendReset env)

/-! ## The tasks of a connection -/

/-- One pass of `sender`. -/
def sender (env : ControllerEnv) (c : Controller) : Controller :=
  match c.queue.pop env.now with
  | (queue, .overload) => { c with queue := queue }.stopControl
  | (queue, .empty) => { c with queue := queue }
  | (queue, .item item _) =>
      let c := { c with queue := queue }
      if c.epoch = 0 ∨ item.event.epoch ≠ c.epoch then c else c.send env item.event

/-- `reader` for an acknowledgement. -/
def readAck (env : ControllerEnv) (op epoch seq stamp : Nat) (c : Controller) : Controller :=
  let elapsed : ℚ := ((env.stamp : ℚ) - stamp) / 1000000
  if (epoch = 0 ∨ epoch = c.epoch) ∧ 0 ≤ elapsed ∧ elapsed < 10000 ∧ 0 < seq ∧ seq ≤ c.seq then
    { c with lastAck := env.now,
             network := if op = Op.probe.code then (c.network.observe (elapsed / 1000)).1 else c.network }
  else c

/-- `reader` for a challenge. -/
def readChallenge (env : ControllerEnv) (nonce : Nat) (c : Controller) : Controller :=
  let c := { c with lease := nonce, leaseReceived := env.now }
  if env.healthy then c.send env { op := .heartbeat, epoch := if c.epoch ≠ 0 then c.epoch else c.pendingEpoch } else c

/-- `reader` for `activated`. -/
def readActivated (env : ControllerEnv) (epoch : Nat) (c : Controller) : Controller :=
  if epoch ≠ c.pendingEpoch ∨ c.pendingEpoch = 0 then c.sendReset env
  else { c with epoch := c.pendingEpoch, pendingEpoch := 0, active := true }

/-- `reader` for one message; `none` when it raises. -/
def read (env : ControllerEnv) (c : Controller) : Message → Option Controller
  | .ack op epoch seq stamp _ _ => some (c.readAck env op epoch seq stamp)
  | .challenge nonce => some (c.readChallenge env nonce)
  | .activated epoch => some (c.readActivated env epoch)
  | .paused epoch => some (if epoch = c.epoch ∨ epoch = c.pendingEpoch then c.stopControl else c)
  | _ => none

/-- The timeouts of `monitor`. -/
def expire (env : ControllerEnv) (c : Controller) : Controller :=
  if c.epoch ≠ 0 ∧ env.healthy = false then c.stopControl
  else if c.epoch ≠ 0 ∧ env.now - c.leaseReceived ≥ c.network.timeout then c.stopControl
  else if c.pendingEpoch ≠ 0 ∧ env.now > c.activateDeadline then c.stopControl
  else c

/-- The probe of `monitor`. -/
def probe (env : ControllerEnv) (c : Controller) : Controller :=
  if c.lease ≠ 0 ∧ env.now - c.lastProbe ≥ 1 / 2 then
    { c.send env { op := .probe, epoch := c.epoch } with lastProbe := env.now }
  else c

/-- One pass of `monitor`. -/
def monitor (env : ControllerEnv) (c : Controller) : Controller := (c.expire env).probe env

/-! ## Connections -/

/-- `run` once the relay has replied `connected`. -/
def connect (c : Controller) : Controller :=
  { c with connected := true, network := {}, outbox := some {}, lastProbe := 0 }

/-- The `finally` of a connection in `run`. -/
def disconnect (c : Controller) : Controller :=
  { c with active := false, connected := false, epoch := 0, pendingEpoch := 0, lease := 0, outbox := none,
           queue := c.queue.clear }

end Controller

/-- The handlers that need no message: callbacks of the capture, commands, scheduled functions, passes of the tasks. -/
inductive ControllerOp where
  | enqueue (input : Input)
  | toggle
  | stop
  | callback
  | sender
  | monitor

/-- One handler; `none` when nothing is scheduled. -/
def Controller.step (env : ControllerEnv) (c : Controller) : ControllerOp → Option Controller
  | .enqueue input => some (c.enqueue env input.event)
  | .toggle => some c.toggle
  | .stop => some c.stopControl
  | .callback => c.callback env
  | .sender => some (c.sender env)
  | .monitor => some (c.monitor env)

end RemoteInput
