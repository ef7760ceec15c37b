import RemoteInput.Capture.Hooks
import RemoteInput.Controller.Semantics
import RemoteInput.Relay.Semantics
import RemoteInput.Wire.Frame

/-!
# The controller with its hooks

The capture of Windows calls the controller: each hook event is handed to the policy, and its calls of `emit`, `toggle` and
`stop` run `enqueue`, `toggle` and `stop_control`. Requests to the capture, whoever makes them, are actions of their own and
may come at any moment.
-/

namespace RemoteInput

/-! ## Calls of the policy -/

/-- `emit`, `toggle` and `stop` of the policy. -/
def Controller.call (env : ControllerEnv) (c : Controller) : PolicyCall → Controller
  | .emit event => c.enqueue env event
  | .toggle => c.toggle
  | .stop => c.stopControl

/-- The call goes through `stop_control`, which pauses the policy. -/
def Controller.stops (env : ControllerEnv) (c : Controller) : PolicyCall → Prop
  | .emit event => c.connected = true ∧ c.epoch ≠ 0 ∧ (c.queue.put env.now { event with epoch := c.epoch }).ok = false
  | .toggle => c.epoch ≠ 0 ∨ c.pendingEpoch ≠ 0
  | .stop => True

instance (env : ControllerEnv) (c : Controller) (call : PolicyCall) : Decidable (c.stops env call) := by
  cases call <;> simp only [Controller.stops] <;> infer_instance

/-- The calls of one hook event, each at a reading of the clock. -/
def Controller.calls (clock : Nat → Time) : Controller → List PolicyCall → Controller
  | c, [] => c
  | c, call :: calls => Controller.calls (fun i => clock (i + 1)) (c.call { now := clock 0 } call) calls

/-- Which of the calls pause the policy. -/
def Controller.pauses (clock : Nat → Time) (c : Controller) : Pauses := fun before call =>
  (c.calls clock before).stops { now := clock before.length } call

/-! ## The process -/

/-- The process of the controller. -/
structure Station where
  capture : WindowsCapture := {}
  controller : Controller := {}

namespace Station

/-- `stop_control` with its call of `set_active(False)`. -/
def stop (s : Station) : Station := { capture := s.capture.setActive false, controller := s.controller.stopControl }

/-- `_key`. -/
def key (clock : Nat → Time) (message : Nat) (d : Kbd) (s : Station) : Station :=
  if d.injected then s
  else
    let pauses := s.controller.pauses clock
    let capture := s.capture.hookKey pauses message d
    let s' : Station := { capture := capture, controller := s.controller.calls clock capture.policy.calls }
    if (s.capture.policy.key pauses d.key (keyDown message)).2 = none then stop { s' with capture := s'.capture.fault }
    else s'

/-- `_mouse`. -/
def mouse (clock : Nat → Time) (message : Nat) (d : MouseHook) (s : Station) : Station :=
  match s.capture.mouseCall message d with
  | none => s
  | some _ =>
      let capture := s.capture.hookMouse (s.controller.pauses clock) message d
      { capture := capture, controller := s.controller.calls clock capture.policy.calls }

end Station

/-! ## Runs -/

inductive StationAction where
  | key (clock : Nat → Time) (message : Nat) (d : Kbd)
  | mouse (clock : Nat → Time) (message : Nat) (d : MouseHook)
  | capture (action : CaptureAction)
  | handler (env : ControllerEnv) (op : ControllerOp)
  | read (env : ControllerEnv) (message : Message)
  | connect
  | disconnect

namespace Station

/-- One action; `none` when it is not possible. Events of the hooks carry what their structures can, the random bits are 64,
and a message is one that the relay passes on. -/
def step (s : Station) : StationAction → Option Station
  | .key clock message d => if d.valid then some (s.key clock message d) else none
  | .mouse clock message d => if d.valid then some (s.mouse clock message d) else none
  | .capture (.key ..) | .capture (.mouse ..) => none
  | .capture action => (s.capture.step action).map fun capture => { s with capture := capture }
  | .handler _ (.enqueue _) => none
  | .handler env op =>
      if env.bits < 2 ^ 64 then (s.controller.step env op).map fun c => { s with controller := c } else none
  | .read env message =>
      if Relay.outbound message = some message then
        (s.controller.read env message).map fun c => { s with controller := c }
      else none
  | .connect => some { s with controller := s.controller.connect }
  | .disconnect => some { s with controller := s.controller.disconnect }

/-- The state after a run. -/
def run (s : Station) (actions : List StationAction) : Option Station := Runs.exec step s actions

end Station

end RemoteInput
