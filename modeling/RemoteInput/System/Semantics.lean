import RemoteInput.Controller.Threads
import RemoteInput.System.Site

/-!
# One controller, the relay and one target

The controller program connects to the relay as the target program does, and there are no other clients. Its two threads take
turns at every statement. Random epochs are drawn anew: a draw that repeats an earlier one is no step.
-/

namespace RemoteInput

/-- What the reader of the controller turns to for a message; `none` when it raises. A `paused` for another epoch is
ignored. -/
def ControllerThreads.take (env : ControllerEnv) (t : ControllerThreads) : Message → Option ControllerThreads
  | .ack op epoch seq stamp _ _ => t.step (.begin env (.ack op epoch seq stamp))
  | .challenge nonce => t.step (.begin env (.challenge nonce))
  | .activated epoch => t.step (.begin env (.activated epoch))
  | .paused epoch =>
      if t.loop ≠ .idle then none
      else if epoch = t.controller.epoch ∨ epoch = t.controller.pendingEpoch then t.step (.begin env .stop)
      else some t
  | _ => none

/-- The three programs and their links. The last three fields are there for the reader of the model: the epochs that the
controller drew, the inputs that its capture emitted with the epoch of the controller then, and the frames that it put on
the outbox of each connection. -/
structure System where
  site : Site
  ctl : ControllerThreads := {}
  ctlConn : Option Nat := none
  drawn : List Nat := []
  emitted : List (Nat × Input) := []
  framed : Nat → List Event := fun _ => []

namespace System

/-- A target that has just drawn its secrets, and a relay with an empty table. -/
def start (ownerSecret password : String) : System := { site := Site.start ownerSecret password }

/-! ## The controller -/

/-- The controller goes on, perhaps with frames for its connection. -/
def setCtl (s : System) (ctl : ControllerThreads) : System :=
  let new := (sentFrames ctl.controller.log).drop (sentFrames s.ctl.controller.log).length
  match s.ctlConn, s.ctl.controller.outbox with
  | some c, some _ => { s with ctl := ctl, framed := Function.update s.framed c (s.framed c ++ new) }
  | _, _ => { s with ctl := ctl }

def ctlDial (s : System) (c : Nat) (id password : String) : Option System :=
  if s.ctlConn = none ∧ s.ctl.loop = .idle ∧ s.site.Unused c then
    some { s with ctlConn := some c,
                  site := { s.site with greeting := Function.update s.site.greeting c (some (.controller id password)) } }
  else none

/-- The controller takes one packet: the reply of the handshake, or a message of the connection. -/
def ctlRead (s : System) (env : ControllerEnv) : Option System :=
  match s.ctlConn with
  | none => none
  | some c =>
      match s.site.down c, s.ctl.controller.outbox with
      | .connected :: rest, none =>
          (s.ctl.step (.begin env .connect)).map fun ctl =>
            { s.setCtl ctl with site := { s.site with down := Function.update s.site.down c rest } }
      | .message entry :: rest, some _ =>
          (s.ctl.take env entry.message).map fun ctl =>
            { s.setCtl ctl with site := { s.site with down := Function.update s.site.down c rest } }
      | _, _ => none

/-- What a thread may turn to without a message. The tasks of a connection run while it has an outbox, and a drawn epoch is a
new one. -/
def Allows (s : System) : ControllerAction → Prop
  | .call _ | .hook _ | .begin _ .callback => True
  | .begin _ .sender | .begin _ .probe | .begin _ .stop => s.ctl.controller.outbox.isSome = true
  | .begin _ _ => False
  | .loop env => s.ctl.loop = .drawing → orOne env.bits ∉ s.drawn

instance (s : System) (action : ControllerAction) : Decidable (s.Allows action) := by
  unfold Allows
  split <;> infer_instance

/-- What the reader of the model notes of a step. -/
def record (s : System) : ControllerAction → System
  | .hook _ =>
      match s.ctl.hook with
      | .enqueuing input => { s with emitted := s.emitted ++ [(s.ctl.controller.epoch, input)] }
      | _ => s
  | .loop env => if s.ctl.loop = .drawing then { s with drawn := s.drawn ++ [orOne env.bits] } else s
  | _ => s

def ctlStep (s : System) (action : ControllerAction) : Option System :=
  if s.Allows action then (s.ctl.step action).map (s.record action).setCtl else none

def ctlWrite (s : System) (now : Time) : Option System :=
  match s.ctlConn, s.ctl.controller.outbox.bind (·.take now) with
  | some c, some (frame, outbox) =>
      some { s with ctl := { s.ctl with controller := { s.ctl.controller with outbox := some outbox } },
                    site := s.site.sendUp c (.frame frame) }
  | _, _ => none

/-- The connection ends, and `run` comes to its `finally`. -/
def ctlLose (s : System) (env : ControllerEnv) : Option System :=
  if s.ctlConn.isSome then (s.ctl.step (.begin env .close)).map fun ctl => { s with ctl := ctl, ctlConn := none }
  else none

/-- The process ends at any point and is started again. -/
def ctlRestart (s : System) : System := { s with ctl := { controller := { log := s.ctl.controller.log } }, ctlConn := none }

end System

/-! ## Runs -/

inductive SystemAction where
  | site (action : SiteAction)
  | ctlDial (c : Nat) (id password : String)
  | ctlRead (env : ControllerEnv)
  | ctl (action : ControllerAction)
  | ctlWrite (now : Time)
  | ctlLose (env : ControllerEnv)
  | ctlRestart

namespace System

/-- One action; `none` when it is not possible. -/
def step (crypto : Crypto) (s : System) : SystemAction → Option System
  | .site (.stranger _) => none
  | .site action => (s.site.step crypto action).map fun site => { s with site := site }
  | .ctlDial c id password => s.ctlDial c id password
  | .ctlRead env => s.ctlRead env
  | .ctl action => s.ctlStep action
  | .ctlWrite now => s.ctlWrite now
  | .ctlLose env => s.ctlLose env
  | .ctlRestart => some s.ctlRestart

/-- The state after a run. -/
def run (crypto : Crypto) (s : System) (actions : List SystemAction) : Option System := Runs.exec (step crypto) s actions

/-! ## What goes in and what comes out -/

/-- The inputs that the capture emitted while the controller was in `epoch`. -/
def emittedIn (s : System) (epoch : Nat) : List Input := (s.emitted.filter fun x => x.1 = epoch).map Prod.snd

/-- The calls for frames that reached the operating system of the target in operations that began in `epoch`. -/
def injectedIn (s : System) (epoch : Nat) : List Call :=
  s.site.target.done.flatMap fun x => if x.1 = epoch then effective x.2 else []

end System

end RemoteInput
