import RemoteInput.Controller.Semantics
import RemoteInput.Engine.Threads

/-!
# One controller connection and its target

The relay and the links are two channels that deliver in order and lose nothing. One action is one handler of the
controller, one operation of a thread of the target, or the delivery of one message.
-/

namespace RemoteInput

/-- The controller, what is on its way to the target, the target, and what is on its way to the controller. -/
structure Pair where
  ctl : Controller
  up : List Message
  target : EngineThreads
  down : List Message

inductive PairAction where
  /-- A handler of the controller that needs no message. -/
  | handle (env : ControllerEnv) (op : ControllerOp)
  /-- The writer of the controller's outbox sends one frame. -/
  | write (now : Time)
  /-- The controller's reader takes one message. -/
  | read (env : ControllerEnv)
  /-- The target's reader takes one message. -/
  | deliver (env : Env)
  | tick (env : Env) (bits : Nat)
  | pop (env : Env)
  | body (env : Env)

namespace Pair

/-- What the target's reader does with a message. -/
def arrival (env : Env) : Message → Option ThreadOp
  | .frame event => some (.receive env event)
  | .peerJoined | .peerGone => some (.peerChanged env)
  | _ => none

/-- One operation of the target; what it emits goes to the controller. -/
def thread (p : Pair) (op : ThreadOp) : Option Pair :=
  (p.target.step op).map (fun target => { p with target := target, down := p.down ++ messages target.engine.out })

def write (p : Pair) (now : Time) : Option Pair :=
  match p.ctl.outbox.bind (·.take now) with
  | some (frame, outbox) => some { p with ctl := { p.ctl with outbox := some outbox }, up := p.up ++ [.frame frame] }
  | none => none

def read (p : Pair) (env : ControllerEnv) : Option Pair :=
  match p.down with
  | [] => none
  | message :: rest => (p.ctl.read env message).map (fun ctl => { p with ctl := ctl, down := rest })

def deliver (p : Pair) (env : Env) : Option Pair :=
  match p.up with
  | [] => none
  | message :: rest => (arrival env message).bind { p with up := rest }.thread

/-- One action; `none` when it is not possible, or when it ends the connection. -/
def step (p : Pair) : PairAction → Option Pair
  | .handle env op => (p.ctl.step env op).map (fun ctl => { p with ctl := ctl })
  | .write now => p.write now
  | .read env => p.read env
  | .deliver env => p.deliver env
  | .tick env bits => p.thread (.tick env bits)
  | .pop env => p.thread (.pop env)
  | .body env => p.thread (.body env)

def run : Pair → List PairAction → Option Pair
  | p, [] => some p
  | p, action :: actions => (p.step action).bind (·.run actions)

theorem run_append (p : Pair) (actions more : List PairAction) :
    p.run (actions ++ more) = (p.run actions).bind (·.run more) := by
  induction actions generalizing p with
  | nil => rfl
  | cons action actions ih =>
      simp only [List.cons_append, run, Option.bind_assoc]
      congr 1
      funext q
      exact ih q

/-- The relay has just admitted the controller: `peer_joined` is the last message on its way to the target. The target,
the messages of earlier sessions and the functions still scheduled at the controller are arbitrary. -/
structure Joined (p : Pair) : Prop where
  connected : p.ctl.connected = true
  idle : p.ctl.epoch = 0 ∧ p.ctl.pendingEpoch = 0
  outbox : p.ctl.outbox = some {}
  joined : ∃ earlier, p.up = earlier ++ [.peerJoined]

end Pair

end RemoteInput
