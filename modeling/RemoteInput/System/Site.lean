import RemoteInput.Lib.Runs
import RemoteInput.Target.Semantics

/-!
# One target and the relay

The target program connects to the relay again and again, each time under a new connection number. A link delivers in order
what was sent, until the connection ends. Other clients may do what they like, except that they do not have the target's
owner secret.
-/

namespace RemoteInput

/-- What the relay sends to a client: the reply of the handshake, then queued messages. -/
inductive Packet where
  | registered (name : String)
  | connected
  | message (entry : Entry)
  deriving DecidableEq, Repr

/-- The target, the relay and the links of the programs; a connection of a program has a greeting. The last two fields are
there for the reader of the model: what frames the relay took from each connection, and what entries the target took. -/
structure Site where
  relay : Relay := {}
  target : Target
  targetConn : Option Nat := none
  greeting : Nat → Option Hello := fun _ => none
  up : Nat → List Message := fun _ => []
  down : Nat → List Packet := fun _ => []
  received : Nat → List Event := fun _ => []
  taken : Nat → List Entry := fun _ => []

namespace Site

/-- A target that has just drawn its secrets, and a relay with an empty table. -/
def start (ownerSecret password : String) : Site :=
  { target := Target.start { ownerSecret := ownerSecret, password := password } }

/-! ## Links -/

/-- Nobody has used the connection `c` yet. -/
def Unused (s : Site) (c : Nat) : Prop :=
  s.greeting c = none ∧ s.relay.stage c = .fresh ∧ s.up c = [] ∧ s.down c = []

instance (s : Site) (c : Nat) : Decidable (s.Unused c) := inferInstanceAs (Decidable (_ ∧ _))

def sendUp (s : Site) (c : Nat) (message : Message) : Site :=
  { s with up := Function.update s.up c (s.up c ++ [message]) }

def sendDown (s : Site) (c : Nat) (packet : Packet) : Site :=
  { s with down := Function.update s.down c (s.down c ++ [packet]) }

/-! ## The target -/

def dial (s : Site) (c : Nat) : Option Site :=
  if s.targetConn = none ∧ s.Unused c then
    some { s with targetConn := some c, greeting := Function.update s.greeting c (some s.target.identity.hello) }
  else none

/-- The target takes one packet: the reply of the handshake, or a message of the connection. -/
def read (s : Site) (env : Env) (drawn : String × String) : Option Site :=
  match s.targetConn with
  | none => none
  | some c =>
      match s.down c, s.target.outbox with
      | .registered name :: rest, none =>
          (s.target.registered env drawn name).map fun target =>
            { s with target := target, down := Function.update s.down c rest }
      | .message entry :: rest, some _ =>
          (s.target.read env entry).map fun target =>
            { s with target := target, down := Function.update s.down c rest,
                     taken := Function.update s.taken c (s.taken c ++ [entry]) }
      | _, _ => none

/-- `P` at the target, online or between two connections. -/
def command (s : Site) (env : Env) (drawn : String × String) : Option Site :=
  if s.target.outbox.isSome then
    (s.target.rotate env drawn).map (fun target => { s with target := target })
  else if s.targetConn = none then some { s with target := s.target.rotateOffline drawn }
  else none

/-- The worker thread of the target. -/
def worker (s : Site) (op : ThreadOp) : Option Site :=
  match op with
  | .tick .. | .pop _ | .body _ => (s.target.thread op).map (fun target => { s with target := target })
  | _ => none

def write (s : Site) (now : Time) : Option Site :=
  match s.targetConn, s.target.outbox.bind (·.take now) with
  | some c, some (message, outbox) => some ({ s with target := { s.target with outbox := some outbox } }.sendUp c message)
  | _, _ => none

def lose (s : Site) (env : Env) : Option Site :=
  if s.targetConn.isSome then
    (s.target.disconnect env).map (fun target => { s with target := target, targetConn := none })
  else none

def restart (s : Site) : Site := { s with target := s.target.restart, targetConn := none }

/-! ## The relay -/

def relayHello (s : Site) (c : Nat) : Option Site :=
  (s.greeting c).bind fun hello => (s.relay.hello c hello).map (fun relay => { s with relay := relay })

def relayReceive (s : Site) (c : Nat) : Option Site :=
  match s.up c with
  | [] => none
  | message :: rest =>
      (s.relay.receive c (some message)).map fun relay =>
        { s with relay := relay, up := Function.update s.up c rest,
                 received := Function.update s.received c (s.received c ++ framesOf [message]) }

/-- The relay sends the reply of the handshake. -/
def relayReplied (s : Site) (c : Nat) : Option Site :=
  (s.relay.replied c).bind fun relay => (relay.peer c).map fun (p : Peer) =>
    { s with relay := relay }.sendDown c (if p.role = Role.target then .registered p.name else .connected)

def relayWrite (s : Site) (c : Nat) : Option Site :=
  (s.relay.peer c).bind fun p => p.out.head?.bind fun entry => (s.relay.write c).map fun relay =>
    { s with relay := relay }.sendDown c (.message entry)

/-- The actions of the relay that take nothing from a link and put nothing on one. -/
def relayOwn (crypto : Crypto) (s : Site) (action : RelayAction) : Option Site :=
  match action with
  | .hello .. | .receive .. | .replied _ | .write _ => none
  | action => (s.relay.step crypto action).map (fun relay => { s with relay := relay })

/-- The action is of a client that is no program here. -/
def Foreign (crypto : Crypto) (s : Site) : RelayAction → Prop
  | .hello c (.target owner _ _) => s.Unused c ∧ crypto.digest owner ≠ crypto.digest s.target.identity.ownerSecret
  | .hello c _ => s.Unused c
  | .receive c _ | .replied c | .write c => s.greeting c = none
  | _ => False

instance (crypto : Crypto) (s : Site) (action : RelayAction) : Decidable (s.Foreign crypto action) := by
  unfold Foreign
  split <;> infer_instance

/-- Another client says something, or is sent something. -/
def stranger (crypto : Crypto) (s : Site) (action : RelayAction) : Option Site :=
  if s.Foreign crypto action then (s.relay.step crypto action).map (fun relay => { s with relay := relay }) else none

end Site

/-! ## Runs -/

inductive SiteAction where
  | dial (c : Nat)
  | read (env : Env) (drawn : String × String)
  | command (env : Env) (drawn : String × String)
  | worker (op : ThreadOp)
  | write (now : Time)
  | lose (env : Env)
  | restart
  | relayHello (c : Nat)
  | relayReceive (c : Nat)
  | relayReplied (c : Nat)
  | relayWrite (c : Nat)
  | relayOwn (action : RelayAction)
  | stranger (action : RelayAction)

namespace Site

/-- One action; `none` when it is not possible. -/
def step (crypto : Crypto) (s : Site) : SiteAction → Option Site
  | .dial c => s.dial c
  | .read env drawn => s.read env drawn
  | .command env drawn => s.command env drawn
  | .worker op => s.worker op
  | .write now => s.write now
  | .lose env => s.lose env
  | .restart => some s.restart
  | .relayHello c => s.relayHello c
  | .relayReceive c => s.relayReceive c
  | .relayReplied c => s.relayReplied c
  | .relayWrite c => s.relayWrite c
  | .relayOwn action => s.relayOwn crypto action
  | .stranger action => s.stranger crypto action

/-- The state after a run. -/
def run (crypto : Crypto) (s : Site) (actions : List SiteAction) : Option Site := Runs.exec (step crypto) s actions

end Site

end RemoteInput
