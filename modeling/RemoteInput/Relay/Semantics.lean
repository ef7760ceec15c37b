import RemoteInput.Relay.Registry
import RemoteInput.Wire.Protocol

/-!
# The relay's connection handlers (`relay.py`)

One action is what a handler does between two awaits, or one database transaction of its worker thread. Everything the
network, the clocks, the rate limiters and the clients decide is chosen by the action.
-/

namespace RemoteInput

/-! ## Peers and their outgoing queues -/

inductive Role where
  | target
  | controller
  deriving DecidableEq, Repr

/-- A queued message and, for the reader of the model, the connection whose session it belongs to: the sender of a frame,
the controller that joined or left, the controller that a rotation revoked. -/
structure Entry where
  message : Message
  author : Option Nat
  deriving DecidableEq, Repr

/-- `Peer`: what is queued, and what its writer has already sent. -/
structure Peer where
  role : Role
  name : String
  generation : Nat
  out : List Entry := []
  sent : List Entry := []
  deriving DecidableEq, Repr

def outCapacity : Nat := 256

namespace Peer

def enqueue (p : Peer) (entry : Entry) : Peer := { p with out := p.out ++ [entry] }

/-- `put(message)`; `none` is `QueueFull`. -/
def put (p : Peer) (entry : Entry) : Option Peer :=
  if p.out.length ≥ outCapacity then none else some (p.enqueue entry)

/-- Everything that was ever put on the queue. -/
def log (p : Peer) : List Entry := p.sent ++ p.out

end Peer

/-! ## Handlers -/

/-- The first message of a client. Missing fields are empty strings. -/
inductive Hello where
  | target (ownerSecret id password : String)
  | controller (id password : String)
  | diagnostic
  | other
  deriving DecidableEq, Repr

/-- Where the reader task of a peer stands. Only a target's reader leaves `idle`, for a rotation. -/
inductive Reader where
  | idle
  | waiting (password rotationId : String)
  | hashing (password rotationId : String)
  | committed (generation : Nat)
  deriving DecidableEq, Repr

/-- The await at which a handler stands. -/
inductive Stage where
  | fresh
  | checkingOwner (name owner : String)
  | registering (owner password : String)
  | inserting (owner password : String)
  | waitingTarget (name : String) (generation : Nat) (owner : String)
  | checkingPassword (name password : String)
  | waitingController (name : String) (generation : Nat)
  | fetching (name : String) (generation : Nat)
  | fetched (name : String) (generation : Nat) (current : Option Nat)
  | rejecting
  | replying (owner : String)
  | serving (owner : String) (reader : Reader)
  | closing
  | closed
  deriving DecidableEq, Repr

/-- A `registry.rotate` whose caller was cancelled: its thread still runs. -/
structure Orphan where
  name : String
  owner : String
  password : String
  rotationId : String
  deriving DecidableEq, Repr

/-- The relay, with the stage and the peer of each connection's handler. `completed` lists the rotations that have revoked
the controllers before them. -/
structure Relay where
  registry : Registry := {}
  targets : String → Option Nat := fun _ => none
  controllers : String → Option Nat := fun _ => none
  pairLock : Option Nat := none
  stage : Nat → Stage := fun _ => .fresh
  peer : Nat → Option Peer := fun _ => none
  orphans : List Orphan := []
  completed : List (String × Nat) := []

namespace Relay

def setStage (r : Relay) (c : Nat) (stage : Stage) : Relay :=
  { r with stage := Function.update r.stage c stage }

def setPeer (r : Relay) (c : Nat) (peer : Peer) : Relay :=
  { r with peer := Function.update r.peer c (some peer) }

def release (r : Relay) : Relay := { r with pairLock := none }

/-- Put `entry` on the queue of the peer of `d`; `none` is `QueueFull`. -/
def putOn (r : Relay) (d : Nat) (entry : Entry) : Option Relay :=
  (r.peer d).bind (fun p => (p.put entry).map (r.setPeer d))

/-! ## The handshake -/

/-- What the handler makes of the first message. -/
def firstStage : Hello → Stage
  | .target owner id password =>
      if ¬ validField owner 40 64 then .closed
      else if id ≠ "" then
        if validField id 10 32 then .checkingOwner id owner else .closed
      else if validField password 24 128 then .registering owner password else .closed
  | .controller id password =>
      if validField id 10 32 ∧ validField password 1 128 then .checkingPassword id password else .closed
  | .diagnostic | .other => .closed

def hello (r : Relay) (c : Nat) (message : Hello) : Option Relay :=
  if r.stage c = .fresh then some (r.setStage c (firstStage message)) else none

/-- The connection ends before it has a peer: a limit, a malformed or late first message, a failed transaction. -/
def refuse (r : Relay) (c : Nat) : Option Relay :=
  match r.stage c with
  | .fresh | .checkingOwner .. | .registering .. | .inserting .. | .checkingPassword .. => some (r.setStage c .closed)
  | .fetching .. => some (r.setStage c .closed).release
  | _ => none

/-- The worker thread of `c` performs its transaction; the handler then goes on to its next await. -/
def transaction (crypto : Crypto) (r : Relay) (c : Nat) (salt : String) : Option Relay :=
  match r.stage c with
  | .checkingOwner name owner =>
      match r.registry.owner crypto name owner with
      | none => some (r.setStage c .closed)
      | some generation => some (r.setStage c (.waitingTarget name generation owner))
  | .registering owner password =>
      match r.registry.registered crypto owner with
      | none => some (r.setStage c (.inserting owner password))
      | some (name, generation) => some (r.setStage c (.waitingTarget name generation owner))
  | .inserting owner password =>
      let (registry, name, generation) := r.registry.insert crypto owner password salt
      some ({ r with registry := registry }.setStage c (.waitingTarget name generation owner))
  | .checkingPassword name password =>
      match r.registry.login crypto name password with
      | none => some (r.setStage c .closed)
      | some generation => some (r.setStage c (.waitingController name generation))
  | .fetching name generation => some (r.setStage c (.fetched name generation (r.registry.generation name)))
  | .serving owner (.hashing password rotationId) =>
      (r.peer c).map fun p =>
        match r.registry.rotate crypto p.name owner password rotationId salt with
        | none => (r.setStage c .closing).release
        | some (registry, generation) =>
            { r with registry := registry }.setStage c (.serving owner (.committed generation))
  | _ => none

/-- `c` gets `pair_lock`. A target is admitted, or turned away, at once. -/
def acquire (r : Relay) (c : Nat) : Option Relay :=
  if r.pairLock ≠ none then none
  else match r.stage c with
  | .waitingTarget name generation owner =>
      if (r.targets name).isSome then some ({ r with pairLock := some c }.setStage c .rejecting)
      else some (({ r with targets := Function.update r.targets name (some c) }.setPeer c
        { role := .target, name := name, generation := generation }).setStage c (.replying owner))
  | .waitingController name generation =>
      some ({ r with pairLock := some c }.setStage c (.fetching name generation))
  | .serving owner (.waiting password rotationId) =>
      some ({ r with pairLock := some c }.setStage c (.serving owner (.hashing password rotationId)))
  | _ => none

/-- The admission of a controller under `pair_lock`, once the current generation is known. -/
def admission (r : Relay) (c : Nat) : Option Relay :=
  match r.stage c with
  | .fetched name generation current =>
      if current ≠ some generation then some (r.setStage c .rejecting)
      else match r.targets name with
      | none => some (r.setStage c .rejecting)
      | some t =>
          if (r.controllers name).isSome then some (r.setStage c .rejecting)
          else
            let r := ({ r with controllers := Function.update r.controllers name (some c) }.setPeer c
              { role := .controller, name := name, generation := generation }).release
            match r.putOn t ⟨.peerJoined, some c⟩ with
            | some r => some (r.setStage c (.replying ""))
            | none => some (r.setStage c .closing)
  | _ => none

/-- `reject` under `pair_lock` has finished. -/
def rejected (r : Relay) (c : Nat) : Option Relay :=
  if r.stage c = .rejecting then some (r.setStage c .closed).release else none

/-- The reply of the handshake has been sent; the reader and writer tasks start. -/
def replied (r : Relay) (c : Nat) : Option Relay :=
  match r.stage c with
  | .replying owner => some (r.setStage c (.serving owner .idle))
  | _ => none

/-! ## Serving -/

/-- A controller's frame goes to its target's queue. There is no other forwarding. -/
def fromController (r : Relay) (c : Nat) (p : Peer) : Option Message → Relay
  | some (.frame event) =>
      match r.targets p.name with
      | none => r.setStage c .closing
      | some t =>
          if r.controllers p.name ≠ some c then r.setStage c .closing
          else (r.putOn t ⟨.frame event, some c⟩).getD (r.setStage c .closing)
  | _ => r.setStage c .closing

/-- What `from_target` makes of a message that it does not handle itself. -/
def outbound : Message → Option Message
  | .ack op epoch seq stamp queueUs injectionUs => some (.ack op epoch seq stamp queueUs injectionUs)
  | .challenge nonce => if 0 < nonce ∧ nonce < 2 ^ 64 then some (.challenge nonce) else none
  | .activated epoch => if epoch < 2 ^ 64 then some (.activated epoch) else none
  | .paused epoch => if epoch < 2 ^ 64 then some (.paused epoch) else none
  | _ => none

/-- `from_target` up to its first await. -/
def fromTarget (r : Relay) (c : Nat) (p : Peer) (owner : String) : Option Message → Relay
  | some (.rotate password rotationId) =>
      if validField password 24 128 ∧ validField rotationId 24 64 then
        r.setStage c (.serving owner (.waiting password rotationId))
      else r.setStage c .closing
  | message =>
      match message.bind outbound with
      | none => r.setStage c .closing
      | some m =>
          match r.controllers p.name with
          | none => r
          | some d => (r.putOn d ⟨m, some c⟩).getD (r.setStage c .closing)

/-- The reader of `c` handles one message; `none` stands for a malformed one. -/
def receive (r : Relay) (c : Nat) (message : Option Message) : Option Relay :=
  match r.stage c, r.peer c with
  | .serving owner .idle, some p =>
      match p.role with
      | .controller => some (r.fromController c p message)
      | .target => some (r.fromTarget c p owner message)
  | _, _ => none

/-- A rotation after its commit: revoke the controller and reply, still under `pair_lock`. -/
def complete (r : Relay) (c : Nat) : Option Relay :=
  match r.stage c, r.peer c with
  | .serving owner (.committed generation), some p =>
      let revoked := r.controllers p.name
      let r := ({ r with controllers := Function.update r.controllers p.name none,
                         completed := r.completed ++ [(p.name, generation)] }.setPeer c
        { p with generation := generation }).release
      match r.putOn c ⟨.rotated generation, revoked⟩ with
      | some r => some (r.setStage c (.serving owner .idle))
      | none => some (r.setStage c .closing)
  | _, _ => none

/-- The writer of `c` takes one message from the queue. It may still do so when the reader has just ended. -/
def write (r : Relay) (c : Nat) : Option Relay :=
  match r.stage c, r.peer c with
  | .serving .., some p | .closing, some p =>
      match p.out with
      | [] => none
      | entry :: rest => some (r.setPeer c { p with out := rest, sent := p.sent ++ [entry] })
  | _, _ => none

/-! ## The end of a connection -/

/-- The reader or the writer of `c` ends: connection lost, invalid message, expired queue, slow socket. A rotation is not
cancelled between its commit and its reply; one that is cancelled before may leave its thread running. -/
def fail (r : Relay) (c : Nat) (running : Bool) : Option Relay :=
  match r.stage c, r.peer c with
  | .replying _, _ | .serving _ .idle, _ | .serving _ (.waiting ..), _ => some (r.setStage c .closing)
  | .serving owner (.hashing password rotationId), some p =>
      let orphans := if running then [Orphan.mk p.name owner password rotationId] else []
      some ({ r with orphans := r.orphans ++ orphans }.setStage c .closing).release
  | _, _ => none

/-- `detach(peer)`. -/
def detachPeer (r : Relay) (c : Nat) (p : Peer) : Relay :=
  match p.role with
  | .target =>
      if r.targets p.name = some c then
        { r with targets := Function.update r.targets p.name none,
                 controllers := Function.update r.controllers p.name none }
      else r
  | .controller =>
      if r.controllers p.name = some c then
        let r := { r with controllers := Function.update r.controllers p.name none }
        match r.targets p.name with
        | some t => (r.putOn t ⟨.peerGone, some c⟩).getD r -- a full queue aborts the target's connection
        | none => r
      else r

def detach (r : Relay) (c : Nat) : Option Relay :=
  match r.stage c, r.peer c with
  | .closing, some p => some ((r.detachPeer c p).setStage c .closed)
  | _, _ => none

/-- The thread of a cancelled rotation performs its transaction. -/
def orphan (crypto : Crypto) (r : Relay) (i : Nat) (salt : String) : Option Relay :=
  (r.orphans[i]?).map fun o =>
    let r := { r with orphans := r.orphans.eraseIdx i }
    match r.registry.rotate crypto o.name o.owner o.password o.rotationId salt with
    | none => r
    | some (registry, _) => { r with registry := registry }

end Relay

/-! ## Runs -/

/-- What happens next at the relay. -/
inductive RelayAction where
  | hello (c : Nat) (message : Hello)
  | refuse (c : Nat)
  | transaction (c : Nat) (salt : String)
  | acquire (c : Nat)
  | admission (c : Nat)
  | rejected (c : Nat)
  | replied (c : Nat)
  | receive (c : Nat) (message : Option Message)
  | complete (c : Nat)
  | write (c : Nat)
  | fail (c : Nat) (running : Bool)
  | detach (c : Nat)
  | orphan (i : Nat) (salt : String)
  deriving DecidableEq, Repr

namespace Relay

/-- One action; `none` when the handler is not at that await. -/
def step (crypto : Crypto) (r : Relay) : RelayAction → Option Relay
  | .hello c message => r.hello c message
  | .refuse c => r.refuse c
  | .transaction c salt => r.transaction crypto c salt
  | .acquire c => r.acquire c
  | .admission c => r.admission c
  | .rejected c => r.rejected c
  | .replied c => r.replied c
  | .receive c message => r.receive c message
  | .complete c => r.complete c
  | .write c => r.write c
  | .fail c running => r.fail c running
  | .detach c => r.detach c
  | .orphan i salt => r.orphan crypto i salt

def run (crypto : Crypto) : Relay → List RelayAction → Option Relay
  | r, [] => some r
  | r, action :: actions => (r.step crypto action).bind (fun r => r.run crypto actions)

/-- The states of a relay that starts with `registry` and without connections. -/
inductive Reachable (crypto : Crypto) (registry : Registry) : Relay → Prop where
  | start : Reachable crypto registry { registry := registry }
  | step {r r' : Relay} (action : RelayAction) (h : Reachable crypto registry r) (hs : r.step crypto action = some r') :
      Reachable crypto registry r'

theorem Reachable.run {crypto : Crypto} {registry : Registry} {r r' : Relay} (h : Reachable crypto registry r)
    (actions : List RelayAction) (hr : r.run crypto actions = some r') : Reachable crypto registry r' := by
  induction actions generalizing r with
  | nil => cases hr; exact h
  | cons action actions ih =>
      obtain ⟨q, hq, hr⟩ := Option.bind_eq_some_iff.mp hr
      exact ih (.step action h hq) hr

end Relay

end RemoteInput
