import RemoteInput.Engine.Threads
import RemoteInput.Relay.Semantics
import RemoteInput.Wire.Outbox

/-!
# The target program (`target.py`, with the identity of `vault.py`)

One definition for each handler. A crash inside a handler is the same as one right after it, because a handler saves to the
vault at most once and everything else that it changes is lost in a crash.
-/

namespace RemoteInput

/-! ## The identity -/

/-- The record in the vault. `pending` is `pending_password` and `rotation_id`. -/
structure Identity where
  ownerSecret : String
  id : Option String := none
  password : String
  pending : Option (String × String) := none
  deriving DecidableEq, Repr

namespace Identity

/-- The first message to the relay. -/
def hello (i : Identity) : Hello :=
  match i.id with
  | some id => .target i.ownerSecret id ""
  | none => .target i.ownerSecret "" i.password

/-- `begin_rotation`, with what `secrets.token_urlsafe` draws. -/
def beginRotation (drawn : String × String) (i : Identity) : Identity :=
  if i.pending = none then { i with pending := some drawn } else i

/-- `finish_rotation`; `none` is the `KeyError`. -/
def finishRotation (i : Identity) : Option Identity :=
  i.pending.map (fun pending => { i with password := pending.1, pending := none })

end Identity

/-! ## The program -/

/-- `Target`, with its vault. The last two fields are there for the reader of the model: the frames that the engine got, and
for each operation of the engine the epoch before it and its effects. -/
structure Target where
  vault : Identity
  identity : Identity
  rotating : Bool
  outbox : Option (Outbox Message) := none
  threads : EngineThreads := {}
  passed : List Entry := []
  done : List (Nat × List Out) := []

/-- What the operating system and the clocks answer in an operation. -/
def ThreadOp.env : ThreadOp → Env
  | .receive env _ | .peerChanged env | .setConnected env _ | .reset env _ | .tick env _ | .pop env | .body env => env

namespace Target

/-- A new process. -/
def start (vault : Identity) : Target := { vault := vault, identity := vault, rotating := vault.pending.isSome }

/-- `emit(raw)`. -/
def emit (now : Time) (message : Message) (t : Target) : Target :=
  { t with outbox := t.outbox.map (·.put now message) }

/-- One operation of the engine; what it emits goes to the outbox. -/
def thread (op : ThreadOp) (t : Target) : Option Target :=
  (t.threads.step op).map fun threads =>
    let t := { t with threads := threads, done := t.done ++ [(t.threads.engine.epoch, threads.engine.out)] }
    (messages threads.engine.out).foldl (fun t message => t.emit op.env.now message) t

/-- The identity is saved. -/
def save (identity : Identity) (t : Target) : Target := { t with identity := identity, vault := identity }

/-- `rotate()` after the engine has been reset. -/
def request (now : Time) (drawn : String × String) (t : Target) : Target :=
  let t := { t with rotating := true }.save (t.identity.beginRotation drawn)
  match t.identity.pending with
  | some (password, rotationId) => t.emit now (.rotate password rotationId)
  | none => t

/-- `rotate()`. -/
def rotate (env : Env) (drawn : String × String) (t : Target) : Option Target :=
  (t.thread (.reset env "Paused: changing password")).map (·.request env.now drawn)

/-- `P` while the target is offline. -/
def rotateOffline (drawn : String × String) (t : Target) : Target :=
  { t with rotating := true }.save (t.identity.beginRotation drawn)

/-- `run` once the relay has replied `registered`. -/
def registered (env : Env) (drawn : String × String) (name : String) (t : Target) : Option Target :=
  let t := { t.save { t.identity with id := some name } with outbox := some {} }
  (t.thread (.setConnected env true)).bind fun t => if t.rotating then t.rotate env drawn else some t

/-- `reader` for one message; `none` when it raises. -/
def read (env : Env) (t : Target) (entry : Entry) : Option Target :=
  match entry.message with
  | .frame event =>
      if t.rotating then some t else { t with passed := t.passed ++ [entry] }.thread (.receive env event)
  | .peerJoined | .peerGone => t.thread (.peerChanged env)
  | .rotated _ =>
      if t.rotating then
        t.identity.finishRotation.map (fun identity => { t with rotating := false }.save identity)
      else none
  | _ => none

/-- The `finally` of a connection in `run`. -/
def disconnect (env : Env) (t : Target) : Option Target :=
  (t.thread (.setConnected env false)).map (fun t => { t with outbox := none })

/-- The process ends at any point and is started again. -/
def restart (t : Target) : Target := { start t.vault with passed := t.passed, done := t.done }

end Target

end RemoteInput
