import RemoteInput.Lib.Runs
import RemoteInput.Relay.Registry

/-!
# Concurrent calls of the registry (`registry.py`)

Each call runs in a thread of its own, from one transaction to the next. It may raise before a transaction, or after one that
has committed, so that its reply is lost; a retry is a call of its own.
-/

namespace RemoteInput

inductive RegistryCall where
  | register (owner password : String)
  | owner (name secret : String)
  | login (name password : String)
  | rotate (name owner password rotationId : String)
  deriving DecidableEq, Repr

/-- The secret that a call passes to `digest`. -/
def RegistryCall.secret : RegistryCall → Option String
  | .register secret _ | .rotate _ secret _ _ => some secret
  | .owner _ secret => some secret
  | .login .. => none

inductive RegistryReply where
  | registered (name : String) (generation : Nat)
  | generation (generation : Option Nat)
  | rotated (generation : Nat)
  deriving DecidableEq, Repr

/-- Where a call stands. `hashing` is `register` between its transactions. -/
inductive CallPoint where
  | unused
  | started (call : RegistryCall)
  | hashing (owner password : String)
  | returned (call : RegistryCall) (reply : RegistryReply)
  | raised (call : RegistryCall)
  deriving DecidableEq, Repr

/-- The call at a point. -/
def CallPoint.call : CallPoint → Option RegistryCall
  | .unused => none
  | .started call | .returned call _ | .raised call => some call
  | .hashing owner password => some (.register owner password)

/-- The table and the calls. `rotations` has the number and the id of every `rotate` that has committed. -/
structure Callers where
  registry : Registry := {}
  point : Nat → CallPoint := fun _ => .unused
  rotations : List (Int × String) := []

namespace Callers

def moveTo (s : Callers) (i : Nat) (point : CallPoint) : Callers := { s with point := Function.update s.point i point }

/-- The next transaction of call `i`. -/
def transaction (crypto : Crypto) (s : Callers) (i : Nat) (salt : String) : Option Callers :=
  match s.point i with
  | .started (.register owner password) =>
      match s.registry.registered crypto owner with
      | some (name, generation) => some (s.moveTo i (.returned (.register owner password) (.registered name generation)))
      | none => some (s.moveTo i (.hashing owner password))
  | .hashing owner password =>
      let (registry, name, generation) := s.registry.insert crypto owner password salt
      some ({ s with registry := registry }.moveTo i (.returned (.register owner password) (.registered name generation)))
  | .started (.owner name secret) =>
      some (s.moveTo i (.returned (.owner name secret) (.generation (s.registry.owner crypto name secret))))
  | .started (.login name password) =>
      some (s.moveTo i (.returned (.login name password) (.generation (s.registry.login crypto name password))))
  | .started (.rotate name owner password rotationId) =>
      match s.registry.rotate crypto name owner password rotationId salt with
      | none => some (s.moveTo i (.raised (.rotate name owner password rotationId)))
      | some (registry, generation) =>
          some ({ s with registry := registry, rotations := s.rotations ++ [(Registry.number name, rotationId)] }.moveTo i
            (.returned (.rotate name owner password rotationId) (.rotated generation)))
  | _ => none

/-- Call `i` raises where it stands; after its last transaction that loses its reply. -/
def lose (s : Callers) (i : Nat) : Option Callers :=
  match s.point i with
  | .unused | .raised _ => none
  | .started call | .returned call _ => some (s.moveTo i (.raised call))
  | .hashing owner password => some (s.moveTo i (.raised (.register owner password)))

end Callers

/-! ## Runs -/

inductive CallersAction where
  | call (i : Nat) (call : RegistryCall)
  | transaction (i : Nat) (salt : String)
  | lose (i : Nat)
  deriving DecidableEq, Repr

namespace Callers

/-- One action; `none` when it is not possible. -/
def step (crypto : Crypto) (s : Callers) : CallersAction → Option Callers
  | .call i call => if s.point i = .unused then some (s.moveTo i (.started call)) else none
  | .transaction i salt => s.transaction crypto i salt
  | .lose i => s.lose i

/-- The state after a run that starts with an empty table. -/
def run (crypto : Crypto) (actions : List CallersAction) : Option Callers := Runs.exec (step crypto) {} actions

/-- The secrets that the calls of a run use. -/
def secrets (actions : List CallersAction) : Set String :=
  { secret | ∃ i call, .call i call ∈ actions ∧ call.secret = some secret }

end Callers

end RemoteInput
