import RemoteInput.Lib.Leads
import RemoteInput.Relay.Lemmas.Sessions

/-!
# What the relay counts (`relay.py`)

The relay together with `connections` and the holders of `hash_slots`. A handler takes a slot before a worker thread hashes
for it and gives it back when it goes on, also when it is cancelled and the thread runs on.
-/

namespace RemoteInput

/-- The handler is within `hash_call`. -/
def Stage.hashes : Stage → Bool
  | .checkingOwner .. | .registering .. | .inserting .. | .checkingPassword .. | .serving _ (.hashing ..) => true
  | _ => false

/-- The handler waits for `pair_lock`. -/
def Stage.waits : Stage → Bool
  | .waitingTarget .. | .waitingController .. | .serving _ (.waiting ..) => true
  | _ => false

/-- The handler that an action is of. The thread of a cancelled rotation has none any more. -/
def RelayAction.handler : RelayAction → Option Nat
  | .hello c _ | .refuse c | .transaction c _ | .acquire c | .admission c | .rejected c | .replied c
  | .receive c _ | .complete c
  | .write c | .fail c _ | .detach c => some c
  | .orphan .. => none

/-- A worker thread has done its part. -/
def RelayAction.works : RelayAction → Bool
  | .transaction .. => true
  | _ => false

def connectionLimit : Nat := 512

/-- `asyncio.Semaphore(4)`. -/
def slotLimit : Nat := 4

/-- `Relay` with its counters. `admitted` are the handlers that go on to read a first message, `turned` those that send
their client away at once. -/
structure RelayServer where
  relay : Relay := {}
  connections : Nat := 0
  admitted : List Nat := []
  turned : List Nat := []
  hashSlots : List Nat := []

inductive ServerAction where
  | connect (c : Nat) (welcome : Bool)
  | turned (c : Nat)
  | slot (c : Nat)
  | act (action : RelayAction)
  | ended (c : Nat)

namespace RelayServer

/-- A connection comes in. `welcome` is what the path and `connect_limit` say. -/
def connect (c : Nat) (welcome : Bool) (s : RelayServer) : Option RelayServer :=
  if c ∈ s.admitted ∨ c ∈ s.turned ∨ s.relay.stage c ≠ .fresh then none
  else
    let s := { s with connections := s.connections + 1 }
    if ¬ welcome ∨ s.connections > connectionLimit then some { s with turned := c :: s.turned }
    else some { s with admitted := c :: s.admitted }

/-- `reject` has finished for a client that was sent away at once. -/
def leave (c : Nat) (s : RelayServer) : Option RelayServer :=
  if c ∈ s.turned then some { s with connections := s.connections - 1, turned := s.turned.erase c } else none

/-- The handler gets a slot. -/
def takeSlot (c : Nat) (s : RelayServer) : Option RelayServer :=
  if c ∈ s.admitted ∧ (s.relay.stage c).hashes ∧ c ∉ s.hashSlots ∧ s.hashSlots.length < slotLimit then
    some { s with hashSlots := c :: s.hashSlots }
  else none

/-- Only admitted handlers act, and a worker thread hashes only for one that has a slot. -/
def mayAct (s : RelayServer) (action : RelayAction) : Prop :=
  ∀ c ∈ action.handler, c ∈ s.admitted ∧ (action.works → (s.relay.stage c).hashes → c ∈ s.hashSlots)

instance (s : RelayServer) (action : RelayAction) : Decidable (s.mayAct action) :=
  inferInstanceAs (Decidable (∀ c ∈ action.handler, _))

/-- One action of the relay. A handler that goes on from `hash_call` gives its slot back. -/
def act (crypto : Crypto) (action : RelayAction) (s : RelayServer) : Option RelayServer :=
  if s.mayAct action then
    (s.relay.step crypto action).map fun relay =>
      { s with relay := relay, hashSlots := s.hashSlots.filter fun c => (relay.stage c).hashes }
  else none

/-- The handler has returned. -/
def ended (c : Nat) (s : RelayServer) : Option RelayServer :=
  if c ∈ s.admitted ∧ s.relay.stage c = .closed then
    some { s with connections := s.connections - 1, admitted := s.admitted.erase c }
  else none

/-- One action; `none` when it is not possible. -/
def step (crypto : Crypto) (s : RelayServer) : ServerAction → Option RelayServer
  | .connect c welcome => s.connect c welcome
  | .turned c => s.leave c
  | .slot c => s.takeSlot c
  | .act action => s.act crypto action
  | .ended c => s.ended c

/-- The server after a run. -/
def run (crypto : Crypto) (s : RelayServer) (actions : List ServerAction) : Option RelayServer :=
  Runs.exec (step crypto) s actions

end RelayServer

/-- What the relay does by itself, whatever its clients do: a handler gets a slot or the lock, a worker thread finishes, and
a handler that holds the lock goes on. -/
def ServerAction.own : ServerAction → Prop
  | .slot _ | .act (.transaction ..) | .act (.acquire _) | .act (.admission _) | .act (.rejected _)
  | .act (.complete _) => True
  | _ => False

end RemoteInput
