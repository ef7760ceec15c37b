import Mathlib

/-!
# Frames and control messages of `protocol.py`
-/

namespace RemoteInput

/-- Opcodes of the binary input frame. -/
inductive Op where
  | move
  | key
  | button
  | scroll
  | reset
  | activate
  | heartbeat
  | probe
  deriving DecidableEq, Repr

def Op.code : Op → Nat
  | .move => 1
  | .key => 2
  | .button => 3
  | .scroll => 4
  | .reset => 5
  | .activate => 6
  | .heartbeat => 7
  | .probe => 8

/-- The operations that inject something on the target. -/
def Op.isInput : Op → Bool
  | .move | .key | .button | .scroll => true
  | .reset | .activate | .heartbeat | .probe => false

/-- One input frame: opcode, activation epoch, sequence number, send clock, lease nonce and two arguments. -/
structure Event where
  op : Op
  epoch : Nat := 0
  seq : Nat := 0
  stamp : Nat := 0
  lease : Nat := 0
  a : Int := 0
  b : Int := 0
  deriving DecidableEq, Repr

/-- What the three programs send each other once a connection is admitted. The opcode of an acknowledgement is any byte. -/
inductive Message where
  | frame (event : Event)
  | ack (op epoch seq stamp queueUs injectionUs : Nat)
  | challenge (nonce : Nat)
  | activated (epoch : Nat)
  | paused (epoch : Nat)
  | rotate (password rotationId : String)
  | rotated (generation : Nat)
  | peerJoined
  | peerGone
  deriving DecidableEq, Repr

/-- The frames among `messages`, in order. -/
def framesOf (messages : List Message) : List Event :=
  messages.filterMap fun
    | .frame event => some event
    | _ => none

theorem framesOf_append (l l' : List Message) : framesOf (l ++ l') = framesOf l ++ framesOf l' := List.filterMap_append

/-- `min(int(us), 2**32 - 1)`; both durations come from monotonic clocks, so they are not negative. -/
def ackField (us : ℚ) : Nat := min us.floor.toNat (2 ^ 32 - 1)

/-- `ack(event, queue_us, injection_us)`. -/
def ack (event : Event) (queueUs injectionUs : ℚ) : Message :=
  .ack event.op.code event.epoch event.seq event.stamp (ackField queueUs) (ackField injectionUs)

/-- `secrets.randbits(64) or 1` for the drawn bits. -/
def orOne (bits : Nat) : Nat := if bits = 0 then 1 else bits

theorem orOne_ne_zero (bits : Nat) : orOne bits ≠ 0 := by
  unfold orOne; split <;> simp_all

end RemoteInput
