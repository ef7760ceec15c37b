import RemoteInput.Lib.JsonText
import RemoteInput.Wire.Config
import RemoteInput.Wire.Frame

/-!
# Control messages and acknowledgements on the wire (`protocol.py`)

What the programs hand to their connections and what they make of it: text for control messages, bytes for frames and
acknowledgements. `depth` is how deep brackets may be before `json` raises.
-/

namespace RemoteInput

/-- What a connection carries. -/
inductive Raw where
  | text (chars : List Char)
  | bytes (data : List UInt8)
  deriving DecidableEq

def codePoints (s : String) : List CodePoint := s.toList.map CodePoint.ofChar

/-! ## Control messages -/

/-- The fields of a control message, its type among them. -/
abbrev Fields := List (List CodePoint × Json)

def controlFields (kind : String) (fields : List (String × Json)) : Fields :=
  Json.dict ((codePoints "type", .str (codePoints kind)) :: fields.map fun f => (codePoints f.1, f.2))

/-- `control(kind, **fields)`. -/
def control (kind : String) (fields : List (String × Json)) : Raw := .text (Json.dumps (.obj (controlFields kind fields)))

/-- `len(text.encode())`. -/
def encodedLength (text : List Char) : Nat := (text.map Char.utf8Size).sum

/-- `parse_control(raw)`, with the type of the message; `none` when it raises. -/
def parseControl (depth : Nat) : Raw → Option (List CodePoint × Fields)
  | .bytes _ => none
  | .text chars =>
      if encodedLength chars > maxFrame then none
      else match Json.loads depth chars with
        | some (.obj fields) =>
            match Json.get (codePoints "type") fields with
            | some (.str kind) => some (kind, fields)
            | _ => none
        | _ => none

/-- `field(obj, name, minimum, maximum)`; `none` when it raises. -/
def field (fields : Fields) (name : String) (minimum maximum : Nat) : Option (List CodePoint) :=
  match Json.get (codePoints name) fields with
  | some (.str value) => if minimum ≤ value.length ∧ value.length ≤ maximum then some value else none
  | _ => none

/-- A whole number. A boolean is none, nor is a float. -/
def number (fields : Fields) (name : String) : Option Nat :=
  match Json.get (codePoints name) fields with
  | some (.int n) => if 0 ≤ n then some n.toNat else none
  | _ => none

/-! ## Acknowledgements -/

/-- The widths of `ACK`, the format `!BBQQQII`. -/
def ackWidths : List Nat := [1, 1, 8, 8, 8, 4, 4]

/-- `ACK.size`. -/
def ackSize : Nat := ackWidths.sum

def ackCode : Nat := 128

/-- The numbers of an acknowledgement. -/
structure Ack where
  op : Nat
  epoch : Nat
  seq : Nat
  stamp : Nat
  queueUs : Nat
  injectionUs : Nat
  deriving DecidableEq, Repr

namespace Ack

/-- The arguments that `ACK.pack` takes. -/
def fits (a : Ack) : Prop :=
  a.op < 2 ^ 8 ∧ a.epoch < 2 ^ 64 ∧ a.seq < 2 ^ 64 ∧ a.stamp < 2 ^ 64 ∧ a.queueUs < 2 ^ 32 ∧ a.injectionUs < 2 ^ 32

instance (a : Ack) : Decidable a.fits := inferInstanceAs (Decidable (_ ∧ _))

def parts (a : Ack) : List (List UInt8) :=
  [BigEndian.bytes 1 ackCode, BigEndian.bytes 1 a.op, BigEndian.bytes 8 a.epoch, BigEndian.bytes 8 a.seq,
    BigEndian.bytes 8 a.stamp, BigEndian.bytes 4 a.queueUs, BigEndian.bytes 4 a.injectionUs]

/-- `ACK.pack(ACK_CODE, ...)`; `none` when `struct` raises. -/
def pack (a : Ack) : Option (List UInt8) := if a.fits then some a.parts.flatten else none

/-- The check that the relay and the controller make, and `ACK.unpack`. -/
def unpack (data : List UInt8) : Option Ack :=
  if data.length ≠ ackSize ∨ data.head?.map UInt8.toNat ≠ some ackCode then none
  else match BigEndian.fields ackWidths data with
    | [_, op, epoch, seq, stamp, queueUs, injectionUs] =>
        some { op := BigEndian.value op, epoch := BigEndian.value epoch, seq := BigEndian.value seq,
               stamp := BigEndian.value stamp, queueUs := BigEndian.value queueUs,
               injectionUs := BigEndian.value injectionUs }
    | _ => none -- not reached: the fields are seven

def message (a : Ack) : Message := .ack a.op a.epoch a.seq a.stamp a.queueUs a.injectionUs

end Ack

/-! ## Messages -/

/-- What the program that sends a message hands to its connection; `none` when `struct` raises. -/
def Message.raw : Message → Option Raw
  | .frame event => event.pack.map .bytes
  | .ack op epoch seq stamp queueUs injectionUs => (Ack.pack ⟨op, epoch, seq, stamp, queueUs, injectionUs⟩).map .bytes
  | .challenge nonce => some (control "challenge" [("nonce", .int nonce)])
  | .activated epoch => some (control "activated" [("epoch", .int epoch)])
  | .paused epoch => some (control "paused" [("epoch", .int epoch)])
  | .rotate password rotationId =>
      some (control "rotate" [("password", .str (codePoints password)), ("rotation_id", .str (codePoints rotationId))])
  | .rotated generation => some (control "rotated" [("generation", .int generation)])
  | .peerJoined => some (control "peer_joined" [])
  | .peerGone => some (control "peer_gone" [])

/-! ## The relay -/

/-- What `from_target` makes of raw data: something to forward, or a rotation to ask of the registry. -/
inductive FromTarget where
  | forward (raw : Raw)
  | rotate (password rotationId : List CodePoint)
  deriving DecidableEq

/-- `control(kind, epoch=epoch)` for an epoch that passes the check of `from_target`. -/
def forwardEpoch (kind : String) : Json → Option FromTarget
  | .int epoch => if 0 ≤ epoch ∧ epoch < 2 ^ 64 then some (.forward (control kind [("epoch", .int epoch)])) else none
  | _ => none

/-- `control("challenge", nonce=nonce)` for a nonce that passes the check of `from_target`. -/
def forwardNonce : Option Json → Option FromTarget
  | some (.int nonce) =>
      if 0 < nonce ∧ nonce < 2 ^ 64 then some (.forward (control "challenge" [("nonce", .int nonce)])) else none
  | _ => none

/-- `from_target(peer, raw, owner)` up to its first await; `none` when it raises. -/
def fromTarget (depth : Nat) : Raw → Option FromTarget
  | .bytes data =>
      if data.length ≠ ackSize ∨ data.head?.map UInt8.toNat ≠ some ackCode then none else some (.forward (.bytes data))
  | .text chars =>
      (parseControl depth (.text chars)).bind fun msg =>
        if msg.1 = codePoints "rotate" then
          (field msg.2 "password" 24 128).bind fun password =>
            (field msg.2 "rotation_id" 24 64).map fun rotationId => .rotate password rotationId
        else if msg.1 = codePoints "challenge" then forwardNonce (Json.get (codePoints "nonce") msg.2)
        else if msg.1 = codePoints "activated" ∨ msg.1 = codePoints "paused" then
          forwardEpoch (if msg.1 = codePoints "activated" then "activated" else "paused")
            ((Json.get (codePoints "epoch") msg.2).getD (.int 0))
        else none

/-! ## The two ends -/

/-- The reader of the controller on what the relay sends after `connected`; `none` when it raises. On other texts the code
is less strict than this: it takes a nonce of any type, and goes on after an epoch that is missing in `paused` or is no
whole number. The relay forwards no such text. -/
def forController (depth : Nat) : Raw → Option Message
  | .bytes data => (Ack.unpack data).map Ack.message
  | .text chars =>
      (parseControl depth (.text chars)).bind fun message =>
        if message.1 = codePoints "challenge" then (number message.2 "nonce").map .challenge
        else if message.1 = codePoints "activated" then (number message.2 "epoch").map .activated
        else if message.1 = codePoints "paused" then (number message.2 "epoch").map .paused
        else none

/-- The reader of the target; `none` when it raises. The code does not look at the generation. -/
def forTarget (depth : Nat) : Raw → Option Message
  | .bytes data => (unpack data).toOption.map .frame
  | .text chars =>
      (parseControl depth (.text chars)).bind fun message =>
        if message.1 = codePoints "peer_joined" then some .peerJoined
        else if message.1 = codePoints "peer_gone" then some .peerGone
        else if message.1 = codePoints "rotated" then some (.rotated ((number message.2 "generation").getD 0))
        else none

end RemoteInput
