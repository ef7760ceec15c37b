import RemoteInput.Lib.BigEndian
import RemoteInput.Wire.Protocol

/-!
# The bytes of a frame (`protocol.py`)
-/

namespace RemoteInput

/-! ## Opcodes -/

/-- `Op(code)`; `none` when it raises. -/
def Op.ofCode : Nat → Option Op
  | 1 => some .move
  | 2 => some .key
  | 3 => some .button
  | 4 => some .scroll
  | 5 => some .reset
  | 6 => some .activate
  | 7 => some .heartbeat
  | 8 => some .probe
  | _ => none

theorem Op.ofCode_code (op : Op) : ofCode op.code = some op := by cases op <;> rfl

/-! ## Frames -/

/-- The widths of `FRAME`, the format `!BQQQQii`. -/
def frameWidths : List Nat := [1, 8, 8, 8, 8, 4, 4]

/-- `FRAME.size`. -/
def frameSize : Nat := frameWidths.sum

namespace Event

/-- The arguments that `FRAME.pack` takes. -/
def fits (e : Event) : Prop :=
  e.epoch < 2 ^ 64 ∧ e.seq < 2 ^ 64 ∧ e.stamp < 2 ^ 64 ∧ e.lease < 2 ^ 64 ∧
    (-2 ^ 31 ≤ e.a ∧ e.a < 2 ^ 31) ∧ -2 ^ 31 ≤ e.b ∧ e.b < 2 ^ 31

instance (e : Event) : Decidable e.fits := inferInstanceAs (Decidable (_ ∧ _))

/-- The fields of the packed frame. -/
def parts (e : Event) : List (List UInt8) :=
  [BigEndian.bytes 1 e.op.code, BigEndian.bytes 8 e.epoch, BigEndian.bytes 8 e.seq, BigEndian.bytes 8 e.stamp,
    BigEndian.bytes 8 e.lease, BigEndian.signedBytes 4 e.a, BigEndian.signedBytes 4 e.b]

/-- `pack()`; `none` when `struct` raises. -/
def pack (e : Event) : Option (List UInt8) := if e.fits then some e.parts.flatten else none

/-- The checks of `unpack` on the decoded event. -/
def check (e : Event) : Except String Event :=
  if e.op = .key ∧ ¬ (1 ≤ e.a ∧ e.a ≤ 254 ∧ (e.b = 0 ∨ e.b = 1)) then .error "Invalid key"
  else if e.op = .button ∧ ¬ (1 ≤ e.a ∧ e.a ≤ 5 ∧ (e.b = 0 ∨ e.b = 1)) then .error "Invalid button"
  else if e.op = .move ∧ max |e.a| |e.b| > 1000000 then .error "Invalid movement"
  else if e.op = .scroll ∧ max |e.a| |e.b| > 12000 then .error "Invalid scroll"
  else if (e.op = .reset ∨ e.op = .activate ∨ e.op = .heartbeat ∨ e.op = .probe) ∧ (e.a ≠ 0 ∨ e.b ≠ 0) then
    .error "Invalid control frame"
  else .ok e

/-- The arguments that a frame may have. -/
def arguments (op : Op) (a b : Int) : Prop :=
  match op with
  | .key => 1 ≤ a ∧ a ≤ 254 ∧ (b = 0 ∨ b = 1)
  | .button => 1 ≤ a ∧ a ≤ 5 ∧ (b = 0 ∨ b = 1)
  | .move => |a| ≤ 1000000 ∧ |b| ≤ 1000000
  | .scroll => |a| ≤ 12000 ∧ |b| ≤ 12000
  | .reset | .activate | .heartbeat | .probe => a = 0 ∧ b = 0

instance (op : Op) (a b : Int) : Decidable (arguments op a b) := by
  cases op <;> simp only [arguments] <;> infer_instance

/-- What `unpack` accepts of what `pack` can carry. -/
def legal (e : Event) : Prop :=
  e.epoch < 2 ^ 64 ∧ e.seq < 2 ^ 64 ∧ e.stamp < 2 ^ 64 ∧ e.lease < 2 ^ 64 ∧ arguments e.op e.a e.b

end Event

instance (e : Event) : Decidable e.legal := inferInstanceAs (Decidable (_ ∧ _))

/-- `unpack(data)` for bytes. -/
def unpack (data : List UInt8) : Except String Event :=
  if data.length ≠ frameSize then .error "Invalid input frame"
  else match BigEndian.fields frameWidths data with
    | [op, epoch, seq, stamp, lease, a, b] =>
        match Op.ofCode (BigEndian.value op) with
        | none => .error s!"{BigEndian.value op} is not a valid Op"
        | some op =>
            Event.check { op := op, epoch := BigEndian.value epoch, seq := BigEndian.value seq,
                          stamp := BigEndian.value stamp, lease := BigEndian.value lease,
                          a := BigEndian.signed a, b := BigEndian.signed b }
    | _ => .error "Invalid input frame" -- not reached: the fields are seven

/-! ## The round trip -/

namespace Event

variable {e : Event} {data : List UInt8}

theorem check_ok_iff : e.check = .ok e ↔ arguments e.op e.a e.b := by
  unfold check arguments
  cases e.op <;> simp <;> tauto

theorem arguments.fits {op : Op} {a b : Int} (h : arguments op a b) :
    (-2 ^ 31 ≤ a ∧ a < 2 ^ 31) ∧ -2 ^ 31 ≤ b ∧ b < 2 ^ 31 := by
  cases op <;> simp only [arguments, abs_le] at h <;> omega

/-- `unpack` decodes what was packed and then checks it. -/
theorem unpack_pack (h : e.pack = some data) : unpack data = e.check := by
  unfold pack at h
  split at h
  · rename_i hfits
    cases h
    obtain ⟨h1, h2, h3, h4, ⟨h5, h6⟩, h7, h8⟩ := hfits
    have hwidths : e.parts.map List.length = frameWidths := by simp [parts, frameWidths]
    have hlength : e.parts.flatten.length = frameSize := by rw [List.length_flatten, hwidths]; rfl
    have hfields : BigEndian.fields frameWidths e.parts.flatten = e.parts := by rw [← hwidths, BigEndian.fields_flatten]
    have hcode : BigEndian.value (BigEndian.bytes 1 e.op.code) = e.op.code :=
      BigEndian.value_bytes_of_lt (by cases e.op <;> decide)
    have hvalue : ∀ n < 2 ^ 64, BigEndian.value (BigEndian.bytes 8 n) = n :=
      fun n hn => BigEndian.value_bytes_of_lt (by norm_num at hn ⊢; exact hn)
    have hsigned : ∀ i : Int, -2 ^ 31 ≤ i → i < 2 ^ 31 → BigEndian.signed (BigEndian.signedBytes 4 i) = i :=
      fun i hl hh => BigEndian.signed_signedBytes (by norm_num at hl ⊢; omega) (by norm_num at hh ⊢; omega)
    unfold unpack
    rw [if_neg (not_not.mpr hlength), hfields]
    simp only [parts]
    rw [hcode, Op.ofCode_code, hvalue _ h1, hvalue _ h2, hvalue _ h3, hvalue _ h4, hsigned _ h5 h6, hsigned _ h7 h8]
  · cases h

/-- Exactly the legal events survive the wire. -/
theorem survives_iff : (∃ data, e.pack = some data ∧ unpack data = .ok e) ↔ e.legal := by
  constructor
  · rintro ⟨data, hp, hu⟩
    have hfits : e.fits := by
      by_contra hn
      rw [pack, if_neg hn] at hp
      cases hp
    rw [unpack_pack hp, check_ok_iff] at hu
    exact ⟨hfits.1, hfits.2.1, hfits.2.2.1, hfits.2.2.2.1, hu⟩
  · rintro ⟨h1, h2, h3, h4, ha⟩
    have hp : e.pack = some e.parts.flatten := if_pos ⟨h1, h2, h3, h4, ha.fits⟩
    exact ⟨_, hp, (unpack_pack hp).trans (check_ok_iff.mpr ha)⟩

end Event

end RemoteInput
