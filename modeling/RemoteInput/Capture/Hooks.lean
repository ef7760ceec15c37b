import RemoteInput.Capture.Windows

/-!
# The hooks of Windows (`platforms/windows.py`)

What `_key` and `_mouse` make of the structures that the hooks carry.
-/

namespace RemoteInput

/-- `KBD`: three of its `DWORD`s. -/
structure Kbd where
  vk : Nat
  scan : Nat := 0
  flags : Nat := 0

/-- `MOUSE`: the point, and two of its `DWORD`s. -/
structure MouseHook where
  x : Int := 0
  y : Int := 0
  data : Nat := 0
  flags : Nat := 0

/-- The ranges of the fields. -/
def Kbd.valid (d : Kbd) : Prop := d.vk < 2 ^ 32 ∧ d.scan < 2 ^ 32 ∧ d.flags < 2 ^ 32

def MouseHook.valid (d : MouseHook) : Prop :=
  (-2 ^ 31 ≤ d.x ∧ d.x < 2 ^ 31) ∧ (-2 ^ 31 ≤ d.y ∧ d.y < 2 ^ 31) ∧ d.data < 2 ^ 32 ∧ d.flags < 2 ^ 32

instance (d : Kbd) : Decidable d.valid := inferInstanceAs (Decidable (_ ∧ _))

instance (d : MouseHook) : Decidable d.valid := inferInstanceAs (Decidable (_ ∧ _))

/-- `C.c_short(n).value`. -/
def cShort (n : Nat) : Int := if n % 2 ^ 16 < 2 ^ 15 then (n % 2 ^ 16 : Nat) else ((n % 2 ^ 16 : Nat) : Int) - 2 ^ 16

/-! ## The keyboard -/

/-- The key: the two sides of a modifier are told apart. -/
def Kbd.key (d : Kbd) : Int :=
  if d.vk = 0x10 then if d.scan = 0x36 then 0xA1 else 0xA0
  else if d.vk = 0x11 then if d.flags % 2 = 1 then 0xA3 else 0xA2
  else if d.vk = 0x12 then if d.flags % 2 = 1 then 0xA5 else 0xA4
  else d.vk

/-- The event has been injected. -/
def Kbd.injected (d : Kbd) : Prop := d.flags / 16 % 2 = 1

instance (d : Kbd) : Decidable d.injected := inferInstanceAs (Decidable (_ = _))

/-- `message in (0x100, 0x104)`. -/
def keyDown (message : Nat) : Bool := decide (message = 0x100 ∨ message = 0x104)

/-! ## The mouse -/

/-- The table of buttons, and the two buttons that share a message. -/
def mouseButton (message : Nat) (d : MouseHook) : Option (Int × Int) :=
  match message with
  | 0x201 => some (1, 1)
  | 0x202 => some (1, 0)
  | 0x204 => some (2, 1)
  | 0x205 => some (2, 0)
  | 0x207 => some (3, 1)
  | 0x208 => some (3, 0)
  | 0x20B => some (if d.data / 2 ^ 16 = 1 then 4 else 5, 1)
  | 0x20C => some (if d.data / 2 ^ 16 = 1 then 4 else 5, 0)
  | _ => none

namespace WindowsCapture

/-- The call of `policy.mouse` that `_mouse` makes, if any. -/
def mouseCall (message : Nat) (d : MouseHook) (w : WindowsCapture) : Option (Op × Int × Int) :=
  if d.flags % 2 = 1 then none
  else match w.anchor with
    | some anchor =>
        if message = 0x200 ∧ w.policy.active then
          if d.x - anchor.1 ≠ 0 ∨ d.y - anchor.2 ≠ 0 then some (.move, d.x - anchor.1, d.y - anchor.2) else none
        else other
    | none => other
where
  other : Option (Op × Int × Int) :=
    match mouseButton message d with
    | some (button, down) => some (.button, button, down)
    | none =>
        if message = 0x20A then some (.scroll, 0, cShort (d.data / 2 ^ 16))
        else if message = 0x20E then some (.scroll, cShort (d.data / 2 ^ 16), 0)
        else none

/-- `_key`, after `_pump_tick`. -/
def hookKey (pauses : Pauses) (message : Nat) (d : Kbd) (w : WindowsCapture) : WindowsCapture :=
  if d.injected then w else w.key pauses d.key (keyDown message)

/-- `_mouse`, after `_pump_tick`. -/
def hookMouse (pauses : Pauses) (message : Nat) (d : MouseHook) (w : WindowsCapture) : WindowsCapture :=
  match w.mouseCall message d with
  | some (op, a, b) => w.mouse pauses op a b
  | none => w

end WindowsCapture

end RemoteInput
