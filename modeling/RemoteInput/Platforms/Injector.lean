import RemoteInput.Engine.Semantics
import RemoteInput.Platforms.Macos

/-!
# The injector on macOS (`macos.py`, `keys.py`)

`MacInjector` with everything that it remembers between calls. What Core Graphics and the clock answer during a call is a
parameter.
-/

namespace RemoteInput

/-! ## Keys -/

/-- `MAC_KEYS`: hardware key codes for Windows virtual keys. -/
def macKeys : List (Int × Nat) :=
  [(0x41, 0), (0x53, 1), (0x44, 2), (0x46, 3), (0x48, 4), (0x47, 5), (0x5A, 6), (0x58, 7), (0x43, 8), (0x56, 9),
    (0x42, 11), (0x51, 12), (0x57, 13), (0x45, 14), (0x52, 15), (0x59, 16), (0x54, 17), (0x31, 18), (0x32, 19),
    (0x33, 20), (0x34, 21), (0x36, 22), (0x35, 23), (0xBB, 24), (0x39, 25), (0x37, 26), (0xBD, 27), (0x38, 28),
    (0x30, 29), (0xDD, 30), (0x4F, 31), (0x55, 32), (0xDB, 33), (0x49, 34), (0x50, 35), (0x0D, 36), (0x4C, 37),
    (0x4A, 38), (0xDE, 39), (0x4B, 40), (0xBA, 41), (0xDC, 42), (0xBC, 43), (0xBF, 44), (0x4E, 45), (0x4D, 46),
    (0xBE, 47), (0x09, 48), (0x20, 49), (0xC0, 50), (0x08, 51), (0x1B, 53), (0xA3, 62), (0xA2, 55), (0xA0, 56),
    (0x14, 57), (0xA4, 58), (0x5B, 59), (0xA1, 60), (0xA5, 61), (0x5C, 62), (0x10, 56), (0x11, 55), (0x12, 58),
    (0x6E, 65), (0x6A, 67), (0x6B, 69), (0x90, 71), (0x6F, 75), (0x6D, 78), (0x60, 82), (0x61, 83), (0x62, 84),
    (0x63, 85), (0x64, 86), (0x65, 87), (0x66, 88), (0x67, 89), (0x68, 91), (0x69, 92), (0x74, 96), (0x75, 97),
    (0x76, 98), (0x72, 99), (0x77, 100), (0x78, 101), (0x7A, 103), (0x79, 109), (0x7B, 111), (0x73, 118), (0x71, 120),
    (0x70, 122), (0x24, 115), (0x21, 116), (0x2E, 117), (0x23, 119), (0x22, 121), (0x25, 123), (0x27, 124),
    (0x28, 125), (0x26, 126), (0x7C, 105), (0x7D, 107), (0x7E, 113), (0x7F, 106), (0x80, 64), (0x81, 79), (0x82, 80),
    (0x83, 90), (0x2D, 114)]

/-- `MAC_MODIFIERS`. -/
def macModifiers : List (Int × Nat) :=
  [(0xA2, 2 ^ 20), (0x11, 2 ^ 20), (0xA3, 2 ^ 18), (0x5B, 2 ^ 18), (0x5C, 2 ^ 18), (0xA0, 2 ^ 17), (0xA1, 2 ^ 17),
    (0x10, 2 ^ 17), (0xA4, 2 ^ 19), (0xA5, 2 ^ 19), (0x12, 2 ^ 19)]

/-- `MAC_KEYS[key]`. -/
def macKey (key : Int) : Option Nat := (macKeys.find? (·.1 = key)).map Prod.snd

/-- `MAC_MODIFIERS.get(key, 0)`. -/
def macModifier (key : Int) : Nat := ((macModifiers.find? (·.1 = key)).map Prod.snd).getD 0

/-! ## The injector -/

/-- An entry of `clicks`. -/
structure Click (α : Type) where
  time : Time
  x : α
  y : α
  count : Nat

/-- A press so soon after `previous`, and so near, counts as one of the same series. -/
def Click.continues {α : Type} [CommRing α] [LinearOrder α] (previous : Click α) (now : Time) (point : CGPoint α) : Prop :=
  now - previous.time < 1 / 2 ∧ |point.x - previous.x| < 4 ∧ |point.y - previous.y| < 4

instance {α : Type} [CommRing α] [LinearOrder α] (previous : Click α) (now : Time) (point : CGPoint α) :
    Decidable (previous.continues now point) :=
  inferInstanceAs (Decidable (_ ∧ _ ∧ _))

/-- `MacInjector`. -/
structure MacInjector (α : Type) where
  keys : PySet Int := ∅
  buttons : PySet Int := ∅
  scrollX : Int := 0
  scrollY : Int := 0
  clicks : Int → Option (Click α) := fun _ => none

/-- What the operating system answers during one call. -/
structure MacAnswers (α : Type) where
  cg : CoreGraphics α
  now : Time := 0

/-- An event of Core Graphics with the fields that are set in it. -/
inductive MacEvent (α : Type) where
  | key (code : Nat) (down repeated : Bool)
  | button (type : Nat) (point : CGPoint α) (native clicks : Nat)
  | move (event : MouseEvent α)
  | scroll (lines columns : Int)
  deriving DecidableEq

inductive InjectorError where
  | unmapped
  | mac (error : MacError)

def InjectorError.message : InjectorError → String
  | .unmapped => "This key has no macOS mapping; input paused."
  | .mac error => error.message

/-- What one call leaves: the injector, the event that it wanted, with its flags, and what it raised. -/
structure MacResult (α : Type) where
  injector : MacInjector α
  event : Option (MacEvent α × Nat) := none
  error : Option InjectorError := none

namespace MacResult

variable {α : Type}

/-- The event is posted, unless the call raised. -/
def posted (r : MacResult α) : Option (MacEvent α × Nat) := if r.error.isNone then r.event else none

/-- How the engine sees the call end. A call that raises has posted nothing. -/
def outcome (r : MacResult α) : Outcome := if r.error.isNone then .done else .raised false

end MacResult

namespace MacInjector

variable {α : Type}

/-- `_flags()`. -/
def flags (m : MacInjector α) : Nat := m.keys.elems.foldl (fun value key => value ||| macModifier key) 0

/-- `_post(event)`. -/
def post (a : MacAnswers α) (event : MacEvent α) (m : MacInjector α) : MacResult α :=
  { injector := m, event := some (event, m.flags), error := if a.cg.createsEvents then none else some (.mac .noEvent) }

/-- `key(key, down)`. -/
def key (a : MacAnswers α) (key : Int) (down : Bool) (m : MacInjector α) : MacResult α :=
  match macKey key with
  | none => { injector := m, error := some .unmapped }
  | some code =>
      { m with keys := if down then m.keys.add key else m.keys.discard key }.post a
        (.key code down (down && decide (key ∈ m.keys)))

/-- `scroll(horizontal, vertical)`. `int` cuts the quotient towards zero; for numbers of this size the quotient of floats
lies between the same two integers as the exact one. -/
def scroll (a : MacAnswers α) (horizontal vertical : Int) (m : MacInjector α) : MacResult α :=
  let x := (m.scrollX + horizontal).tdiv 120
  let y := (m.scrollY + vertical).tdiv 120
  let m := { m with scrollX := m.scrollX + horizontal - x * 120, scrollY := m.scrollY + vertical - y * 120 }
  if x ≠ 0 ∨ y ≠ 0 then m.post a (.scroll y (-x)) else { injector := m }

/-- `{1: (1, 2), 2: (3, 4)}.get(button, (25, 26))`. -/
def buttonType (button : Int) (down : Bool) : Nat :=
  if button = 1 then (if down then 1 else 2) else if button = 2 then (if down then 3 else 4) else if down then 25 else 26

variable [CommRing α] [LinearOrder α]

/-- The number of clicks that `button` sets. -/
def clickCount (previous : Option (Click α)) (down : Bool) (now : Time) (point : CGPoint α) : Nat :=
  match previous with
  | none => 1
  | some previous => if down then (if previous.continues now point then previous.count + 1 else 1) else previous.count

/-- `button(button, down)`. -/
def button (a : MacAnswers α) (button : Int) (down : Bool) (m : MacInjector α) : MacResult α :=
  match a.cg.position with
  | .error error => { injector := m, error := some (.mac error) }
  | .ok point =>
      let m := { m with buttons := if down then m.buttons.add button else m.buttons.discard button }
      match CoreGraphics.nativeButton button.toNat with
      | .error error => { injector := m, error := some (.mac error) }
      | .ok native =>
          let count := clickCount (m.clicks button) down a.now point
          let m :=
            if down then { m with clicks := Function.update m.clicks button (some ⟨a.now, point.x, point.y, count⟩) }
            else m
          m.post a (.button (buttonType button down) point native count)

/-- `move(dx, dy)`. -/
def move (a : MacAnswers α) (dx dy : Int) (m : MacInjector α) : MacResult α :=
  match a.cg.move (m.buttons.elems.map Int.toNat) dx dy with
  | .error error => { injector := m, error := some (.mac error) }
  | .ok event => { injector := m, event := some (.move event, m.flags) }

/-- The call that the engine makes. -/
def perform (a : MacAnswers α) (m : MacInjector α) : Call → MacResult α
  | .key key down => m.key a key down
  | .button button down => m.button a button down
  | .move dx dy => m.move a dx dy
  | .scroll horizontal vertical => m.scroll a horizontal vertical

/-! ## Runs -/

/-- The injector after some calls. -/
def after (m : MacInjector α) (work : List (MacAnswers α × Call)) : MacInjector α :=
  work.foldl (fun m w => (m.perform w.1 w.2).injector) m

/-- What each of the calls leaves. -/
def results (m : MacInjector α) : List (MacAnswers α × Call) → List (Call × MacResult α)
  | [] => []
  | (a, call) :: work => (call, m.perform a call) :: (m.perform a call).injector.results work

end MacInjector

/-! ## What the posted events hold down -/

section Held

variable {α : Type}

/-- What one event does to a hardware key. -/
def MacEvent.keyAfter (code : Nat) (held : Bool) : MacEvent α → Bool
  | .key c down _ => if c = code then down else held
  | _ => held

/-- What one event does to a mouse button: the types 1, 3 and 25 press, 2, 4 and 26 release. -/
def MacEvent.buttonAfter (native : Nat) (held : Bool) : MacEvent α → Bool
  | .button type _ n _ => if n = native then decide (type = 1 ∨ type = 3 ∨ type = 25) else held
  | _ => held

/-- The hardware key is down after these events. -/
def macKeyDown (events : List (MacEvent α × Nat)) (code : Nat) : Bool :=
  events.foldl (fun held e => e.1.keyAfter code held) false

/-- The mouse button is down after these events. -/
def macButtonDown (events : List (MacEvent α × Nat)) (native : Nat) : Bool :=
  events.foldl (fun held e => e.1.buttonAfter native held) false

end Held

end RemoteInput
