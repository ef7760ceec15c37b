import RemoteInput.Lib.Clamp

/-!
# The cursor on macOS (`macos.py`)

`MacInjector.position`, `_clamp` and `move` over exact coordinates. What the operating system answers is a parameter.
-/

namespace RemoteInput

/-- `CGPoint`. -/
structure CGPoint (α : Type) where
  x : α
  y : α
deriving DecidableEq, Repr

/-- `CGSize`. -/
structure CGSize (α : Type) where
  width : α
  height : α
deriving DecidableEq, Repr

/-- `CGRect`. -/
structure CGRect (α : Type) where
  origin : CGPoint α
  size : CGSize α
deriving DecidableEq, Repr

/-- What Core Graphics answers: the cursor, when there is an event to read it from, and what `CGGetActiveDisplayList` returns
and stores (the array `ids` and how many of its entries are set), with the bounds of each display. -/
structure CoreGraphics (α : Type) where
  location : Option (CGPoint α)
  listError : Int
  ids : List UInt32
  count : UInt32
  bounds : UInt32 → CGRect α
  createsEvents : Bool

/-- What the injector raises. -/
inductive MacError where
  | noPosition
  | noEvent
  | keyError (button : Nat)
deriving DecidableEq, Repr

namespace MacError

def message : MacError → String
  | .noPosition => "macOS could not read the cursor position."
  | .noEvent => "macOS could not create the input event."
  | .keyError button => toString button

end MacError

/-- The mouse event that `move` posts. -/
structure MouseEvent (α : Type) where
  type : Nat
  point : CGPoint α
  button : Nat
deriving DecidableEq, Repr

namespace CoreGraphics

variable {α : Type} [CommRing α] [LinearOrder α]

/-- `ids[:count.value]`. -/
def displays (cg : CoreGraphics α) : List UInt32 := cg.ids.take cg.count.toNat

/-- The candidate of a display: how far it is, and where. -/
def candidate (point : CGPoint α) (rect : CGRect α) : α ×ₗ α ×ₗ α :=
  let x := min (max point.x rect.origin.x) (rect.origin.x + rect.size.width - 1)
  let y := min (max point.y rect.origin.y) (rect.origin.y + rect.size.height - 1)
  toLex ((x - point.x) ^ 2 + (y - point.y) ^ 2, toLex (x, y))

/-- `_clamp(point)`. -/
def clamp (cg : CoreGraphics α) (point : CGPoint α) : CGPoint α :=
  if cg.listError ≠ 0 then point
  else
    let candidates := cg.displays.map fun display => candidate point (cg.bounds display)
    match candidates.min? with
    | none => point
    | some best => { x := (ofLex (ofLex best).2).1, y := (ofLex (ofLex best).2).2 }

/-- `position()`. -/
def position (cg : CoreGraphics α) : Except MacError (CGPoint α) :=
  match cg.location with
  | none => .error .noPosition
  | some point => .ok point

/-- `native_button(button)`. -/
def nativeButton : Nat → Except MacError Nat
  | 1 => .ok 0
  | 2 => .ok 1
  | 3 => .ok 2
  | 4 => .ok 3
  | 5 => .ok 4
  | button => .error (.keyError button)

/-- `move(dx, dy)` with these buttons held: the event that is posted. -/
def move (cg : CoreGraphics α) (buttons : List Nat) (dx dy : α) : Except MacError (MouseEvent α) := do
  let point ← cg.position
  let point := cg.clamp { x := point.x + dx, y := point.y + dy }
  let button := buttons.min?.getD 1
  let type := if buttons = [] then 5 else if button = 1 then 6 else if button = 2 then 7 else 27
  let native ← nativeButton button
  if cg.createsEvents then return { type := type, point := point, button := native } else throw .noEvent

end CoreGraphics

end RemoteInput
