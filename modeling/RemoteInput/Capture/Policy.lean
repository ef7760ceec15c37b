import RemoteInput.Lib.PySet
import RemoteInput.Wire.Protocol

/-!
# Hotkeys and suppression (`capture.py`)

One definition for each method of `CapturePolicy`. The three callbacks may pause the policy before they return (the queue is
full, or the hotkey stops control); which of them do so is a parameter of the event.
-/

namespace RemoteInput

/-- A call of `emit`, `toggle` or `stop`. -/
inductive PolicyCall where
  | emit (event : Event)
  | toggle
  | stop
  deriving DecidableEq, Repr

/-- Whether a call pauses the policy, given the calls that the same event made before it. -/
abbrev Pauses := List PolicyCall → PolicyCall → Bool

/-- `CapturePolicy`, with the calls of the event in progress. `pending` is a `dict` whose values are all true. -/
structure CapturePolicy where
  active : Bool := false
  keys : PySet Int := ∅
  buttons : PySet Int := ∅
  ignored : PySet Int := ∅
  swallowed : PySet Int := ∅
  ignoredButtons : PySet Int := ∅
  pending : PySet Int := ∅
  forwarded : PySet Int := ∅
  calls : List PolicyCall := []

namespace CapturePolicy

def ctrl : List Int := [0x11, 0xA2, 0xA3]
def alt : List Int := [0x12, 0xA4, 0xA5]
def reservedMods : List Int := ctrl ++ alt
def f9 : Int := 0x78
def f10 : Int := 0x79

/-- `s.update(t)`. -/
def union (s t : PySet Int) : PySet Int := t.elems.foldl PySet.add s

def activate (p : CapturePolicy) : CapturePolicy :=
  { p with active := true, ignored := p.keys, ignoredButtons := p.buttons, pending := ∅, forwarded := ∅ }

def pause (p : CapturePolicy) : CapturePolicy :=
  { p with active := false, swallowed := union p.swallowed p.forwarded, pending := ∅, forwarded := ∅ }

/-- One callback. -/
def call (pauses : Pauses) (c : PolicyCall) (p : CapturePolicy) : CapturePolicy :=
  if pauses p.calls c then { p with calls := p.calls ++ [c] }.pause else { p with calls := p.calls ++ [c] }

/-- `emit(Event(Op.KEY, a=key, b=int(down)))`. -/
def emitKey (pauses : Pauses) (key : Int) (down : Bool) (p : CapturePolicy) : CapturePolicy :=
  p.call pauses (.emit { op := .key, a := key, b := if down then 1 else 0 })

/-- The loop of `flush_modifiers` over a snapshot of `pending`. -/
def flushEach (pauses : Pauses) : List Int → CapturePolicy → CapturePolicy
  | [], p => p
  | key :: keys, p =>
      let p := p.emitKey pauses key true
      flushEach pauses keys { p with forwarded := p.forwarded.add key }

/-- `flush_modifiers()`. -/
def flushModifiers (pauses : Pauses) (p : CapturePolicy) : CapturePolicy :=
  { flushEach pauses p.pending.elems p with pending := ∅ }

/-! ## Keys -/

def holdsAny (p : CapturePolicy) (codes : List Int) : Prop := ∃ k ∈ codes, k ∈ p.keys

instance (p : CapturePolicy) (codes : List Int) : Decidable (p.holdsAny codes) :=
  inferInstanceAs (Decidable (∃ k ∈ codes, k ∈ p.keys))

/-- A press of F9 or F10 while some Ctrl and some Alt key is held. -/
def hotkey (p : CapturePolicy) (key : Int) (down : Bool) : Prop :=
  down = true ∧ (key = f9 ∨ key = f10) ∧ p.holdsAny ctrl ∧ p.holdsAny alt

instance (p : CapturePolicy) (key : Int) (down : Bool) : Decidable (p.hotkey key down) :=
  inferInstanceAs (Decidable (_ ∧ _))

/-- The release of a modifier; `none` is the `KeyError` of `pending.pop`. A standalone modifier tap still reaches the
target. -/
def releaseModifier (pauses : Pauses) (key : Int) (p : CapturePolicy) : CapturePolicy × Option Bool :=
  let tapped := key ∈ p.pending
  let p := if tapped then p.emitKey pauses key true else p
  if tapped ∧ key ∉ p.pending then (p, none)
  else
    let p := if tapped then { p with pending := p.pending.discard key, forwarded := p.forwarded.add key } else p
    if key ∈ p.forwarded then
      let p := p.emitKey pauses key false
      ({ p with forwarded := p.forwarded.discard key }, some true)
    else (p, some true)

/-- A key that is not a modifier, while active. -/
def forward (pauses : Pauses) (key : Int) (down : Bool) (p : CapturePolicy) : CapturePolicy :=
  let p := p.flushModifiers pauses
  let p := if down ∨ key ∈ p.forwarded then p.emitKey pauses key down else p
  { p with forwarded := if down then p.forwarded.add key else p.forwarded.discard key }

/-- `key(key, down)` on the state that already has `key` in or out of `keys`. -/
def keyHeld (pauses : Pauses) (key : Int) (down repeated : Bool) (p : CapturePolicy) : CapturePolicy × Option Bool :=
  if p.hotkey key down then
    let p := { p with swallowed := p.swallowed.add key }
    if repeated then (p, some true)
    else ({ p with pending := ∅ }.call pauses (if key = f9 then .toggle else .stop), some true)
  else if key ∈ p.swallowed then
    (if down then p else { p with swallowed := p.swallowed.discard key }, some true)
  else if key ∈ p.ignored then
    (if down then p else { p with ignored := p.ignored.discard key }, some p.active)
  else if p.active = false then (p, some false)
  else if key ∈ reservedMods then
    if down then (if key ∈ p.forwarded then p else { p with pending := p.pending.add key }, some true)
    else p.releaseModifier pauses key
  else (p.forward pauses key down, some true)

/-- `key(key, down)`: whether the event is suppressed; `none` when it raises. -/
def key (pauses : Pauses) (key : Int) (down : Bool) (p : CapturePolicy) : CapturePolicy × Option Bool :=
  let repeated := decide (key ∈ p.keys)
  let p := { p with keys := if down then p.keys.add key else p.keys.discard key, calls := [] }
  p.keyHeld pauses key down repeated

/-! ## The mouse -/

/-- `mouse(op, a, b)` after its check of `ignored_buttons`. -/
def mouseSeen (pauses : Pauses) (op : Op) (a b : Int) (p : CapturePolicy) : CapturePolicy × Bool :=
  if p.active = false then (p, false)
  else ((p.flushModifiers pauses).call pauses (.emit { op := op, a := a, b := b }), true)

/-- `mouse(op, a, b)`: whether the event is suppressed. -/
def mouse (pauses : Pauses) (op : Op) (a b : Int) (p : CapturePolicy) : CapturePolicy × Bool :=
  let p := { p with calls := [] }
  if op = .button then
    let p := { p with buttons := if b ≠ 0 then p.buttons.add a else p.buttons.discard a }
    if a ∈ p.ignoredButtons then
      (if b ≠ 0 then p else { p with ignoredButtons := p.ignoredButtons.discard a }, p.active)
    else p.mouseSeen pauses op a b
  else p.mouseSeen pauses op a b

end CapturePolicy

/-! ## Runs -/

/-- What happens to a policy. -/
inductive PolicyOp where
  | activate
  | pause
  | key (pauses : Pauses) (key : Int) (down : Bool)
  | mouse (pauses : Pauses) (op : Op) (a b : Int)

/-- A key or mouse event. -/
inductive PolicyInput where
  | key (key : Int) (down : Bool)
  | move (dx dy : Int)
  | button (a b : Int)
  | scroll (dx dy : Int)
  deriving DecidableEq

def PolicyInput.op (pauses : Pauses) : PolicyInput → PolicyOp
  | .key k down => .key pauses k down
  | .move dx dy => .mouse pauses .move dx dy
  | .button a b => .mouse pauses .button a b
  | .scroll dx dy => .mouse pauses .scroll dx dy

namespace CapturePolicy

def step (p : CapturePolicy) : PolicyOp → CapturePolicy
  | .activate => p.activate
  | .pause => p.pause
  | .key pauses key down => (p.key pauses key down).1
  | .mouse pauses op a b => (p.mouse pauses op a b).1

/-- The state after a run. -/
def exec (p : CapturePolicy) (ops : List PolicyOp) : CapturePolicy := ops.foldl step p

end CapturePolicy

end RemoteInput
