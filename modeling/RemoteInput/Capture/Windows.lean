import RemoteInput.Capture.Policy
import RemoteInput.Lib.Runs

/-!
# The capture of Windows (`platforms/windows.py`)

`WindowsCapture` with what the hook thread is doing. `_apply_state` stands at one of its native calls; events of the hooks
and calls of `set_active` may come in the middle of it, since a native call dispatches callbacks on the same thread. The hook
thread lives and `PostThreadMessageW` succeeds.
-/

namespace RemoteInput

/-- Where `_apply_state` stands: at a native call, or on its way to the handler of its exception. The number is the version
that it started with. -/
inductive Applying where
  | idle
  | permitted (version : Nat)
  | restoring (version : Nat)
  | locating (version : Nat)
  | measuring (version : Nat)
  | anchoring (version : Nat)
  | releasing (version : Nat) (keys : List Int)
  | restored
  | failed
  deriving DecidableEq, Repr

/-- `WindowsCapture`. The last six fields are there for the reader of the model: the state messages in the thread's queue,
every request, the position saved last, every position that a restoration aimed at, and what the local system holds down. -/
structure WindowsCapture where
  policy : CapturePolicy := {}
  origin : Option (Int × Int) := none
  anchor : Option (Int × Int) := none
  requestedActive : Bool := false
  stateVersion : Nat := 0
  statePending : Bool := false
  applying : Applying := .idle
  posted : Nat := 0
  requests : List Bool := []
  saved : Option (Int × Int) := none
  restorations : List (Int × Int) := []
  localKeys : PySet Int := ∅
  localButtons : PySet Int := ∅

/-- What a native call gives back: success and two numbers. -/
structure NativeResult where
  ok : Bool := true
  point : Int × Int := (0, 0)

namespace WindowsCapture

/-! ## Requests -/

/-- `set_active(active)` apart from its `policy.pause()`. -/
def request (active : Bool) (w : WindowsCapture) : WindowsCapture :=
  { w with requestedActive := active, stateVersion := w.stateVersion + 1, requests := w.requests ++ [active],
           statePending := true, posted := if w.statePending then w.posted else w.posted + 1 }

/-- `set_active(active)`. -/
def setActive (active : Bool) (w : WindowsCapture) : WindowsCapture :=
  { w with policy := if active then w.policy else w.policy.pause }.request active

/-- How many of the calls pause the policy. -/
def pauseCount (pauses : Pauses) : List PolicyCall → List PolicyCall → Nat
  | _, [] => 0
  | before, c :: calls => (if pauses before c then 1 else 0) + pauseCount pauses (before ++ [c]) calls

/-! ## Hooks -/

/-- The local system sees a key. -/
def seeKey (key : Int) (down : Bool) (w : WindowsCapture) : WindowsCapture :=
  { w with localKeys := if down then w.localKeys.add key else w.localKeys.discard key }

/-- `_key` for an event of the keyboard. Callbacks pause through `set_active(False)`; an exception lets the event pass. -/
def key (pauses : Pauses) (key : Int) (down : Bool) (w : WindowsCapture) : WindowsCapture :=
  let (policy, suppressed) := w.policy.key pauses key down
  let w := (request false)^[pauseCount pauses [] policy.calls] { w with policy := policy }
  if suppressed = some true then w else w.seeKey key down

/-- The local system sees a button. -/
def seeButton (button : Int) (down : Bool) (w : WindowsCapture) : WindowsCapture :=
  { w with localButtons := if down then w.localButtons.add button else w.localButtons.discard button }

/-- `_mouse` for an event that goes to the policy. -/
def mouse (pauses : Pauses) (op : Op) (a b : Int) (w : WindowsCapture) : WindowsCapture :=
  let (policy, suppressed) := w.policy.mouse pauses op a b
  let w := (request false)^[pauseCount pauses [] policy.calls] { w with policy := policy }
  if suppressed ∨ op ≠ .button then w else w.seeButton a (b ≠ 0)

/-- `policy.pause()` of the exception handlers of the hooks. -/
def fault (w : WindowsCapture) : WindowsCapture := { w with policy := w.policy.pause }

/-! ## The hook thread -/

/-- `_restore_cursor()` up to its native call, which there is only if `origin` is set. -/
def restoreCursor (w : WindowsCapture) : WindowsCapture :=
  { w with origin := none, anchor := none, restorations := w.restorations ++ w.origin.toList }

/-- `_apply_state` for a state message, up to its first native call. -/
def message (healthy : Bool) (w : WindowsCapture) : Option WindowsCapture :=
  if w.applying ≠ .idle ∨ w.posted = 0 then none
  else
    let w := { w with posted := w.posted - 1, statePending := false }
    if w.requestedActive then
      if w.policy.active then some w
      else some { w with applying := if healthy then .permitted w.stateVersion else .failed }
    else
      some { w.fault.restoreCursor with applying := if w.origin.isSome then .restored else .idle }

/-- The end of an activation: it is cancelled when a request came in between. -/
def finish (version : Nat) (w : WindowsCapture) : WindowsCapture :=
  if w.requestedActive ∧ w.stateVersion = version then { w with policy := w.policy.activate, applying := .idle }
  else { w.restoreCursor with applying := if w.origin.isSome then .restored else .idle }

/-- The native call at which `_apply_state` stands has returned; after the last one comes the end. -/
def native (r : NativeResult) (w : WindowsCapture) : Option WindowsCapture :=
  match w.applying with
  | .idle | .failed => none
  | .permitted version =>
      if r.ok then
        some { w.restoreCursor with applying := if w.origin.isSome then .restoring version else .locating version }
      else some { w with applying := .failed }
  | .restoring version => some { w with applying := .locating version }
  | .locating version =>
      if r.ok then some { w with origin := some r.point, saved := some r.point, applying := .measuring version }
      else some { w with applying := .failed }
  | .measuring version => some { w with anchor := some (r.point.1 / 2, r.point.2 / 2), applying := .anchoring version }
  | .anchoring version =>
      some { w with applying := if r.ok then .releasing version w.policy.keys.elems else .failed }
  | .releasing version [] => some (w.finish version)
  | .releasing version (key :: keys) =>
      if r.ok then some { w.seeKey key false with applying := .releasing version keys }
      else some { w with applying := .failed }
  | .restored => some { w with applying := .idle }

/-- The handler of an exception of `_apply_state`. -/
def recover (w : WindowsCapture) : Option WindowsCapture :=
  if w.applying = .failed then some ({ w with applying := .idle }.setActive false) else none

end WindowsCapture

/-! ## Runs -/

inductive CaptureAction where
  | setActive (active : Bool)
  | key (pauses : Pauses) (key : Int) (down : Bool)
  | mouse (pauses : Pauses) (op : Op) (a b : Int)
  | fault
  | message (healthy : Bool)
  | native (r : NativeResult)
  | recover

namespace WindowsCapture

/-- One action; `none` when it is not possible. -/
def step (w : WindowsCapture) : CaptureAction → Option WindowsCapture
  | .setActive active => some (w.setActive active)
  | .key pauses key down => some (w.key pauses key down)
  | .mouse pauses op a b => some (w.mouse pauses op a b)
  | .fault => some w.fault
  | .message healthy => w.message healthy
  | .native r => w.native r
  | .recover => w.recover

/-- The state after a run. -/
def run (w : WindowsCapture) (actions : List CaptureAction) : Option WindowsCapture := Runs.exec step w actions

end WindowsCapture

end RemoteInput
