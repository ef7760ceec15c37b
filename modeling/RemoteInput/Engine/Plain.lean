import RemoteInput.Engine.Semantics
import RemoteInput.Lib.Runs

/-!
# The target with and without coalescing

A second target whose queue appends every frame, run beside the target of the code. When the one processes an item, the
other processes the frames that the item stands for.
-/

namespace RemoteInput

/-- The item as it stands in a queue that has merged nothing. -/
def Item.alone (item : Item) : Item := { item with parts := [item.event] }

namespace TargetEngine

/-- `receive(event)` with a queue that appends every frame and is never full. -/
def receivePlain (env : Env) (event : Event) (s : TargetEngine) : TargetEngine :=
  if event.op = .reset then s.reset env "Paused"
  else { s with queue := { s.queue with items := s.queue.items ++ [⟨event, env.now, [event]⟩] } }

/-- Without effects, and with items that stand for themselves. -/
def separated (s : TargetEngine) : TargetEngine :=
  { s with queue := { s.queue with items := s.queue.items.map Item.alone }, out := [] }

/-- The frames that the oldest item stands for. -/
def headParts (s : TargetEngine) : List Event :=
  match s.queue.items with
  | [] => []
  | item :: _ => item.parts

end TargetEngine

/-! ## What is injected -/

/-- The calls for keys, buttons and scrolling with the movement before each of them, and the movement since. -/
structure Trace where
  calls : List ((Int × Int) × Call × Outcome) := []
  moved : Int × Int := 0
  deriving DecidableEq

namespace Trace

def add (t : Trace) : Out → Trace
  | .call (.move dx dy) _ _ => { t with moved := t.moved + (dx, dy) }
  | .call call outcome _ => { calls := t.calls ++ [(t.moved, call, outcome)], moved := 0 }
  | _ => t

def adds (t : Trace) (outs : List Out) : Trace := outs.foldl add t

end Trace

/-! ## Both targets -/

/-- The two targets at one reading of the clock, with all their effects. -/
structure Twins where
  now : Time
  merged : TargetEngine
  plain : TargetEngine
  mergedOut : List Out := []
  plainOut : List Out := []

inductive TwinOp where
  | receive (env : Env) (event : Event)
  | process (env : Env)

def TwinOp.env : TwinOp → Env
  | .receive env _ | .process env => env

namespace Twins

/-- Both start from one state. -/
def start (now : Time) (s : TargetEngine) : Twins := { now := now, merged := s.separated, plain := s.separated }

/-- The clock stands still, and the queue neither overflows nor expires. -/
def Calm (t : Twins) (op : TwinOp) : Prop :=
  op.env.now = t.now ∧ op.env.popNow = t.now ∧ op.env.durationUs = 0 ∧
    match op with
    | .receive env event => event.op = .reset ∨ (t.merged.queue.put env.now event).ok = true
    | .process env => (t.merged.queue.pop env.popNow).2 ≠ .overload

instance (t : Twins) (op : TwinOp) : Decidable (t.Calm op) :=
  match op with
  | .receive _ _ => inferInstanceAs (Decidable (_ ∧ _ ∧ _ ∧ (_ ∨ _)))
  | .process _ => inferInstanceAs (Decidable (_ ∧ _ ∧ _ ∧ _ ≠ _))

/-- One operation of both. -/
def act (t : Twins) : TwinOp → Twins
  | .receive env event =>
      let merged := t.merged.step (.receive env event)
      let plain := TargetEngine.receivePlain env event { t.plain with out := [] }
      { t with merged := merged, plain := plain, mergedOut := t.mergedOut ++ merged.out,
               plainOut := t.plainOut ++ plain.out }
  | .process env =>
      let merged := t.merged.step (.processOne env)
      let ops := List.replicate t.merged.headParts.length (EngineOp.processOne env)
      { t with merged := merged, plain := t.plain.exec ops, mergedOut := t.mergedOut ++ merged.out,
               plainOut := t.plainOut ++ t.plain.history ops }

/-- One calm operation. -/
def step (t : Twins) (op : TwinOp) : Option Twins := if t.Calm op then some (t.act op) else none

/-- The targets after a run. -/
def run (now : Time) (s : TargetEngine) (ops : List TwinOp) : Option Twins := Runs.exec step (start now s) ops

/-- The targets agree, and so does what they have injected. -/
structure Agree (t : Twins) : Prop where
  epoch : t.merged.epoch = t.plain.epoch
  seq : t.merged.seq = t.plain.seq
  keys : t.merged.keys = t.plain.keys
  buttons : t.merged.buttons = t.plain.buttons
  blocked : t.merged.blocked = t.plain.blocked
  injected : ({} : Trace).adds t.mergedOut = ({} : Trace).adds t.plainOut

end Twins

end RemoteInput
