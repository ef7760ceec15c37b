import RemoteInput.Lib.Wakeup
import RemoteInput.Wire.Outbox

/-!
# Threads on an outbox

`Outbox.put` in its two steps and `Outbox.writer` up to each place where another thread or another task can come in. The
writer runs once on an outbox.
-/

namespace RemoteInput

/-- An outbox of some capacity. `given` has what `put` was called with, and `passed` what the writer has given to `ws.send`;
nothing reads them. -/
structure Channel (α : Type) where
  outbox : Outbox α := {}
  capacity : Nat := Outbox.capacity
  given : List α := []
  passed : List α := []
  deriving DecidableEq

/-- Where the writer stands: before the locked section, with an item, and in `ws.send`. -/
inductive WriterPoint (α : Type) where
  | taking
  | taken (raw : α) (entered : Time)
  | sending
  deriving DecidableEq

/-- What the writer reads: the clock, and whether `ws.send` returned in time. -/
structure WriterEnv where
  now : Time := 0
  sent : Bool := true

namespace Channel

variable {α : Type}

/-- The locked section of `put(raw)`; the producer keeps whether there was nothing. -/
def put (input : Time × α) (c : Channel α) : Channel α × Bool :=
  let o := c.outbox
  let outbox :=
    if o.items.length ≥ c.capacity then { o with items := [], failed := true }
    else if o.failed then o
    else { o with items := o.items ++ [(input.2, input.1)] }
  ({ c with outbox := outbox, given := c.given ++ [input.2] }, o.items.isEmpty)

/-- `if empty or self.failed`, which reads `failed` after the section. -/
def wakes (c : Channel α) (empty : Bool) : Bool := empty || c.outbox.failed

/-- The writer from one point to the next. -/
def writer (env : WriterEnv) (point : WriterPoint α) (c : Channel α) : Channel α × Wakeup.Turn (WriterPoint α) :=
  match point with
  | .taking =>
      if c.outbox.failed then (c, .stop)
      else match c.outbox.items with
        | [] => (c, .wait)
        | (raw, entered) :: rest => ({ c with outbox := { c.outbox with items := rest } }, .next (.taken raw entered))
  | .taken raw entered =>
      if env.now - entered > maxQueueAge then (c, .stop) else ({ c with passed := c.passed ++ [raw] }, .next .sending)
  | .sending => (c, if env.sent then .next .taking else .stop)

/-- Nobody but the writer takes anything away. -/
def bridge (α : Type) : Wakeup.Bridge (Channel α) (Time × α) Bool Empty (WriterPoint α) WriterEnv where
  put := put
  wakes := wakes
  other input _ := input.elim
  first := .taking
  drain := writer
  restarts := false

/-- A new outbox, whose writer has not begun. -/
def start (α : Type) (capacity : Nat) : Wakeup.State (Channel α) Bool (WriterPoint α) :=
  { shared := { capacity := capacity }, consumer := .clearing }

/-- The state after a run. -/
def run (capacity : Nat) (actions : List (Wakeup.Action (Time × α) Empty WriterEnv)) :
    Option (Wakeup.State (Channel α) Bool (WriterPoint α)) := Runs.exec (bridge α).step (start α capacity) actions

/-- With the capacity that the code uses, the section leaves what `put` leaves. -/
theorem put_outbox (now : Time) (raw : α) (c : Channel α) (h : c.capacity = Outbox.capacity) :
    (c.put (now, raw)).1.outbox = c.outbox.put now raw := by
  unfold put Outbox.put
  rw [h]

/-- The item that the writer takes is the one that `take` gives. -/
theorem writer_take {now : Time} {raw : α} {entered : Time} {c c' : Channel α} {env : WriterEnv}
    (h : c.writer env .taking = (c', .next (.taken raw entered))) (hage : now - entered ≤ maxQueueAge) :
    c.outbox.take now = some (raw, c'.outbox) := by
  unfold writer at h
  unfold Outbox.take
  by_cases hf : c.outbox.failed = true
  · simp only [hf, if_true] at h
    cases h
  · cases hi : c.outbox.items with
    | nil =>
        simp only [hf, hi, Bool.false_eq_true, if_false] at h
        cases h
    | cons item rest =>
        simp only [hf, hi, Bool.false_eq_true, if_false] at h
        cases h
        simp only [hf, Bool.false_eq_true, if_false]
        exact if_neg (not_lt.mpr hage)

end Channel

end RemoteInput
