import RemoteInput.Wire.Config

/-!
# The bounded outbox of `transport.py`
-/

namespace RemoteInput

/-- `Outbox`: what waits for the writer, with the time it came in. -/
structure Outbox (α : Type) where
  items : List (α × Time) := []
  failed : Bool := false
  deriving DecidableEq

namespace Outbox

variable {α : Type}

def capacity : Nat := 256

/-- `put(raw)` at clock reading `now`. -/
def put (o : Outbox α) (now : Time) (raw : α) : Outbox α :=
  if o.items.length ≥ capacity then { items := [], failed := true }
  else if o.failed then o
  else { o with items := o.items ++ [(raw, now)] }

/-- The writer takes the oldest item at clock reading `now`; `none` when there is none or when it raises `Overload`. -/
def take (o : Outbox α) (now : Time) : Option (α × Outbox α) :=
  if o.failed then none
  else match o.items with
    | [] => none
    | (raw, entered) :: rest => if now - entered > maxQueueAge then none else some (raw, { o with items := rest })

/-- What waits for the writer. -/
def waiting (o : Outbox α) : List α := o.items.map Prod.fst

theorem put_cases (o : Outbox α) (now : Time) (raw : α) :
    (o.put now raw).failed = true ∨ o.failed = false ∧ (o.put now raw).failed = false ∧
      (o.put now raw).waiting = o.waiting ++ [raw] := by
  unfold put
  split
  · exact .inl rfl
  · split
    · rename_i h; exact .inl h
    · rename_i h
      exact .inr ⟨by simpa using h, by simpa using h, by simp [waiting]⟩

/-- What waits after a `put` has been waiting, but for the new item. -/
theorem put_waiting (o : Outbox α) (now : Time) (raw : α) : (o.put now raw).waiting.Sublist (o.waiting ++ [raw]) := by
  unfold put
  split
  · exact List.nil_sublist _
  · split
    · exact List.sublist_append_left _ _
    · simp [waiting]

theorem take_eq {o o' : Outbox α} {now : Time} {raw : α} (h : o.take now = some (raw, o')) :
    o.failed = false ∧ o'.failed = false ∧ o.waiting = raw :: o'.waiting := by
  unfold take at h
  split at h
  · cases h
  rename_i hf
  have hf : o.failed = false := by simpa using hf
  split at h
  · cases h
  rename_i raw' entered rest hi
  split at h <;> cases h
  exact ⟨hf, hf, by simp [waiting, hi]⟩

end Outbox

end RemoteInput
