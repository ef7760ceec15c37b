import RemoteInput.Controller.Semantics
import RemoteInput.Lib.Fusion
import RemoteInput.Wire.Lemmas.Queue

/-!
# The inputs that events carry

Queues merge events; on the inputs that they carry this fuses adjacent moves.
-/

namespace RemoteInput

/-- The input that an event carries. -/
def Event.input (event : Event) : Option Input :=
  match event.op with
  | .move => some (.move event.a event.b)
  | .key => some (.key event.a (event.b ≠ 0))
  | .button => some (.button event.a (event.b ≠ 0))
  | .scroll => some (.scroll event.a event.b)
  | _ => none

/-- Two adjacent moves are one. -/
def Input.join : Input → Input → Option Input
  | .move dx dy, .move dx' dy' => some (.move (dx + dx') (dy + dy'))
  | _, _ => none

/-- The inputs that events carry, in order. -/
def inputs (events : List Event) : List Input := events.filterMap Event.input

@[simp] theorem inputs_nil : inputs [] = [] := rfl

@[simp] theorem inputs_append (l l' : List Event) : inputs (l ++ l') = inputs l ++ inputs l' := List.filterMap_append

@[simp] theorem Input.input_event (i : Input) : i.event.input = some i := by
  cases i <;> simp [Input.event, Event.input]

theorem Input.join_regroups : Regroups Input.join := by
  intro x y z u v hu hv
  cases y <;> cases z <;> simp [Input.join] at hu
  subst hu
  cases x <;> simp [Input.join] at hv
  subst hv
  exact ⟨_, rfl, by simp [Input.join, add_assoc]⟩

theorem inputs_one {event : Event} {i : Input} (h : event.input = some i) : inputs [event] = [i] := by
  simp [inputs, h]

theorem inputs_none {event : Event} (h : event.input = none) : inputs [event] = [] := by
  simp [inputs, h]

theorem Event.input_eq_none {event : Event} : event.input = none ↔ event.op.isInput = false := by
  unfold Event.input
  cases event.op <;> simp [Op.isInput]

/-- A merged event carries the two moves joined. -/
theorem Event.input_merge {last event : Event} (h : last.coalesces event) :
    ∃ x y z, last.input = some x ∧ event.input = some y ∧ (last.merge event).input = some z ∧ Input.join x y = some z := by
  obtain ⟨he, hl, _⟩ := h
  refine ⟨.move last.a last.b, .move event.a event.b, .move (last.a + event.a) (last.b + event.b), ?_, ?_, ?_, rfl⟩
  · simp [Event.input, hl]
  · simp [Event.input, he]
  · simp [Event.input, Event.merge, he]

/-! ## The events in a queue -/

/-- The events of an epoch among others. -/
def ofEpoch (e : Nat) (events : List Event) : List Event := events.filter fun event => event.epoch = e

@[simp] theorem ofEpoch_nil (e : Nat) : ofEpoch e [] = [] := rfl

@[simp] theorem ofEpoch_append (e : Nat) (l l' : List Event) : ofEpoch e (l ++ l') = ofEpoch e l ++ ofEpoch e l' :=
  List.filter_append ..

theorem ofEpoch_self {e : Nat} {event : Event} (h : event.epoch = e) : ofEpoch e [event] = [event] := by
  simp [ofEpoch, h]

theorem ofEpoch_other {e : Nat} {event : Event} (h : event.epoch ≠ e) : ofEpoch e [event] = [] := by
  simp [ofEpoch, h]

theorem ofEpoch_cons_self {e : Nat} {event : Event} (l : List Event) (h : event.epoch = e) :
    ofEpoch e (event :: l) = event :: ofEpoch e l := by
  simp [ofEpoch, h]

theorem ofEpoch_cons_other {e : Nat} {event : Event} (l : List Event) (h : event.epoch ≠ e) :
    ofEpoch e (event :: l) = ofEpoch e l := by
  simp [ofEpoch, h]

theorem mem_ofEpoch {e : Nat} {event : Event} {l : List Event} : event ∈ ofEpoch e l ↔ event ∈ l ∧ event.epoch = e := by
  simp [ofEpoch]

/-- The events that wait in a queue. -/
def InputQueue.events (q : InputQueue) : List Event := q.items.map Item.event

/-- An accepted event goes to the end of the queue, or into the last event. -/
theorem InputQueue.put_events {q : InputQueue} {now : Time} {event : Event} (hok : (q.put now event).ok = true) :
    (q.put now event).queue.events = q.events ++ [event] ∨
      ∃ init last, q.events = init ++ [last] ∧ last.coalesces event ∧
        (q.put now event).queue.events = init ++ [last.merge event] := by
  have hc := q.put_cases now event
  rw [hok] at hc
  generalize (q.put now event).queue = q' at hc
  cases hc with
  | merged init last _ hq hco =>
      exact .inr ⟨init.map Item.event, last.event, by simp [events, hq], hco, by simp [events, Item.absorb]⟩
  | appended => exact .inl (by simp [events])

/-- A put leaves a queue that has not failed only when it is accepted by one. -/
theorem InputQueue.put_ok {q : InputQueue} {now : Time} {event : Event} (h : (q.put now event).queue.failed = false) :
    (q.put now event).ok = true ∧ q.failed = false := by
  have hc := q.put_cases now event
  generalize (q.put now event).queue = q' at h hc
  generalize (q.put now event).ok = ok at hc ⊢
  cases hc with
  | refused hf => rw [hf] at h; cases h
  | failed hf => cases h
  | merged _ _ hm => exact ⟨rfl, hm.1⟩
  | appended hf => exact ⟨rfl, hf⟩

/-- A put of another epoch brings nothing of this one. -/
theorem InputQueue.put_other {q : InputQueue} {now : Time} {event : Event} {e : Nat} (hq : ofEpoch e q.events = [])
    (hevent : ofEpoch e [event] = []) : ofEpoch e (q.put now event).queue.events = [] := by
  have hc := q.put_cases now event
  generalize (q.put now event).queue = q' at hc ⊢
  generalize (q.put now event).ok = ok at hc
  cases hc with
  | refused => exact hq
  | failed => rfl
  | merged init last _ hitems hco =>
      have hmerge : ofEpoch e [last.event.merge event] = [] := ofEpoch_other fun he => by
        rw [ofEpoch_self (show event.epoch = e from he)] at hevent
        cases hevent
      rw [events, hitems, List.map_append, ofEpoch_append, List.append_eq_nil_iff] at hq
      rw [events, List.map_append, ofEpoch_append, hq.1]
      exact hmerge
  | appended =>
      rw [events, List.map_append, ofEpoch_append]
      exact List.append_eq_nil_iff.mpr ⟨hq, hevent⟩

/-- What stood for the events of a queue and the one that is put stands for those of the queue after it. -/
theorem Segments.put {q : InputQueue} {now : Time} {event : Event} {e : Nat} {log : List Input} {before : List Event}
    (h : Segments (Fuses Input.join) log (inputs (before ++ ofEpoch e q.events ++ ofEpoch e [event])))
    (hok : (q.put now event).ok = true) :
    Segments (Fuses Input.join) log (inputs (before ++ ofEpoch e (q.put now event).queue.events)) := by
  rcases InputQueue.put_events hok with hq | ⟨init, last, hq, hco, hq'⟩
  · rw [hq, ofEpoch_append, ← List.append_assoc]; exact h
  by_cases he : event.epoch = e
  · obtain ⟨x, y, z, hx, hy, hz, hj⟩ := Event.input_merge hco
    have hlast : last.epoch = e := hco.2.2.trans he
    have hmerge : (last.merge event).epoch = e := he
    rw [hq, ofEpoch_append, ofEpoch_self hlast, ofEpoch_self he, ← List.append_assoc, inputs_append, inputs_append,
      inputs_one hx, inputs_one hy] at h
    rw [hq', ofEpoch_append, ofEpoch_self hmerge, ← List.append_assoc, inputs_append, inputs_one hz]
    exact h.fuse_last Input.join_regroups hj
  · have hlast : last.epoch ≠ e := fun h => he (hco.2.2.symm.trans h)
    have hmerge : (last.merge event).epoch ≠ e := he
    rw [hq, ofEpoch_append, ofEpoch_other hlast, ofEpoch_other he, List.append_nil, List.append_nil] at h
    rw [hq', ofEpoch_append, ofEpoch_other hmerge, List.append_nil]
    exact h

end RemoteInput
