import RemoteInput.Engine.Lemmas.Reset
import RemoteInput.Wire.Lemmas.Queue

/-!
# What `process_one` can do

One inversion of each stage of `process_one`. Every invariant of the engine is proved from these cases and the field
lemmas of `reset`; no later proof unfolds a stage.
-/

namespace RemoteInput

namespace TargetEngine

variable {env : Env} {item : Item} {age : Time} {s : TargetEngine}

/-! ## The locked section -/

/-- How the locked section ends, and the checks that the frame has passed by then. -/
inductive BodyCase (env : Env) (item : Item) (age : Time) (s : TargetEngine) : TargetEngine × Bool → Prop where
  | idle (h : s.blocked = true ∨ s.connected = false ∨ s.ignores item.event) :
      BodyCase env item age s (s, false)
  | stale (hb : s.blocked = false) (hc : s.connected = true) (hi : ¬ s.ignores item.event)
      (hv : ¬ s.validLease item.event.lease env.now (s.tokenLimit item.event)) :
      BodyCase env item age s (s.rejectStale env item.event (s.tokenLimit item.event), false)
  | activate (hb : s.blocked = false) (hc : s.connected = true) (hop : item.event.op = .activate)
      (hv : s.validLease item.event.lease env.now s.network.inputTimeout) :
      BodyCase env item age s (s.activate env item.event)
  | probe (hop : item.event.op = .probe) (he : s.epoch = 0) :
      BodyCase env item age s (s.emit (ack item.event (age * 1000000) 0), false)
  | calibrate (hop : item.event.op = .heartbeat) (he : s.epoch = 0) (hb : s.blocked = false) (hc : s.connected = true)
      (hi : ¬ s.ignores item.event) (hv : s.validLease item.event.lease env.now networkTimeoutMax) :
      BodyCase env item age s (s.observeHeartbeat item.event env.now, false)
  | input (hb : s.blocked = false) (hc : s.connected = true) (hop : item.event.op ≠ .activate)
      (he : s.epoch ≠ 0) (hep : item.event.epoch = s.epoch) (hseq : s.seq < item.event.seq)
      (hv : s.validLease item.event.lease env.now (s.tokenLimit item.event)) :
      BodyCase env item age s (s.inputFrame env item age)

theorem tokenLimit_activate {event : Event} (h : event.op = .activate) :
    s.tokenLimit event = s.network.inputTimeout := by
  simp [tokenLimit, h]

theorem lockedBody_cases (env : Env) (item : Item) (age : Time) (s : TargetEngine) :
    BodyCase env item age s (s.lockedBody env item age) := by
  unfold lockedBody
  dsimp only
  split
  · rename_i h
    exact .idle (h.elim .inl (fun hc => .inr (.inl (by simpa using hc))))
  rename_i hbc
  have hb : s.blocked = false := by simpa using fun h => hbc (.inl h)
  have hc : s.connected = true := by by_contra h; exact hbc (.inr h)
  split
  · rename_i h; exact .idle (.inr (.inr h))
  rename_i hi
  split
  · rename_i hv; exact .stale hb hc hi hv
  rename_i hv
  have hv := not_not.mp hv
  split
  · rename_i hop; exact .activate hb hc hop (tokenLimit_activate hop ▸ hv)
  rename_i hop
  split
  · rename_i h; exact .probe h.1 h.2
  rename_i hprobe
  split
  · rename_i h
    have hlimit : s.tokenLimit item.event = networkTimeoutMax := if_pos h
    exact .calibrate h.1 h.2 hb hc hi (hlimit ▸ hv)
  rename_i hbeat
  split
  · -- the second identity check repeats the first one
    rename_i h
    refine .idle (.inr (.inr ⟨hop, ?_⟩))
    split
    · rename_i h0
      intro he
      rcases h0.1 with hh | hp
      · exact hbeat ⟨hh, he⟩
      · exact hprobe ⟨hp, he⟩
    · exact h
  rename_i h
  push Not at h
  exact .input hb hc hop h.2.1 h.1 h.2.2 hv

/-! ## Injection -/

/-- A call that ended as `o` leaves `t` when it raised and `u` otherwise. -/
def ending (o : Outcome) (t u : TargetEngine) : Injected := if o.isRaised then .raised t else .ok u

/-- The effect of one call made for `item`. -/
def called (s : TargetEngine) (call : Call) (o : Outcome) (item : Item) : TargetEngine :=
  { s with out := s.out ++ [.call call o item.parts] }

/-- How the dispatch on the opcode ends. -/
inductive InjectCase (env : Env) (item : Item) (s : TargetEngine) : Injected → Prop where
  | refused (reason : String) (hop : item.event.op = .key) : InjectCase env item s (.refused (s.reset env reason))
  | pressKey (hop : item.event.op = .key) (hb : item.event.b ≠ 0) (o : Outcome) :
      InjectCase env item s (ending o
        ({ s with keys := s.keys.add item.event.a }.called (.key item.event.a true) o item)
        ({ s with keys := s.keys.add item.event.a }.called (.key item.event.a true) o item))
  | releaseKey (hop : item.event.op = .key) (hb : item.event.b = 0) (hk : item.event.a ∈ s.keys) (o : Outcome) :
      InjectCase env item s (ending o (s.called (.key item.event.a false) o item)
        { s.called (.key item.event.a false) o item with keys := s.keys.discard item.event.a })
  | pressButton (hop : item.event.op = .button) (hb : item.event.b ≠ 0) (o : Outcome) :
      InjectCase env item s (ending o
        ({ s with buttons := s.buttons.add item.event.a }.called (.button item.event.a true) o item)
        ({ s with buttons := s.buttons.add item.event.a }.called (.button item.event.a true) o item))
  | releaseButton (hop : item.event.op = .button) (hb : item.event.b = 0) (hk : item.event.a ∈ s.buttons)
      (o : Outcome) :
      InjectCase env item s (ending o (s.called (.button item.event.a false) o item)
        { s.called (.button item.event.a false) o item with buttons := s.buttons.discard item.event.a })
  | move (hop : item.event.op = .move) (o : Outcome) :
      InjectCase env item s (ending o (s.called (.move item.event.a item.event.b) o item)
        (s.called (.move item.event.a item.event.b) o item))
  | scroll (hop : item.event.op = .scroll) (o : Outcome) :
      InjectCase env item s (ending o (s.called (.scroll item.event.a item.event.b) o item)
        (s.called (.scroll item.event.a item.event.b) o item))
  | nothing (h : item.event.op.isInput = false ∨
        item.event.b = 0 ∧ (item.event.op = .key ∧ item.event.a ∉ s.keys ∨
          item.event.op = .button ∧ item.event.a ∉ s.buttons)) :
      InjectCase env item s (.ok s)

theorem injectEvent_cases (env : Env) (item : Item) (s : TargetEngine) :
    InjectCase env item s (s.injectEvent env item) := by
  unfold injectEvent
  dsimp only
  split
  · rename_i hop
    split
    · exact .refused _ hop
    split
    · rename_i hb; exact .pressKey hop hb _
    rename_i hb
    have hb : item.event.b = 0 := not_not.mp hb
    split
    · rename_i hk; exact .releaseKey hop hb hk _
    · rename_i hk; exact .nothing (.inr ⟨hb, .inl ⟨hop, hk⟩⟩)
  · rename_i hop
    split
    · rename_i hb; exact .pressButton hop hb _
    rename_i hb
    have hb : item.event.b = 0 := not_not.mp hb
    split
    · rename_i hk; exact .releaseButton hop hb hk _
    · rename_i hk; exact .nothing (.inr ⟨hb, .inr ⟨hop, hk⟩⟩)
  · rename_i hop; exact .move hop _
  · rename_i hop; exact .scroll hop _
  · refine .nothing (.inl ?_)
    cases hop : item.event.op <;> simp_all [Op.isInput]

/-! ## Frames of the active epoch -/

@[simp] theorem withSeq_seq (n : Nat) : (s.withSeq n).seq = n := rfl
@[simp] theorem withSeq_epoch (n : Nat) : (s.withSeq n).epoch = s.epoch := rfl
@[simp] theorem withSeq_lastEpoch (n : Nat) : (s.withSeq n).lastEpoch = s.lastEpoch := rfl
@[simp] theorem withSeq_queue (n : Nat) : (s.withSeq n).queue = s.queue := rfl
@[simp] theorem withSeq_leases (n : Nat) : (s.withSeq n).leases = s.leases := rfl
@[simp] theorem withSeq_network (n : Nat) : (s.withSeq n).network = s.network := rfl
@[simp] theorem withSeq_lastHeartbeat (n : Nat) : (s.withSeq n).lastHeartbeat = s.lastHeartbeat := rfl
@[simp] theorem withSeq_lastEchoIssued (n : Nat) : (s.withSeq n).lastEchoIssued = s.lastEchoIssued := rfl
@[simp] theorem withSeq_keys (n : Nat) : (s.withSeq n).keys = s.keys := rfl
@[simp] theorem withSeq_buttons (n : Nat) : (s.withSeq n).buttons = s.buttons := rfl
@[simp] theorem withSeq_blocked (n : Nat) : (s.withSeq n).blocked = s.blocked := rfl
@[simp] theorem withSeq_connected (n : Nat) : (s.withSeq n).connected = s.connected := rfl
@[simp] theorem withSeq_out (n : Nat) : (s.withSeq n).out = s.out := rfl

/-- How `inputFrame` ends. The sequence number of the frame is recorded first in every case. -/
inductive InputCase (env : Env) (item : Item) (age : Time) (s : TargetEngine) : TargetEngine × Bool → Prop where
  | silent (reason : String) (h : s.silent env.now) :
      InputCase env item age s ((s.withSeq item.event.seq).reset env reason, false)
  | heartbeat (hop : item.event.op = .heartbeat) (h : ¬ s.silent env.now) :
      InputCase env item age s ((s.withSeq item.event.seq).observeHeartbeat item.event env.now, false)
  | raised (t : TargetEngine) (hop : item.event.op ≠ .heartbeat)
      (h : InjectCase env item (s.withSeq item.event.seq) (.raised t)) : InputCase env item age s (t, true)
  | refused (t : TargetEngine) (hop : item.event.op ≠ .heartbeat)
      (h : InjectCase env item (s.withSeq item.event.seq) (.refused t)) : InputCase env item age s (t, false)
  | ok (t : TargetEngine) (hop : item.event.op ≠ .heartbeat)
      (h : InjectCase env item (s.withSeq item.event.seq) (.ok t)) :
      InputCase env item age s (t.acknowledge env item.event age, false)

theorem inputFrame_cases (env : Env) (item : Item) (age : Time) (s : TargetEngine) :
    InputCase env item age s (s.inputFrame env item age) := by
  have hinj := injectEvent_cases env item (s.withSeq item.event.seq)
  unfold inputFrame
  dsimp only
  split
  · rename_i h
    unfold heartbeatExpired
    rw [if_pos h]
    exact .silent _ h
  rename_i hs
  split
  · rename_i hop; exact .heartbeat hop hs
  rename_i hop
  split
  · rename_i h; exact .raised _ hop (h ▸ hinj)
  · rename_i h; exact .refused _ hop (h ▸ hinj)
  · rename_i h; exact .ok _ hop (h ▸ hinj)

/-! ## The whole of `process_one` -/

/-- The handler of `process_one` turns an exception of the locked section into a reset. -/
theorem processItem_cases (env : Env) (item : Item) (age : Time) (s : TargetEngine) :
    (∃ t, BodyCase env item age s (t, false) ∧ s.processItem env item age = (t, true)) ∨
    (∃ t, BodyCase env item age s (t, true) ∧
      s.processItem env item age = (t.reset env "Paused: input processing failed", false)) := by
  have h := lockedBody_cases env item age s
  unfold processItem
  split
  · rename_i t ht; exact .inl ⟨t, ht ▸ h, rfl⟩
  · rename_i t ht; exact .inr ⟨t, ht ▸ h, rfl⟩

/-- `process_one` resets on an overloaded queue, does nothing on an empty one, and processes one item otherwise. -/
inductive ProcessCase (env : Env) (s : TargetEngine) : TargetEngine × Bool → Prop where
  | overload (queue : InputQueue) (h : s.queue.pop env.popNow = (queue, .overload)) :
      ProcessCase env s ({ s with queue := queue }.reset env "Paused: input processing failed", false)
  | empty (h : s.queue.pop env.popNow = (s.queue, .empty)) : ProcessCase env s (s, false)
  | item (queue : InputQueue) (item : Item) (age : Time) (h : s.queue.pop env.popNow = (queue, .item item age)) :
      ProcessCase env s ({ s with queue := queue }.processItem env item age)

theorem processOne_cases (env : Env) (s : TargetEngine) : ProcessCase env s (s.processOne env) := by
  unfold processOne
  split
  · rename_i h; exact .overload _ h
  · rename_i h
    have hq : s.queue.pop env.popNow = (s.queue, .empty) := by
      cases hp : s.queue.pop env.popNow with
      | mk q r =>
          have hc := s.queue.pop_cases env.popNow
          rw [h] at hc
          cases hc
          rw [← hp, h]
    cases hq.symm.trans h
    exact .empty hq
  · rename_i h; exact .item _ _ _ h

/-- The head is popped in time. -/
theorem processOne_item {head : Item} {rest : List Item} (hfail : s.queue.failed = false) (hq : s.queue.items = head :: rest)
    (hage : env.popNow - head.entered ≤ s.queue.maxAge) :
    s.processOne env = processItem env head (env.popNow - head.entered)
      { s with queue := { s.queue with items := rest } } := by
  have hpop : s.queue.pop env.popNow = ({ s.queue with items := rest }, .item head (env.popNow - head.entered)) := by
    unfold InputQueue.pop
    rw [if_neg (by simp [hfail]), hq]
    exact if_neg (not_lt.mpr hage)
  unfold processOne
  rw [hpop]

end TargetEngine

end RemoteInput
