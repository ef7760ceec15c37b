import RemoteInput.Controller.Lemmas.Log
import RemoteInput.Wire.Frame

/-!
# The frames that the controller sends
-/

namespace RemoteInput

/-- The events that the capture emitted, oldest first. -/
def emittedEvents (log : List Deed) : List Event :=
  log.filterMap fun
    | .emitted event => some event
    | _ => none

@[simp] theorem emittedEvents_append (l l' : List Deed) : emittedEvents (l ++ l') = emittedEvents l ++ emittedEvents l' :=
  List.filterMap_append

@[simp] theorem emittedEvents_emitted (event : Event) : emittedEvents [.emitted event] = [event] := rfl

@[simp] theorem emittedEvents_sent (frame : Event) : emittedEvents [.sent frame] = [] := rfl

@[simp] theorem emittedEvents_stopped (x y : Nat) : emittedEvents [.stopped x y] = [] := rfl

/-- An input frame carries an emitted event, or the event that adjacent emitted events were merged into. -/
def Captured (log : List Deed) (frame : Event) : Prop :=
  frame.op.isInput = true → ∃ parts event, parts <:+: emittedEvents log ∧ Coalesced parts event ∧
    frame = { event with seq := frame.seq, stamp := frame.stamp, lease := frame.lease }

theorem Captured.append {log : List Deed} {frame : Event} (h : Captured log frame) (new : List Deed) :
    Captured (log ++ new) frame := by
  intro hop
  obtain ⟨parts, event, hin, hc, he⟩ := h hop
  refine ⟨parts, event, hin.trans ?_, hc, he⟩
  rw [emittedEvents_append]
  exact (List.prefix_append _ _).isInfix

namespace Controller

variable {env : ControllerEnv} {c c' : Controller}

/-- What the controller has sent survives the wire, and what it has queued will. -/
structure Framed (c : Controller) : Prop where
  epoch : c.epoch < 2 ^ 64
  pendingEpoch : c.pendingEpoch < 2 ^ 64
  lease : c.lease < 2 ^ 64
  items : ∀ it ∈ c.queue.items, Event.arguments it.event.op it.event.a it.event.b ∧ Coalesced it.parts it.event
  parts : c.queue.items.flatMap Item.parts <:+ emittedEvents c.log
  sent : ∀ f ∈ sentFrames c.log, f.legal ∧ Captured c.log f

theorem Framed.start : Framed {} := by
  constructor <;> simp [sentFrames]

/-- A frame can be stamped and numbered. -/
def Stampable (env : ControllerEnv) (c : Controller) : Prop := env.stamp < 2 ^ 64 ∧ c.seq + 1 < 2 ^ 64

instance (env : ControllerEnv) (c : Controller) : Decidable (c.Stampable env) := inferInstanceAs (Decidable (_ ∧ _))

theorem Framed.send (h : c.Framed) (hs : c.Stampable env) {event : Event} (he : event.epoch < 2 ^ 64)
    (ha : Event.arguments event.op event.a event.b)
    (hcap : event.op.isInput = true → ∃ parts, parts <:+: emittedEvents c.log ∧ Coalesced parts event) :
    (c.send env event).Framed := by
  refine ⟨h.epoch, h.pendingEpoch, h.lease, h.items, ?_, fun f hf => ?_⟩
  · show _ <:+ emittedEvents (c.log ++ [.sent (c.frame env event)])
    rw [emittedEvents_append, emittedEvents_sent, List.append_nil]
    exact h.parts
  · change f ∈ sentFrames (c.log ++ [.sent (c.frame env event)]) at hf
    show _ ∧ Captured (c.log ++ _) f
    rw [sentFrames_append, List.mem_append, sentFrames_sent, List.mem_singleton] at hf
    rcases hf with hf | rfl
    · obtain ⟨hl, hc⟩ := h.sent f hf
      exact ⟨hl, hc.append _⟩
    · refine ⟨⟨he, hs.2, hs.1, h.lease, ha⟩, Captured.append (fun hop => ?_) _⟩
      obtain ⟨parts, hin, hc⟩ := hcap hop
      exact ⟨parts, event, hin, hc, rfl⟩

/-- A frame that carries no input. -/
theorem Framed.sendControl (h : c.Framed) (hs : c.Stampable env) {op : Op} {epoch : Nat} (he : epoch < 2 ^ 64)
    (hop : op.isInput = false) : (c.send env { op := op, epoch := epoch }).Framed := by
  refine h.send hs he ?_ fun hin => ?_
  · cases op <;> first | exact ⟨rfl, rfl⟩ | cases hop
  · rw [show ({ op := op, epoch := epoch } : Event).op = op from rfl, hop] at hin
    cases hin

/-! ## Handlers -/

theorem Framed.stopControl (h : c.Framed) : c.stopControl.Framed := by
  refine ⟨by simp [Controller.stopControl, schedule], by simp [Controller.stopControl, schedule], h.lease,
    by simp [Controller.stopControl, schedule, InputQueue.clear],
    by simp [Controller.stopControl, schedule, InputQueue.clear], fun f hf => ?_⟩
  change f ∈ sentFrames (c.log ++ [.stopped c.epoch c.pendingEpoch]) at hf
  rw [sentFrames_append, sentFrames_stopped, List.append_nil] at hf
  obtain ⟨hl, hc⟩ := h.sent f hf
  exact ⟨hl, hc.append _⟩

theorem Framed.schedule (h : c.Framed) (callback : Callback) : (c.schedule callback).Framed := by
  obtain ⟨h1, h2, h3, h4, h5, h6⟩ := h
  exact ⟨h1, h2, h3, h4, h5, h6⟩

theorem Framed.toggle (h : c.Framed) : c.toggle.Framed := by
  unfold Controller.toggle
  split
  · exact h.stopControl
  · exact h.schedule .activate

theorem Framed.enqueue (h : c.Framed) {event : Event} (ha : c.epoch ≠ 0 → Event.arguments event.op event.a event.b) :
    (c.enqueue env event).Framed := by
  unfold Controller.enqueue
  split
  · exact h
  rename_i hn
  push Not at hn
  have ha := ha hn.2
  have hsent : ∀ f ∈ sentFrames (c.log ++ [.emitted { event with epoch := c.epoch }]),
      f.legal ∧ Captured (c.log ++ [.emitted { event with epoch := c.epoch }]) f := by
    intro f hf
    rw [sentFrames_append, sentFrames_emitted, List.append_nil] at hf
    obtain ⟨hl, hc⟩ := h.sent f hf
    exact ⟨hl, hc.append _⟩
  unfold capture
  dsimp only
  split
  · rename_i hok
    refine ⟨h.epoch, h.pendingEpoch, h.lease, ?_, ?_, hsent⟩
    · refine InputQueue.put_forall h.items ⟨ha, .one _⟩ ?_
      rintro last ⟨_, hc⟩ hco hr
      refine ⟨?_, .more hc hco⟩
      rw [Event.outOfRange, not_lt, max_le_iff] at hr
      show Event.arguments event.op _ _
      rw [show event.op = .move from hco.1]
      exact hr
    · obtain ⟨l, hl⟩ := h.parts
      refine ⟨l, ?_⟩
      show l ++ ((c.queue.put env.now { event with epoch := c.epoch }).queue.items.flatMap Item.parts) = _
      rw [InputQueue.put_parts hok, ← List.append_assoc, hl, emittedEvents_append, emittedEvents_emitted]
  · -- the queue is cleared, so it does not matter what `put` has left
    obtain ⟨h1, h2, h3, _, _, h6⟩ := Framed.stopControl
      (c := { c with queue := c.queue.clear, log := c.log ++ [.emitted { event with epoch := c.epoch }] })
      ⟨h.epoch, h.pendingEpoch, h.lease, by simp [InputQueue.clear], by simp [InputQueue.clear], hsent⟩
    exact ⟨h1, h2, h3, by simp [Controller.stopControl, Controller.schedule, InputQueue.clear],
      by simp [Controller.stopControl, Controller.schedule, InputQueue.clear], h6⟩

theorem Framed.sendReset (h : c.Framed) (hs : c.Stampable env) : (c.sendReset env).Framed := by
  unfold Controller.sendReset
  split
  · exact h.sendControl hs (by norm_num) rfl
  · exact h

theorem orOne_lt {bits : Nat} (h : bits < 2 ^ 64) : orOne bits < 2 ^ 64 := by
  unfold orOne
  split
  · norm_num
  · exact h

theorem Framed.activate (h : c.Framed) (hs : c.Stampable env) (hb : env.bits < 2 ^ 64) : (c.activate env).Framed := by
  unfold Controller.activate
  split
  · exact h
  split
  · exact h
  have hbegin : Framed { c with pendingEpoch := orOne env.bits, activateDeadline := env.now + c.network.inputTimeout,
                                queue := c.queue.clear } :=
    ⟨h.epoch, orOne_lt hb, h.lease, by simp [InputQueue.clear], by simp [InputQueue.clear], h.sent⟩
  exact hbegin.sendControl hs (orOne_lt hb) rfl

theorem Framed.callback (h : c.Framed) (hs : c.Stampable env) (hb : env.bits < 2 ^ 64) (hc : c.callback env = some c') :
    c'.Framed := by
  have hrest : ∀ rest, Framed { c with scheduled := rest } := by
    obtain ⟨h1, h2, h3, h4, h5, h6⟩ := h
    exact fun _ => ⟨h1, h2, h3, h4, h5, h6⟩
  unfold Controller.callback at hc
  split at hc
  · cases hc
  · cases hc; exact (hrest _).activate hs hb
  · cases hc; exact (hrest _).sendReset hs

theorem Framed.sender (h : c.Framed) (hs : c.Stampable env) : (c.sender env).Framed := by
  have hc := c.queue.pop_cases env.now
  unfold Controller.sender
  generalize c.queue.pop env.now = r at hc
  cases hc with
  | failed => exact h.stopControl
  | empty => exact h
  | expired =>
      exact Framed.stopControl (c := { c with queue := c.queue.fail })
        ⟨h.epoch, h.pendingEpoch, h.lease, by simp [InputQueue.fail], by simp [InputQueue.fail], h.sent⟩
  | item item rest _ hq =>
      have hitem := h.items item (by simp [hq])
      have hparts : item.parts ++ rest.flatMap Item.parts <:+ emittedEvents c.log := by
        have := h.parts
        rwa [hq, List.flatMap_cons] at this
      have hrest : Framed { c with queue := { c.queue with items := rest } } :=
        ⟨h.epoch, h.pendingEpoch, h.lease, fun it hit => h.items it (by simp [hq, hit]),
          (List.suffix_append _ _).trans hparts, h.sent⟩
      dsimp only
      split
      · exact hrest
      rename_i hn
      push Not at hn
      refine hrest.send hs ?_ hitem.1 fun _ => ⟨item.parts, ?_, hitem.2⟩
      · rw [hn.2]; exact h.epoch
      · exact (List.prefix_append _ _).isInfix.trans hparts.isInfix

theorem Framed.monitor (h : c.Framed) (hs : c.Stampable env) : (c.monitor env).Framed := by
  have hexpire : (c.expire env).Framed ∧ (c.expire env).seq = c.seq := by
    unfold expire
    split
    · exact ⟨h.stopControl, rfl⟩
    split
    · exact ⟨h.stopControl, rfl⟩
    split
    · exact ⟨h.stopControl, rfl⟩
    · exact ⟨h, rfl⟩
  obtain ⟨he, hseq⟩ := hexpire
  unfold Controller.monitor probe
  split
  · obtain ⟨h1, h2, h3, h4, h5, h6⟩ :=
      he.sendControl ⟨hs.1, by rw [hseq]; exact hs.2⟩ he.epoch (show Op.probe.isInput = false from rfl)
    exact ⟨h1, h2, h3, h4, h5, h6⟩
  · exact he

theorem Framed.step {op : ControllerOp} (h : c.Framed) (hs : c.Stampable env) (hb : env.bits < 2 ^ 64)
    (hop : ∀ input, op ≠ .enqueue input) (hc : c.step env op = some c') : c'.Framed := by
  cases op with
  | enqueue input => exact absurd rfl (hop input)
  | toggle => cases hc; exact h.toggle
  | stop => cases hc; exact h.stopControl
  | callback => exact h.callback hs hb hc
  | sender => cases hc; exact h.sender hs
  | monitor => cases hc; exact h.monitor hs

/-- A message that keeps the nonce in range. -/
theorem Framed.read (h : c.Framed) (hs : c.Stampable env) {message : Message}
    (hn : ∀ nonce, message = .challenge nonce → nonce < 2 ^ 64) (hc : c.read env message = some c') : c'.Framed := by
  obtain ⟨h1, h2, h3, h4, h5, h6⟩ := h
  unfold Controller.read at hc
  split at hc
  · cases hc
    unfold readAck
    dsimp only
    split <;> exact ⟨h1, h2, h3, h4, h5, h6⟩
  · rename_i nonce
    cases hc
    have hlease : Framed { c with lease := nonce, leaseReceived := env.now } := ⟨h1, h2, hn nonce rfl, h4, h5, h6⟩
    unfold readChallenge
    dsimp only
    split
    · refine hlease.sendControl hs ?_ rfl
      split
      · exact h1
      · exact h2
    · exact hlease
  · cases hc
    unfold readActivated
    split
    · exact Framed.sendReset ⟨h1, h2, h3, h4, h5, h6⟩ hs
    · exact ⟨h2, by norm_num, h3, h4, h5, h6⟩
  · cases hc
    split
    · exact Framed.stopControl ⟨h1, h2, h3, h4, h5, h6⟩
    · exact ⟨h1, h2, h3, h4, h5, h6⟩
  · cases hc

theorem Framed.connect (h : c.Framed) : c.connect.Framed := by
  obtain ⟨h1, h2, h3, h4, h5, h6⟩ := h
  exact ⟨h1, h2, h3, h4, h5, h6⟩

theorem Framed.disconnect (h : c.Framed) : c.disconnect.Framed :=
  ⟨by simp [Controller.disconnect], by simp [Controller.disconnect], by simp [Controller.disconnect],
    by simp [Controller.disconnect, InputQueue.clear], by simp [Controller.disconnect, InputQueue.clear], h.sent⟩

end Controller

end RemoteInput
