import RemoteInput.Controller.Lemmas.Inputs
import RemoteInput.Controller.Threads

/-!
# Only inputs are captured

What stands in the controller's queue, or in a thread's hand on its way there or from there, is an input.
-/

namespace RemoteInput

namespace ControllerThreads

variable {t t' : ControllerThreads} {env : ControllerEnv}

/-- What goes through the queue is input. -/
structure Captured (t : ControllerThreads) : Prop where
  queue : ∀ event ∈ t.controller.queue.events, event.op.isInput = true
  hook : ∀ event, t.hook = .putting event → event.op.isInput = true
  loop : ∀ event, t.loop = .popped event ∨ t.loop = .matching event → event.op.isInput = true

theorem Captured.start : Captured {} := ⟨by simp [InputQueue.events], by simp, by simp⟩

theorem Captured.restart (log : List Deed) : Captured { controller := { log := log } } :=
  ⟨by simp [InputQueue.events], by simp, by simp⟩

/-- A step that brings no event. -/
theorem Captured.mono (h : t.Captured) (hq : t'.controller.queue.events ⊆ t.controller.queue.events)
    (hh : ∀ event, t'.hook = .putting event → t.hook = .putting event)
    (hl : ∀ event, t'.loop = .popped event ∨ t'.loop = .matching event → t.loop = .popped event ∨ t.loop = .matching event) :
    t'.Captured :=
  ⟨fun event he => h.queue event (hq he), fun event he => h.hook event (hh event he),
    fun event he => h.loop event (hl event he)⟩

theorem stop_events (closing : Bool) (t : ControllerThreads) (point : StopPoint) :
    (t.stop closing point).1.controller.queue.events ⊆ t.controller.queue.events ∧ (t.stop closing point).1.hook = t.hook ∧
      (t.stop closing point).1.loop = t.loop := by
  have hclear : t.controller.queue.clear.events ⊆ t.controller.queue.events := by simp [InputQueue.events, InputQueue.clear]
  cases point with
  | capture | connection | epoch | pending | schedule => exact ⟨List.Subset.refl _, rfl, rfl⟩
  | queue mark => cases closing <;> exact ⟨hclear, rfl, rfl⟩

theorem Captured.hookStep (h : t.Captured) (hs : t.hookStep env = some t') : t'.Captured := by
  have hto : ∀ {u : ControllerThreads} {point : HookPoint}, u.controller.queue = t.controller.queue → u.loop = t.loop →
      (∀ event, point ≠ .putting event) → (u.hookTo point).Captured := by
    intro u point hq hl hp
    exact h.mono (fun _ he => hq ▸ he) (fun event he => absurd he (hp event)) (fun _ he => hl ▸ he)
  unfold ControllerThreads.hookStep at hs
  cases hh : t.hook with
  | idle => rw [hh] at hs; cases hs
  | toggle =>
      rw [hh] at hs
      cases hs
      exact hto rfl rfl (by split <;> simp)
  | toggling =>
      rw [hh] at hs
      dsimp only at hs
      split at hs <;> cases hs
      · exact hto rfl rfl (by simp)
      · exact hto rfl rfl (by simp)
  | enqueue input =>
      rw [hh] at hs
      cases hs
      exact hto rfl rfl (by split <;> simp)
  | enqueuing input =>
      rw [hh] at hs
      cases hs
      refine ⟨h.queue, fun event he => ?_, h.loop⟩
      cases he
      cases input <;> rfl
  | putting event =>
      rw [hh] at hs
      cases hs
      refine ⟨fun event' he => ?_, ?_, h.loop⟩
      · obtain ⟨item, hi, rfl⟩ := List.mem_map.mp he
        refine InputQueue.put_forall (P := fun item => item.event.op.isInput = true) ?_ (h.hook event hh) ?_ item hi
        · exact fun item hi => h.queue item.event (List.mem_map_of_mem hi)
        · exact fun last hl hc _ => by rw [Item.absorb, Event.merge]; exact h.hook event hh
      · intro event' he
        rw [ControllerThreads.hookTo] at he
        dsimp only at he
        split at he <;> cases he
  | stopping point =>
      rw [hh] at hs
      cases hs
      obtain ⟨hq, -, hl⟩ := stop_events false t point
      refine h.mono hq (fun event he => ?_) (fun _ he => hl ▸ he)
      change (t.stop false point).2.elim HookPoint.idle .stopping = _ at he
      cases hn : (t.stop false point).2 <;> rw [hn] at he <;> cases he

theorem sendReset_queue (env : ControllerEnv) (c : Controller) : (c.sendReset env).queue = c.queue := by
  unfold Controller.sendReset
  split <;> rfl

theorem readAck_queue (env : ControllerEnv) (op epoch seq stamp : Nat) (c : Controller) :
    (c.readAck env op epoch seq stamp).queue = c.queue := by
  unfold Controller.readAck
  dsimp only
  split <;> rfl

theorem readChallenge_queue (env : ControllerEnv) (nonce : Nat) (c : Controller) :
    (c.readChallenge env nonce).queue = c.queue := by
  unfold Controller.readChallenge
  dsimp only
  split <;> rfl

theorem probe_queue (env : ControllerEnv) (c : Controller) : (c.probe env).queue = c.queue := by
  unfold Controller.probe
  split <;> rfl

theorem Captured.loopStep (h : t.Captured) (hs : t.loopStep env = some t') : t'.Captured := by
  have hto : ∀ {u : ControllerThreads} {point : LoopPoint}, u.controller.queue.events ⊆ t.controller.queue.events →
      u.hook = t.hook → (∀ event, point = .popped event ∨ point = .matching event → t.loop = .popped event) →
      (u.loopTo point).Captured := by
    intro u point hq hh hp
    exact h.mono hq (fun _ he => hh ▸ he) (fun event he => .inl (hp event he))
  unfold ControllerThreads.loopStep at hs
  cases hl : t.loop with
  | idle => rw [hl] at hs; cases hs
  | activate | activating =>
      rw [hl] at hs
      cases hs
      exact hto (List.Subset.refl _) rfl (by split <;> simp)
  | drawing | sending | checked | loaded | assigned =>
      rw [hl] at hs
      cases hs
      exact hto (List.Subset.refl _) rfl (by simp)
  | clearing =>
      rw [hl] at hs
      cases hs
      exact hto (by simp [InputQueue.events, InputQueue.clear]) rfl (by simp)
  | activated | compared =>
      rw [hl] at hs
      dsimp only at hs
      split at hs <;> cases hs
      · refine hto ?_ rfl (by simp)
        rw [sendReset_queue]
        exact List.Subset.refl _
      · exact hto (List.Subset.refl _) rfl (by simp)
  | requesting =>
      rw [hl] at hs
      dsimp only at hs
      split at hs <;> cases hs
      exact hto (List.Subset.refl _) rfl (by simp)
  | popped event =>
      rw [hl] at hs
      cases hs
      refine hto (List.Subset.refl _) rfl fun event' he => ?_
      split at he
      · simp at he
      · rcases he with he | he <;> cases he
        exact hl
  | matching event =>
      rw [hl] at hs
      cases hs
      refine hto ?_ rfl (by simp)
      split <;> exact List.Subset.refl _
  | stopping closing point =>
      rw [hl] at hs
      dsimp only at hs
      split at hs <;> cases hs
      obtain ⟨hq, hh, -⟩ := stop_events closing t point
      refine hto hq hh fun event he => ?_
      cases hn : (t.stop closing point).2 <;> rw [hn] at he <;> simp at he

theorem Captured.begin (h : t.Captured) {task : LoopTask} (hs : t.begin env task = some t') : t'.Captured := by
  have hsame : ∀ {c : Controller}, c.queue = t.controller.queue → Captured { t with controller := c } := fun hq =>
    h.mono (fun _ he => hq ▸ he) (fun _ => id) (fun _ => id)
  have hto : ∀ {point : LoopPoint}, (∀ event, point ≠ .popped event ∧ point ≠ .matching event) → (t.loopTo point).Captured :=
    fun hp => h.mono (List.Subset.refl _) (fun _ => id) fun event he => he.elim (absurd · (hp event).1)
      (absurd · (hp event).2)
  unfold ControllerThreads.begin at hs
  cases task with
  | activated epoch => cases hs; exact hto (by simp)
  | ack => cases hs; exact hsame (readAck_queue ..)
  | challenge => cases hs; exact hsame (readChallenge_queue ..)
  | callback =>
      dsimp only at hs
      split at hs <;> cases hs
      · exact h.mono (List.Subset.refl _) (fun _ => id) (by simp [ControllerThreads.loopTo])
      · exact hsame (sendReset_queue ..)
  | sender =>
      have hc := t.controller.queue.pop_cases env.now
      dsimp only at hs
      generalize t.controller.queue.pop env.now = r at hs hc
      cases hc with
      | failed => cases hs; exact h.mono (List.Subset.refl _) (fun _ => id) (by simp [ControllerThreads.loopTo])
      | empty => cases hs; exact hsame rfl
      | expired =>
          cases hs
          exact h.mono (by simp [ControllerThreads.loopTo, InputQueue.fail, InputQueue.events]) (fun _ => id)
            (by simp [ControllerThreads.loopTo])
      | item item rest _ hq =>
          cases hs
          have hevents : t.controller.queue.events = item.event :: rest.map Item.event := by rw [InputQueue.events, hq]; rfl
          refine ⟨fun event he => h.queue event ?_, h.hook, fun event he => h.queue event ?_⟩
          · rw [hevents]; exact List.mem_cons_of_mem _ he
          · rcases he with he | he <;> cases he
            rw [hevents]; exact List.mem_cons_self
  | probe => cases hs; exact hsame (probe_queue ..)
  | stop => cases hs; exact hto (by simp)
  | connect => cases hs; exact hsame rfl
  | close => cases hs; exact hto (by simp)

theorem Captured.step (h : t.Captured) {action : ControllerAction} (hs : t.step action = some t') : t'.Captured := by
  cases action with
  | call call =>
      unfold ControllerThreads.step at hs
      dsimp only at hs
      split at hs <;> cases hs
      cases call <;> exact h.mono (List.Subset.refl _) (by simp [ControllerThreads.call]) (fun _ => id)
  | hook env => exact h.hookStep hs
  | begin env task =>
      unfold ControllerThreads.step at hs
      dsimp only at hs
      split at hs
      · exact h.begin hs
      · cases hs
  | loop env => exact h.loopStep hs

end ControllerThreads

end RemoteInput
