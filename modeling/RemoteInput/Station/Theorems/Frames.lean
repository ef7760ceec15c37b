import RemoteInput.Capture.Lemmas.Emitted
import RemoteInput.Capture.Lemmas.Windows
import RemoteInput.Controller.Lemmas.Framed
import RemoteInput.Station.Semantics

/-!
# What the controller sends is a legal frame
-/

namespace RemoteInput

/-- A frame is packed, and what arrives is the frame. -/
def Event.Arrives (e : Event) : Prop := ∃ data, e.pack = some data ∧ unpack data = .ok e

/-! ## The calls of one hook event -/

namespace Controller

variable {c : Controller}

theorem call_epoch (env : ControllerEnv) (call : PolicyCall) :
    (c.call env call).epoch = c.epoch ∨ (c.call env call).epoch = 0 := by
  cases call with
  | emit event =>
      show (c.enqueue env event).epoch = _ ∨ (c.enqueue env event).epoch = 0
      unfold enqueue
      split
      · exact .inl rfl
      · unfold capture
        dsimp only
        split
        · exact .inl rfl
        · exact .inr rfl
  | toggle =>
      show c.toggle.epoch = _ ∨ c.toggle.epoch = 0
      unfold toggle
      split
      · exact .inr rfl
      · exact .inl rfl
  | stop => exact .inr rfl

theorem Framed.calls (h : c.Framed) {calls : List PolicyCall} {clock : Nat → Time}
    (hc : c.epoch ≠ 0 → ∀ e, .emit e ∈ calls → Event.arguments e.op e.a e.b) : (c.calls clock calls).Framed := by
  induction calls generalizing c clock with
  | nil => exact h
  | cons call calls ih =>
      have hcall : (c.call { now := clock 0 } call).Framed := by
        cases call with
        | emit event => exact h.enqueue fun he => hc he event (by simp)
        | toggle => exact h.toggle
        | stop => exact h.stopControl
      refine ih hcall fun he e hm => ?_
      rcases call_epoch { now := clock 0 } call with hep | hep
      · exact hc (hep ▸ he) e (by simp [hm])
      · exact absurd hep he

end Controller

theorem arguments_modifier : ∀ x ∈ CapturePolicy.reservedMods, ∀ down,
    Event.arguments (CapturePolicy.keyEvent x down).op (CapturePolicy.keyEvent x down).a
      (CapturePolicy.keyEvent x down).b := by
  decide

namespace WindowsCapture

variable {w w' : WindowsCapture}

/-- The hook thread and the requests do not defer keys. -/
theorem step_deferred {action : CaptureAction} (h : w.policy.Deferred) (hk : ∀ pauses k down, action ≠ .key pauses k down)
    (hm : ∀ pauses op a b, action ≠ .mouse pauses op a b) (hs : w.step action = some w') : w'.policy.Deferred := by
  have hpause : w.policy.pause.Deferred := by simp [CapturePolicy.Deferred, CapturePolicy.pause]
  have hactivate : w.policy.activate.Deferred := by simp [CapturePolicy.Deferred, CapturePolicy.activate]
  cases action with
  | setActive active =>
      cases hs
      cases active with
      | true => exact h
      | false => exact hpause
  | key pauses k down => exact absurd rfl (hk pauses k down)
  | mouse pauses op a b => exact absurd rfl (hm pauses op a b)
  | fault => cases hs; exact hpause
  | message healthy =>
      unfold step message at hs
      dsimp only at hs
      split at hs
      · cases hs
      split at hs
      · split at hs <;> cases hs <;> exact h
      · cases hs; exact hpause
  | native r =>
      unfold step native at hs
      dsimp only at hs
      split at hs
      · cases hs
      · cases hs
      · split at hs <;> cases hs <;> exact h
      · cases hs; exact h
      · split at hs <;> cases hs <;> exact h
      · cases hs; exact h
      · cases hs; exact h
      · cases hs
        unfold finish
        split
        · exact hactivate
        · exact h
      · split at hs <;> cases hs <;> exact h
      · cases hs; exact h
  | recover =>
      unfold step recover at hs
      dsimp only at hs
      split at hs <;> cases hs
      exact hpause

end WindowsCapture

/-! ## Runs -/

namespace Station

variable {s s' : Station} {action : StationAction}

/-- In an epoch, what the policy is about to emit is in the range of its frame; a frame can be numbered and stamped. -/
def InRange (s : Station) : StationAction → Prop
  | .key _ message d =>
      ¬ d.injected → s.controller.epoch ≠ 0 → s.capture.policy.SendsKey d.key (keyDown message) → 1 ≤ d.key ∧ d.key ≤ 254
  | .mouse _ message d =>
      s.controller.epoch ≠ 0 → s.capture.policy.active = true →
        ∀ call ∈ s.capture.mouseCall message d, Event.arguments call.1 call.2.1 call.2.2
  | .handler env _ | .read env _ => s.controller.Stampable env
  | .capture _ | .connect | .disconnect => True

instance (s : Station) (action : StationAction) : Decidable (s.InRange action) :=
  match action with
  | .key _ message d => inferInstanceAs (Decidable (¬ d.injected → s.controller.epoch ≠ 0 →
      s.capture.policy.SendsKey d.key (keyDown message) → 1 ≤ d.key ∧ d.key ≤ 254))
  | .mouse _ message d =>
      have : Decidable (∀ call ∈ s.capture.mouseCall message d, Event.arguments call.1 call.2.1 call.2.2) :=
        decidable_of_iff ((s.capture.mouseCall message d).all fun call => Event.arguments call.1 call.2.1 call.2.2)
          (by simp [Option.all_eq_true])
      inferInstanceAs (Decidable (s.controller.epoch ≠ 0 → s.capture.policy.active = true →
        ∀ call ∈ s.capture.mouseCall message d, Event.arguments call.1 call.2.1 call.2.2))
  | .handler env _ | .read env _ => inferInstanceAs (Decidable (s.controller.Stampable env))
  | .capture _ | .connect | .disconnect => .isTrue trivial

/-- What is queued and sent is in range, and the deferred keys are modifiers. -/
structure Ranged (s : Station) : Prop where
  framed : s.controller.Framed
  deferred : s.capture.policy.Deferred

theorem Ranged.stop (h : s.Ranged) : s.stop.Ranged :=
  ⟨h.framed.stopControl, by simp [Station.stop, WindowsCapture.setActive, WindowsCapture.request, CapturePolicy.pause,
    CapturePolicy.Deferred]⟩

theorem Ranged.key (h : s.Ranged) {clock : Nat → Time} {message : Nat} {d : Kbd} (hr : s.InRange (.key clock message d)) :
    (s.key clock message d).Ranged := by
  unfold Station.key
  split
  · exact h
  rename_i hinj
  dsimp only
  have hpolicy : (s.capture.hookKey (s.controller.pauses clock) message d).policy =
      (s.capture.policy.key (s.controller.pauses clock) d.key (keyDown message)).1 := by
    rw [WindowsCapture.hookKey, if_neg hinj]
    exact (WindowsCapture.key_seen _ _ _ _).1
  -- with the epoch as a condition, what is emitted is in range
  have hemits := CapturePolicy.key_only (P := fun e => s.controller.epoch ≠ 0 → Event.arguments e.op e.a e.b)
    (fun x hx down _ => arguments_modifier x hx down) (s.controller.pauses clock) d.key (keyDown message)
    h.deferred (fun hk he => ?_)
  · have hranged : Ranged ⟨s.capture.hookKey (s.controller.pauses clock) message d,
        s.controller.calls clock (s.capture.hookKey (s.controller.pauses clock) message d).policy.calls⟩ := by
      refine ⟨h.framed.calls fun he e hm => ?_, ?_⟩
      · rw [hpolicy] at hm; exact hemits.1 e hm he
      · show CapturePolicy.Deferred _; rw [hpolicy]; exact hemits.2
    split
    · exact Ranged.stop ⟨hranged.framed, by simp [WindowsCapture.fault, CapturePolicy.pause, CapturePolicy.Deferred]⟩
    · exact hranged
  · obtain ⟨hl, hh⟩ := hr hinj he hk
    exact ⟨hl, hh, by cases keyDown message <;> simp [CapturePolicy.keyEvent]⟩

theorem Ranged.mouse (h : s.Ranged) {clock : Nat → Time} {message : Nat} {d : MouseHook}
    (hr : s.InRange (.mouse clock message d)) : (s.mouse clock message d).Ranged := by
  unfold Station.mouse
  split
  · exact h
  rename_i call hcall
  obtain ⟨op, a, b⟩ := call
  have hpolicy : (s.capture.hookMouse (s.controller.pauses clock) message d).policy =
      (s.capture.policy.mouse (s.controller.pauses clock) op a b).1 := by
    rw [WindowsCapture.hookMouse, hcall]
    exact (WindowsCapture.mouse_seen _ _ _ _ _).1
  have hemits := CapturePolicy.mouse_only (P := fun e => s.controller.epoch ≠ 0 → Event.arguments e.op e.a e.b)
    (fun x hx down _ => arguments_modifier x hx down) (s.controller.pauses clock) op a b h.deferred
    (fun ha he => hr he ha (op, a, b) hcall)
  refine ⟨h.framed.calls fun he e hm => ?_, ?_⟩
  · rw [hpolicy] at hm; exact hemits.1 e hm he
  · show CapturePolicy.Deferred _; rw [hpolicy]; exact hemits.2

theorem Ranged.step (h : s.Ranged) (hr : s.InRange action) (hs : s.step action = some s') : s'.Ranged := by
  unfold Station.step at hs
  split at hs
  · split at hs <;> cases hs
    exact h.key hr
  · split at hs <;> cases hs
    exact h.mouse hr
  · cases hs
  · cases hs
  · rename_i action hk hm
    obtain ⟨w, hw, rfl⟩ := Option.map_eq_some_iff.mp hs
    exact ⟨h.framed, WindowsCapture.step_deferred h.deferred (fun p k d he => hk p k d (he ▸ rfl))
      (fun p o a b he => hm p o a b (he ▸ rfl)) hw⟩
  · cases hs
  · rename_i env op hop
    split at hs
    · rename_i hb
      obtain ⟨c, hc, rfl⟩ := Option.map_eq_some_iff.mp hs
      exact ⟨h.framed.step hr hb (fun input he => hop input (he ▸ rfl)) hc, h.deferred⟩
    · cases hs
  · rename_i env message
    split at hs
    · rename_i hm
      obtain ⟨c, hc, rfl⟩ := Option.map_eq_some_iff.mp hs
      refine ⟨h.framed.read hr (fun nonce he => ?_) hc, h.deferred⟩
      subst he
      unfold Relay.outbound at hm
      dsimp only at hm
      split at hm
      · rename_i hn; exact hn.2
      · cases hm
    · cases hs
  · cases hs; exact ⟨h.framed.connect, h.deferred⟩
  · cases hs; exact ⟨h.framed.disconnect, h.deferred⟩

/-- While what is captured is in range, every frame that the controller sends arrives as it was sent, and an input frame
carries what was emitted. -/
theorem frames_arrive {actions : List StationAction} (hr : Runs.Before step {} InRange actions)
    (hs : run {} actions = some s) :
    ∀ f ∈ sentFrames s.controller.log, f.Arrives ∧ Captured s.controller.log f := by
  have h : s.Ranged := by
    refine hr.invariant ⟨.start, ?_⟩ (fun t a t' h ha ht => h.step ha ht) hs
    exact fun x hx => absurd hx (by simp)
  intro f hf
  obtain ⟨hl, hc⟩ := h.framed.sent f hf
  exact ⟨Event.survives_iff.mpr hl, hc⟩

/-! ## A fast wheel -/

/-- An activation by the hotkey, an event of the wheel, one pass of `sender`. -/
def wheel (data : Nat) : List StationAction :=
  [.connect, .read { now := 0 } (.challenge 7), .key (fun _ => 0) 0x100 { vk := 0x11 },
    .key (fun _ => 0) 0x104 { vk := 0x12 }, .key (fun _ => 0) 0x104 { vk := 0x78 },
    .handler { now := 0, bits := 5 } .callback, .read { now := 0 } (.activated 5), .capture (.setActive true),
    .capture (.message true), .capture (.native {}), .capture (.native { point := (10, 10) }),
    .capture (.native { point := (1920, 1080) }), .capture (.native {}), .capture (.native {}), .capture (.native {}),
    .capture (.native {}), .capture (.native {}), .mouse (fun _ => 0) 0x20A { data := data },
    .handler { now := 0 } .sender]

/-- A notch of the wheel is in range and arrives. -/
theorem frames_arrive_notch :
    ∃ s, run {} (wheel (120 * 2 ^ 16)) = some s ∧ (sentFrames s.controller.log).length = 3 ∧
      ∀ f ∈ sentFrames s.controller.log, f.Arrives ∧ Captured s.controller.log f := by
  obtain ⟨s, hs⟩ : ∃ s, run {} (wheel (120 * 2 ^ 16)) = some s := Option.isSome_iff_exists.mp (by decide +kernel)
  have hlen : ((run {} (wheel (120 * 2 ^ 16))).map fun s => (sentFrames s.controller.log).length) = some 3 := by
    decide +kernel
  rw [hs] at hlen
  exact ⟨s, hs, by simpa using hlen, frames_arrive (by decide +kernel) hs⟩

/-- The largest delta of the hook structure leaves the controller in a frame that is not accepted. -/
theorem wheel_is_rejected :
    ¬ ∀ actions s, run {} actions = some s → ∀ f ∈ sentFrames s.controller.log, f.Arrives := by
  intro h
  obtain ⟨s, hs⟩ : ∃ s, run {} (wheel (0x7FFF * 2 ^ 16)) = some s := Option.isSome_iff_exists.mp (by decide +kernel)
  have hbad :
      ((run {} (wheel (0x7FFF * 2 ^ 16))).map fun s : Station => decide (∃ f ∈ sentFrames s.controller.log, ¬ f.legal)) =
      some true := by
    decide +kernel
  rw [hs] at hbad
  obtain ⟨f, hf, hn⟩ : ∃ f ∈ sentFrames s.controller.log, ¬ f.legal := by simpa using hbad
  exact hn (Event.survives_iff.mp (h _ s hs f hf))

end Station

end RemoteInput
