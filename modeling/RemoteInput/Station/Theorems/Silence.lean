import RemoteInput.Controller.Lemmas.Log
import RemoteInput.Lib.Runs
import RemoteInput.Station.Semantics

/-!
# A controller that hears nothing gives up control

The target proves that it is there by its challenges. When they stay away, the passes of `monitor` end the control, and the
controller goes on with nothing but resets and probes.
-/

namespace RemoteInput

namespace Controller

variable {f : Time} {env : ControllerEnv} {c c' d : Controller}

/-- How long an activation may still be pending after the last challenge: it is asked for within the time limit, and then
waits for its own. -/
def pendingMax : Time := networkTimeoutMax + (networkTimeoutMax + challengeInterval + maxQueueAge)

/-- The controller heard its last challenge by `f`. -/
structure Heard (f : Time) (c : Controller) : Prop where
  epoch : c.epoch ≠ 0 → c.lease ≠ 0
  pending : c.pendingEpoch ≠ 0 → c.lease ≠ 0 ∧ c.activateDeadline < f + pendingMax
  received : c.lease ≠ 0 → c.leaseReceived ≤ f

theorem Heard.start (f : Time) : Heard f {} := ⟨fun h => absurd rfl h, fun h => absurd rfl h, fun h => absurd rfl h⟩

/-- The two epochs stay or are given up. -/
theorem Heard.congr (h : c.Heard f) (h1 : c'.epoch = c.epoch ∨ c'.epoch = 0)
    (h2 : c'.pendingEpoch = c.pendingEpoch ∨ c'.pendingEpoch = 0) (h3 : c'.lease = c.lease)
    (h4 : c'.leaseReceived = c.leaseReceived) (h5 : c'.activateDeadline = c.activateDeadline) : c'.Heard f := by
  refine ⟨fun he => ?_, fun hp => ?_, fun hl => ?_⟩
  · rw [h3]
    exact h.epoch (h1.resolve_right he ▸ he)
  · rw [h3, h5]
    exact h.pending (h2.resolve_right hp ▸ hp)
  · rw [h4]
    exact h.received (h3 ▸ hl)

theorem Heard.send (h : c.Heard f) (event : Event) : (c.send env event).Heard f := h.congr (.inl rfl) (.inl rfl) rfl rfl rfl

theorem Heard.sendReset (h : c.Heard f) : (c.sendReset env).Heard f := by
  unfold Controller.sendReset
  split
  · exact h.send _
  · exact h

theorem Heard.stopControl (h : c.Heard f) : c.stopControl.Heard f := h.congr (.inr rfl) (.inr rfl) rfl rfl rfl

theorem Heard.enqueue (h : c.Heard f) (event : Event) : (c.enqueue env event).Heard f := by
  unfold Controller.enqueue Controller.capture
  split
  · exact h
  · dsimp only
    split
    · exact h.congr (.inl rfl) (.inl rfl) rfl rfl rfl
    · exact h.congr (.inr rfl) (.inr rfl) rfl rfl rfl

theorem Heard.toggle (h : c.Heard f) : c.toggle.Heard f := by
  unfold Controller.toggle
  split
  · exact h.stopControl
  · exact h.congr (.inl rfl) (.inl rfl) rfl rfl rfl

theorem Heard.call (h : c.Heard f) (call : PolicyCall) : (c.call env call).Heard f := by
  cases call with
  | emit event => exact h.enqueue event
  | toggle => exact h.toggle
  | stop => exact h.stopControl

theorem Heard.calls (h : c.Heard f) (clock : Nat → Time) (calls : List PolicyCall) : (c.calls clock calls).Heard f := by
  induction calls generalizing c clock with
  | nil => exact h
  | cons call calls ih => exact ih (h.call call) _

/-- An activation is asked for only while the last challenge is recent. -/
theorem Heard.activate (h : c.Heard f) : (c.activate env).Heard f := by
  unfold Controller.activate
  split
  · exact h
  · split
    · exact h
    · rename_i hn hg
      push Not at hg hn
      obtain ⟨-, hlease, hgap⟩ := hg
      have hdeadline : env.now + c.network.inputTimeout < f + pendingMax := by
        have := h.received hlease
        have := c.network.timeout_le
        have := c.network.inputTimeout_le
        unfold pendingMax
        linarith
      exact Heard.congr
        (c := { c with pendingEpoch := orOne env.bits, activateDeadline := env.now + c.network.inputTimeout })
        ⟨fun he => absurd hn.1 he, fun _ => ⟨hlease, hdeadline⟩, h.received⟩ (.inl rfl) (.inl rfl) rfl rfl rfl

theorem Heard.callback (h : c.Heard f) (hc : c.callback env = some c') : c'.Heard f := by
  have hrest : ∀ rest, Heard f { c with scheduled := rest } := fun _ => h.congr (.inl rfl) (.inl rfl) rfl rfl rfl
  unfold Controller.callback at hc
  split at hc
  · cases hc
  · cases hc; exact (hrest _).activate
  · cases hc; exact (hrest _).sendReset

theorem Heard.sender (h : c.Heard f) : (c.sender env).Heard f := by
  have hqueue : ∀ queue, Heard f { c with queue := queue } := fun _ => h.congr (.inl rfl) (.inl rfl) rfl rfl rfl
  unfold Controller.sender
  split
  · exact (hqueue _).stopControl
  · exact hqueue _
  · dsimp only
    split
    · exact hqueue _
    · exact (hqueue _).send _

theorem Heard.expire (h : c.Heard f) : (c.expire env).Heard f := by
  unfold Controller.expire
  split_ifs <;> first | exact h.stopControl | exact h

theorem Heard.probe (h : c.Heard f) : (c.probe env).Heard f := by
  unfold Controller.probe
  split
  · exact h.congr (.inl rfl) (.inl rfl) rfl rfl rfl
  · exact h

theorem Heard.step {op : ControllerOp} (h : c.Heard f) (hc : c.step env op = some c') : c'.Heard f := by
  cases op with
  | enqueue input => cases hc; exact h.enqueue _
  | toggle => cases hc; exact h.toggle
  | stop => cases hc; exact h.stopControl
  | callback => exact h.callback hc
  | sender => cases hc; exact h.sender
  | monitor => cases hc; exact h.expire.probe

/-- The message is no challenge, or one that is read by `f`. -/
def Early (f : Time) (env : ControllerEnv) : Message → Prop
  | .challenge nonce => nonce ≠ 0 ∧ env.now ≤ f
  | _ => True

theorem Heard.read {message : Message} (h : c.Heard f) (hm : Early f env message) (hc : c.read env message = some c') :
    c'.Heard f := by
  cases message with
  | challenge nonce =>
      cases hc
      have hlease : Heard f { c with lease := nonce, leaseReceived := env.now } :=
        ⟨fun _ => hm.1, fun hp => ⟨hm.1, (h.pending hp).2⟩, fun _ => hm.2⟩
      unfold readChallenge
      dsimp only
      split
      · exact hlease.send _
      · exact hlease
  | ack op epoch seq stamp queueUs injectionUs =>
      cases hc
      unfold readAck
      dsimp only
      split
      · exact h.congr (.inl rfl) (.inl rfl) rfl rfl rfl
      · exact h
  | activated epoch =>
      cases hc
      unfold readActivated
      split
      · exact h.sendReset
      · rename_i hn
        push Not at hn
        exact ⟨fun _ => (h.pending hn.2).1, fun hp => absurd rfl hp, h.received⟩
  | paused epoch =>
      cases hc
      split
      · exact h.stopControl
      · exact h
  | _ => cases hc

/-! ## One pass of `monitor` -/

/-- The time limit for challenges is over. -/
theorem Heard.expire_epoch (h : c.Heard f) (hf : f + networkTimeoutMax ≤ env.now) : (c.expire env).epoch = 0 := by
  unfold Controller.expire
  split_ifs with h1 h2 h3
  · rfl
  · rfl
  · rfl
  · by_contra he
    have := h.received (h.epoch he)
    have := c.network.timeout_le
    refine h2 ⟨he, ?_⟩
    linarith

/-- The time limit for activations is over too. -/
theorem Heard.expire_pending (h : c.Heard f) (hf : f + pendingMax ≤ env.now) : (c.expire env).pendingEpoch = 0 := by
  unfold Controller.expire
  split_ifs with h1 h2 h3
  · rfl
  · rfl
  · rfl
  · by_contra hp
    have := (h.pending hp).2
    refine h3 ⟨hp, ?_⟩
    linarith

/-! ## Nothing but resets and probes -/

/-- From `d` to `c` the controller, which is in no epoch and awaits none, sent only resets and probes. -/
structure Given (d c : Controller) : Prop where
  epoch : c.epoch = 0
  pending : c.pendingEpoch = 0
  frames : ∃ new, sentFrames c.log = sentFrames d.log ++ new ∧ ∀ frame ∈ new, frame.epoch = 0 ∧
    (frame.op = .reset ∨ frame.op = .probe)

theorem Given.refl (he : c.epoch = 0) (hp : c.pendingEpoch = 0) : Given c c := ⟨he, hp, [], by simp, by simp⟩

theorem Given.congr (h : Given d c) (h1 : c'.epoch = 0) (h2 : c'.pendingEpoch = 0)
    (h3 : sentFrames c'.log = sentFrames c.log) : Given d c' := ⟨h1, h2, by rw [h3]; exact h.frames⟩

theorem Given.send (h : Given d c) {event : Event} (he : event.epoch = 0) (ho : event.op = .reset ∨ event.op = .probe) :
    Given d (c.send env event) := by
  obtain ⟨new, hnew, hall⟩ := h.frames
  refine ⟨h.epoch, h.pending, new ++ [c.frame env event], ?_, ?_⟩
  · show sentFrames (c.log ++ [.sent (c.frame env event)]) = _
    rw [sentFrames_append, sentFrames_sent, hnew, List.append_assoc]
  · intro frame hf
    rcases List.mem_append.mp hf with hf | hf
    · exact hall frame hf
    · rw [List.mem_singleton.mp hf]
      exact ⟨he, ho⟩

theorem Given.sendReset (h : Given d c) : Given d (c.sendReset env) := by
  unfold Controller.sendReset
  split
  · exact h.send rfl (.inl rfl)
  · exact h

theorem Given.stopControl (h : Given d c) : Given d c.stopControl := by
  refine h.congr rfl rfl ?_
  show sentFrames (c.log ++ [.stopped c.epoch c.pendingEpoch]) = _
  simp

theorem Given.call (h : Given d c) (call : PolicyCall) : Given d (c.call env call) := by
  cases call with
  | emit event =>
      rw [Controller.call, Controller.enqueue, if_pos (.inr h.epoch)]
      exact h
  | toggle =>
      rw [Controller.call, Controller.toggle, if_neg (by simp [h.epoch, h.pending])]
      exact h.congr h.epoch h.pending rfl
  | stop => exact h.stopControl

theorem Given.calls (h : Given d c) (clock : Nat → Time) (calls : List PolicyCall) : Given d (c.calls clock calls) := by
  induction calls generalizing c clock with
  | nil => exact h
  | cons call calls ih => exact ih (h.call call) _

theorem Given.activate (h : Given d c) (hheard : c.Heard f) (hf : f + networkTimeoutMax ≤ env.now) :
    Given d (c.activate env) := by
  have hrefused : c.connected = false ∨ c.lease = 0 ∨ env.now - c.leaseReceived ≥ c.network.timeout := by
    by_contra hn
    push Not at hn
    have := hheard.received hn.2.1
    have := c.network.timeout_le
    linarith [hn.2.2]
  rw [Controller.activate, if_neg (by simp [h.epoch, h.pending]), if_pos hrefused]
  exact h

theorem Given.sender (h : Given d c) : Given d (c.sender env) := by
  have hqueue : ∀ queue, Given d { c with queue := queue } := fun _ => h.congr h.epoch h.pending rfl
  unfold Controller.sender
  split
  · exact (hqueue _).stopControl
  · exact hqueue _
  · rw [if_pos (.inl h.epoch)]
    exact hqueue _

theorem Given.monitor (h : Given d c) : Given d (c.monitor env) := by
  have hexpire : Given d (c.expire env) := by
    unfold Controller.expire
    split_ifs <;> first | exact h.stopControl | exact h
  unfold Controller.monitor Controller.probe
  split
  · exact (hexpire.send hexpire.epoch (.inr rfl)).congr hexpire.epoch hexpire.pending rfl
  · exact hexpire

theorem Given.step {op : ControllerOp} (h : Given d c) (hheard : c.Heard f) (hf : f + networkTimeoutMax ≤ env.now)
    (hop : ∀ input, op ≠ .enqueue input) (hc : c.step env op = some c') : Given d c' := by
  cases op with
  | enqueue input => exact absurd rfl (hop input)
  | toggle =>
      cases hc
      have htoggle : Given d (c.call env .toggle) := h.call .toggle
      exact htoggle
  | stop => cases hc; exact h.stopControl
  | callback =>
      have hrest : ∀ rest, Given d { c with scheduled := rest } := fun _ => h.congr h.epoch h.pending rfl
      simp only [Controller.step, Controller.callback] at hc
      split at hc
      · cases hc
      · cases hc
        exact (hrest _).activate (hheard.congr (.inl rfl) (.inl rfl) rfl rfl rfl) hf
      · cases hc
        exact (hrest _).sendReset
  | sender => cases hc; exact h.sender
  | monitor => cases hc; exact h.monitor

theorem Given.read {message : Message} (h : Given d c) (hm : ∀ nonce, message ≠ .challenge nonce)
    (hc : c.read env message = some c') : Given d c' := by
  cases message with
  | challenge nonce => exact absurd rfl (hm nonce)
  | ack op epoch seq stamp queueUs injectionUs =>
      cases hc
      unfold readAck
      dsimp only
      split
      · exact h.congr h.epoch h.pending rfl
      · exact h
  | activated epoch =>
      cases hc
      rw [readActivated, if_pos (.inr h.pending)]
      exact h.sendReset
  | paused epoch =>
      cases hc
      split
      · exact h.stopControl
      · exact h
  | _ => cases hc

end Controller

/-! ## Runs -/

namespace Station

variable {f : Time} {env : ControllerEnv} {s s' t u : Station} {action : StationAction}

/-- The clock that an action of the event loop reads. -/
def reading : StationAction → Option Time
  | .handler env _ | .read env _ => some env.now
  | _ => none

/-- An action that reads a challenge reads it by `f`. -/
def SilentAfter (f : Time) (action : StationAction) : Prop :=
  ∀ env nonce, action = .read env (.challenge nonce) → env.now ≤ f

/-- What an action makes of the controller. -/
inductive Drives (c : Controller) : StationAction → Controller → Prop where
  | stays (action : StationAction) : Drives c action c
  | calls (action : StationAction) (clock : Nat → Time) (calls : List PolicyCall) : Drives c action (c.calls clock calls)
  | faulted (action : StationAction) (clock : Nat → Time) (calls : List PolicyCall) :
      Drives c action (c.calls clock calls).stopControl
  | handled (env : ControllerEnv) (op : ControllerOp) (c' : Controller) (hop : ∀ input, op ≠ .enqueue input)
      (hc : c.step env op = some c') : Drives c (.handler env op) c'
  | read (env : ControllerEnv) (message : Message) (c' : Controller) (hm : Relay.outbound message = some message)
      (hc : c.read env message = some c') : Drives c (.read env message) c'
  | connected : Drives c .connect c.connect
  | disconnected : Drives c .disconnect c.disconnect

theorem drives (hs : s.step action = some s') : Drives s.controller action s'.controller := by
  unfold step at hs
  split at hs
  · split at hs <;> cases hs
    unfold key
    split
    · exact .stays _
    · dsimp only
      split
      · exact .faulted ..
      · exact .calls ..
  · split at hs <;> cases hs
    unfold mouse
    split
    · exact .stays _
    · exact .calls ..
  · cases hs
  · cases hs
  · obtain ⟨w, -, rfl⟩ := Option.map_eq_some_iff.mp hs
    exact .stays _
  · cases hs
  · rename_i env op hop
    split at hs
    · obtain ⟨c, hc, rfl⟩ := Option.map_eq_some_iff.mp hs
      exact .handled env op c (fun input he => hop input (he ▸ rfl)) hc
    · cases hs
  · split at hs
    · rename_i hm
      obtain ⟨c, hc, rfl⟩ := Option.map_eq_some_iff.mp hs
      exact .read _ _ c hm hc
    · cases hs
  · cases hs; exact .connected
  · cases hs; exact .disconnected

theorem heard_step (h : s.controller.Heard f) (ha : SilentAfter f action) (hs : s.step action = some s') :
    s'.controller.Heard f := by
  have hdrives := drives hs
  generalize s'.controller = c at hdrives ⊢
  cases hdrives with
  | stays => exact h
  | calls _ clock calls => exact h.calls clock calls
  | faulted _ clock calls => exact (h.calls clock calls).stopControl
  | handled env op _ _ hc => exact h.step hc
  | read env message _ hm hc =>
      refine h.read ?_ hc
      cases message with
      | challenge nonce =>
          refine ⟨?_, ha env nonce rfl⟩
          simp only [Relay.outbound, Option.ite_none_right_eq_some] at hm
          exact hm.1.1.ne'
      | _ => trivial
  | connected => exact h.congr (.inl rfl) (.inl rfl) rfl rfl rfl
  | disconnected => exact ⟨fun he => absurd rfl he, fun hp => absurd rfl hp, fun hl => absurd rfl hl⟩

theorem given_step {d : Controller} (h : Controller.Given d s.controller) (hheard : s.controller.Heard f)
    (ha : SilentAfter f action) (hlate : ∀ now, reading action = some now → f + networkTimeoutMax ≤ now)
    (hs : s.step action = some s') : Controller.Given d s'.controller := by
  have hdrives := drives hs
  generalize s'.controller = c at hdrives ⊢
  cases hdrives with
  | stays => exact h
  | calls _ clock calls => exact h.calls clock calls
  | faulted _ clock calls => exact (h.calls clock calls).stopControl
  | handled env op _ hop hc => exact h.step hheard (hlate env.now rfl) hop hc
  | read env message _ _ hc =>
      refine h.read (fun nonce he => ?_) hc
      have hearly := ha env nonce (he ▸ rfl)
      have := hlate env.now rfl
      have : (0 : Time) < networkTimeoutMax := by norm_num [networkTimeoutMax]
      linarith
  | connected => exact h.congr h.epoch h.pending rfl
  | disconnected => exact h.congr rfl rfl rfl

/-- When no challenge is read after `f`, a pass of `monitor` from `f + 3` on leaves the controller in no epoch, and after
one from `f + 6.3` on, while the clock does not go back, it stays in none, awaits none, and sends only resets and probes,
whatever keys are pressed and whatever the target says. -/
theorem silence_ends_control {before late : List StationAction} (hbefore : run {} before = some s)
    (hpass : s.step (.handler env .monitor) = some t) (hlate : run t late = some u)
    (hsilent : ∀ action ∈ before ++ late, SilentAfter f action)
    (hclock : ∀ action ∈ late, ∀ now, reading action = some now → env.now ≤ now) :
    (f + networkTimeoutMax ≤ env.now → t.controller.epoch = 0) ∧
    (f + Controller.pendingMax ≤ env.now → u.controller.epoch = 0 ∧ u.controller.pendingEpoch = 0 ∧
      ∃ new, sentFrames u.controller.log = sentFrames t.controller.log ++ new ∧
        ∀ frame ∈ new, frame.epoch = 0 ∧ (frame.op = .reset ∨ frame.op = .probe)) := by
  have hheard : s.controller.Heard f :=
    Runs.Before.invariant (I := fun s : Station => s.controller.Heard f) (P := fun _ action => SilentAfter f action)
      (Runs.before_of_forall fun action ha _ => hsilent action (List.mem_append_left _ ha)) (Controller.Heard.start f)
      (fun _ _ _ h ha ht => heard_step h ha ht) hbefore
  have hpassed : s.controller.monitor env = t.controller := by
    simp only [step, Controller.step, Option.map_some, Option.ite_none_right_eq_some] at hpass
    rw [← Option.some.inj hpass.2]
  have hkept : ∀ c : Controller, (c.probe env).epoch = c.epoch ∧ (c.probe env).pendingEpoch = c.pendingEpoch := by
    intro c
    unfold Controller.probe
    split <;> exact ⟨rfl, rfl⟩
  have hepoch : f + networkTimeoutMax ≤ env.now → t.controller.epoch = 0 := fun hf => by
    rw [← hpassed]
    exact (hkept _).1.trans (hheard.expire_epoch hf)
  refine ⟨hepoch, fun hf => ?_⟩
  have hmax : f + networkTimeoutMax ≤ env.now := by
    refine le_trans ?_ hf
    norm_num [Controller.pendingMax, networkTimeoutMax, challengeInterval, maxQueueAge]
  have hpending : t.controller.pendingEpoch = 0 := by
    rw [← hpassed]
    exact (hkept _).2.trans (hheard.expire_pending hf)
  have hmonitor : SilentAfter f (.handler env .monitor) := fun _ _ he => by cases he
  have hgiven : u.controller.Heard f ∧ Controller.Given t.controller u.controller := by
    refine Runs.Before.invariant (I := fun s : Station => s.controller.Heard f ∧ Controller.Given t.controller s.controller)
      (P := fun _ action => action ∈ late) (Runs.before_of_forall fun action ha _ => ha)
      ⟨heard_step hheard hmonitor hpass, .refl (hepoch hmax) hpending⟩ (fun _ a _ h ha hs => ?_) hlate
    have hsilent := hsilent a (List.mem_append_right _ ha)
    exact ⟨heard_step h.1 hsilent hs, given_step h.2 h.1 hsilent (fun now hn => hmax.trans (hclock a ha now hn)) hs⟩
  exact ⟨hgiven.2.epoch, hgiven.2.pending, hgiven.2.frames⟩

/-- An activation after one challenge. -/
def activation : List StationAction :=
  [.connect, .read { now := 0 } (.challenge 7), .handler { now := 0 } .toggle, .handler { now := 0, bits := 5 } .callback,
    .read { now := 1 } (.activated 5)]

/-- Another toggle and a probe, without another challenge. -/
def retry : List StationAction :=
  [.handler { now := 7 } .toggle, .handler { now := 7 } .callback, .handler { now := 7 } .callback,
    .handler { now := 8 } .monitor]

theorem silence_ends_control_retry :
    ∃ s t u, run {} activation = some s ∧ s.step (.handler { now := 7 } .monitor) = some t ∧ run t retry = some u ∧
      s.controller.epoch = 5 ∧ t.controller.epoch = 0 ∧ u.controller.epoch = 0 ∧ u.controller.pendingEpoch = 0 := by
  obtain ⟨s, hs⟩ : ∃ s, run {} activation = some s := Option.isSome_iff_exists.mp (by decide +kernel)
  have hepoch : ((run {} activation).map fun s => s.controller.epoch) = some 5 := by decide +kernel
  have hpass : ((run {} activation).bind fun s => s.step (.handler { now := 7 } .monitor)).isSome = true := by decide +kernel
  have hlate :
      (((run {} activation).bind fun s => s.step (.handler { now := 7 } .monitor)).bind fun t => run t retry).isSome =
      true := by decide +kernel
  rw [hs] at hepoch hpass hlate
  obtain ⟨t, ht⟩ := Option.isSome_iff_exists.mp hpass
  rw [ht] at hlate
  obtain ⟨u, hu⟩ := Option.isSome_iff_exists.mp hlate
  rw [Option.bind_some] at ht hu
  have hsilent : ∀ action ∈ activation ++ retry, SilentAfter 0 action := by
    intro action ha env nonce he
    subst he
    simp only [activation, retry, List.cons_append, List.nil_append, List.mem_cons, List.not_mem_nil, or_false, reduceCtorEq,
      false_or, StationAction.read.injEq, and_false] at ha
    rw [ha.1]
  have hclock : ∀ action ∈ retry, ∀ now, reading action = some now → (7 : Time) ≤ now := by
    intro action ha now hn
    simp only [retry, List.mem_cons, List.not_mem_nil, or_false] at ha
    rcases ha with rfl | rfl | rfl | rfl <;> cases hn <;> norm_num
  obtain ⟨h1, h2⟩ := silence_ends_control (f := 0) hs ht hu hsilent hclock
  have hmax : (0 : Time) + networkTimeoutMax ≤ 7 ∧ (0 : Time) + Controller.pendingMax ≤ 7 := by
    norm_num [Controller.pendingMax, networkTimeoutMax, challengeInterval, maxQueueAge]
  obtain ⟨h3, h4, -⟩ := h2 hmax.2
  exact ⟨s, t, u, hs, ht, hu, Option.some.inj hepoch, h1 hmax.1, h3, h4⟩

end Station

end RemoteInput
