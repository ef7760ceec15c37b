import RemoteInput.Engine.Lemmas.Session

/-!
# What one frame injects

The calls made for frames, apart from the releases made by `reset`, are `injected`. One frame is ignored, ends the
session, starts one, or is accepted by the active one; only an accepted frame injects, and what it injects is a function
of the frame and of what is held.
-/

namespace RemoteInput

/-! ## Calls made for frames -/

/-- The calls made for frames, each with the frames it stands for. -/
def injected (history : List Out) : List (Call × List Event) :=
  history.filterMap fun
    | .call c _ (p :: ps) => some (c, p :: ps)
    | _ => none

@[simp] theorem injected_nil : injected [] = [] := rfl

@[simp] theorem injected_append (l l' : List Out) : injected (l ++ l') = injected l ++ injected l' :=
  List.filterMap_append

@[simp] theorem injected_emit (m : Message) : injected [.emit m] = [] := rfl

@[simp] theorem injected_status (reason : String) : injected [.status reason] = [] := rfl

theorem injected_call {c : Call} {outcome : Outcome} {parts : List Event} (h : parts ≠ []) :
    injected [.call c outcome parts] = [(c, parts)] := by
  cases parts with
  | nil => exact absurd rfl h
  | cons p ps => rfl

/-! ## What an accepted frame injects -/

/-- What the target holds down. -/
structure Held where
  keys : PySet Int := ∅
  buttons : PySet Int := ∅

/-- The call that an input event makes and what is held after it: a release of something that is not held makes no
call. -/
def Held.inject (h : Held) (event : Event) : Option Call × Held :=
  match event.op with
  | .key =>
      if event.b ≠ 0 then (some (.key event.a true), { h with keys := h.keys.add event.a })
      else if event.a ∈ h.keys then (some (.key event.a false), { h with keys := h.keys.discard event.a })
      else (none, h)
  | .button =>
      if event.b ≠ 0 then (some (.button event.a true), { h with buttons := h.buttons.add event.a })
      else if event.a ∈ h.buttons then (some (.button event.a false), { h with buttons := h.buttons.discard event.a })
      else (none, h)
  | .move => (some (.move event.a event.b), h)
  | .scroll => (some (.scroll event.a event.b), h)
  | _ => (none, h)

theorem Held.inject_of_not_input {h : Held} {event : Event} (hop : event.op.isInput = false) :
    h.inject event = (none, h) := by
  unfold inject
  cases h' : event.op <;> simp_all [Op.isInput]

namespace TargetEngine

variable {env : Env} {item : Item} {age : Time} {s t : TargetEngine}

/-- What the engine tracks. -/
def held (s : TargetEngine) : Held := ⟨s.keys, s.buttons⟩

@[simp] theorem injected_reset (env : Env) (reason : String) (s : TargetEngine) :
    injected (s.reset env reason).out = injected s.out := by
  obtain ⟨f, g, hout, _⟩ := s.reset_spec env reason
  have hrelease : ∀ call outcome xs, injected (releaseCalls call outcome xs) = [] := by
    intro call outcome xs
    induction xs with
    | nil => rfl
    | cons x xs ih => exact ih
  have hreport : injected (s.resetReport reason) = [] := by
    unfold resetReport; split <;> rfl
  simp [hout, hrelease, hreport]

@[simp] theorem injected_emit_out (m : Message) : injected (s.emit m).out = injected s.out := by simp [emit]

@[simp] theorem injected_status_out (reason : String) : injected (s.status reason).out = injected s.out := by
  simp [status]

/-! ## The four outcomes of one frame -/

/-- `event` is an `ACTIVATE` that passes every check of `process_one`. -/
def activates (env : Env) (event : Event) (s : TargetEngine) : Prop :=
  event.op = .activate ∧ s.blocked = false ∧ s.connected = true ∧
    s.validLease event.lease env.now s.network.inputTimeout ∧
    event.epoch ≠ 0 ∧ event.epoch ≠ s.lastEpoch ∧ env.permitted = some true

instance (env : Env) (event : Event) (s : TargetEngine) : Decidable (s.activates env event) :=
  inferInstanceAs (Decidable (_ ∧ _))

/-- An `ACTIVATE` with a valid token that does not activate is answered, or `permitted()` raised. -/
theorem activate_cases {event : Event} (hb : s.blocked = false) (hc : s.connected = true) (hop : event.op = .activate)
    (hv : s.validLease event.lease env.now s.network.inputTimeout) (ha : ¬ s.activates env event) :
    s.activate env event = (s.emit (.paused event.epoch), false) ∨ s.activate env event = (s, true) := by
  unfold TargetEngine.activate
  split
  · exact .inl rfl
  rename_i hguard
  push Not at hguard
  split
  · exact .inr rfl
  rename_i hp
  refine absurd ⟨hop, hb, hc, hv, hguard.1, hguard.2.1, ?_⟩ ha
  cases hpe : env.permitted with
  | none => exact absurd hpe hp
  | some b =>
      cases b with
      | true => rfl
      | false => exact absurd hpe hguard.2.2

/-- An `ACTIVATE` that passes every check starts its epoch after a reset. -/
theorem processItem_activates (age : Time) (ha : s.activates env item.event) :
    (s.processItem env item age).1.epoch = item.event.epoch ∧
      (s.processItem env item age).1.keys = (s.reset env "Paused").keys ∧
      (s.processItem env item age).1.buttons = (s.reset env "Paused").buttons ∧
      (s.processItem env item age).1.blocked = (s.reset env "Paused").blocked ∧
      (s.processItem env item age).1.out =
        (s.reset env "Paused").out ++ [.emit (.activated item.event.epoch), .status "Controlling"] := by
  obtain ⟨hop, hb, hc, hv, h0, hl, hp⟩ := ha
  have hi : ¬ s.ignores item.event := fun h => h.1 hop
  have hv' : s.validLease item.event.lease env.now (s.tokenLimit item.event) := by rw [tokenLimit_activate hop]; exact hv
  have hbody : s.lockedBody env item age = s.activate env item.event := by
    simp only [lockedBody, hb, hc, hi, hop, hv']
    simp
  have hact : s.activate env item.event = ((({ s.reset env "Paused" with
      epoch := item.event.epoch, lastEpoch := item.event.epoch, seq := item.event.seq,
      lastHeartbeat := env.now }).emit (.activated item.event.epoch)).status "Controlling", false) := by
    unfold activate
    rw [if_neg (by simp [h0, hl, hp]), if_neg (by simp [hp])]
  unfold processItem
  rw [hbody, hact]
  exact ⟨rfl, rfl, rfl, rfl, by simp [emit, status]⟩

/-- `event` belongs to the active session and is newer than everything it has accepted. -/
def fresh (event : Event) (s : TargetEngine) : Prop :=
  event.op ≠ .activate ∧ s.blocked = false ∧ s.connected = true ∧ s.epoch ≠ 0 ∧ event.epoch = s.epoch ∧
    s.seq < event.seq

/-- What the frame `item` did, from `s` to `t`. -/
inductive FrameCase (env : Env) (item : Item) (s t : TargetEngine) : Prop where
  | ignored (hold : ¬ s.fresh item.event) (he : t.epoch = s.epoch) (hl : t.lastEpoch = s.lastEpoch)
      (hseq : t.seq = s.seq) (hheld : t.held = s.held) (hin : injected t.out = injected s.out)
  | ended (he : t.epoch = 0) (hl : t.lastEpoch = s.lastEpoch) (hin : injected t.out = injected s.out)
  | activated (h : s.activates env item.event) (he : t.epoch = item.event.epoch)
      (hl : t.lastEpoch = item.event.epoch) (hseq : t.seq = item.event.seq)
      (hheld : t.blocked = false → t.held = {}) (hin : injected t.out = injected s.out)
  | accepted (h : s.fresh item.event) (hl : t.lastEpoch = s.lastEpoch)
      (hin : injected t.out = injected s.out ++
        (s.held.inject item.event).1.toList.map (fun c => (c, item.parts)))
      (he : t.epoch = 0 ∨
        t.epoch = s.epoch ∧ t.seq = item.event.seq ∧ t.held = (s.held.inject item.event).2)

theorem rejectStale_frame (env : Env) (event : Event) (limit : Time) (s : TargetEngine) :
    (s.rejectStale env event limit).epoch = 0 ∧ (s.rejectStale env event limit).lastEpoch = s.lastEpoch ∧
      injected (s.rejectStale env event limit).out = injected s.out := by
  unfold rejectStale
  dsimp only
  split
  · split
    · exact ⟨by simp [emit, status], by simp [emit, status],
        by simp only [injected_emit_out, injected_status_out, injected_reset]⟩
    · exact ⟨by simp [emit], by simp [emit], by simp⟩
  · simp

theorem observeHeartbeat_frame (event : Event) (now : Time) :
    (s.observeHeartbeat event now).epoch = s.epoch ∧ (s.observeHeartbeat event now).lastEpoch = s.lastEpoch ∧
      (s.observeHeartbeat event now).seq = s.seq ∧ (s.observeHeartbeat event now).held = s.held ∧
      (s.observeHeartbeat event now).out = s.out := by
  unfold observeHeartbeat
  split
  · simp
  · split
    · simp
    · exact ⟨rfl, rfl, rfl, rfl, rfl⟩

theorem acknowledge_frame (env : Env) (event : Event) (age : Time) (t : TargetEngine) :
    injected (t.acknowledge env event age).out = injected t.out ∧
      (t.acknowledge env event age).lastEpoch = t.lastEpoch ∧
      ((t.acknowledge env event age).epoch = 0 ∨
        (t.acknowledge env event age).epoch = t.epoch ∧ (t.acknowledge env event age).seq = t.seq ∧
          (t.acknowledge env event age).held = t.held) := by
  unfold acknowledge
  dsimp only
  split
  · split
    · exact ⟨by simp, by simp [emit], .inl (by simp [emit])⟩
    · exact ⟨by simp, rfl, .inr ⟨rfl, rfl, rfl⟩⟩
  · split
    · exact ⟨by simp, by simp, .inl (by simp)⟩
    · exact ⟨rfl, rfl, .inr ⟨rfl, rfl, rfl⟩⟩

/-- What the dispatch on the opcode did, from `s` to `r`. -/
structure InjectFrame (item : Item) (s : TargetEngine) (r : Injected) : Prop where
  calls : ∀ t, r = .ok t ∨ r = .raised t → t.lastEpoch = s.lastEpoch ∧
    injected t.out = injected s.out ++ (s.held.inject item.event).1.toList.map (fun c => (c, item.parts))
  ok : ∀ t, r = .ok t → t.epoch = s.epoch ∧ t.seq = s.seq ∧ t.held = (s.held.inject item.event).2
  refused : ∀ t, r = .refused t → t.epoch = 0 ∧ t.lastEpoch = s.lastEpoch ∧ injected t.out = injected s.out

theorem injectFrame_ending {c : Call} (held : Held) (hi : s.held.inject item.event = (some c, held)) {o : Outcome}
    {t u : TargetEngine} (hp : item.parts ≠ [])
    (ht : t.lastEpoch = s.lastEpoch ∧ t.out = s.out ++ [.call c o item.parts])
    (hu : u.lastEpoch = s.lastEpoch ∧ u.out = s.out ++ [.call c o item.parts] ∧
      u.epoch = s.epoch ∧ u.seq = s.seq ∧ u.held = held) : InjectFrame item s (ending o t u) := by
  constructor
  · intro v hv
    rcases ending_cases hv with rfl | rfl
    · exact ⟨ht.1, by simp [ht.2, hi, injected_call hp]⟩
    · exact ⟨hu.1, by simp [hu.2.1, hi, injected_call hp]⟩
  · intro v hv
    unfold ending at hv
    split at hv
    · cases hv
    · cases hv; rw [hi]; exact hu.2.2
  · intro v hv
    exact absurd hv ending_ne_refused

/-- The calls of the dispatch are those of `Held.inject`, unless the key is refused. -/
theorem InjectCase.frame {r : Injected} (h : InjectCase env item s r) (hp : item.parts ≠ []) :
    InjectFrame item s r := by
  cases h with
  | refused =>
      refine ⟨by simp, by simp, ?_⟩
      rintro t ⟨⟩
      simp
  | pressKey hop hb o =>
      refine injectFrame_ending ⟨s.keys.add item.event.a, s.buttons⟩ ?_ hp ⟨rfl, rfl⟩ ⟨rfl, rfl, rfl, rfl, rfl⟩
      simp [Held.inject, hop, hb, held]
  | releaseKey hop hb hk o =>
      refine injectFrame_ending ⟨s.keys.discard item.event.a, s.buttons⟩ ?_ hp ⟨rfl, rfl⟩
        ⟨rfl, rfl, rfl, rfl, rfl⟩
      simp [Held.inject, hop, hb, hk, held]
  | pressButton hop hb o =>
      refine injectFrame_ending ⟨s.keys, s.buttons.add item.event.a⟩ ?_ hp ⟨rfl, rfl⟩ ⟨rfl, rfl, rfl, rfl, rfl⟩
      simp [Held.inject, hop, hb, held]
  | releaseButton hop hb hk o =>
      refine injectFrame_ending ⟨s.keys, s.buttons.discard item.event.a⟩ ?_ hp ⟨rfl, rfl⟩
        ⟨rfl, rfl, rfl, rfl, rfl⟩
      simp [Held.inject, hop, hb, hk, held]
  | move hop o =>
      refine injectFrame_ending s.held ?_ hp ⟨rfl, rfl⟩ ⟨rfl, rfl, rfl, rfl, rfl⟩
      simp [Held.inject, hop]
  | scroll hop o =>
      refine injectFrame_ending s.held ?_ hp ⟨rfl, rfl⟩ ⟨rfl, rfl, rfl, rfl, rfl⟩
      simp [Held.inject, hop]
  | nothing h =>
      have hi : s.held.inject item.event = (none, s.held) := by
        rcases h with h | ⟨hb, ⟨hop, hk⟩ | ⟨hop, hk⟩⟩
        · exact Held.inject_of_not_input h
        · simp [Held.inject, hop, hb, hk, held]
        · simp [Held.inject, hop, hb, hk, held]
      refine ⟨?_, ?_, by simp⟩
      · rintro t (ht | ht) <;> cases ht
        simp [hi]
      · rintro t ⟨⟩
        simp [hi]

/-- A reset on top ends what the frame did. -/
theorem FrameCase.reset (h : FrameCase env item s t) (hl : t.lastEpoch = s.lastEpoch) (reason : String) :
    FrameCase env item s (t.reset env reason) := by
  cases h with
  | ignored _ _ _ _ _ hin => exact .ended (by simp) (by simpa using hl) (by simpa using hin)
  | ended _ _ hin => exact .ended (by simp) (by simpa using hl) (by simpa using hin)
  | activated h _ hle => exact absurd (hle.symm.trans hl) h.2.2.2.2.2.1
  | accepted h _ hin _ => exact .accepted h (by simpa using hl) (by simpa using hin) (.inl (by simp))

theorem frameCase_activate (hb : s.blocked = false) (hc : s.connected = true) (hop : item.event.op = .activate)
    (hv : s.validLease item.event.lease env.now s.network.inputTimeout) :
    FrameCase env item s (s.activate env item.event).1 := by
  have hold : ¬ s.fresh item.event := fun h => h.1 hop
  unfold activate
  split
  · exact .ignored hold rfl rfl rfl rfl (by simp)
  rename_i h
  push Not at h
  split
  · exact .ignored hold rfl rfl rfl rfl rfl
  rename_i hp
  have hp : env.permitted = some true := by
    rcases hperm : env.permitted with _ | _ | _
    · exact absurd hperm hp
    · exact absurd hperm h.2.2
    · rfl
  refine .activated ⟨hop, hb, hc, hv, h.1, h.2.1, hp⟩ rfl rfl rfl ?_ (by simp)
  intro hbl
  obtain ⟨hk, hbt⟩ := s.reset_released env "Paused" hbl
  exact congrArg₂ Held.mk hk hbt

theorem not_fresh_of_ignores (h : s.blocked = true ∨ s.connected = false ∨ s.ignores item.event) :
    ¬ s.fresh item.event := by
  rintro ⟨_, hb, hc, he, hep, hseq⟩
  rcases h with h | h | ⟨_, h⟩
  · rw [hb] at h; cases h
  · rw [hc] at h; cases h
  · rw [if_neg (fun h0 => he (hep.symm.trans h0.2))] at h
    rcases h with h | h | h
    · exact h hep
    · exact he h
    · omega

/-- The outcome of the locked section for `item`, where the handler of `process_one` resets on an exception. -/
def HandledFrame (env : Env) (item : Item) (s : TargetEngine) (r : TargetEngine × Bool) : Prop :=
  (r.2 = false → FrameCase env item s r.1) ∧ (r.2 = true → ∀ reason, FrameCase env item s (r.1.reset env reason))

theorem InputCase.frame {r : TargetEngine × Bool} (hc : InputCase env item age s r) (hf : s.fresh item.event)
    (hp : item.parts ≠ []) : HandledFrame env item s r := by
  cases hc with
  | silent reason => exact ⟨fun _ => .ended (by simp) (by simp) (by simp), by simp⟩
  | heartbeat hop =>
      obtain ⟨he, hl, hseq, hheld, hout⟩ :=
        observeHeartbeat_frame (s := s.withSeq item.event.seq) item.event env.now
      have hi : s.held.inject item.event = (none, s.held) := Held.inject_of_not_input (by simp [hop, Op.isInput])
      refine ⟨fun _ => .accepted hf hl (by simp [hout, hi]) (.inr ⟨he, hseq, ?_⟩), by simp⟩
      rw [hi]; exact hheld
  | raised t _ hi =>
      obtain ⟨hl, hin⟩ := (hi.frame hp).calls t (.inr rfl)
      refine ⟨by simp, fun _ reason => ?_⟩
      exact .accepted hf (by simpa using hl) (by rw [injected_reset]; exact hin) (.inl (by simp))
  | refused t _ hi =>
      obtain ⟨he, hl, hin⟩ := (hi.frame hp).refused t rfl
      exact ⟨fun _ => .ended he hl hin, by simp⟩
  | ok t _ hi =>
      obtain ⟨hl, hin⟩ := (hi.frame hp).calls t (.inl rfl)
      obtain ⟨he, hseq, hheld⟩ := (hi.frame hp).ok t rfl
      obtain ⟨hin', hl', hkeep⟩ := acknowledge_frame env item.event age t
      refine ⟨fun _ => .accepted hf (hl'.trans hl) (hin'.trans hin) ?_, by simp⟩
      rcases hkeep with h0 | ⟨he', hseq', hheld'⟩
      · exact .inl h0
      · exact .inr ⟨he'.trans he, hseq'.trans hseq, hheld'.trans hheld⟩

theorem BodyCase.frame {r : TargetEngine × Bool} (hc : BodyCase env item age s r) (hp : item.parts ≠ []) :
    HandledFrame env item s r := by
  have hhandled : ∀ r, FrameCase env item s r.1 → (r.2 = true → r.1.lastEpoch = s.lastEpoch) →
      HandledFrame env item s r := fun r h hl => ⟨fun _ => h, fun hr reason => h.reset (hl hr) reason⟩
  have hlast := hc.lastEpoch_of_raised
  cases hc with
  | idle h => exact hhandled _ (.ignored (not_fresh_of_ignores h) rfl rfl rfl rfl rfl) hlast
  | stale =>
      obtain ⟨he, hl, hin⟩ := rejectStale_frame env item.event (s.tokenLimit item.event) s
      exact hhandled _ (.ended he hl hin) hlast
  | activate hb hcon hop hv => exact hhandled _ (frameCase_activate hb hcon hop hv) hlast
  | probe _ he => exact hhandled _ (.ignored (fun h => h.2.2.2.1 he) rfl rfl rfl rfl (by simp)) hlast
  | calibrate _ he =>
      obtain ⟨he', hl, hseq, hheld, hout⟩ := observeHeartbeat_frame (s := s) item.event env.now
      exact hhandled _ (.ignored (fun h => h.2.2.2.1 he) he' hl hseq hheld (by rw [hout])) hlast
  | input hb hcon hop he hep hseq =>
      exact (inputFrame_cases env item age s).frame ⟨hop, hb, hcon, he, hep, hseq⟩ hp

/-- What `process_one` did with `item` is one of the four outcomes. -/
theorem processItem_frame (env : Env) (item : Item) (age : Time) (s : TargetEngine) (hp : item.parts ≠ []) :
    FrameCase env item s (s.processItem env item age).1 := by
  rcases processItem_cases env item age s with ⟨t, ht, he⟩ | ⟨t, ht, he⟩
  · rw [he]; exact (ht.frame hp).1 rfl
  · rw [he]; exact (ht.frame hp).2 rfl _

end TargetEngine

end RemoteInput
