import RemoteInput.Engine.Lemmas.Deadline

/-!
# How one operation changes the active session

An operation ends the session, keeps it, renews its deadline or starts a new one. The last two need a frame whose lease
is young enough.
-/

namespace RemoteInput

namespace TargetEngine

variable {env : Env} {item : Item} {age : Time} {s t u : TargetEngine}

/-! ## The four outcomes -/

/-- What processing `event` does to the session. -/
inductive SessionCase (env : Env) (event : Event) (s t : TargetEngine) : Prop where
  | ended (he : t.epoch = 0) (hl : t.lastEpoch = s.lastEpoch)
  | kept (he : t.epoch = s.epoch) (hl : t.lastEpoch = s.lastEpoch) (hh : t.lastHeartbeat = s.lastHeartbeat)
  | renewed (hop : event.op = .heartbeat) (hep : event.epoch = s.epoch) (he : t.epoch = s.epoch)
      (hl : t.lastEpoch = s.lastEpoch) (hh : t.lastHeartbeat = env.now) (issued : Time)
      (hi : s.leases event.lease = some issued) (hlt : env.now - issued < s.network.timeout)
      (hnew : s.lastEchoIssued < issued)
  | activated (hop : event.op = .activate) (h0 : event.epoch ≠ 0) (hne : event.epoch ≠ s.lastEpoch)
      (he : t.epoch = event.epoch) (hl : t.lastEpoch = event.epoch) (hseq : t.seq = event.seq)
      (hh : t.lastHeartbeat = env.now)
      (hv : s.validLease event.lease env.now s.network.inputTimeout) (hout : .emit (.activated event.epoch) ∈ t.out)

/-- A heartbeat counts only if its challenge is newer than the last one that counted. -/
theorem observeHeartbeat_cases {event : Event} (now : Time) {issued : Time}
    (hi : s.leases event.lease = some issued) :
    issued ≤ s.lastEchoIssued ∧ s.observeHeartbeat event now = s ∨
    s.lastEchoIssued < issued ∧ s.observeHeartbeat event now =
      { s with lastEchoIssued := issued, network := (s.network.observe (now - issued)).1,
               lastHeartbeat := if s.epoch ≠ 0 then now else s.lastHeartbeat } := by
  unfold observeHeartbeat
  rw [hi]
  by_cases h : issued ≤ s.lastEchoIssued
  · exact .inl ⟨h, if_pos h⟩
  · exact .inr ⟨not_le.mp h, if_neg h⟩

theorem SessionCase.ended_of_reset {event : Event} (reason : String) (hl : t.lastEpoch = s.lastEpoch) :
    SessionCase env event s (t.reset env reason) := .ended (by simp) (by simpa using hl)

theorem sessionCase_rejectStale (event : Event) (limit : Time) :
    SessionCase env event s (s.rejectStale env event limit) := by
  unfold rejectStale
  dsimp only
  split
  · split <;> exact .ended (by simp [emit, status]) (by simp [emit, status])
  · exact .ended_of_reset _ rfl

theorem sessionCase_activate {event : Event} (hop : event.op = .activate)
    (hv : s.validLease event.lease env.now s.network.inputTimeout) :
    SessionCase env event s (s.activate env event).1 := by
  unfold activate
  split
  · exact .kept rfl rfl rfl
  rename_i h
  push Not at h
  split
  · exact .kept rfl rfl rfl
  · exact .activated hop h.1 h.2.1 rfl rfl rfl rfl hv (by simp [emit, status])

theorem acknowledge_session (env : Env) (event : Event) (age : Time) (s : TargetEngine) :
    ((s.acknowledge env event age).epoch = 0 ∨ (s.acknowledge env event age).epoch = s.epoch) ∧
    (s.acknowledge env event age).lastEpoch = s.lastEpoch ∧
    (s.acknowledge env event age).lastHeartbeat = s.lastHeartbeat := by
  unfold acknowledge
  dsimp only
  split <;> split <;> simp [emit]

theorem InjectCase.session {r : Injected} (h : InjectCase env item s r) :
    ∀ t, r = .ok t ∨ r = .raised t ∨ r = .refused t →
      (t.epoch = 0 ∨ t.epoch = s.epoch) ∧ t.lastEpoch = s.lastEpoch ∧ t.lastHeartbeat = s.lastHeartbeat := by
  intro t ht
  cases h with
  | refused => rcases ht with ht | ht | ht <;> cases ht; simp
  | nothing => rcases ht with ht | ht | ht <;> cases ht; exact ⟨.inr rfl, rfl, rfl⟩
  | _ o =>
      rw [← or_assoc] at ht
      rcases ht with ht | ht
      · rcases ending_cases ht with rfl | rfl <;> exact ⟨.inr rfl, rfl, rfl⟩
      · exact absurd ht ending_ne_refused

theorem sessionCase_of_same {event : Event} (h : (t.epoch = 0 ∨ t.epoch = s.epoch) ∧ t.lastEpoch = s.lastEpoch ∧
    t.lastHeartbeat = s.lastHeartbeat) : SessionCase env event s t := by
  rcases h with ⟨he | he, hl, hh⟩
  · exact .ended he hl
  · exact .kept he hl hh

theorem sessionCase_inputFrame (hep : item.event.epoch = s.epoch) (he : s.epoch ≠ 0)
    (hv : s.validLease item.event.lease env.now (s.tokenLimit item.event)) :
    SessionCase env item.event s (s.inputFrame env item age).1 := by
  have hc := inputFrame_cases env item age s
  generalize s.inputFrame env item age = r at hc
  cases hc with
  | silent reason => exact .ended_of_reset reason rfl
  | heartbeat hop =>
      obtain ⟨issued, hi, _, hlt⟩ := hv
      have hi : s.leases item.event.lease = some issued := hi
      have hlimit : s.tokenLimit item.event = s.network.timeout := by simp [tokenLimit, hop, he]
      rw [hlimit] at hlt
      rcases observeHeartbeat_cases (s := s.withSeq item.event.seq) env.now hi with ⟨_, ho⟩ | ⟨hnew, ho⟩
      · rw [ho]; exact .kept rfl rfl rfl
      · rw [ho]; exact .renewed hop hep rfl rfl (by simp [he]) issued hi hlt hnew
  | raised t _ h => exact sessionCase_of_same (h.session t (.inr (.inl rfl)))
  | refused t _ h => exact sessionCase_of_same (h.session t (.inr (.inr rfl)))
  | ok t _ h =>
      obtain ⟨h1, h2, h3⟩ := h.session t (.inl rfl)
      obtain ⟨h1', h2', h3'⟩ := acknowledge_session env item.event age t
      refine sessionCase_of_same ⟨?_, h2'.trans h2, h3'.trans h3⟩
      rcases h1' with h1' | h1'
      · exact .inl h1'
      · rw [h1']; exact h1

theorem BodyCase.session {r : TargetEngine × Bool} (h : BodyCase env item age s r) :
    SessionCase env item.event s r.1 := by
  cases h with
  | idle => exact .kept rfl rfl rfl
  | stale => exact sessionCase_rejectStale _ _
  | activate _ _ hop hv => exact sessionCase_activate hop hv
  | probe => exact .kept rfl rfl rfl
  | calibrate _ he =>
      unfold observeHeartbeat
      split
      · exact .kept rfl rfl rfl
      · split
        · exact .kept rfl rfl rfl
        · exact .kept rfl rfl (by simp [he])
  | input _ _ _ he hep _ hv => exact sessionCase_inputFrame hep he hv

/-- An `ACTIVATE` raises only in `permitted()`, before anything has changed. -/
theorem activate_raised {event : Event} (h : (s.activate env event).2 = true) : (s.activate env event).1 = s := by
  unfold activate at h ⊢
  split
  · rename_i hc; rw [if_pos hc] at h; cases h
  · rename_i hc
    rw [if_neg hc] at h
    split
    · rfl
    · rename_i hp; rw [if_neg hp] at h; cases h

/-- The epoch remembered from the last activation survives an exception. -/
theorem BodyCase.lastEpoch_of_raised {r : TargetEngine × Bool} (h : BodyCase env item age s r) (hr : r.2 = true) :
    r.1.lastEpoch = s.lastEpoch := by
  have hs := h.session
  cases h with
  | activate => rw [activate_raised hr]
  | input _ _ hopa =>
      cases hs with
      | ended _ hl => exact hl
      | kept _ hl _ => exact hl
      | renewed _ _ _ hl => exact hl
      | activated hop => exact absurd hop hopa
  | _ => cases hr

theorem processItem_session (env : Env) (item : Item) (age : Time) (s : TargetEngine) :
    SessionCase env item.event s (s.processItem env item age).1 := by
  rcases processItem_cases env item age s with ⟨t, ht, he⟩ | ⟨t, ht, he⟩
  · rw [he]; exact ht.session
  · rw [he]; exact .ended_of_reset _ (ht.lastEpoch_of_raised rfl)

/-! ## Operations -/

/-- What one operation of a run does to the session. -/
inductive StepSession (s : TargetEngine) (op : EngineOp) (t : TargetEngine) : Prop where
  | ended (he : t.epoch = 0) (hl : t.lastEpoch = s.lastEpoch)
  | kept (he : t.epoch = s.epoch) (hl : t.lastEpoch = s.lastEpoch) (hh : t.lastHeartbeat = s.lastHeartbeat)
      (htick : ∀ env bits, op = .tick env bits → s.epoch ≠ 0 → env.now - s.lastHeartbeat < s.network.timeout)
  | frame (env : Env) (item : Item) (hop : op = .processOne env) (hp : s.popped env = some item)
      (h : SessionCase env item.event s t)

theorem tick_session (env : Env) (bits : Nat) (s : TargetEngine) :
    ((s.tick env bits).1.epoch = 0 ∧ (s.tick env bits).1.lastEpoch = s.lastEpoch) ∨
    ((s.tick env bits).1.epoch = s.epoch ∧ (s.tick env bits).1.lastEpoch = s.lastEpoch ∧
      (s.tick env bits).1.lastHeartbeat = s.lastHeartbeat ∧
      (s.epoch ≠ 0 → env.now - s.lastHeartbeat < s.network.timeout)) := by
  unfold tick
  dsimp only
  generalize hu : (s.pruneLeases env.now).issueChallenge env.now bits = u
  have hsame : u.epoch = s.epoch ∧ u.lastEpoch = s.lastEpoch ∧ u.lastHeartbeat = s.lastHeartbeat ∧
      u.network = s.network := by
    rw [← hu]; unfold issueChallenge; split <;> exact ⟨rfl, rfl, rfl, rfl⟩
  obtain ⟨he, hl, hh, hn⟩ := hsame
  -- the checks after the heartbeat check only reset
  refine checkPermission_induction (P := fun v => (v.epoch = 0 ∧ v.lastEpoch = s.lastEpoch) ∨
    (v.epoch = s.epoch ∧ v.lastEpoch = s.lastEpoch ∧ v.lastHeartbeat = s.lastHeartbeat ∧
      (s.epoch ≠ 0 → env.now - s.lastHeartbeat < s.network.timeout))) ?_ ?_
  · rintro v reason (⟨_, hv⟩ | ⟨_, hv, _⟩) <;> exact .inl ⟨by simp, by simpa using hv⟩
  · rcases heartbeatExpired_cases env u with ⟨_, reason, hr⟩ | ⟨hs, hr⟩
    · rw [hr]; exact .inl ⟨by simp, by simpa using hl⟩
    · rw [hr]
      refine .inr ⟨he, hl, hh, fun h0 => ?_⟩
      rw [silent, he, hh, hn] at hs
      exact not_le.mp fun hle => hs ⟨h0, hle⟩

theorem SessionCase.congr {event : Event} {s' : TargetEngine} (h : SessionCase env event s t) (he : s'.epoch = s.epoch)
    (hle : s'.lastEpoch = s.lastEpoch) (hlh : s'.lastHeartbeat = s.lastHeartbeat) (hls : s'.leases = s.leases)
    (hn : s'.network = s.network) (hei : s'.lastEchoIssued = s.lastEchoIssued) : SessionCase env event s' t := by
  cases h with
  | ended h1 h2 => exact .ended h1 (h2.trans hle.symm)
  | kept h1 h2 h3 => exact .kept (h1.trans he.symm) (h2.trans hle.symm) (h3.trans hlh.symm)
  | renewed h1 h2 h3 h4 h5 issued h6 h7 h8 =>
      exact .renewed h1 (h2.trans he.symm) (h3.trans he.symm) (h4.trans hle.symm) h5 issued (hls ▸ h6)
        (hn ▸ h7) (hei ▸ h8)
  | activated h1 h2 h3 h4 h5 h6 h7 h8 h9 =>
      refine .activated h1 h2 (hle ▸ h3) h4 h5 h6 h7 ?_ h9
      unfold validLease at h8 ⊢
      rw [hls, hn]; exact h8

theorem step_session (s : TargetEngine) (op : EngineOp) : StepSession s op (s.step op) := by
  cases op with
  | receive env event =>
      simp only [step, receive]
      split
      · exact .ended (by simp) (by simp)
      · split
        · exact .kept rfl rfl rfl (by simp)
        · exact .ended (by simp) (by simp)
  | processOne env =>
      simp only [step]
      have hc := processOne_cases env { s with out := [] }
      generalize ({ s with out := [] } : TargetEngine).processOne env = r at hc
      cases hc with
      | overload => exact .ended (by simp) (by simp)
      | empty => exact .kept rfl rfl rfl (by simp)
      | item queue item age h =>
          exact .frame env item rfl (popped_eq h)
            ((processItem_session env item age _).congr rfl rfl rfl rfl rfl rfl)
  | tick env bits =>
      rcases tick_session env bits { s with out := [] } with ⟨he, hl⟩ | ⟨he, hl, hh, ht⟩
      · exact .ended he hl
      · refine .kept he hl hh ?_
        rintro env' bits' heq
        cases heq; exact ht
  | reset env reason => exact .ended (by simp [step]) (by simp [step])
  | peerChanged env => exact .ended (by simp [step, peerChanged]) (by simp [step, peerChanged])
  | setConnected env value => exact .ended (by simp [step, setConnected]) (by simp [step, setConnected])

/-- The active epoch is the last one activated. -/
theorem lastEpoch_eq (ops : List EngineOp) :
    (initial.exec ops).epoch ≠ 0 → (initial.exec ops).lastEpoch = (initial.exec ops).epoch := by
  refine exec_induction (P := fun s => s.epoch ≠ 0 → s.lastEpoch = s.epoch) ?_ (fun h => absurd rfl h) ops
  intro s op h
  cases step_session s op with
  | ended he => exact fun h0 => absurd he h0
  | kept he hl => rw [he, hl]; exact h
  | frame env item _ _ hf =>
      cases hf with
      | ended he => exact fun h0 => absurd he h0
      | kept he hl => rw [he, hl]; exact h
      | renewed _ _ he hl => rw [he, hl]; exact h
      | activated _ _ _ he hl => rw [he, hl]; exact fun _ => rfl

end TargetEngine

end RemoteInput
