import RemoteInput.Engine.Lemmas.Runs

/-!
# Leases and the heartbeat deadline

A lease enters the table when `tick` issues it. The deadline of an active epoch moves only when a frame with a lease
young enough is processed. Both are stated once for `step`; the bound on a hold follows by induction on the run.
-/

namespace RemoteInput

namespace TargetEngine

variable {env : Env} {item : Item} {age : Time} {s : TargetEngine}

/-! ## What frames never touch -/

/-- The fields that no frame and no reset changes, and the queue, which they at most clear. -/
structure Keeps (s t : TargetEngine) : Prop where
  leases : t.leases = s.leases
  lastChallenge : t.lastChallenge = s.lastChallenge
  connected : t.connected = s.connected
  queue : t.queue = s.queue ∨ t.queue = s.queue.clear

theorem Keeps.refl (s : TargetEngine) : s.Keeps s := ⟨rfl, rfl, rfl, .inl rfl⟩

theorem Keeps.trans {s t u : TargetEngine} (h : s.Keeps t) (h' : t.Keeps u) : s.Keeps u := by
  refine ⟨h'.leases.trans h.leases, h'.lastChallenge.trans h.lastChallenge, h'.connected.trans h.connected, ?_⟩
  rcases h.queue with hq | hq <;> rcases h'.queue with hq' | hq' <;> simp [hq, hq', InputQueue.clear]

theorem keeps_reset (reason : String) : s.Keeps (s.reset env reason) := ⟨by simp, by simp, by simp, .inr (by simp)⟩

theorem keeps_emit (m : Message) : s.Keeps (s.emit m) := ⟨rfl, rfl, rfl, .inl rfl⟩

theorem keeps_status (reason : String) : s.Keeps (s.status reason) := ⟨rfl, rfl, rfl, .inl rfl⟩

theorem keeps_observeHeartbeat (event : Event) (now : Time) : s.Keeps (s.observeHeartbeat event now) := by
  unfold observeHeartbeat; split
  · exact .refl s
  · split
    · exact .refl s
    · exact ⟨rfl, rfl, rfl, .inl rfl⟩

theorem keeps_rejectStale (event : Event) (limit : Time) : s.Keeps (s.rejectStale env event limit) := by
  unfold rejectStale
  dsimp only
  split
  · split
    · exact ((keeps_reset _).trans (keeps_emit _)).trans (keeps_status _)
    · exact (keeps_reset _).trans (keeps_emit _)
  · exact keeps_reset _

theorem keeps_activate (event : Event) : s.Keeps (s.activate env event).1 := by
  unfold activate
  split
  · exact keeps_emit _
  · split
    · exact .refl s
    · exact (keeps_reset _).trans ⟨rfl, rfl, rfl, .inl rfl⟩

theorem keeps_acknowledge (event : Event) : s.Keeps (s.acknowledge env event age) := by
  unfold acknowledge
  have h : s.Keeps (if env.durationUs > 100000 then s.reset env "Paused: input injection stalled" else s) := by
    split
    · exact keeps_reset _
    · exact .refl s
  dsimp only
  split
  · exact h.trans (keeps_emit _)
  · exact h

theorem ending_cases {o : Outcome} {t u v : TargetEngine} (h : ending o t u = .ok v ∨ ending o t u = .raised v) :
    v = t ∨ v = u := by
  unfold ending at h
  split at h
  · rcases h with h | h <;> cases h; exact .inl rfl
  · rcases h with h | h <;> cases h; exact .inr rfl

theorem ending_ne_refused {o : Outcome} {t u v : TargetEngine} : ending o t u ≠ .refused v := by
  unfold ending; split <;> exact fun h => by cases h

theorem InjectCase.keeps {r : Injected} (h : InjectCase env item s r) :
    ∀ t, r = .ok t ∨ r = .raised t ∨ r = .refused t → s.Keeps t := by
  intro t ht
  cases h with
  | refused => rcases ht with ht | ht | ht <;> cases ht; exact keeps_reset _
  | nothing => rcases ht with ht | ht | ht <;> cases ht; exact .refl s
  | _ o =>
      rw [← or_assoc] at ht
      rcases ht with ht | ht
      · rcases ending_cases ht with rfl | rfl <;> exact ⟨rfl, rfl, rfl, .inl rfl⟩
      · exact absurd ht ending_ne_refused

theorem keeps_inputFrame : s.Keeps (s.inputFrame env item age).1 := by
  have hc := inputFrame_cases env item age s
  generalize s.inputFrame env item age = r at hc
  have hseq : s.Keeps (s.withSeq item.event.seq) := ⟨rfl, rfl, rfl, .inl rfl⟩
  cases hc with
  | silent => exact hseq.trans (keeps_reset _)
  | heartbeat => exact hseq.trans (keeps_observeHeartbeat _ _)
  | raised t _ h => exact hseq.trans (h.keeps t (.inr (.inl rfl)))
  | refused t _ h => exact hseq.trans (h.keeps t (.inr (.inr rfl)))
  | ok t _ h => exact (hseq.trans (h.keeps t (.inl rfl))).trans (keeps_acknowledge _)

theorem BodyCase.keeps {r : TargetEngine × Bool} (h : BodyCase env item age s r) : s.Keeps r.1 := by
  cases h with
  | idle => exact .refl s
  | stale => exact keeps_rejectStale _ _
  | activate => exact keeps_activate _
  | probe => exact keeps_emit _
  | calibrate => exact keeps_observeHeartbeat _ _
  | input => exact keeps_inputFrame

theorem keeps_processItem (env : Env) (item : Item) (age : Time) (s : TargetEngine) :
    s.Keeps (s.processItem env item age).1 := by
  rcases processItem_cases env item age s with ⟨t, ht, he⟩ | ⟨t, ht, he⟩
  · rw [he]; exact ht.keeps
  · rw [he]; exact Keeps.trans (show s.Keeps t from ht.keeps) (keeps_reset _)

theorem processOne_leases : (s.processOne env).1.leases = s.leases := by
  have hc := processOne_cases env s
  generalize s.processOne env = r at hc
  cases hc with
  | overload => simp
  | empty => rfl
  | item => exact (keeps_processItem ..).leases

/-! ## Leases -/

theorem tick_leases (bits : Nat) {n : Nat} {t : Time} (h : (s.tick env bits).1.leases n = some t) :
    s.leases n = some t ∨ t = env.now ∧ .emit (.challenge n) ∈ (s.tick env bits).1.out := by
  unfold tick at h ⊢
  dsimp only at h ⊢
  have hl : ∀ u : TargetEngine, ((u.heartbeatExpired env).1.checkPermission env).1.leases = u.leases := by
    intro u
    refine checkPermission_induction (P := fun v => v.leases = u.leases) (fun _ _ hv => by simpa using hv) ?_
    exact heartbeatExpired_induction (P := fun v => v.leases = u.leases) (fun _ _ hv => by simpa using hv) rfl
  rw [hl] at h
  unfold issueChallenge at h ⊢
  split at h
  · rename_i hdue
    rw [if_pos hdue]
    by_cases hn : n = orOne bits
    · subst hn
      have ht : t = env.now := by simpa [emit] using h.symm
      refine .inr ⟨ht, ?_⟩
      refine checkPermission_induction (P := fun v => _ ∈ v.out) (fun _ _ => mem_reset) ?_
      exact heartbeatExpired_induction (P := fun v => _ ∈ v.out) (fun _ _ => mem_reset) (by simp [emit])
    · simp only [emit, Function.update_of_ne hn] at h
      exact .inl (Option.filter_eq_some_iff.mp h).1
  · exact .inl (Option.filter_eq_some_iff.mp h).1

/-- A lease in the table was there before or has just been issued. -/
theorem step_leases {op : EngineOp} {n : Nat} {t : Time} (h : (s.step op).leases n = some t) :
    s.leases n = some t ∨
      ∃ env bits, op = .tick env bits ∧ t = env.now ∧ .emit (.challenge n) ∈ (s.step op).out := by
  cases op with
  | receive env event =>
      refine .inl (h ▸ ?_)
      simp only [step, receive]
      split
      · simp
      · split <;> simp
  | processOne env => exact .inl (by simpa [step, processOne_leases] using h)
  | tick env bits =>
      rcases tick_leases bits h with h | h
      · exact .inl h
      · exact .inr ⟨env, bits, rfl, h⟩
  | reset env reason => exact .inl (by simpa [step] using h)
  | peerChanged env => exact .inl (by simpa [step, peerChanged] using h)
  | setConnected env value => simp [step, setConnected] at h

end TargetEngine

end RemoteInput
