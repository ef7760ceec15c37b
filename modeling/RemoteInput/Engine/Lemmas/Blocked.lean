import RemoteInput.Engine.Lemmas.Threads

/-!
# Releases that failed

What a blocked engine still does, and how a key comes to be left over.
-/

namespace RemoteInput

/-- A call that releases a key or a button. -/
def Call.isRelease : Call → Bool
  | .key _ down | .button _ down => !down
  | .move _ _ | .scroll _ _ => false

/-- The calls made by `reset`: they stand for no frame. -/
def resetCalls (outs : List Out) : List Call :=
  outs.filterMap fun
    | .call c _ [] => some c
    | _ => none

theorem mem_resetCalls {outs : List Out} {c : Call} {o : Outcome} (h : .call c o [] ∈ outs) : c ∈ resetCalls outs :=
  List.mem_filterMap.mpr ⟨_, h, rfl⟩

namespace TargetEngine

variable {env : Env} {item : Item} {age : Time} {s t u : TargetEngine}

/-! ## What a blocked engine still does -/

/-- A paused and blocked engine went from `s` to `t` by releases alone. -/
structure Jam (s t : TargetEngine) : Prop where
  epoch : s.epoch = 0 → t.epoch = 0
  blocked : s.blocked = true → t.blocked = true
  effects : s.epoch = 0 → ∃ new, t.out = s.out ++ new ∧ announced new = [] ∧
    (∀ c o parts, .call c o parts ∈ new → c.isRelease = true) ∧
    (∀ k, k ∈ t.keys ↔ k ∈ s.keys ∧ .call (.key k false) .done [] ∉ new) ∧
    ∀ b, b ∈ t.buttons ↔ b ∈ s.buttons ∧ .call (.button b false) .done [] ∉ new

theorem Jam.trans (h : s.Jam t) (h' : t.Jam u) : s.Jam u := by
  refine ⟨fun he => h'.epoch (h.epoch he), fun hb => h'.blocked (h.blocked hb), fun he => ?_⟩
  obtain ⟨new, ho, ha, hc, hk, hb⟩ := h.effects he
  obtain ⟨new', ho', ha', hc', hk', hb'⟩ := h'.effects (h.epoch he)
  refine ⟨new ++ new', by rw [ho', ho, List.append_assoc], by simp [ha, ha'], fun c o parts hm => ?_, fun k => ?_,
    fun b => ?_⟩
  · exact (List.mem_append.mp hm).elim (hc c o parts) (hc' c o parts)
  · rw [hk', hk, List.mem_append, not_or, and_assoc]
  · rw [hb', hb, List.mem_append, not_or, and_assoc]

/-- Other fields may change. -/
theorem Jam.of_same (he : t.epoch = s.epoch) (hb : t.blocked = s.blocked) (hk : t.keys = s.keys)
    (hbu : t.buttons = s.buttons) (ho : t.out = s.out) : s.Jam t :=
  ⟨fun h => he.trans h, fun h => hb.trans h, fun _ => ⟨[], by simp [ho], rfl, by simp, by simp [hk], by simp [hbu]⟩⟩

theorem jam_emit {m : Message} (hm : m.isRoutine = true) : s.Jam (s.emit m) :=
  ⟨id, id, fun _ => ⟨[.emit m], rfl, by simp [announced, messages, hm], by simp, by simp [emit], by simp [emit]⟩⟩

theorem not_raised {o : Outcome} : o.isRaised = false ↔ o = .done := by
  cases o <;> simp [Outcome.isRaised]

theorem mem_releaseCalls {call : Int → Bool → Call} {outcome : Int → Outcome} {xs : List Int} {x : Out} :
    x ∈ releaseCalls call outcome xs ↔ ∃ k ∈ xs, x = .call (call k false) (outcome k) [] := by
  simp [releaseCalls, eq_comm]

theorem jam_reset (reason : String) : s.Jam (s.reset env reason) := by
  obtain ⟨f, g, ho, hk, hb, hbl⟩ := s.reset_spec env reason
  refine ⟨fun _ => by simp, fun h => by rw [hbl, h]; simp, fun he => ?_⟩
  have hreport : s.resetReport reason = [] := if_neg (not_not.mpr he)
  rw [hreport, List.append_nil, List.append_assoc] at ho
  refine ⟨_, ho, ?_, fun c o parts hm => ?_, fun k => ?_, fun b => ?_⟩
  · have := s.announced_reset env reason
    rw [ho, announced_append] at this
    simpa using this
  · rcases List.mem_append.mp hm with hm | hm <;> obtain ⟨k, _, h⟩ := mem_releaseCalls.mp hm <;> cases h <;> rfl
  · rw [hk]
    refine and_congr_right fun hkeys => ?_
    rw [List.mem_append, not_or, mem_releaseCalls, mem_releaseCalls]
    constructor
    · rintro hr
      refine ⟨?_, by simp⟩
      rintro ⟨k', _, he⟩
      simp only [Out.call.injEq, Call.key.injEq, and_true] at he
      obtain ⟨rfl, hf⟩ := he
      rw [← hf] at hr; cases hr
    · rintro ⟨hn, _⟩
      by_contra hr
      exact hn ⟨k, hkeys, by rw [not_raised.mp (Bool.eq_false_of_not_eq_true hr)]⟩
  · rw [hb]
    refine and_congr_right fun hbuttons => ?_
    rw [List.mem_append, not_or, mem_releaseCalls, mem_releaseCalls]
    constructor
    · rintro hr
      refine ⟨by simp, ?_⟩
      rintro ⟨b', _, he⟩
      simp only [Out.call.injEq, Call.button.injEq, and_true] at he
      obtain ⟨rfl, hf⟩ := he
      rw [← hf] at hr; cases hr
    · rintro ⟨_, hn⟩
      by_contra hr
      exact hn ⟨b, hbuttons, by rw [not_raised.mp (Bool.eq_false_of_not_eq_true hr)]⟩

theorem Jam.reset (h : s.Jam t) (env : Env) (reason : String) : s.Jam (t.reset env reason) := h.trans (jam_reset reason)

theorem jam_tick (bits : Nat) : s.Jam (s.tick env bits).1 := by
  have h0 : s.Jam ((s.pruneLeases env.now).issueChallenge env.now bits) := by
    unfold issueChallenge
    have hsame : s.Jam (s.pruneLeases env.now) := .of_same rfl rfl rfl rfl rfl
    split
    · refine (hsame.trans ?_).trans (jam_emit rfl)
      exact .of_same rfl rfl rfl rfl rfl
    · exact hsame
  simp only [tick]
  refine checkPermission_induction (P := s.Jam) (fun _ reason h => h.reset env reason) ?_
  exact heartbeatExpired_induction (P := s.Jam) (fun _ reason h => h.reset env reason) h0

/-- One operation of a blocked engine. -/
theorem step_of_blocked (hb : s.blocked = true) (op : EngineOp) : ({ s with out := [] } : TargetEngine).Jam (s.step op) := by
  cases op with
  | receive env event =>
      simp only [step, receive]
      split
      · exact jam_reset _
      · split
        · exact .of_same rfl rfl rfl rfl rfl
        · refine Jam.reset ?_ env _
          exact .of_same rfl rfl rfl rfl rfl
  | processOne env =>
      simp only [step]
      have hc := processOne_cases env { s with out := [] }
      generalize ({ s with out := [] } : TargetEngine).processOne env = r at hc
      cases hc with
      | overload =>
          refine Jam.reset ?_ env _
          exact .of_same rfl rfl rfl rfl rfl
      | empty => exact .of_same rfl rfl rfl rfl rfl
      | item queue item age =>
          have hidle : ({ s with out := [], queue := queue } : TargetEngine).processItem env item age =
              ({ s with out := [], queue := queue }, true) := by
            simp [processItem, lockedBody, hb]
          rw [hidle]
          exact .of_same rfl rfl rfl rfl rfl
  | tick env bits => exact jam_tick bits
  | reset env reason => exact jam_reset _
  | peerChanged env => exact (jam_reset _).trans (.of_same rfl rfl rfl rfl rfl)
  | setConnected env value =>
      refine Jam.reset ?_ env _
      exact .of_same rfl rfl rfl rfl rfl

/-- A tick of a paused engine tries to release whatever is held. -/
theorem tick_retries (he : s.epoch = 0) (bits : Nat) :
    (∀ k ∈ s.keys, ∃ o, .call (.key k false) o [] ∈ (s.tick env bits).1.out) ∧
      ∀ b ∈ s.buttons, ∃ o, .call (.button b false) o [] ∈ (s.tick env bits).1.out := by
  obtain ⟨u, hu, hk, hb, hue⟩ : ∃ u, (s.pruneLeases env.now).issueChallenge env.now bits = u ∧ u.keys = s.keys ∧
      u.buttons = s.buttons ∧ u.epoch = 0 := by
    refine ⟨_, rfl, ?_⟩
    unfold issueChallenge
    split <;> exact ⟨rfl, rfl, he⟩
  have htick : (s.tick env bits).1 = u.retryRelease env := by
    simp only [tick, hu, heartbeatExpired, silent, checkPermission, pauseUnpermitted]
    simp [hue]
  rw [htick]
  obtain ⟨f, g, ho, _⟩ := u.reset_spec env "Paused: retrying input release"
  constructor
  · intro k hmem
    have hne : u.keys ≠ ∅ := by rw [hk]; rintro h; rw [h] at hmem; exact absurd hmem (by simp)
    rw [retryRelease, if_pos ⟨hue, .inl hne⟩, ho]
    refine ⟨f k, ?_⟩
    simp only [List.mem_append]
    exact .inl (.inl (.inr (mem_releaseCalls.mpr ⟨k, hk ▸ hmem, rfl⟩)))
  · intro b hmem
    have hne : u.buttons ≠ ∅ := by rw [hb]; rintro h; rw [h] at hmem; exact absurd hmem (by simp)
    rw [retryRelease, if_pos ⟨hue, .inr hne⟩, ho]
    refine ⟨g b, ?_⟩
    simp only [List.mem_append]
    exact .inl (.inr (mem_releaseCalls.mpr ⟨b, hb ▸ hmem, rfl⟩))

/-! ## How a key comes to be left over -/

/-- No release of `reset` separates `t` from `s`, unless the session has ended. -/
def Unreset (s t : TargetEngine) : Prop := t.epoch = 0 ∨ resetCalls t.out = resetCalls s.out ∧ t.blocked = s.blocked

theorem Unreset.refl (s : TargetEngine) : s.Unreset s := .inr ⟨rfl, rfl⟩

theorem unreset_reset (t : TargetEngine) (reason : String) : s.Unreset (t.reset env reason) := .inl (by simp)

theorem unreset_emit (m : Message) : s.Unreset (s.emit m) := .inr ⟨by simp [emit, resetCalls], rfl⟩

theorem Unreset.trans (h : s.Unreset t) (h' : t.Unreset u) (hz : t.epoch = 0 → u.epoch = 0) : s.Unreset u := by
  rcases h with h | ⟨h1, h2⟩
  · exact .inl (hz h)
  · exact h'.imp id fun ⟨h1', h2'⟩ => ⟨h1'.trans h1, h2'.trans h2⟩

theorem unreset_acknowledge (env : Env) (event : Event) (age : Time) (s : TargetEngine) :
    s.Unreset (s.acknowledge env event age) ∧
    (s.epoch = 0 → (s.acknowledge env event age).epoch = 0) := by
  unfold acknowledge
  dsimp only
  by_cases hd : env.durationUs > 100000
  · rw [if_pos hd]
    split
    · exact ⟨.inl (by simp [emit]), fun _ => by simp [emit]⟩
    · exact ⟨.inl (by simp), fun _ => by simp⟩
  · rw [if_neg hd]
    split
    · exact ⟨unreset_emit _, id⟩
    · exact ⟨.refl s, id⟩

theorem unreset_observeHeartbeat (event : Event) (now : Time) : s.Unreset (s.observeHeartbeat event now) := by
  unfold observeHeartbeat
  split
  · exact .refl s
  · split
    · exact .refl s
    · exact .inr ⟨rfl, rfl⟩

theorem resetCalls_called {c : Call} {o : Outcome} (hp : item.parts ≠ []) :
    resetCalls (s.called c o item).out = resetCalls s.out := by
  cases hparts : item.parts with
  | nil => exact absurd hparts hp
  | cons x xs => simp [called, resetCalls, hparts]

theorem InjectCase.unreset {r : Injected} (h : InjectCase env item s r) (hp : item.parts ≠ []) :
    ∀ t, r = .ok t ∨ r = .raised t ∨ r = .refused t → s.Unreset t := by
  intro t ht
  cases h with
  | refused reason => rcases ht with ht | ht | ht <;> cases ht; exact unreset_reset s reason
  | nothing => rcases ht with ht | ht | ht <;> cases ht; exact .refl s
  | _ o =>
      rw [← or_assoc] at ht
      rcases ht with ht | ht
      · rcases ending_cases ht with rfl | rfl <;> exact .inr ⟨resetCalls_called hp, rfl⟩
      · exact absurd ht ending_ne_refused

theorem BodyCase.unreset {r : TargetEngine × Bool} (h : BodyCase env item age s r) (hp : item.parts ≠ [])
    (ha : ¬ s.activates env item.event) : s.Unreset r.1 := by
  cases h with
  | idle => exact .refl s
  | stale => exact .inl (rejectStale_frame ..).1
  | activate hb hc hop hv =>
      rcases activate_cases hb hc hop hv ha with h | h <;> rw [h]
      · exact unreset_emit _
      · exact .refl s
  | probe => exact unreset_emit _
  | calibrate => exact unreset_observeHeartbeat _ _
  | input =>
      have hc := inputFrame_cases env item age s
      generalize s.inputFrame env item age = r at hc
      cases hc with
      | silent => exact unreset_reset _ _
      | heartbeat => exact unreset_observeHeartbeat (s := s.withSeq item.event.seq) _ _
      | raised t _ hi => exact hi.unreset hp t (.inr (.inl rfl))
      | refused t _ hi => exact hi.unreset hp t (.inr (.inr rfl))
      | ok t _ hi =>
          obtain ⟨hack, hz⟩ := unreset_acknowledge env item.event age t
          exact Unreset.trans (hi.unreset hp t (.inl rfl)) hack hz

theorem unreset_processItem (hp : item.parts ≠ []) (ha : ¬ s.activates env item.event) :
    s.Unreset (s.processItem env item age).1 := by
  rcases processItem_cases env item age s with ⟨t, ht, heq⟩ | ⟨t, _, heq⟩
  · rw [heq]; exact ht.unreset hp ha
  · rw [heq]; exact unreset_reset _ _

/-- An operation processes an `ACTIVATE` that passes, or makes no release of `reset` unless it ends the session. -/
theorem step_unreset (hparts : ∀ it ∈ s.queue.items, it.parts ≠ []) (op : EngineOp) :
    (∃ env item, op = .processOne env ∧ s.popped env = some item ∧ s.activates env item.event) ∨
      ({ s with out := [] } : TargetEngine).Unreset (s.step op) := by
  cases op with
  | receive env event =>
      right
      simp only [step, receive]
      split
      · exact unreset_reset _ _
      · split
        · exact .inr ⟨rfl, rfl⟩
        · exact unreset_reset _ _
  | processOne env =>
      cases hpop : s.popped env with
      | some item =>
          obtain ⟨age, rest, hq, hs⟩ := step_processOne hpop
          by_cases ha : s.activates env item.event
          · exact .inl ⟨env, item, rfl, hpop, ha⟩
          · right
            rw [hs]
            exact unreset_processItem (s := { s with out := [], queue := { s.queue with items := rest } })
              (hparts item (by rw [hq]; exact List.mem_cons_self)) ha
      | none =>
          right
          simp only [step]
          have hc := processOne_cases env { s with out := [] }
          generalize ({ s with out := [] } : TargetEngine).processOne env = r at hc
          cases hc with
          | overload => exact unreset_reset _ _
          | empty => exact .refl _
          | item queue item age h => exact absurd ((popped_eq (s := s) h).symm.trans hpop) (by simp)
  | tick env bits =>
      right
      simp only [step, tick]
      refine checkPermission_induction (P := Unreset { s with out := [] }) (fun _ _ _ => unreset_reset _ _) ?_
      refine heartbeatExpired_induction (P := Unreset { s with out := [] }) (fun _ _ _ => unreset_reset _ _) ?_
      unfold issueChallenge
      split
      · exact .inr ⟨rfl, rfl⟩
      · exact .inr ⟨rfl, rfl⟩
  | reset env reason => exact .inr (unreset_reset _ _)
  | peerChanged env => exact .inr (.inl (by simp [step, peerChanged]))
  | setConnected env value => exact .inr (unreset_reset _ _)

end TargetEngine

end RemoteInput
