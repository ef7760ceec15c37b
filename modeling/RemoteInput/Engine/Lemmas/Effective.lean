import RemoteInput.Engine.Lemmas.Threads

/-!
# What reaches the operating system

The calls made for a frame reach the operating system, or one of them raises; then the session is over. A blocked engine
stays blocked, and a session is one of a connected engine.
-/

namespace RemoteInput

@[simp] theorem effective_nil : effective [] = [] := rfl

@[simp] theorem effective_append (l l' : List Out) : effective (l ++ l') = effective l ++ effective l' :=
  List.filterMap_append

@[simp] theorem effective_emit (m : Message) : effective [.emit m] = [] := rfl

@[simp] theorem effective_status (reason : String) : effective [.status reason] = [] := rfl

theorem effective_call {c : Call} {o : Outcome} {parts : List Event} (h : parts ≠ []) :
    effective [.call c o parts] = if o.tookEffect then [c] else [] := by
  cases parts with
  | nil => exact absurd rfl h
  | cons p ps => cases ho : o.tookEffect <;> simp [effective, ho]

/-- What reaches the operating system was injected. -/
theorem effective_sublist (outs : List Out) : (effective outs).Sublist ((injected outs).map Prod.fst) := by
  induction outs with
  | nil => exact .slnil
  | cons o outs ih =>
      rw [← List.singleton_append, effective_append, injected_append, List.map_append]
      refine List.Sublist.append ?_ ih
      cases o with
      | emit | status => exact .slnil
      | call c outcome parts =>
          cases parts with
          | nil => exact .slnil
          | cons p ps =>
              rw [effective_call (by simp), injected_call (by simp)]
              split
              · exact List.Sublist.refl _
              · exact List.nil_sublist _

theorem effective_of_injected {outs : List Out} (h : injected outs = []) : effective outs = [] := by
  have hsub := effective_sublist outs
  rw [h] at hsub
  exact List.sublist_nil.mp hsub

namespace TargetEngine

variable {env : Env} {item : Item} {age : Time} {s t : TargetEngine}

@[simp] theorem effective_reset (env : Env) (reason : String) (s : TargetEngine) :
    effective (s.reset env reason).out = effective s.out := by
  obtain ⟨f, g, hout, _⟩ := s.reset_spec env reason
  have hrelease : ∀ call outcome xs, effective (releaseCalls call outcome xs) = [] := by
    intro call outcome xs
    induction xs with
    | nil => rfl
    | cons x xs ih => exact ih
  have hreport : effective (s.resetReport reason) = [] := by
    unfold resetReport; split <;> rfl
  simp [hout, hrelease, hreport]

@[simp] theorem effective_emit_out (m : Message) : effective (s.emit m).out = effective s.out := by simp [emit]

@[simp] theorem effective_status_out (reason : String) :
    effective (s.status reason).out = effective s.out := by simp [status]

theorem effective_acknowledge (event : Event) : effective (s.acknowledge env event age).out = effective s.out := by
  unfold acknowledge
  dsimp only
  split <;> split <;> simp

theorem effective_rejectStale (event : Event) (limit : Time) :
    effective (s.rejectStale env event limit).out = effective s.out := by
  unfold rejectStale
  dsimp only
  split
  · split <;> simp
  · simp

/-- From `s` to `t` the calls for `item` reached the operating system. -/
def Reaches (item : Item) (s t : TargetEngine) : Prop :=
  effective t.out = effective s.out ++ (s.held.inject item.event).1.toList

theorem reaches_ending {c : Call} {held : Held} (hi : s.held.inject item.event = (some c, held)) (hp : item.parts ≠ [])
    {o : Outcome} {u : TargetEngine} (ht : t.out = s.out ++ [.call c o item.parts])
    (hu : u.out = s.out ++ [.call c o item.parts]) :
    (∀ v, ending o t u = .ok v → Reaches item s v) ∧
      ∀ v, ending o t u = .raised v → effective v.out = effective s.out ∨ Reaches item s v := by
  have hcall : ∀ {v : TargetEngine}, v.out = s.out ++ [.call c o item.parts] → o.tookEffect = true → Reaches item s v := by
    intro v hv ho
    rw [Reaches, hv, effective_append, effective_call hp, if_pos ho, hi]
    rfl
  unfold ending
  split
  · refine ⟨by simp, fun v hv => ?_⟩
    cases hv
    cases ho : o.tookEffect with
    | true => exact .inr (hcall ht ho)
    | false => exact .inl (by rw [ht, effective_append, effective_call hp, ho]; simp)
  · rename_i hr
    refine ⟨fun v hv => ?_, by simp⟩
    cases hv
    refine hcall hu ?_
    cases o with
    | done => rfl
    | raised took => exact absurd rfl hr

theorem InjectCase.refuses {r : Injected} (h : InjectCase env item s r) :
    ∀ t, r = .refused t → t.epoch = 0 ∧ effective t.out = effective s.out := by
  cases h with
  | refused => rintro t ⟨⟩; simp
  | pressKey | releaseKey | pressButton | releaseButton | move | scroll => exact fun t ht => absurd ht ending_ne_refused
  | nothing => simp

/-- How the dispatch on the opcode ends, for the operating system. -/
theorem InjectCase.reaches {r : Injected} (h : InjectCase env item s r) (hp : item.parts ≠ []) :
    (∀ t, r = .ok t → Reaches item s t) ∧ ∀ t, r = .raised t → effective t.out = effective s.out ∨ Reaches item s t := by
  cases h with
  | refused => exact ⟨by simp, by simp⟩
  | pressKey hop hb o => exact reaches_ending (by simp [Held.inject, hop, hb, held]; rfl) hp rfl rfl
  | releaseKey hop hb hk o => exact reaches_ending (by simp [Held.inject, hop, hb, hk, held]; rfl) hp rfl rfl
  | pressButton hop hb o => exact reaches_ending (by simp [Held.inject, hop, hb, held]; rfl) hp rfl rfl
  | releaseButton hop hb hk o => exact reaches_ending (by simp [Held.inject, hop, hb, hk, held]; rfl) hp rfl rfl
  | move hop o => exact reaches_ending (by simp [Held.inject, hop]; rfl) hp rfl rfl
  | scroll hop o => exact reaches_ending (by simp [Held.inject, hop]; rfl) hp rfl rfl
  | nothing h =>
      have hi : s.held.inject item.event = (none, s.held) := by
        rcases h with h | ⟨hb, ⟨hop, hk⟩ | ⟨hop, hk⟩⟩
        · exact Held.inject_of_not_input h
        · simp [Held.inject, hop, hb, hk, held]
        · simp [Held.inject, hop, hb, hk, held]
      refine ⟨?_, by simp⟩
      rintro t ⟨⟩
      simp [Reaches, hi]

/-- How an item fares. Nothing of it reaches the operating system, and the session does not go on with it; or it is a new
frame of the session, and its calls do. -/
def Fares (item : Item) (s t : TargetEngine) : Prop :=
  effective t.out = effective s.out ∧ (s.fresh item.event → t.epoch = 0) ∨ s.fresh item.event ∧ Reaches item s t

theorem Fares.unfresh (h : ¬ s.fresh item.event) (ho : effective t.out = effective s.out) : Fares item s t :=
  .inl ⟨ho, fun hf => absurd hf h⟩

theorem Fares.over (he : t.epoch = 0) (ho : effective t.out = effective s.out) : Fares item s t := .inl ⟨ho, fun _ => he⟩

theorem InputCase.fares {r : TargetEngine × Bool} (h : InputCase env item age s r) (hp : item.parts ≠ [])
    (hf : s.fresh item.event) :
    (r.2 = false → Fares item s r.1) ∧ (r.2 = true → effective r.1.out = effective s.out ∨ Reaches item s r.1) := by
  cases h with
  | silent reason => exact ⟨fun _ => .over (by simp) (by simp), by simp⟩
  | heartbeat hop =>
      have hi : s.held.inject item.event = (none, s.held) := Held.inject_of_not_input (by simp [hop, Op.isInput])
      have hout := (observeHeartbeat_frame (s := s.withSeq item.event.seq) item.event env.now).2.2.2.2
      refine ⟨fun _ => .inr ⟨hf, ?_⟩, by simp⟩
      rw [Reaches, hout, hi]
      simp
  | raised t _ hi => exact ⟨by simp, fun _ => (hi.reaches hp).2 t rfl⟩
  | refused t _ hi =>
      obtain ⟨he, hout⟩ := hi.refuses t rfl
      exact ⟨fun _ => .over he hout, by simp⟩
  | ok t _ hi =>
      refine ⟨fun _ => .inr ⟨hf, ?_⟩, by simp⟩
      rw [Reaches, effective_acknowledge]
      exact (hi.reaches hp).1 t rfl

theorem BodyCase.fares {r : TargetEngine × Bool} (h : BodyCase env item age s r) (hp : item.parts ≠ []) :
    (r.2 = false → Fares item s r.1) ∧
      (r.2 = true → effective r.1.out = effective s.out ∨ s.fresh item.event ∧ Reaches item s r.1) := by
  cases h with
  | idle h => exact ⟨fun _ => .unfresh (not_fresh_of_ignores h) rfl, by simp⟩
  | stale => exact ⟨fun _ => .over (rejectStale_frame ..).1 (effective_rejectStale ..), by simp⟩
  | activate _ _ hop =>
      have hout : effective (s.activate env item.event).1.out = effective s.out := by
        unfold TargetEngine.activate
        split
        · simp
        · split <;> simp
      exact ⟨fun _ => .unfresh (fun hf => hf.1 hop) hout, fun _ => .inl hout⟩
  | probe _ he => exact ⟨fun _ => .unfresh (fun hf => hf.2.2.2.1 he) (by simp), by simp⟩
  | calibrate _ he =>
      have hout := (observeHeartbeat_frame (s := s) item.event env.now).2.2.2.2
      exact ⟨fun _ => .unfresh (fun hf => hf.2.2.2.1 he) (by rw [hout]), by simp⟩
  | input hb hc hop he hep hseq =>
      have hf : s.fresh item.event := ⟨hop, hb, hc, he, hep, hseq⟩
      obtain ⟨h1, h2⟩ := (inputFrame_cases env item age s).fares hp hf
      exact ⟨h1, fun hr => (h2 hr).imp_right fun hreach => ⟨hf, hreach⟩⟩

theorem processItem_fares (env : Env) (age : Time) (s : TargetEngine) (hp : item.parts ≠ []) :
    Fares item s (s.processItem env item age).1 := by
  rcases processItem_cases env item age s with ⟨t, ht, he⟩ | ⟨t, ht, he⟩
  · rw [he]; exact (ht.fares hp).1 rfl
  · rw [he]
    rcases (ht.fares hp).2 rfl with hsame | ⟨hf, hreach⟩
    · exact .over (by simp) (by simpa using hsame)
    · exact .inr ⟨hf, by rw [Reaches, effective_reset]; exact hreach⟩

/-! ## The queue while the session goes on -/

theorem observeHeartbeat_queue (event : Event) (now : Time) : (s.observeHeartbeat event now).queue = s.queue := by
  unfold observeHeartbeat
  split
  · rfl
  · split <;> rfl

theorem acknowledge_queue (env : Env) (event : Event) (age : Time) (s : TargetEngine) :
    (s.acknowledge env event age).queue = s.queue ∨ (s.acknowledge env event age).epoch = 0 := by
  unfold acknowledge
  by_cases hstall : env.durationUs > 100000
  · refine .inr ?_
    rw [if_pos hstall]
    split <;> simp [emit]
  · refine .inl ?_
    rw [if_neg hstall]
    split <;> rfl

theorem InjectCase.queue {r : Injected} (h : InjectCase env item s r) : ∀ t, r = .ok t → t.queue = s.queue := by
  have hending : ∀ {o : Outcome} {t u : TargetEngine}, u.queue = s.queue → ∀ v, ending o t u = .ok v →
      v.queue = s.queue := by
    intro o t u hu v hv
    unfold ending at hv
    split at hv <;> cases hv
    exact hu
  cases h with
  | refused => simp
  | pressKey | releaseKey | pressButton | releaseButton | move | scroll => exact hending rfl
  | nothing => rintro t ⟨⟩; rfl

/-- The queue is left alone unless the session ends or another starts. -/
theorem BodyCase.queue {r : TargetEngine × Bool} (h : BodyCase env item age s r) :
    r.2 = true ∨ r.1.queue = s.queue ∨ r.1.epoch = 0 ∨ s.activates env item.event := by
  cases h with
  | idle => exact .inr (.inl rfl)
  | stale => exact .inr (.inr (.inl (rejectStale_frame ..).1))
  | activate hb hc hop hv =>
      by_cases ha : s.activates env item.event
      · exact .inr (.inr (.inr ha))
      · rcases activate_cases hb hc hop hv ha with h | h <;> rw [h]
        · exact .inr (.inl rfl)
        · exact .inl rfl
  | probe => exact .inr (.inl rfl)
  | calibrate => exact .inr (.inl (observeHeartbeat_queue _ _))
  | input =>
      have hc := inputFrame_cases env item age s
      generalize s.inputFrame env item age = r at hc
      cases hc with
      | silent => exact .inr (.inr (.inl (by simp)))
      | heartbeat => exact .inr (.inl (observeHeartbeat_queue (s := s.withSeq item.event.seq) _ _))
      | raised => exact .inl rfl
      | refused t _ hi => exact .inr (.inr (.inl (hi.refuses t rfl).1))
      | ok t _ hi =>
          have hq : t.queue = s.queue := hi.queue t rfl
          rcases acknowledge_queue env item.event age t with h | h
          · exact .inr (.inl (h.trans hq))
          · exact .inr (.inr (.inl h))

theorem processItem_queue (env : Env) (item : Item) (age : Time) (s : TargetEngine) :
    (s.processItem env item age).1.queue = s.queue ∨ (s.processItem env item age).1.epoch = 0 ∨
    s.activates env item.event := by
  rcases processItem_cases env item age s with ⟨t, ht, he⟩ | ⟨t, _, he⟩
  · rw [he]
    rcases ht.queue with h | h
    · cases h
    · exact h
  · rw [he]; exact .inr (.inl (by simp))

/-! ## Blocked and connected -/

theorem reset_blocked (h : s.blocked = true) (env : Env) (reason : String) : (s.reset env reason).blocked = true := by
  obtain ⟨f, g, -, -, -, hb⟩ := s.reset_spec env reason
  rw [hb, h]
  rfl

theorem tick_blocked (h : s.blocked = true) (env : Env) (bits : Nat) : (s.tick env bits).1.blocked = true := by
  simp only [tick]
  refine checkPermission_induction (P := fun u => u.blocked = true) (fun u reason hu => reset_blocked hu env reason) ?_
  refine heartbeatExpired_induction (P := fun u => u.blocked = true) (fun u reason hu => reset_blocked hu env reason) ?_
  unfold issueChallenge
  split <;> exact h

theorem processItem_idle (h : s.blocked = true ∨ s.connected = false) (env : Env) (item : Item) (age : Time) :
    s.processItem env item age = (s, true) := by
  have hidle : s.lockedBody env item age = (s, false) := by
    unfold lockedBody
    dsimp only
    rw [if_pos]
    exact h.imp_right fun hc => by simp [hc]
  unfold processItem
  rw [hidle]

/-- A tick ends the session or leaves the queue alone. -/
theorem tick_queue (env : Env) (bits : Nat) (s : TargetEngine) :
    (s.tick env bits).1.epoch = 0 ∨ (s.tick env bits).1.queue = s.queue := by
  simp only [tick]
  refine checkPermission_induction (P := fun u => u.epoch = 0 ∨ u.queue = s.queue) (fun _ _ _ => .inl (by simp)) ?_
  refine heartbeatExpired_induction (P := fun u => u.epoch = 0 ∨ u.queue = s.queue) (fun _ _ _ => .inl (by simp)) ?_
  unfold issueChallenge
  split <;> exact .inr rfl

theorem tick_connected (env : Env) (bits : Nat) (s : TargetEngine) : (s.tick env bits).1.connected = s.connected := by
  simp only [tick]
  refine checkPermission_induction (P := fun u => u.connected = s.connected) (fun _ _ h => by simpa using h) ?_
  refine heartbeatExpired_induction (P := fun u => u.connected = s.connected) (fun _ _ h => by simpa using h) ?_
  unfold issueChallenge
  split <;> rfl

end TargetEngine

namespace EngineThreads

variable {p p' : EngineThreads} {op : ThreadOp}

/-- The rest of `process_one`, after a `pop`. -/
theorem step_body {env : Env} (hs : p.step (.body env) = some p') :
    p.register = .overloaded ∧
        p' = ⟨({ p.engine with out := [] } : TargetEngine).reset env "Paused: input processing failed", .idle⟩ ∨
      ∃ item age, p.register = .popped item age ∧
        p' = ⟨(({ p.engine with out := [] } : TargetEngine).processItem env item age).1, .idle⟩ := by
  obtain ⟨s, hbody, rfl⟩ := Option.map_eq_some_iff.mp hs
  unfold body at hbody
  split at hbody <;> cases hbody
  · rename_i hreg
    exact .inl ⟨hreg, rfl⟩
  · rename_i item age hreg
    exact .inr ⟨item, age, hreg, rfl⟩

theorem step_blocked (h : p.engine.blocked = true) (hs : p.step op = some p') : p'.engine.blocked = true := by
  have hreset : ∀ {s : TargetEngine} {register : Register} {env : Env} {reason : String}, s.blocked = true →
      (⟨s.reset env reason, register⟩ : EngineThreads).engine.blocked = true := fun hb => TargetEngine.reset_blocked hb _ _
  cases op with
  | receive env event =>
      simp only [step, TargetEngine.receive] at hs
      split at hs
      · cases hs; exact hreset h
      · split at hs <;> cases hs
        · exact h
        · exact hreset h
  | peerChanged env =>
      cases hs
      exact TargetEngine.reset_blocked (s := { p.engine with out := [] }) h env "Paused"
  | setConnected env value => cases hs; exact hreset h
  | reset env reason => cases hs; exact hreset h
  | tick env bits =>
      simp only [step] at hs
      split at hs <;> cases hs
      exact TargetEngine.tick_blocked (s := { p.engine with out := [] }) h _ _
  | pop env =>
      simp only [step] at hs
      split at hs <;> cases hs
      unfold pop
      split <;> exact h
  | body env =>
      rcases step_body hs with ⟨-, rfl⟩ | ⟨item, age, -, rfl⟩
      · exact hreset h
      · rw [TargetEngine.processItem_idle (s := { p.engine with out := [] }) (.inl h)]
        exact h

/-- A session is one of a connected engine. -/
def Online (p : EngineThreads) : Prop := p.engine.epoch ≠ 0 → p.engine.connected = true

theorem Online.step (h : p.Online) (hs : p.step op = some p') : p'.Online := by
  have hreset : ∀ {s : TargetEngine} {register : Register} {env : Env} {reason : String},
      Online ⟨s.reset env reason, register⟩ := fun hep => absurd (by simp) hep
  cases op with
  | receive env event =>
      simp only [step, TargetEngine.receive] at hs
      split at hs
      · cases hs; exact hreset
      · split at hs <;> cases hs
        · exact h
        · exact hreset
  | peerChanged env => cases hs; exact fun hep => absurd (by simp [TargetEngine.peerChanged]) hep
  | setConnected env value => cases hs; exact hreset
  | reset env reason => cases hs; exact hreset
  | tick env bits =>
      simp only [step] at hs
      split at hs <;> cases hs
      intro hep
      rw [TargetEngine.tick_connected]
      refine h fun h0 => hep ?_
      rcases (TargetEngine.noFrame_tick env bits { p.engine with out := [] }).session with hz | ⟨hsame, -⟩
      · exact hz
      · exact hsame.trans h0
  | pop env =>
      simp only [step] at hs
      split at hs <;> cases hs
      unfold pop
      split <;> exact h
  | body env =>
      rcases step_body hs with ⟨-, rfl⟩ | ⟨item, age, -, rfl⟩
      · exact hreset
      · intro hep
        cases hc : p.engine.connected with
        | true => exact (TargetEngine.keeps_processItem env item age { p.engine with out := [] }).connected.trans hc
        | false =>
            rw [TargetEngine.processItem_idle (s := { p.engine with out := [] }) (.inr hc)] at hep
            rw [h hep] at hc
            cases hc

/-- An operation that takes no item and brings none ends the session, or the worker finds the queue overloaded, or it leaves
the queue alone. -/
theorem step_kept (hs : p.step op = some p') (hnet : ∀ env event, op = .receive env event → p'.engine.epoch = 0)
    (hreg : p'.register.items = p.register.items) :
    p'.engine.epoch = 0 ∨ p'.register = .overloaded ∨ p'.engine.queue = p.engine.queue ∧ p'.register = p.register := by
  cases op with
  | receive env event => exact .inl (hnet env event rfl)
  | peerChanged env => cases hs; exact .inl (by simp [TargetEngine.peerChanged])
  | setConnected env value => cases hs; exact .inl (by simp [TargetEngine.setConnected])
  | reset env reason => cases hs; exact .inl (by simp)
  | tick env bits =>
      simp only [step] at hs
      split at hs <;> cases hs
      rcases TargetEngine.tick_queue env bits { p.engine with out := [] } with h | h
      · exact .inl h
      · exact .inr (.inr ⟨h, rfl⟩)
  | pop env =>
      simp only [step] at hs
      split at hs <;> cases hs
      rename_i hidle
      have hc := p.engine.queue.pop_cases env.popNow
      rw [hidle] at hreg ⊢
      unfold pop at hreg ⊢
      dsimp only at hreg ⊢
      generalize p.engine.queue.pop env.popNow = r at hc hreg
      cases hc with
      | failed => exact .inr (.inl rfl)
      | empty => exact .inr (.inr ⟨rfl, rfl⟩)
      | expired => exact .inr (.inl rfl)
      | item item rest => cases hreg
  | body env =>
      rcases step_body hs with ⟨-, rfl⟩ | ⟨item, age, hpopped, rfl⟩
      · exact .inl (by simp)
      · rw [hpopped] at hreg
        cases hreg

end EngineThreads

end RemoteInput
