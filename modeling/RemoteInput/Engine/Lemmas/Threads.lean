import RemoteInput.Engine.Lemmas.Replay
import RemoteInput.Engine.Threads

/-!
# What one operation of a thread can do
-/

namespace RemoteInput

/-! ## Announced activations -/

/-- Messages that tell nothing new: acknowledgements, challenges and pauses. -/
def Message.isRoutine : Message → Bool
  | .ack .. | .challenge _ | .paused _ => true
  | _ => false

/-- The other messages among the effects. -/
def announced (outs : List Out) : List Message := (messages outs).filter (fun m => !m.isRoutine)

@[simp] theorem announced_nil : announced [] = [] := rfl

@[simp] theorem announced_append (l l' : List Out) : announced (l ++ l') = announced l ++ announced l' := by
  simp [announced, messages]

theorem mem_messages {outs : List Out} {m : Message} : m ∈ messages outs ↔ .emit m ∈ outs := by
  unfold messages
  rw [List.mem_filterMap]
  constructor
  · rintro ⟨o, ho, he⟩
    split at he
    · cases he; exact ho
    · cases he
  · exact fun h => ⟨_, h, rfl⟩

theorem mem_announced {outs : List Out} {m : Message} : m ∈ announced outs ↔ .emit m ∈ outs ∧ m.isRoutine = false := by
  simp [announced, mem_messages]

namespace TargetEngine

variable {env : Env} {item : Item} {age : Time} {s t : TargetEngine}

@[simp] theorem announced_reset (env : Env) (reason : String) (s : TargetEngine) :
    announced (s.reset env reason).out = announced s.out := by
  obtain ⟨f, g, hout, _⟩ := s.reset_spec env reason
  have hrelease : ∀ call outcome xs, announced (releaseCalls call outcome xs) = [] := by
    intro call outcome xs
    induction xs with
    | nil => rfl
    | cons x xs ih => exact ih
  have hreport : announced (s.resetReport reason) = [] := by
    unfold resetReport; split <;> rfl
  simp [hout, hrelease, hreport]

@[simp] theorem announced_status (reason : String) (s : TargetEngine) :
    announced (s.status reason).out = announced s.out := by
  rw [status, announced_append]; simp [announced, messages, Message.isRoutine]

@[simp] theorem announced_paused (epoch : Nat) (s : TargetEngine) :
    announced (s.emit (.paused epoch)).out = announced s.out := by
  rw [emit, announced_append]; simp [announced, messages, Message.isRoutine]

@[simp] theorem announced_ack (event : Event) (queueUs injectionUs : ℚ) (s : TargetEngine) :
    announced (s.emit (ack event queueUs injectionUs)).out = announced s.out := by
  rw [emit, announced_append]; simp [announced, messages, Message.isRoutine, ack]

@[simp] theorem announced_challenge (nonce : Nat) (s : TargetEngine) :
    announced (s.emit (.challenge nonce)).out = announced s.out := by
  rw [emit, announced_append]; simp [announced, messages, Message.isRoutine]

@[simp] theorem announced_activated (epoch : Nat) (s : TargetEngine) :
    announced (s.emit (.activated epoch)).out = announced s.out ++ [.activated epoch] := by
  rw [emit, announced_append]; simp [announced, messages, Message.isRoutine]

@[simp] theorem announced_called (c : Call) (o : Outcome) (item : Item) (s : TargetEngine) :
    announced (s.called c o item).out = announced s.out := by
  rw [called, announced_append]; simp [announced, messages, Message.isRoutine]

@[simp] theorem announced_observeHeartbeat (event : Event) (now : Time) (s : TargetEngine) :
    announced (s.observeHeartbeat event now).out = announced s.out := by
  unfold observeHeartbeat
  split
  · rfl
  · split <;> rfl

@[simp] theorem announced_rejectStale (event : Event) (limit : Time) :
    announced (s.rejectStale env event limit).out = announced s.out := by
  unfold rejectStale
  dsimp only
  split
  · split <;> simp
  · simp

@[simp] theorem announced_acknowledge (event : Event) :
    announced (s.acknowledge env event age).out = announced s.out := by
  unfold acknowledge
  dsimp only
  split <;> split <;> simp

theorem InjectCase.announced {r : Injected} (h : InjectCase env item s r) :
    ∀ t, r = .ok t ∨ r = .raised t ∨ r = .refused t → announced t.out = announced s.out := by
  have hending : ∀ {o : Outcome} {u v : TargetEngine}, RemoteInput.announced u.out = RemoteInput.announced s.out →
      RemoteInput.announced v.out = RemoteInput.announced s.out →
      ∀ t, ending o u v = .ok t ∨ ending o u v = .raised t ∨ ending o u v = .refused t →
        RemoteInput.announced t.out = RemoteInput.announced s.out := by
    intro o u v hu hv t ht
    unfold ending at ht
    split at ht
    · rcases ht with ht | ht | ht <;> cases ht
      exact hu
    · rcases ht with ht | ht | ht <;> cases ht
      exact hv
  cases h with
  | refused reason => rintro t (ht | ht | ht) <;> cases ht; simp
  | pressKey | releaseKey | pressButton | releaseButton | move | scroll => exact hending (by simp) (by simp)
  | nothing => rintro t (ht | ht | ht) <;> cases ht; rfl

/-- A frame is announced only when it is an `ACTIVATE` that starts its epoch. -/
theorem BodyCase.announced {r : TargetEngine × Bool} (h : BodyCase env item age s r) :
    announced r.1.out = announced s.out ∨ item.event.op = .activate ∧ item.event.epoch ≠ 0 ∧ r.2 = false ∧
      r.1.epoch = item.event.epoch ∧ announced r.1.out = announced s.out ++ [.activated item.event.epoch] := by
  cases h with
  | idle => exact .inl rfl
  | stale => exact .inl (by simp)
  | activate _ _ hop =>
      unfold TargetEngine.activate
      split
      · exact .inl (by simp)
      rename_i hc
      push Not at hc
      split
      · exact .inl rfl
      · exact .inr ⟨hop, hc.1, rfl, rfl, by simp⟩
  | probe => exact .inl (by simp)
  | calibrate => exact .inl (by simp)
  | input =>
      left
      have hc := inputFrame_cases env item age s
      generalize s.inputFrame env item age = r at hc
      cases hc with
      | silent => simp
      | heartbeat => simp
      | raised t _ hi => exact hi.announced t (.inr (.inl rfl))
      | refused t _ hi => exact hi.announced t (.inr (.inr rfl))
      | ok t _ hi => rw [announced_acknowledge]; exact hi.announced t (.inl rfl)

theorem processItem_announced (env : Env) (item : Item) (age : Time) (s : TargetEngine) :
    announced (s.processItem env item age).1.out = announced s.out ∨
      item.event.op = .activate ∧ item.event.epoch ≠ 0 ∧ (s.processItem env item age).1.epoch = item.event.epoch ∧
        announced (s.processItem env item age).1.out = announced s.out ++ [.activated item.event.epoch] := by
  rcases processItem_cases env item age s with ⟨t, ht, he⟩ | ⟨t, ht, he⟩
  · rw [he]
    rcases ht.announced with h | ⟨h1, h2, _, h3, h4⟩
    · exact .inl h
    · exact .inr ⟨h1, h2, h3, h4⟩
  · rw [he]
    rcases ht.announced with h | ⟨_, _, h, _⟩
    · exact .inl (by simpa using h)
    · cases h

theorem tick_announced (bits : Nat) (s : TargetEngine) : announced (s.tick env bits).1.out = announced s.out := by
  simp only [tick]
  refine checkPermission_induction (P := fun u => announced u.out = announced s.out) (fun _ _ h => by simpa using h) ?_
  refine heartbeatExpired_induction (P := fun u => announced u.out = announced s.out) (fun _ _ h => by simpa using h) ?_
  unfold issueChallenge
  split
  · simp [pruneLeases]
  · rfl

/-- The session and what is held stay as they are, and nothing is injected or announced. -/
structure Still (s t : TargetEngine) : Prop where
  epoch : t.epoch = s.epoch
  seq : t.seq = s.seq
  held : t.held = s.held
  calls : injected t.out = []
  announced : announced t.out = []

end TargetEngine

/-! ## One operation -/

/-- The item in the worker's hand. -/
def Register.items : Register → List Item
  | .popped item _ => [item]
  | .idle | .overloaded => []

namespace EngineThreads

variable {p p' : EngineThreads} {op : ThreadOp}

/-- What the engine still has to process, oldest first. -/
def items (p : EngineThreads) : List Item := p.register.items ++ p.engine.queue.items

/-- What one operation does, from `p` to `p'`. -/
inductive ThreadCase (p : EngineThreads) (op : ThreadOp) (p' : EngineThreads) : Prop where
  | received (env : Env) (event : Event) (hop : op = .receive env event) (hr : event.op ≠ .reset)
      (hok : (p.engine.queue.put env.now event).ok = true)
      (hq : p'.engine.queue = (p.engine.queue.put env.now event).queue) (hreg : p'.register = p.register)
      (hs : p.engine.Still p'.engine)
  | popped (env : Env) (hop : op = .pop env) (hitems : p'.items = p.items) (hs : p.engine.Still p'.engine)
  | processed (env : Env) (item : Item) (age : Time) (hop : op = .body env) (hreg : p.register = .popped item age)
      (hidle : p'.register = .idle)
      (hrest : p'.engine.queue.items = p.engine.queue.items ∨ p'.engine.queue.items = [])
      (hframe : item.parts ≠ [] → TargetEngine.FrameCase env item { p.engine with out := [] } p'.engine)
      (hsession : TargetEngine.SessionCase env item.event p.engine p'.engine)
      (hann : announced p'.engine.out = [] ∨ item.event.op = .activate ∧ item.event.epoch ≠ 0 ∧
        p'.engine.epoch = item.event.epoch ∧ announced p'.engine.out = [.activated item.event.epoch])
  | other (hreg : p'.register.items = p.register.items)
      (hq : p'.engine.queue.items = [] ∨ p'.engine.queue = p.engine.queue)
      (hs : p'.engine.epoch = 0 ∨ p'.engine.epoch = p.engine.epoch ∧ p'.engine.seq = p.engine.seq ∧
        p'.engine.held = p.engine.held)
      (hin : injected p'.engine.out = []) (hann : announced p'.engine.out = [])
      (hnet : ∀ env, (∃ event, op = .receive env event) ∨ op = .peerChanged env → p'.engine.epoch = 0)

theorem other_of_reset {s : TargetEngine} {register : Register} (env : Env) (reason : String)
    (hreg : register.items = p.register.items) (hin : injected s.out = []) (hann : announced s.out = []) :
    ThreadCase p op ⟨s.reset env reason, register⟩ :=
  .other hreg (.inl (by simp [InputQueue.clear])) (.inl (by simp)) (by simpa using hin) (by simpa using hann)
    (fun _ _ => by simp)

theorem pop_cases {env : Env} (hidle : p.register = .idle) :
    ThreadCase p (.pop env) (pop env { p.engine with out := [] }) := by
  have hc := p.engine.queue.pop_cases env.popNow
  unfold pop
  dsimp only
  generalize p.engine.queue.pop env.popNow = r at hc
  have hsame : ∀ q reg, reg.items = p.register.items → q.items = [] ∨ q = p.engine.queue →
      ThreadCase p (.pop env) ⟨{ p.engine with out := [], queue := q }, reg⟩ :=
    fun q reg hreg hq => .other hreg hq (.inr ⟨rfl, rfl, rfl⟩) rfl rfl (by simp)
  cases hc with
  | failed => exact hsame _ _ (by rw [hidle]; rfl) (.inr rfl)
  | empty => exact hsame _ _ (by rw [hidle]) (.inr rfl)
  | expired => exact hsame _ _ (by rw [hidle]; rfl) (.inl rfl)
  | item it rest _ hq =>
      exact .popped env rfl (by simp [items, hidle, Register.items, hq]) ⟨rfl, rfl, rfl, rfl, rfl⟩

theorem body_cases {env : Env} {s : TargetEngine} (h : body env { p.engine with out := [] } p.register = some s) :
    ThreadCase p (.body env) ⟨s, .idle⟩ := by
  unfold body at h
  split at h
  · cases h
  · rename_i hreg
    cases h
    exact other_of_reset env _ (by rw [hreg]; rfl) rfl rfl
  · rename_i item age hreg
    cases h
    refine .processed env item age rfl hreg rfl ?_ (fun hp => TargetEngine.processItem_frame env item age _ hp) ?_ ?_
    · rcases (TargetEngine.keeps_processItem env item age { p.engine with out := [] }).queue with hk | hk
      · exact .inl (by rw [hk])
      · exact .inr (by rw [hk]; rfl)
    · exact (TargetEngine.processItem_session env item age _).congr rfl rfl rfl rfl rfl rfl
    · simpa using TargetEngine.processItem_announced env item age { p.engine with out := [] }

theorem step_cases (h : p.step op = some p') : ThreadCase p op p' := by
  cases op with
  | receive env event =>
      simp only [step, TargetEngine.receive] at h
      split at h
      · cases h; exact other_of_reset env _ rfl rfl rfl
      rename_i hr
      split at h
      · rename_i hok
        cases h; exact .received env event rfl hr hok rfl rfl ⟨rfl, rfl, rfl, rfl, rfl⟩
      · cases h; exact other_of_reset env _ rfl rfl rfl
  | peerChanged env =>
      cases h
      exact .other rfl (.inl (by simp [TargetEngine.peerChanged, InputQueue.clear]))
        (.inl (by simp [TargetEngine.peerChanged])) (by simp [TargetEngine.peerChanged])
        (by simp [TargetEngine.peerChanged]) (fun _ _ => by simp [TargetEngine.peerChanged])
  | setConnected env value => cases h; exact other_of_reset env _ rfl rfl rfl
  | reset env reason => cases h; exact other_of_reset env _ rfl rfl rfl
  | tick env bits =>
      simp only [step] at h
      split at h
      · cases h
        have hn := TargetEngine.noFrame_tick env bits { p.engine with out := [] }
        refine .other rfl hn.queue hn.session hn.calls ?_ (by simp)
        exact TargetEngine.tick_announced bits { p.engine with out := [] }
      · cases h
  | pop env =>
      simp only [step] at h
      split at h
      · rename_i hidle; cases h; exact pop_cases hidle
      · cases h
  | body env =>
      obtain ⟨s, hs, rfl⟩ := Option.map_eq_some_iff.mp h
      exact body_cases hs

end EngineThreads

end RemoteInput
