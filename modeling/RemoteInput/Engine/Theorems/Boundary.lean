import RemoteInput.Engine.Lemmas.Threads
import RemoteInput.Lib.Runs

/-!
# Nothing crosses a boundary
-/

namespace RemoteInput

namespace TargetEngine

variable {env : Env} {item : Item} {age : Time} {s t : TargetEngine}

/-- `event` is a heartbeat that `process_one` takes for the estimate of a paused connection. -/
def calibrates (env : Env) (event : Event) (s : TargetEngine) : Prop :=
  event.op = .heartbeat ∧ event.epoch = 0 ∧ s.blocked = false ∧ s.connected = true ∧
    s.validLease event.lease env.now networkTimeoutMax ∧ ∃ issued ∈ s.leases event.lease, s.lastEchoIssued < issued

/-! ## One frame while paused -/

theorem rejectStale_network (event : Event) (limit : Time) : (s.rejectStale env event limit).network = s.network := by
  unfold rejectStale
  dsimp only
  split
  · split <;> simp [emit, status]
  · simp

/-- Of the frames processed while paused only two kinds leave a trace. -/
theorem BodyCase.paused {r : TargetEngine × Bool} (h : BodyCase env item age s r) (he : s.epoch = 0)
    (ha : ¬ s.activates env item.event) :
    r.1.epoch = 0 ∧ RemoteInput.announced r.1.out = RemoteInput.announced s.out ∧
      (¬ s.calibrates env item.event → r.1.network = s.network) := by
  cases h with
  | idle => exact ⟨he, rfl, fun _ => rfl⟩
  | stale => exact ⟨(rejectStale_frame ..).1, announced_rejectStale _ _, fun _ => rejectStale_network _ _⟩
  | activate hb hc hop hv =>
      rcases activate_cases hb hc hop hv ha with h | h <;> rw [h]
      · exact ⟨he, announced_paused _ s, fun _ => rfl⟩
      · exact ⟨he, rfl, fun _ => rfl⟩
  | probe => exact ⟨he, announced_ack _ _ _ s, fun _ => rfl⟩
  | calibrate hop _ hb hc hi hv =>
      obtain ⟨h1, _, _, _, h2⟩ := observeHeartbeat_frame (s := s) item.event env.now
      refine ⟨h1.trans he, by rw [h2], fun hn => ?_⟩
      obtain ⟨issued, hl, _⟩ := id hv
      rcases observeHeartbeat_cases env.now hl with ⟨_, ho⟩ | ⟨hlt, _⟩
      · rw [ho]
      · refine absurd ⟨hop, ?_, hb, hc, hv, issued, hl, hlt⟩ hn
        by_contra h0
        refine hi ⟨by simp [hop], ?_⟩
        rw [if_neg fun h => h0 h.2]
        exact .inr (.inl he)
  | input _ _ _ hn => exact absurd he hn

theorem processItem_paused (age : Time) (he : s.epoch = 0) (ha : ¬ s.activates env item.event) :
    (s.processItem env item age).1.epoch = 0 ∧ announced (s.processItem env item age).1.out = announced s.out ∧
      (¬ s.calibrates env item.event → (s.processItem env item age).1.network = s.network) := by
  rcases processItem_cases env item age s with ⟨t, ht, heq⟩ | ⟨t, ht, heq⟩
  · rw [heq]; exact ht.paused he ha
  · obtain ⟨_, h2, h3⟩ := ht.paused he ha
    rw [heq]
    exact ⟨by simp, by simpa using h2, fun hn => by simpa using h3 hn⟩

theorem processItem_calibrates (age : Time) (he : s.epoch = 0) (hn : s.network = {}) (hc : s.calibrates env item.event) :
    (s.processItem env item age).1.network ≠ {} := by
  obtain ⟨hop, h0, hb, hcon, hv, issued, hl, hlt⟩ := hc
  have hlimit : s.tokenLimit item.event = networkTimeoutMax := if_pos ⟨hop, he⟩
  have hbody : s.lockedBody env item age = (s.observeHeartbeat item.event env.now, false) := by
    simp only [lockedBody, hb, hcon, hlimit, hv]
    simp [ignores, hop, h0, he]
  obtain ⟨issued', hl', hpos, hmax⟩ := hv
  cases Option.some.inj (hl'.symm.trans hl)
  unfold processItem
  rw [hbody]
  show (s.observeHeartbeat item.event env.now).network ≠ {}
  rcases observeHeartbeat_cases env.now hl with ⟨hle, _⟩ | ⟨_, ho⟩
  · exact absurd hle (not_le.mpr hlt)
  · rw [ho, hn]
    show (NetworkTiming.observe {} (env.now - issued)).1 ≠ {}
    unfold NetworkTiming.observe
    rw [if_neg (not_not.mpr ⟨hpos, hmax⟩)]
    simp

end TargetEngine

/-! ## Boundaries -/

/-- `peer_changed`, `set_connected`, and the frame `RESET`. -/
def ThreadOp.isBoundary : ThreadOp → Bool
  | .peerChanged _ | .setConnected _ _ => true
  | .receive _ event => decide (event.op = .reset)
  | _ => false

/-- `peer_changed` and `set_connected`. -/
def ThreadOp.changesPeer : ThreadOp → Bool
  | .peerChanged _ | .setConnected _ _ => true
  | _ => false

namespace EngineThreads

variable {p p' : EngineThreads} {b op : ThreadOp} {more : List ThreadOp}

/-- The engine after the boundary `b` and the operations `more`, until the worker pops again: it is paused and announces
nothing, the estimate of a new peer is fresh, and what the queue holds has been received since. -/
structure Silent (b : ThreadOp) (more : List ThreadOp) (p : EngineThreads) : Prop where
  epoch : p.engine.epoch = 0
  announced : announced p.engine.out = []
  network : b.changesPeer = true → p.engine.network = {}
  later : ∀ item ∈ p.engine.queue.items, ∀ event ∈ item.parts, ∃ env, .receive env event ∈ more

/-- After every boundary of the run. -/
def NothingCrosses (ops : List ThreadOp) : Prop :=
  ∀ before b more after p, ops = before ++ b :: more ++ after → b.isBoundary = true → (∀ env, .pop env ∉ more) →
    Runs.exec step {} (before ++ b :: more) = some p → p.Silent b more

/-- The worker has taken a frame before the boundary, and its checks let it pass now. -/
def Crosses (b : ThreadOp) (env : Env) (p : EngineThreads) : Prop :=
  ∃ item age, p.register = .popped item age ∧
    (p.engine.activates env item.event ∨ b.changesPeer = true ∧ p.engine.calibrates env item.event)

theorem silent_of_boundary (hb : b.isBoundary = true) (hs : p.step b = some p') : p'.Silent b [] := by
  cases b with
  | receive env event =>
      have hop : event.op = .reset := by simpa [ThreadOp.isBoundary] using hb
      simp only [step, TargetEngine.receive, if_pos hop] at hs
      cases hs
      exact ⟨by simp, by simp, by simp [ThreadOp.changesPeer], by simp [InputQueue.clear]⟩
  | peerChanged env =>
      cases hs
      exact ⟨by simp [TargetEngine.peerChanged], by simp [TargetEngine.peerChanged],
        fun _ => by simp [TargetEngine.peerChanged], by simp [TargetEngine.peerChanged, InputQueue.clear]⟩
  | setConnected env value =>
      cases hs
      exact ⟨by simp [TargetEngine.setConnected], by simp [TargetEngine.setConnected],
        fun _ => by simp [TargetEngine.setConnected], by simp [TargetEngine.setConnected, InputQueue.clear]⟩
  | reset | tick | pop | body => cases hb

/-! ## One operation after a boundary -/

theorem later_put {q : InputQueue} {env : Env} {event : Event}
    (h : ∀ item ∈ q.items, ∀ event ∈ item.parts, ∃ env, .receive env event ∈ more) :
    ∀ item ∈ (q.put env.now event).queue.items, ∀ x ∈ item.parts, ∃ env', .receive env' x ∈ more ++
    [.receive env event] := by
  have hold : ∀ item ∈ q.items, ∀ x ∈ item.parts, ∃ env', .receive env' x ∈ more ++ [.receive env event] := by
    intro item hi x hx
    obtain ⟨env', hm⟩ := h item hi x hx
    exact ⟨env', List.mem_append_left _ hm⟩
  have hnew : ∃ env', .receive env' event ∈ more ++ [.receive env event] := ⟨env, by simp⟩
  have hc := q.put_cases env.now event
  generalize (q.put env.now event).queue = q', (q.put env.now event).ok = ok at hc
  cases hc with
  | refused => exact hold
  | failed => intro item hi; cases hi
  | merged init last _ hq =>
      intro item hi x hx
      rcases List.mem_append.mp hi with hi | hi
      · exact hold item (hq ▸ List.mem_append_left _ hi) x hx
      · rw [List.mem_singleton.mp hi] at hx
        rcases List.mem_append.mp hx with hx | hx
        · exact hold last (hq ▸ List.mem_append_right _ List.mem_cons_self) x hx
        · rw [List.mem_singleton.mp hx]; exact hnew
  | appended =>
      intro item hi x hx
      rcases List.mem_append.mp hi with hi | hi
      · exact hold item hi x hx
      · rw [List.mem_singleton.mp hi] at hx
        rw [List.mem_singleton.mp hx]; exact hnew

theorem tick_network (env : Env) (bits : Nat) (s : TargetEngine) : (s.tick env bits).1.network = s.network := by
  simp only [TargetEngine.tick]
  refine TargetEngine.checkPermission_induction (P := fun u => u.network = s.network) (fun _ _ h => by simpa using h) ?_
  refine TargetEngine.heartbeatExpired_induction (P := fun u => u.network = s.network) (fun _ _ h => by simpa using h) ?_
  unfold TargetEngine.issueChallenge
  split <;> rfl

/-- While paused a tick does not activate. -/
theorem tick_epoch (env : Env) (bits : Nat) {s : TargetEngine} (he : s.epoch = 0) : (s.tick env bits).1.epoch = 0 := by
  rcases TargetEngine.tick_session env bits s with ⟨h, _⟩ | ⟨h, _⟩
  · exact h
  · exact h.trans he

theorem Silent.weaken (h : p.Silent b more) {queue : InputQueue}
    (hq : queue.items = [] ∨ queue.items = p.engine.queue.items) :
    ∀ item ∈ queue.items, ∀ event ∈ item.parts, ∃ env, .receive env event ∈ more ++ [op] := by
  intro item hi event he
  rcases hq with hq | hq
  · rw [hq] at hi; cases hi
  · obtain ⟨env, hm⟩ := h.later item (hq ▸ hi) event he
    exact ⟨env, List.mem_append_left _ hm⟩

/-- A reset, with any register. -/
theorem Silent.reset (h : p.Silent b more) {register : Register} (env : Env) (reason : String) :
    Silent b (more ++ [op]) ⟨({ p.engine with out := [] } : TargetEngine).reset env reason, register⟩ :=
  ⟨by simp, by simp, fun hb => by simpa using h.network hb, h.weaken (.inl (by simp [InputQueue.clear]))⟩

theorem Silent.step (h : p.Silent b more) (hpop : ∀ env, op ≠ .pop env)
    (hcross : ∀ env, op = .body env → ¬ p.Crosses b env) (hs : p.step op = some p') : p'.Silent b (more ++ [op]) := by
  cases op with
  | receive env event =>
      simp only [EngineThreads.step, TargetEngine.receive] at hs
      split at hs
      · cases hs; exact h.reset env _
      split at hs
      · cases hs; exact ⟨h.epoch, rfl, h.network, later_put h.later⟩
      · cases hs
        exact ⟨by simp, by simp, fun hb => by simpa using h.network hb, by simp [InputQueue.clear]⟩
  | peerChanged env =>
      cases hs
      exact ⟨by simp [TargetEngine.peerChanged], by simp [TargetEngine.peerChanged],
        fun _ => by simp [TargetEngine.peerChanged], by simp [TargetEngine.peerChanged, InputQueue.clear]⟩
  | setConnected env value =>
      cases hs
      exact ⟨by simp [TargetEngine.setConnected], by simp [TargetEngine.setConnected],
        fun _ => by simp [TargetEngine.setConnected], by simp [TargetEngine.setConnected, InputQueue.clear]⟩
  | reset env reason => cases hs; exact h.reset env reason
  | tick env bits =>
      simp only [EngineThreads.step] at hs
      split at hs
      · cases hs
        have hq := (TargetEngine.noFrame_tick env bits { p.engine with out := [] }).queue
        refine ⟨tick_epoch env bits h.epoch, TargetEngine.tick_announced bits _, fun hb => ?_, h.weaken ?_⟩
        · exact (tick_network env bits _).trans (h.network hb)
        · exact hq.imp id fun he => by rw [he]
      · cases hs
  | pop env => exact absurd rfl (hpop env)
  | body env =>
      obtain ⟨s, hbody, rfl⟩ := Option.map_eq_some_iff.mp hs
      unfold EngineThreads.body at hbody
      split at hbody
      · cases hbody
      · cases hbody; exact h.reset env _
      · rename_i item age hreg
        cases hbody
        have hn := hcross env rfl
        have ha : ¬ TargetEngine.activates env item.event { p.engine with out := [] } :=
          fun ha => hn ⟨item, age, hreg, .inl ha⟩
        obtain ⟨h1, h2, h3⟩ := TargetEngine.processItem_paused age (s := { p.engine with out := [] }) h.epoch ha
        refine ⟨h1, h2, fun hb => ?_, h.weaken ?_⟩
        · exact (h3 fun hc => hn ⟨item, age, hreg, .inr ⟨hb, hc⟩⟩).trans (h.network hb)
        · rcases (TargetEngine.keeps_processItem env item age { p.engine with out := [] }).queue with hk | hk
          · exact .inr (by rw [hk])
          · exact .inl (by rw [hk]; rfl)

/-- A frame that crosses breaks the silence. -/
theorem Silent.crossed (h : p.Silent b more) {env : Env} (hc : p.Crosses b env) :
    ∃ p', p.step (.body env) = some p' ∧ ¬ p'.Silent b (more ++ [.body env]) := by
  obtain ⟨item, age, hreg, hc⟩ := hc
  have hs :
      p.step (.body env) = some ⟨(({ p.engine with out := [] } : TargetEngine).processItem env item age).1, .idle⟩ := by
    simp [EngineThreads.step, EngineThreads.body, hreg]
  refine ⟨_, hs, fun hsilent => ?_⟩
  rcases hc with ha | ⟨hb, hc⟩
  · have he := (TargetEngine.processItem_activates age (s := { p.engine with out := [] }) ha).1
    exact ha.2.2.2.2.1 (he.symm.trans hsilent.epoch)
  · exact TargetEngine.processItem_calibrates age (s := { p.engine with out := [] }) h.epoch (h.network hb) hc
      (hsilent.network hb)

/-! ## Runs -/

/-- Nothing crosses the boundaries of a run exactly if the worker never processes a frame that it took before a boundary and
that passes the checks of an activation, or of a heartbeat while paused if the boundary is a change of the peer. -/
theorem nothing_crosses_iff (ops : List ThreadOp) : NothingCrosses ops ↔
    ∀ before b more env after p, ops = before ++ b :: more ++ .body env :: after → b.isBoundary = true →
      (∀ env, .pop env ∉ more) → Runs.exec step {} (before ++ b :: more) = some p → ¬ p.Crosses b env := by
  constructor
  · intro h before b more env after p he hb hpop hs hc
    have hsilent := h before b more (.body env :: after) p he hb hpop hs
    obtain ⟨p', hs', hn⟩ := hsilent.crossed hc
    refine hn (h before b (more ++ [.body env]) after p' (by simp [he]) hb (by simpa using hpop) ?_)
    rw [← List.cons_append, ← List.append_assoc]
    exact Runs.exec_concat.mpr ⟨p, hs, hs'⟩
  · intro h before b more
    induction more using List.reverseRecOn with
    | nil =>
        intro after p _ hb _ hs
        obtain ⟨p₀, _, hs⟩ := Runs.exec_concat.mp hs
        exact silent_of_boundary hb hs
    | append_singleton more op ih =>
        intro after p he hb hpop hs
        rw [← List.cons_append, ← List.append_assoc] at hs
        obtain ⟨p₀, h₀, hs⟩ := Runs.exec_concat.mp hs
        have hpop' : ∀ env, .pop env ∉ more := fun env hm => hpop env (List.mem_append_left _ hm)
        refine (ih (op :: after) p₀ (by simp [he]) hb hpop' h₀).step (fun env ho => hpop env (by simp [ho])) ?_ hs
        rintro env rfl
        exact h before b more env after p₀ (by simp [he]) hb hpop' h₀

/-- A challenge, and an `ACTIVATE` with its token that the worker has taken when the peer changes. -/
def overtaken : List ThreadOp :=
  [.setConnected { now := 1 } true, .tick { now := 1 } 5,
    .receive { now := 1 } { op := .activate, epoch := 7, seq := 1, lease := 5 }, .pop { now := 1 },
    .peerChanged { now := 1 }, .body { now := 1 }]

theorem activated_after_boundary : ¬ NothingCrosses overtaken := by
  intro h
  obtain ⟨p, hp⟩ : ∃ p, Runs.exec step {} overtaken = some p := Option.isSome_iff_exists.mp (by decide +kernel)
  have he : (Runs.exec step {} overtaken).map (fun (p : EngineThreads) => p.engine.epoch) = some 7 := by decide +kernel
  have hs :=
    h (overtaken.take 4) (.peerChanged { now := 1 }) [.body { now := 1 }] [] p (by simp [overtaken]) rfl (by simp) hp
  rw [hp, Option.map_some, hs.epoch] at he
  cases he

end EngineThreads

end RemoteInput
