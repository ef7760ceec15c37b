import RemoteInput.Engine.Lemmas.Blocked
import RemoteInput.Engine.Lemmas.Holds

/-!
# A failed release blocks control
-/

namespace RemoteInput

/-- The last call for `k` is a release by `reset` that raised. -/
def LeftOver (call : Int → Bool → Call) (k : Int) (history : List Out) : Prop :=
  ∃ before took after, history = before ++ .call (call k false) (.raised took) [] :: after ∧
    ∀ down o parts, .call (call k down) o parts ∉ after

/-- The injector raises in one of the calls, made one after another. -/
def Env.refuses (env : Env) : List Call → List Out → Bool
  | [], _ => false
  | c :: calls, out => (env.perform out c).isRaised || env.refuses calls (out ++ [.call c (env.perform out c) []])

namespace TargetEngine

variable {env : Env} {item : Item} {s t : TargetEngine} {op : EngineOp} {history : List Out}

/-- The releases of everything that is held. -/
def heldCalls (s : TargetEngine) : List Call :=
  s.keys.elems.map (fun k => .key k false) ++ s.buttons.elems.map (fun b => .button b false)

/-- Something is tracked only because its release raised. -/
def KeepsLeftOver (history : List Out) (s : TargetEngine) : Prop :=
  (∃ k ∈ s.keys, LeftOver .key k history) ∨ ∃ b ∈ s.buttons, LeftOver .button b history

/-- Control is blocked from here on: whatever happens, nothing is activated and only releases are made; what is held stays
tracked until its release succeeds, and every tick tries again. -/
structure Blocks (s : TargetEngine) : Prop where
  epoch : s.epoch = 0
  blocked : s.blocked = true
  announced : ∀ ops e, .emit (.activated e) ∉ s.history ops
  calls : ∀ ops c o parts, .call c o parts ∈ s.history ops → c.isRelease = true
  kept : ∀ ops op,
    (∀ k ∈ (s.exec ops).keys, k ∉ ((s.exec ops).step op).keys → .call (.key k false) .done [] ∈ ((s.exec ops).step op).out) ∧
    ∀ b ∈ (s.exec ops).buttons, b ∉ ((s.exec ops).step op).buttons →
      .call (.button b false) .done [] ∈ ((s.exec ops).step op).out
  retried : ∀ ops env bits,
    (∀ k ∈ (s.exec ops).keys, ∃ o, .call (.key k false) o [] ∈ ((s.exec ops).step (.tick env bits)).out) ∧
    ∀ b ∈ (s.exec ops).buttons, ∃ o, .call (.button b false) o [] ∈ ((s.exec ops).step (.tick env bits)).out

/-- An `ACTIVATE` is about to pass every check while the injector raises in a release of its reset. -/
def FailedHandover (s : TargetEngine) (op : EngineOp) : Prop :=
  ∃ env item, op = .processOne env ∧ s.popped env = some item ∧ s.activates env item.event ∧
    env.refuses s.heldCalls [] = true

/-! ## From a blocked state on -/

theorem blocked_exec (he : s.epoch = 0) (hb : s.blocked = true) (ops : List EngineOp) :
    (s.exec ops).epoch = 0 ∧ (s.exec ops).blocked = true := by
  refine exec_induction (P := fun s => s.epoch = 0 ∧ s.blocked = true) ?_ ⟨he, hb⟩ ops
  rintro s op ⟨he, hb⟩
  have hj := step_of_blocked hb op
  exact ⟨hj.epoch he, hj.blocked hb⟩

theorem blocks_of_blocked (he : s.epoch = 0) (hb : s.blocked = true) : s.Blocks := by
  have hone : ∀ ops op, ∃ new, ((s.exec ops).step op).out = [] ++ new ∧ RemoteInput.announced new = [] ∧
      (∀ c o parts, .call c o parts ∈ new → c.isRelease = true) ∧
      (∀ k, k ∈ ((s.exec ops).step op).keys ↔ k ∈ (s.exec ops).keys ∧ .call (.key k false) .done [] ∉ new) ∧
      ∀ b, b ∈ ((s.exec ops).step op).buttons ↔ b ∈ (s.exec ops).buttons ∧ .call (.button b false) .done [] ∉ new := by
    intro ops op
    obtain ⟨he', hb'⟩ := blocked_exec he hb ops
    exact (step_of_blocked hb' op).effects he'
  have hall : ∀ ops, ∀ x ∈ s.history ops, (∀ e, x ≠ .emit (.activated e)) ∧
      ∀ c o parts, x = .call c o parts → c.isRelease = true := by
    intro ops
    induction ops using List.reverseRecOn with
    | nil => intro x hx; cases hx
    | append_singleton ops op ih =>
        intro x hx
        rw [history_concat] at hx
        rcases List.mem_append.mp hx with hx | hx
        · exact ih x hx
        · obtain ⟨new, ho, ha, hc, _⟩ := hone ops op
          rw [ho, List.nil_append] at hx
          refine ⟨?_, ?_⟩
          · rintro e rfl
            have : Message.activated e ∈ RemoteInput.announced new := mem_announced.mpr ⟨hx, rfl⟩
            rw [ha] at this; cases this
          · rintro c o parts rfl; exact hc c o parts hx
  refine ⟨he, hb, fun ops e hm => (hall ops _ hm).1 e rfl, fun ops c o parts hm => (hall ops _ hm).2 c o parts rfl,
    fun ops op => ?_, fun ops env bits => ?_⟩
  · obtain ⟨new, ho, _, _, hk, hbu⟩ := hone ops op
    rw [ho, List.nil_append]
    constructor
    · intro k hmem hn
      by_contra hd
      exact hn ((hk k).mpr ⟨hmem, hd⟩)
    · intro b hmem hn
      by_contra hd
      exact hn ((hbu b).mpr ⟨hmem, hd⟩)
  · exact tick_retries (s := { s.exec ops with out := [] }) (blocked_exec he hb ops).1 bits

/-! ## Releases that the injector refuses -/

theorem releaseEach_refuses (env : Env) (call : Int → Bool → Call) (xs : List Int) (r : Release) (rest : List Call) :
    (env.refuses (xs.map (fun x => call x false) ++ rest) r.out = true ↔
      env.refuses (xs.map (fun x => call x false)) r.out = true ∨ env.refuses rest (releaseEach env call xs r).out = true) ∧
    ((releaseEach env call xs r).blocked = true ↔
      r.blocked = true ∨ env.refuses (xs.map (fun x => call x false)) r.out = true) := by
  induction xs generalizing r with
  | nil => simp [Env.refuses, releaseEach]
  | cons x xs ih =>
      simp only [releaseEach, List.map_cons, List.cons_append, Env.refuses, Bool.or_eq_true]
      cases ho : (env.perform r.out (call x false)).isRaised with
      | true =>
          obtain ⟨h1, h2⟩ :=
            ih { r with blocked := true, out := r.out ++ [.call (call x false) (env.perform r.out (call x false)) []] }
          simp only [if_true]
          exact ⟨by simp, by rw [h2]; simp⟩
      | false =>
          obtain ⟨h1, h2⟩ :=
            ih { r with held := r.held.discard x,
                        out := r.out ++ [.call (call x false) (env.perform r.out (call x false)) []] }
          simp only [Bool.false_eq_true, if_false, false_or]
          exact ⟨h1, h2⟩

theorem reset_refuses (env : Env) (reason : String) (s : TargetEngine) :
    (s.reset env reason).blocked = true ↔ s.blocked = true ∨ env.refuses s.heldCalls s.out = true := by
  obtain ⟨_, _, hb, _⟩ := s.reset_eq env reason
  obtain ⟨h1, h2⟩ := releaseEach_refuses env .key s.keys.elems ⟨s.keys, s.blocked, s.out⟩
    (s.buttons.elems.map fun b => .button b false)
  obtain ⟨_, h3⟩ := releaseEach_refuses env .button s.buttons.elems
    ⟨s.buttons, (releaseEach env .key s.keys.elems ⟨s.keys, s.blocked, s.out⟩).blocked,
      (releaseEach env .key s.keys.elems ⟨s.keys, s.blocked, s.out⟩).out⟩ []
  rw [hb, heldCalls, h1]
  exact h3.trans (by rw [h2, or_assoc])

/-- The release of `x` that raised is the last call for it. -/
theorem leftOver_of_releaseCalls {call : Int → Bool → Call} (hinj : ∀ x y c d, call x c = call y d → x = y)
    {outcome : Int → Outcome} {xs : List Int} (hx : xs.Nodup) {x : Int} (hmem : x ∈ xs) (hr : (outcome x).isRaised = true)
    {more : List Out} (hmore : ∀ down o parts, .call (call x down) o parts ∉ more) :
    LeftOver call x (history ++ (releaseCalls call outcome xs ++ more)) := by
  obtain ⟨before, after, rfl⟩ := List.append_of_mem hmem
  obtain ⟨took, ho⟩ : ∃ took, outcome x = .raised took := by
    cases ho : outcome x with
    | done => rw [ho] at hr; cases hr
    | raised took => exact ⟨took, rfl⟩
  refine ⟨history ++ releaseCalls call outcome before, took, releaseCalls call outcome after ++ more, ?_, ?_⟩
  · simp [releaseCalls, ho]
  · intro down o parts hm
    rcases List.mem_append.mp hm with hm | hm
    · obtain ⟨y, hy, he⟩ := mem_releaseCalls.mp hm
      have hxy : x = y := hinj _ _ _ _ (by injection he)
      rw [List.nodup_append] at hx
      exact (List.nodup_cons.mp hx.2.1).1 (hxy ▸ hy)
    · exact hmore down o parts hm

/-- A reset that leaves something tracked has just failed to release it. -/
theorem reset_leavesOver (history : List Out) (reason : String) (s : TargetEngine) (hb : s.blocked = false)
    (hr : (s.reset env reason).blocked = true)
    (ho : s.out = []) (more : List Out) (hmore : ∀ c o parts, .call c o parts ∉ more) :
    (∃ k ∈ (s.reset env reason).keys, LeftOver .key k (history ++ ((s.reset env reason).out ++ more))) ∨
      ∃ b ∈ (s.reset env reason).buttons, LeftOver .button b (history ++ ((s.reset env reason).out ++ more)) := by
  obtain ⟨f, g, hout, hk, hbu, hbl⟩ := s.reset_spec env reason
  have hreport : ∀ c o parts, .call c o parts ∉ s.resetReport reason ++ more := by
    intro c o parts hm
    rcases List.mem_append.mp hm with hm | hm
    · unfold resetReport at hm; split at hm <;> simp at hm
    · exact hmore c o parts hm
  rw [hbl, hb, Bool.false_or, Bool.or_eq_true, List.any_eq_true, List.any_eq_true] at hr
  rw [ho, List.nil_append] at hout
  rcases hr with ⟨k, hmem, hraised⟩ | ⟨b, hmem, hraised⟩
  · refine .inl ⟨k, (hk k).mpr ⟨hmem, hraised⟩, ?_⟩
    rw [hout, List.append_assoc, List.append_assoc]
    refine leftOver_of_releaseCalls (fun _ _ _ _ h => by injection h) s.keys.nodup hmem hraised ?_
    intro down o parts hm
    rcases List.mem_append.mp hm with hm | hm
    · obtain ⟨y, _, he⟩ := mem_releaseCalls.mp hm; cases he
    · exact hreport _ _ _ hm
  · refine .inr ⟨b, (hbu b).mpr ⟨hmem, hraised⟩, ?_⟩
    rw [hout, List.append_assoc, List.append_assoc, ← List.append_assoc history]
    exact leftOver_of_releaseCalls (fun _ _ _ _ h => by injection h) s.buttons.nodup hmem hraised
      fun down o parts => hreport _ _ _

/-! ## Leftover keys in a run -/

theorem mem_of_injected {outs : List Out} {c : Call} {parts : List Event} (h : (c, parts) ∈ injected outs) :
    ∃ o, .call c o parts ∈ outs := by
  obtain ⟨x, hx, he⟩ := List.mem_filterMap.mp h
  split at he
  · cases he; exact ⟨_, hx⟩
  · cases he

/-- What is tracked after an event was tracked before or is being pressed. -/
theorem held_inject (h : Held) (event : Event) :
    (∀ k ∈ (h.inject event).2.keys, k ∈ h.keys ∨ (h.inject event).1 = some (.key k true)) ∧
      ∀ b ∈ (h.inject event).2.buttons, b ∈ h.buttons ∨ (h.inject event).1 = some (.button b true) := by
  unfold Held.inject
  split
  · split
    · exact ⟨fun k hk => (PySet.mem_add.mp hk).imp id fun he => by rw [he], fun _ hb => .inl hb⟩
    · split
      · exact ⟨fun k hk => .inl (PySet.mem_discard.mp hk).1, fun _ hb => .inl hb⟩
      · exact ⟨fun _ hk => .inl hk, fun _ hb => .inl hb⟩
  · split
    · exact ⟨fun _ hk => .inl hk, fun b hb => (PySet.mem_add.mp hb).imp id fun he => by rw [he]⟩
    · split
      · exact ⟨fun _ hk => .inl hk, fun b hb => .inl (PySet.mem_discard.mp hb).1⟩
      · exact ⟨fun _ hk => .inl hk, fun _ hb => .inl hb⟩
  all_goals exact ⟨fun _ hk => .inl hk, fun _ hb => .inl hb⟩

/-- Without an activation and while a session goes on, what is tracked was tracked before or has been pressed. -/
theorem step_tracked (hparts : ∀ it ∈ s.queue.items, it.parts ≠ []) (he : (s.step op).epoch ≠ 0)
    (ha : ¬ ∃ env item, op = .processOne env ∧ s.popped env = some item ∧ s.activates env item.event) :
    (∀ k ∈ (s.step op).keys, k ∈ s.keys ∨ ∃ o parts, .call (.key k true) o parts ∈ (s.step op).out) ∧
      ∀ b ∈ (s.step op).buttons, b ∈ s.buttons ∨ ∃ o parts, .call (.button b true) o parts ∈ (s.step op).out := by
  have hsame : (s.step op).held = s.held →
      (∀ k ∈ (s.step op).keys, k ∈ s.keys ∨ ∃ o parts, .call (.key k true) o parts ∈ (s.step op).out) ∧
      ∀ b ∈ (s.step op).buttons, b ∈ s.buttons ∨ ∃ o parts, .call (.button b true) o parts ∈ (s.step op).out := by
    intro hh
    have hk : (s.step op).keys = s.keys := congrArg Held.keys hh
    have hb : (s.step op).buttons = s.buttons := congrArg Held.buttons hh
    exact ⟨fun k hm => .inl (hk ▸ hm), fun b hm => .inl (hb ▸ hm)⟩
  cases step_opCase s op with
  | received _ _ _ _ _ _ _ _ _ hh => exact hsame hh
  | none hn =>
      rcases hn.session with h | ⟨_, _, hh⟩
      · exact absurd h he
      · exact hsame hh
  | processed env item rest hop hp hq _ hf =>
      cases hf (hparts item (by rw [hq]; exact List.mem_cons_self)) with
      | ignored _ _ _ _ hh => exact hsame hh
      | ended h => exact absurd h he
      | activated h => exact absurd ⟨env, item, hop, hp, h⟩ ha
      | accepted _ _ hin hh =>
          obtain ⟨_, _, hh⟩ := hh.resolve_left he
          obtain ⟨hk, hb⟩ := held_inject s.held item.event
          have hcall : ∀ c, (s.held.inject item.event).1 = some c → ∃ o parts, .call c o parts ∈ (s.step op).out := by
            intro c hc
            have hm : (c, item.parts) ∈ injected (s.step op).out := by
              rw [hin]
              refine List.mem_append_right _ ?_
              rw [show ({ s with out := [], queue := { s.queue with items := rest } } : TargetEngine).held = s.held
                from rfl, hc]
              simp
            obtain ⟨o, ho⟩ := mem_of_injected hm
            exact ⟨o, item.parts, ho⟩
          constructor
          · intro k hm
            exact (hk k (congrArg Held.keys hh ▸ hm)).imp id (hcall _)
          · intro b hm
            exact (hb b (congrArg Held.buttons hh ▸ hm)).imp id (hcall _)

/-- A key left over after an operation without releases was left over before and has not been pressed. -/
theorem leftOver_before {call : Int → Bool → Call} {k : Int} {out : List Out} (h : LeftOver call k (history ++ out))
    (hr : resetCalls out = []) : LeftOver call k history ∧ ∀ o parts, .call (call k true) o parts ∉ out := by
  obtain ⟨before, took, after, he, hlast⟩ := h
  rcases List.append_eq_append_iff.mp he with ⟨mid, _, hout⟩ | ⟨mid, rfl, hmid⟩
  · have : call k false ∈ resetCalls out := mem_resetCalls (o := .raised took) (by rw [hout]; simp)
    rw [hr] at this; cases this
  · cases mid with
    | nil =>
        have : call k false ∈ resetCalls out :=
          mem_resetCalls (o := .raised took) (by rw [← List.nil_append out, ← hmid]; simp)
        rw [hr] at this; cases this
    | cons x mid =>
        obtain ⟨rfl, rfl⟩ := List.cons.inj hmid
        exact ⟨⟨before, took, mid, rfl, fun down o parts hm => hlast down o parts (List.mem_append_left _ hm)⟩,
          fun o parts hm => hlast true o parts (List.mem_append_right _ hm)⟩

/-- The invariant: a blocked engine is paused, and what is left over blocks it. -/
structure Sealed (history : List Out) (s : TargetEngine) : Prop where
  paused : s.blocked = true → s.epoch = 0
  blocked : s.KeepsLeftOver history → s.blocked = true

theorem Sealed.step (h : s.Sealed history) (hq : s.Quiet) (hparts : ∀ it ∈ s.queue.items, it.parts ≠ [])
    (hop : ¬ s.FailedHandover op) : (s.step op).Sealed (history ++ (s.step op).out) := by
  by_cases hb : s.blocked = true
  · have hj := step_of_blocked hb op
    exact ⟨fun _ => hj.epoch (h.paused hb), fun _ => hj.blocked hb⟩
  have hb : s.blocked = false := by simpa using hb
  by_cases ha : ∃ env item, op = .processOne env ∧ s.popped env = some item ∧ s.activates env item.event
  · obtain ⟨env, item, rfl, hp, ha⟩ := ha
    obtain ⟨age, rest, _, hs⟩ := step_processOne hp
    obtain ⟨_, hk, hbu, hbl, _⟩ := processItem_activates age
      (s := { s with out := [], queue := { s.queue with items := rest } }) ha
    have hfree :
        (({ s with out := [], queue := { s.queue with items := rest } } : TargetEngine).reset env "Paused").blocked =
        false := by
      by_contra hr
      rcases (reset_refuses env "Paused" _).mp (by simpa using hr) with hr | hr
      · exact absurd (hb.symm.trans hr) (by simp)
      · exact hop ⟨env, item, rfl, hp, ha, hr⟩
    obtain ⟨hk', hb'⟩ := reset_released env "Paused" _ hfree
    rw [hs]
    refine ⟨fun h' => absurd ((hbl.trans hfree).symm.trans h') (by simp), ?_⟩
    rintro (⟨k, hm, _⟩ | ⟨b, hm, _⟩)
    · rw [hk, hk'] at hm; exact absurd hm (by simp)
    · rw [hbu, hb'] at hm; exact absurd hm (by simp)
  rcases (step_unreset hparts op).resolve_left ha with he | ⟨hr, hbl⟩
  · refine ⟨fun _ => he, fun hl => ?_⟩
    by_contra hn
    obtain ⟨hk, hbu⟩ := hq.step op he (by simpa using hn)
    rcases hl with ⟨k, hm, _⟩ | ⟨b, hm, _⟩
    · rw [hk] at hm; exact absurd hm (by simp)
    · rw [hbu] at hm; exact absurd hm (by simp)
  · by_cases he : (s.step op).epoch = 0
    · refine ⟨fun _ => he, fun hl => ?_⟩
      by_contra hn
      obtain ⟨hk, hbu⟩ := hq.step op he (by simpa using hn)
      rcases hl with ⟨k, hm, _⟩ | ⟨b, hm, _⟩
      · rw [hk] at hm; exact absurd hm (by simp)
      · rw [hbu] at hm; exact absurd hm (by simp)
    · refine ⟨fun h' => absurd ((hbl.trans hb).symm.trans h') (by simp), fun hl => ?_⟩
      obtain ⟨hk, hbu⟩ := step_tracked hparts he ha
      rw [hbl]
      refine h.blocked ?_
      rcases hl with ⟨k, hm, hl⟩ | ⟨b, hm, hl⟩
      · obtain ⟨hl, hn⟩ := leftOver_before hl hr
        exact .inl ⟨k, (hk k hm).resolve_right fun ⟨o, parts, hc⟩ => hn o parts hc, hl⟩
      · obtain ⟨hl, hn⟩ := leftOver_before hl hr
        exact .inr ⟨b, (hbu b hm).resolve_right fun ⟨o, parts, hc⟩ => hn o parts hc, hl⟩

theorem sealed_run (ops : List EngineOp)
    (h : ∀ before op after, ops = before ++ op :: after → ¬ (initial.exec before).FailedHandover op) :
    (initial.exec ops).Sealed (initial.history ops) := by
  induction ops using List.reverseRecOn with
  | nil => exact ⟨by simp [initial], by rintro (⟨k, hk, _⟩ | ⟨b, hb, _⟩) <;> simp [initial] at *⟩
  | append_singleton ops op ih =>
      have hquiet : (initial.exec ops).Quiet :=
        exec_induction (P := Quiet) (fun _ op h => h.step op) (fun _ _ => ⟨rfl, rfl⟩) ops
      rw [exec_append, history_concat]
      refine (ih fun before op' after he => ?_).step hquiet (parts_ne_nil ops) (h ops op [] rfl)
      exact h before op' (after ++ [op]) (by rw [he, List.append_assoc, List.cons_append])

/-! ## The result -/

/-- In every state of the run what is left over blocks control. -/
def FailuresBlock (ops : List EngineOp) : Prop :=
  ∀ before after, ops = before ++ after → (initial.exec before).KeepsLeftOver (initial.history before) →
    (initial.exec before).Blocks

/-- Failed releases block control exactly in the runs without an `ACTIVATE` whose own reset fails to release. -/
theorem failures_block_iff (ops : List EngineOp) : FailuresBlock ops ↔
    ∀ before op after, ops = before ++ op :: after → ¬ (initial.exec before).FailedHandover op := by
  constructor
  · rintro h before op after he ⟨env, item, rfl, hp, ha, hr⟩
    obtain ⟨age, rest, _, hs⟩ := step_processOne hp
    obtain ⟨hepoch, hk, hbu, _, hout⟩ := processItem_activates age
      (s := { initial.exec before with out := [], queue := { (initial.exec before).queue with items := rest } }) ha
    rw [← hs] at hepoch hk hbu hout
    have hblocked := (reset_refuses env "Paused" { initial.exec before with
      out := [], queue := { (initial.exec before).queue with items := rest } }).mpr (.inr hr)
    have hleft := reset_leavesOver (initial.history before) "Paused" { initial.exec before with
      out := [], queue := { (initial.exec before).queue with items := rest } } ha.2.1 hblocked rfl
      [.emit (.activated item.event.epoch), .status "Controlling"] (by simp)
    have hb := h (before ++ [.processOne env]) after (by simp [he]) ?_
    · rw [exec_append] at hb
      exact ha.2.2.2.2.1 (hepoch.symm.trans hb.epoch)
    · rw [exec_append, history_concat]
      show (((initial.exec before).step (.processOne env)).KeepsLeftOver _)
      unfold KeepsLeftOver
      rw [hk, hbu, hout]
      exact hleft
  · intro h before after he hl
    have hsealed := sealed_run before fun b op a hb => by
      subst hb
      exact h b op (a ++ after) (by rw [he, List.append_assoc, List.cons_append])
    have hblocked := hsealed.blocked hl
    exact blocks_of_blocked (hsealed.paused hblocked) hblocked

/-- The injector raises at every release. -/
def jammed : Env := { now := 1, perform := fun _ _ => .raised false }

/-- Key 65 is held when a second activation comes, and its release raises. -/
def handover : List EngineOp :=
  [.setConnected { now := 1 } true, .tick { now := 1 } 5,
    .receive { now := 1 } { op := .activate, epoch := 7, seq := 1, lease := 5 }, .processOne { now := 1 },
    .receive { now := 1 } { op := .key, epoch := 7, seq := 2, lease := 5, a := 65, b := 1 }, .processOne { now := 1 },
    .receive { now := 1 } { op := .activate, epoch := 8, seq := 3, lease := 5 }, .processOne jammed]

theorem handover_goes_on : ¬ FailuresBlock handover := by
  intro h
  have he : (initial.exec handover).epoch = 8 := by decide +kernel
  have hk : (65 : Int) ∈ (initial.exec handover).keys := by decide +kernel
  have hout : initial.history handover = initial.history (handover.take 7) ++ .call (.key 65 false) (.raised false) [] ::
      [.emit (.paused 7), .status "Paused", .emit (.activated 8), .status "Controlling"] := by decide +kernel
  have hb := h handover [] (List.append_nil _).symm (.inl ⟨65, hk, _, false, _, hout, by simp⟩)
  rw [hb.epoch] at he
  cases he

end TargetEngine

end RemoteInput
