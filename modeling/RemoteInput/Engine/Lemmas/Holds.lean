import RemoteInput.Engine.Lemmas.Session

/-!
# The ledger of held keys and buttons

The history of injector calls determines what the operating system may still hold down and what must be released. The
engine's `keys` and `buttons` are the second of these at every call, not only between operations.
-/

namespace RemoteInput

/-! ## What a history of effects holds -/

/-- The effect of one call on the operating system's view of `x`. -/
def pressedAfter (call : Int → Bool → Call) (x : Int) (held : Bool) : Out → Bool
  | .call c outcome _ =>
      if outcome.tookEffect then
        if c = call x true then true else if c = call x false then false else held
      else held
  | _ => held

/-- The operating system holds `x` down because of the calls made so far. -/
def pressed (call : Int → Bool → Call) (history : List Out) (x : Int) : Bool :=
  history.foldl (pressedAfter call x) false

/-- A press must be released even if it raised; a release counts only if it did not raise. -/
def owedAfter (call : Int → Bool → Call) (x : Int) (held : Bool) : Out → Bool
  | .call c outcome _ =>
      if c = call x true then true else if c = call x false ∧ outcome.isRaised = false then false else held
  | _ => held

/-- A release of `x` is still owed after the calls made so far. -/
def owed (call : Int → Bool → Call) (history : List Out) (x : Int) : Bool :=
  history.foldl (owedAfter call x) false

theorem owed_append (call : Int → Bool → Call) (l l' : List Out) (x : Int) :
    owed call (l ++ l') x = l'.foldl (owedAfter call x) (owed call l x) := List.foldl_append

@[simp] theorem owed_concat (call : Int → Bool → Call) (l : List Out) (o : Out) (x : Int) :
    owed call (l ++ [o]) x = owedAfter call x (owed call l x) o := by simp [owed_append]

/-- Whatever a raising call did, what is pressed is owed. -/
theorem owed_of_pressed {call : Int → Bool → Call} (hne : ∀ x, call x true ≠ call x false) {history : List Out}
    {x : Int} (h : pressed call history x = true) : owed call history x = true := by
  unfold pressed at h
  unfold owed
  suffices ∀ a b : Bool, (a = true → b = true) →
      history.foldl (pressedAfter call x) a = true → history.foldl (owedAfter call x) b = true from
    this false false id h
  clear h
  induction history with
  | nil => exact fun a b hab h => hab h
  | cons o history ih =>
      intro a b hab
      refine ih _ _ ?_
      cases o with
      | emit m => exact hab
      | status r => exact hab
      | call c outcome parts =>
          have := hne x
          simp only [pressedAfter, owedAfter]
          cases outcome with
          | done =>
              simp only [Outcome.tookEffect, Outcome.isRaised, ↓reduceIte, and_true]
              by_cases h1 : c = call x true
              · simp [h1]
              · by_cases h2 : c = call x false
                · simp [h2]
                · simpa [h1, h2] using hab
          | raised took =>
              cases took <;> simp only [Outcome.tookEffect, Outcome.isRaised]
              · by_cases h1 : c = call x true <;> simp_all
              · by_cases h1 : c = call x true
                · simp [h1]
                · by_cases h2 : c = call x false
                  · simp only [h2, if_neg this.symm]; simp
                  · simpa [h1, h2] using hab

/-- Every release in the history was owed when it was made. -/
def ReleasesOwed (history : List Out) : Prop :=
  ∀ l x outcome parts,
    (l ++ [.call (.key x false) outcome parts] <+: history → owed .key l x = true) ∧
    (l ++ [.call (.button x false) outcome parts] <+: history → owed .button l x = true)

open TargetEngine

/-! ## One kind of calls

Keys and buttons are treated alike: what is said here of the calls of one kind is used twice. -/

theorem key_inj (x y : Int) (b c : Bool) (h : Call.key x b = .key y c) : x = y ∧ b = c := by simpa using h

theorem button_inj (x y : Int) (b c : Bool) (h : Call.button x b = .button y c) : x = y ∧ b = c := by simpa using h

/-- `held` is what is owed of one kind of calls, and every release of that kind was owed when it was made. -/
structure Tracks (call : Int → Bool → Call) (held : PySet Int) (history : List Out) : Prop where
  mem : ∀ x, x ∈ held ↔ owed call history x = true
  releases : ∀ l x outcome parts, l ++ [.call (call x false) outcome parts] <+: history → owed call l x = true

section

variable {call : Int → Bool → Call} {held held' : PySet Int} {history : List Out} {o : Out} {x : Int}

theorem Tracks.nil (call : Int → Bool → Call) : Tracks call ∅ [] := by
  constructor
  · simp [owed]
  · intro l x outcome parts h
    simp at h

/-- Only the members of the set matter. -/
theorem Tracks.congr (h : Tracks call held history) (hs : ∀ x, x ∈ held' ↔ x ∈ held) : Tracks call held' history :=
  ⟨fun x => (hs x).trans (h.mem x), h.releases⟩

theorem Tracks.concat (h : Tracks call held history)
    (hs : ∀ x, x ∈ held' ↔ owedAfter call x (decide (x ∈ held)) o = true)
    (hr : ∀ x outcome parts, o = .call (call x false) outcome parts → x ∈ held) : Tracks call held' (history ++ [o]) := by
  constructor
  · intro x
    have hx : decide (x ∈ held) = owed call history x := by
      rw [Bool.eq_iff_iff, decide_eq_true_iff]
      exact h.mem x
    rw [owed_concat, ← hx]
    exact hs x
  · intro l x outcome parts hp
    rcases List.prefix_concat_iff.mp hp with he | hp
    · obtain ⟨rfl, ho⟩ := List.append_inj' he rfl
      exact (h.mem x).mp (hr x outcome parts (by simpa using ho.symm))
    · exact h.releases l x outcome parts hp

/-- An effect of another kind changes nothing. -/
theorem Tracks.other (h : Tracks call held history) (ho : ∀ x down outcome parts, o ≠ .call (call x down) outcome parts) :
    Tracks call held (history ++ [o]) := by
  refine h.concat (fun x => ?_) (fun x outcome parts he => absurd he (ho x false outcome parts))
  cases o with
  | emit | status => simp [owedAfter]
  | call c outcome parts =>
      have hne : ∀ down, c ≠ call x down := by
        rintro down rfl
        exact ho x down outcome parts rfl
      simp [owedAfter, hne]

theorem Tracks.others (h : Tracks call held history) {outs : List Out}
    (ho : ∀ o ∈ outs, ∀ x down outcome parts, o ≠ .call (call x down) outcome parts) :
    Tracks call held (history ++ outs) := by
  induction outs generalizing history with
  | nil => simpa using h
  | cons o outs ih =>
      rw [List.append_cons]
      exact ih (h.other (ho o (by simp))) (fun o' ho' => ho o' (by simp [ho']))

variable (hinj : ∀ x y b c, call x b = call y c → x = y ∧ b = c)
include hinj

/-- A press enters the set, however its call ends. -/
theorem Tracks.press (h : Tracks call held history) (x : Int) (outcome : Outcome) (parts : List Event) :
    Tracks call (held.add x) (history ++ [.call (call x true) outcome parts]) := by
  refine h.concat (fun y => ?_) (fun y outcome' parts' he => ?_)
  · by_cases hy : x = y
    · simp [owedAfter, hy]
    · have hne : ∀ down, call x true ≠ call y down := fun down hc => hy (hinj x y true down hc).1
      simp [owedAfter, hne, Ne.symm hy]
  · simp only [Out.call.injEq] at he
    cases (hinj x y true false he.1).2

/-- A release leaves the set if its call did not raise. -/
theorem Tracks.release (h : Tracks call held history) (hx : x ∈ held) (outcome : Outcome) (parts : List Event) :
    Tracks call (if outcome.isRaised then held else held.discard x)
      (history ++ [.call (call x false) outcome parts]) := by
  refine h.concat (fun y => ?_) (fun y outcome' parts' he => ?_)
  · have htrue : call x false ≠ call y true := fun hc => by cases (hinj x y false true hc).2
    by_cases hy : x = y
    · subst hy
      cases ho : outcome.isRaised <;> simp [owedAfter, htrue, ho]
    · have hfalse : call x false ≠ call y false := fun hc => hy (hinj x y false false hc).1
      cases ho : outcome.isRaised <;> simp [owedAfter, htrue, hfalse, Ne.symm hy]
  · simp only [Out.call.injEq] at he
    exact (hinj x y false false he.1).1 ▸ hx

/-- A loop of `reset` over a snapshot: what is left is what failed. -/
theorem Tracks.releaseCalls (h : Tracks call held history) {outcome : Int → Outcome} {xs : List Int} (hxs : xs.Nodup)
    (hmem : ∀ x ∈ xs, x ∈ held) (hs : ∀ x, x ∈ held' ↔ x ∈ held ∧ (x ∈ xs → (outcome x).isRaised = true)) :
    Tracks call held' (history ++ releaseCalls call outcome xs) := by
  induction xs generalizing held history with
  | nil =>
      rw [releaseCalls_nil, List.append_nil]
      exact h.congr (fun x => by simp [hs x])
  | cons y ys ih =>
      rw [List.nodup_cons] at hxs
      have hfirst := h.release hinj (hmem y (by simp)) (outcome y) []
      have happ : history ++ TargetEngine.releaseCalls call outcome (y :: ys) =
          history ++ [.call (call y false) (outcome y) []] ++ TargetEngine.releaseCalls call outcome ys := by
        simp [TargetEngine.releaseCalls]
      have hleft : ∀ x, x ∈ (if (outcome y).isRaised then held else held.discard y) ↔
          x ∈ held ∧ (x = y → (outcome y).isRaised = true) := by
        intro x
        split
        · rename_i ho; simp [ho]
        · rename_i ho; simp [ho]
      rw [happ]
      refine ih hfirst hxs.2 (fun x hx => ?_) (fun x => ?_)
      · exact (hleft x).mpr ⟨hmem x (by simp [hx]), fun he => absurd (he ▸ hx) hxs.1⟩
      · rw [hs, hleft, List.mem_cons, or_imp, and_assoc]
        refine and_congr_right fun _ => and_congr_left fun _ => ?_
        exact ⟨fun h he => he ▸ h he, fun h he => he ▸ h he⟩

end

namespace TargetEngine

/-! ## The ledger -/

variable {env : Env} {item : Item} {age : Time} {s t : TargetEngine} {before : List Out}

/-- After the effects `before` and those of the current operation, the tracked sets are what is owed. -/
structure Ledger (before : List Out) (s : TargetEngine) : Prop where
  keys : Tracks .key s.keys (before ++ s.out)
  buttons : Tracks .button s.buttons (before ++ s.out)

/-- Only the sets and the effects matter. -/
theorem Ledger.congr (h : Ledger before s) (hk : t.keys = s.keys) (hb : t.buttons = s.buttons) (ho : t.out = s.out) :
    Ledger before t := by
  constructor
  · rw [hk, ho]; exact h.keys
  · rw [hb, ho]; exact h.buttons

theorem Ledger.of_concat {o : Out} (ho : t.out = s.out ++ [o]) (hk : Tracks .key t.keys (before ++ s.out ++ [o]))
    (hb : Tracks .button t.buttons (before ++ s.out ++ [o])) : Ledger before t := by
  constructor
  · rw [ho, ← List.append_assoc]; exact hk
  · rw [ho, ← List.append_assoc]; exact hb

theorem Ledger.emit (h : Ledger before s) (m : Message) : Ledger before (s.emit m) :=
  .of_concat rfl (h.keys.other (by simp)) (h.buttons.other (by simp))

theorem Ledger.status (h : Ledger before s) (reason : String) : Ledger before (s.status reason) :=
  .of_concat rfl (h.keys.other (by simp)) (h.buttons.other (by simp))

theorem Ledger.reset (h : Ledger before s) (env : Env) (reason : String) : Ledger before (s.reset env reason) := by
  obtain ⟨onKey, onButton, hout, hk, hb, _⟩ := s.reset_spec env reason
  have hreport : ∀ o ∈ s.resetReport reason, ∀ call outcome parts, o ≠ .call call outcome parts := by
    unfold resetReport
    split <;> simp
  have hkeys : ∀ k, k ∈ (s.reset env reason).keys ↔ k ∈ s.keys ∧ (k ∈ s.keys.elems → (onKey k).isRaised = true) :=
    fun k => (hk k).trans (and_congr_right fun hm => ⟨fun hr _ => hr, fun hr => hr hm⟩)
  have hbuttons : ∀ b, b ∈ (s.reset env reason).buttons ↔
      b ∈ s.buttons ∧ (b ∈ s.buttons.elems → (onButton b).isRaised = true) :=
    fun b => (hb b).trans (and_congr_right fun hm => ⟨fun hr _ => hr, fun hr => hr hm⟩)
  constructor
  · rw [hout, ← List.append_assoc, ← List.append_assoc, ← List.append_assoc]
    have hreleased := h.keys.releaseCalls key_inj s.keys.nodup (fun _ hm => hm) hkeys
    refine (hreleased.others ?_).others fun o ho x down => hreport o ho (.key x down)
    simp [releaseCalls]
  · rw [hout, ← List.append_assoc, ← List.append_assoc, ← List.append_assoc]
    have hothers : Tracks .button s.buttons (before ++ s.out ++ releaseCalls .key onKey s.keys.elems) :=
      h.buttons.others (by simp [releaseCalls])
    have hreleased := hothers.releaseCalls button_inj s.buttons.nodup (fun _ hm => hm) hbuttons
    exact hreleased.others fun o ho x down => hreport o ho (.button x down)

/-! ## The ledger through one operation -/

theorem Ledger.observeHeartbeat (h : Ledger before s) (event : Event) (now : Time) :
    Ledger before (s.observeHeartbeat event now) := by
  unfold TargetEngine.observeHeartbeat
  split
  · exact h
  · split
    · exact h
    · exact h.congr rfl rfl rfl

theorem Ledger.rejectStale (h : Ledger before s) (event : Event) (limit : Time) :
    Ledger before (s.rejectStale env event limit) := by
  unfold TargetEngine.rejectStale
  dsimp only
  split
  · split
    · exact ((h.reset _ _).emit _).status _
    · exact (h.reset _ _).emit _
  · exact h.reset _ _

theorem Ledger.activate (h : Ledger before s) (event : Event) : Ledger before (s.activate env event).1 := by
  unfold TargetEngine.activate
  split
  · exact h.emit _
  · split
    · exact h
    · refine Ledger.status (Ledger.emit ?_ _) _
      exact (h.reset env "Paused").congr rfl rfl rfl

theorem Ledger.acknowledge (h : Ledger before s) (event : Event) :
    Ledger before (s.acknowledge env event age) := by
  unfold TargetEngine.acknowledge
  have hstall : Ledger before (if env.durationUs > 100000 then s.reset env "Paused: input injection stalled" else s) := by
    split
    · exact h.reset _ _
    · exact h
  dsimp only
  split
  · exact hstall.emit _
  · exact hstall

/-- A press enters the set before its call, so the ledger holds however the call ends. -/
theorem Ledger.press (h : Ledger before s) (o : Outcome) (item : Item) :
    Ledger before ({ s with keys := s.keys.add item.event.a }.called (.key item.event.a true) o item) ∧
    Ledger before ({ s with buttons := s.buttons.add item.event.a }.called (.button item.event.a true) o item) :=
  ⟨.of_concat rfl (h.keys.press key_inj _ _ _) (h.buttons.other (by simp)),
    .of_concat rfl (h.keys.other (by simp)) (h.buttons.press button_inj _ _ _)⟩

/-- A release leaves the set after its call, and only if the call did not raise. -/
theorem Ledger.release (h : Ledger before s) (o : Outcome) (item : Item) :
    (item.event.a ∈ s.keys → Ledger before { s.called (.key item.event.a false) o item with
      keys := if o.isRaised then s.keys else s.keys.discard item.event.a }) ∧
    (item.event.a ∈ s.buttons → Ledger before { s.called (.button item.event.a false) o item with
      buttons := if o.isRaised then s.buttons else s.buttons.discard item.event.a }) :=
  ⟨fun hk => .of_concat rfl (h.keys.release key_inj hk _ _) (h.buttons.other (by simp)),
    fun hb => .of_concat rfl (h.keys.other (by simp)) (h.buttons.release button_inj hb _ _)⟩

/-- A movement or a scroll holds nothing. -/
theorem Ledger.relative (h : Ledger before s) (o : Outcome) (item : Item) :
    Ledger before (s.called (.move item.event.a item.event.b) o item) ∧
    Ledger before (s.called (.scroll item.event.a item.event.b) o item) :=
  ⟨.of_concat rfl (h.keys.other (by simp)) (h.buttons.other (by simp)),
    .of_concat rfl (h.keys.other (by simp)) (h.buttons.other (by simp))⟩

theorem Ledger.ending {P : TargetEngine → Prop} {o : Outcome} {t u : TargetEngine} (ht : o.isRaised = true → P t)
    (hu : o.isRaised = false → P u) :
    ∀ v, ending o t u = .ok v ∨ ending o t u = .raised v ∨ ending o t u = .refused v → P v := by
  intro v hv
  unfold TargetEngine.ending at hv
  split at hv
  · rename_i ho
    rcases hv with hv | hv | hv <;> cases hv
    exact ht ho
  · rename_i ho
    rcases hv with hv | hv | hv <;> cases hv
    exact hu (by simpa using ho)

theorem InjectCase.ledger {r : Injected} (hr : InjectCase env item s r) (h : Ledger before s) :
    ∀ t, r = .ok t ∨ r = .raised t ∨ r = .refused t → Ledger before t := by
  cases hr with
  | refused reason => rintro t (ht | ht | ht) <;> cases ht; exact h.reset _ _
  | pressKey _ _ o => exact Ledger.ending (fun _ => (h.press o item).1) (fun _ => (h.press o item).1)
  | releaseKey _ _ hk o =>
      have hr := (h.release o item).1 hk
      exact Ledger.ending (fun ho => by rwa [if_pos ho] at hr) (fun ho => by rwa [if_neg (by simp [ho])] at hr)
  | pressButton _ _ o => exact Ledger.ending (fun _ => (h.press o item).2) (fun _ => (h.press o item).2)
  | releaseButton _ _ hb o =>
      have hr := (h.release o item).2 hb
      exact Ledger.ending (fun ho => by rwa [if_pos ho] at hr) (fun ho => by rwa [if_neg (by simp [ho])] at hr)
  | move _ o => exact Ledger.ending (fun _ => (h.relative o item).1) (fun _ => (h.relative o item).1)
  | scroll _ o => exact Ledger.ending (fun _ => (h.relative o item).2) (fun _ => (h.relative o item).2)
  | nothing => rintro t (ht | ht | ht) <;> cases ht; exact h

theorem BodyCase.ledger {r : TargetEngine × Bool} (hr : BodyCase env item age s r) (h : Ledger before s) :
    Ledger before r.1 := by
  cases hr with
  | idle => exact h
  | stale => exact h.rejectStale _ _
  | activate => exact h.activate _
  | probe => exact h.emit _
  | calibrate => exact h.observeHeartbeat _ _
  | input =>
      have hc := inputFrame_cases env item age s
      generalize s.inputFrame env item age = r at hc
      have hseq : Ledger before (s.withSeq item.event.seq) := h.congr rfl rfl rfl
      cases hc with
      | silent => exact hseq.reset _ _
      | heartbeat => exact hseq.observeHeartbeat _ _
      | raised t _ hi => exact hi.ledger hseq t (.inr (.inl rfl))
      | refused t _ hi => exact hi.ledger hseq t (.inr (.inr rfl))
      | ok t _ hi => exact (hi.ledger hseq t (.inl rfl)).acknowledge _

theorem Ledger.processItem (h : Ledger before s) (env : Env) (item : Item) (age : Time) :
    Ledger before (s.processItem env item age).1 := by
  rcases processItem_cases env item age s with ⟨t, ht, he⟩ | ⟨t, ht, he⟩
  · rw [he]; exact ht.ledger h
  · rw [he]; exact (show Ledger before t from ht.ledger h).reset _ _

theorem Ledger.tick (h : Ledger before s) (env : Env) (bits : Nat) : Ledger before (s.tick env bits).1 := by
  unfold TargetEngine.tick
  refine checkPermission_induction (P := Ledger before) (fun _ _ hv => hv.reset _ _) ?_
  refine heartbeatExpired_induction (P := Ledger before) (fun _ _ hv => hv.reset _ _) ?_
  unfold issueChallenge
  split
  · refine Ledger.emit ?_ _
    exact h.congr rfl rfl rfl
  · exact h.congr rfl rfl rfl

/-- Every operation keeps the ledger, whatever the injector calls did. -/
theorem Ledger.step (h : Ledger before s) (op : EngineOp) : Ledger (before ++ s.out) (s.step op) := by
  have h0 : Ledger (before ++ s.out) { s with out := [] } := by
    constructor
    · simpa using h.keys
    · simpa using h.buttons
  cases op with
  | receive env event =>
      simp only [TargetEngine.step, receive]
      split
      · exact h0.reset _ _
      · split
        · exact h0.congr rfl rfl rfl
        · refine Ledger.reset ?_ _ _
          exact h0.congr rfl rfl rfl
  | processOne env =>
      simp only [TargetEngine.step]
      have hc := processOne_cases env { s with out := [] }
      generalize ({ s with out := [] } : TargetEngine).processOne env = r at hc
      cases hc with
      | overload =>
          refine Ledger.reset ?_ _ _
          exact h0.congr rfl rfl rfl
      | empty => exact h0
      | item =>
          refine Ledger.processItem ?_ _ _ _
          exact h0.congr rfl rfl rfl
  | tick env bits => exact h0.tick _ _
  | reset env reason => exact h0.reset _ _
  | peerChanged env => exact (h0.reset env "Paused").congr rfl rfl rfl
  | setConnected env value =>
      refine Ledger.reset ?_ _ _
      exact h0.congr rfl rfl rfl

theorem ledger_run (ops : List EngineOp) :
    (∀ k, k ∈ (initial.exec ops).keys ↔ owed .key (initial.history ops) k = true) ∧
    (∀ b, b ∈ (initial.exec ops).buttons ↔ owed .button (initial.history ops) b = true) ∧
    ReleasesOwed (initial.history ops) := by
  suffices ∀ s before, Ledger before s → Ledger (before ++ s.out ++ s.history ops) { s.exec ops with out := [] } by
    have h : Ledger (initial.history ops) { initial.exec ops with out := [] } := by
      simpa [initial] using this initial [] ⟨Tracks.nil .key, Tracks.nil .button⟩
    obtain ⟨hk, hb⟩ := h
    rw [List.append_nil] at hk hb
    exact ⟨hk.mem, hb.mem, fun l x outcome parts =>
      ⟨hk.releases l x outcome parts, hb.releases l x outcome parts⟩⟩
  induction ops with
  | nil =>
      intro s before h
      constructor
      · simpa [history] using h.keys
      · simpa [history] using h.buttons
  | cons op ops ih =>
      intro s before h
      have := ih (s.step op) (before ++ s.out) (h.step op)
      rw [exec_cons]
      simpa [history] using this

/-! ## Nothing is tracked while paused and not blocked -/

/-- While no session is active and no release has failed, nothing is tracked. -/
def Quiet (s : TargetEngine) : Prop := s.epoch = 0 → s.blocked = false → s.keys = ∅ ∧ s.buttons = ∅

theorem quiet_reset (env : Env) (reason : String) (s : TargetEngine) : (s.reset env reason).Quiet :=
  fun _ hb => s.reset_released env reason hb

theorem Quiet.congr (h : s.Quiet) (he : t.epoch = s.epoch) (hk : t.keys = s.keys) (hb : t.buttons = s.buttons)
    (hbl : t.blocked = s.blocked) : t.Quiet := by
  unfold Quiet
  rw [he, hk, hb, hbl]; exact h

theorem quiet_of_active (h : s.epoch ≠ 0) : s.Quiet := fun h0 => absurd h0 h

theorem Quiet.observeHeartbeat (h : s.Quiet) (event : Event) (now : Time) : (s.observeHeartbeat event now).Quiet := by
  unfold TargetEngine.observeHeartbeat
  split
  · exact h
  · split
    · exact h
    · exact h.congr rfl rfl rfl rfl

theorem quiet_rejectStale (env : Env) (event : Event) (limit : Time) (s : TargetEngine) :
    (s.rejectStale env event limit).Quiet := by
  have h := quiet_reset env (s.staleReason event env.now limit) s
  unfold TargetEngine.rejectStale
  dsimp only
  split
  · split
    · exact h.congr rfl rfl rfl rfl
    · exact h.congr rfl rfl rfl rfl
  · exact h

theorem Quiet.activate (h : s.Quiet) (env : Env) (event : Event) : (s.activate env event).1.Quiet := by
  unfold TargetEngine.activate
  split
  · exact h.congr rfl rfl rfl rfl
  rename_i hc
  push Not at hc
  split
  · exact h
  · exact quiet_of_active hc.1

theorem Quiet.acknowledge (h : s.Quiet) (env : Env) (event : Event) (age : Time) :
    (s.acknowledge env event age).Quiet := by
  unfold TargetEngine.acknowledge
  dsimp only
  split
  · split
    · exact (quiet_reset _ _ _).congr rfl rfl rfl rfl
    · exact h.congr rfl rfl rfl rfl
  · split
    · exact quiet_reset _ _ _
    · exact h

theorem InjectCase.epoch_of_ok {r : Injected} (h : InjectCase env item s r) (t : TargetEngine) (ht : r = .ok t) :
    t.epoch = s.epoch := by
  cases h with
  | refused => cases ht
  | nothing => cases ht; rfl
  | _ o => rcases ending_cases (.inl ht) with rfl | rfl <;> rfl

theorem BodyCase.quiet {r : TargetEngine × Bool} (hr : BodyCase env item age s r) (h : s.Quiet) (hf : r.2 = false) :
    r.1.Quiet := by
  cases hr with
  | idle => exact h
  | stale => exact quiet_rejectStale _ _ _ _
  | activate => exact h.activate _ _
  | probe => exact h.congr rfl rfl rfl rfl
  | calibrate => exact h.observeHeartbeat _ _
  | input _ _ _ he =>
      have hc := inputFrame_cases env item age s
      generalize s.inputFrame env item age = r at hc hf
      have hseq : (s.withSeq item.event.seq).Quiet := quiet_of_active he
      cases hc with
      | silent => exact quiet_reset _ _ _
      | heartbeat => exact hseq.observeHeartbeat _ _
      | raised => cases hf
      | refused t _ hi =>
          -- the dispatch refuses a key only after a reset
          generalize hr : Injected.refused t = r at hi
          cases hi with
          | refused => cases hr; exact quiet_reset _ _ _
          | nothing => cases hr
          | _ o => exact absurd hr.symm ending_ne_refused
      | ok t _ hi =>
          refine Quiet.acknowledge (quiet_of_active ?_) _ _ _
          rw [hi.epoch_of_ok t rfl]; exact he

theorem Quiet.processItem (h : s.Quiet) (env : Env) (item : Item) (age : Time) :
    (s.processItem env item age).1.Quiet := by
  rcases processItem_cases env item age s with ⟨t, ht, he⟩ | ⟨t, ht, he⟩
  · rw [he]; exact ht.quiet h rfl
  · rw [he]; exact quiet_reset _ _ _

theorem Quiet.step (h : s.Quiet) (op : EngineOp) : (s.step op).Quiet := by
  have h0 : ({ s with out := [] } : TargetEngine).Quiet := h
  cases op with
  | receive env event =>
      simp only [TargetEngine.step, receive]
      split
      · exact quiet_reset _ _ _
      · split
        · exact h.congr rfl rfl rfl rfl
        · exact quiet_reset _ _ _
  | processOne env =>
      simp only [TargetEngine.step]
      have hc := processOne_cases env { s with out := [] }
      generalize ({ s with out := [] } : TargetEngine).processOne env = r at hc
      cases hc with
      | overload => exact quiet_reset _ _ _
      | empty => exact h0
      | item =>
          refine Quiet.processItem ?_ _ _ _
          exact h.congr rfl rfl rfl rfl
  | tick env bits =>
      simp only [TargetEngine.step, TargetEngine.tick]
      refine checkPermission_induction (P := Quiet) (fun _ _ _ => quiet_reset _ _ _) ?_
      refine heartbeatExpired_induction (P := Quiet) (fun _ _ _ => quiet_reset _ _ _) ?_
      unfold issueChallenge
      split <;> exact h.congr rfl rfl rfl rfl
  | reset env reason => exact quiet_reset _ _ _
  | peerChanged env => exact (quiet_reset _ _ _).congr rfl rfl rfl rfl
  | setConnected env value => exact quiet_reset _ _ _

end TargetEngine

end RemoteInput
