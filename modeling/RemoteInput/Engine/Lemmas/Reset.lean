import RemoteInput.Engine.Semantics

/-!
# What `reset` does

`reset` attempts every release once, keeps what failed, and touches nothing but the epoch, the queue, the held sets,
`blocked` and the effects.
-/

namespace RemoteInput

namespace TargetEngine

/-! ## The release loops -/

/-- The effects of one release loop over `xs` whose calls end as `outcome` says. -/
def releaseCalls (call : Int → Bool → Call) (outcome : Int → Outcome) (xs : List Int) : List Out :=
  xs.map (fun x => .call (call x false) (outcome x) [])

@[simp] theorem releaseCalls_nil (call : Int → Bool → Call) (outcome : Int → Outcome) :
    releaseCalls call outcome [] = [] := rfl

theorem releaseCalls_congr {call : Int → Bool → Call} {f g : Int → Outcome} {xs : List Int}
    (h : ∀ x ∈ xs, f x = g x) : releaseCalls call f xs = releaseCalls call g xs :=
  List.map_congr_left (fun x hx => by rw [h x hx])

theorem releaseEach_spec (env : Env) (call : Int → Bool → Call) (xs : List Int) (hx : xs.Nodup) (r : Release) :
    ∃ outcome : Int → Outcome,
      (releaseEach env call xs r).out = r.out ++ releaseCalls call outcome xs ∧
      (∀ y, y ∈ (releaseEach env call xs r).held ↔ y ∈ r.held ∧ (y ∈ xs → (outcome y).isRaised = true)) ∧
      (releaseEach env call xs r).blocked = (r.blocked || xs.any (fun x => (outcome x).isRaised)) := by
  induction xs generalizing r with
  | nil => exact ⟨fun _ => .done, by simp [releaseEach], by simp [releaseEach], by simp [releaseEach]⟩
  | cons x xs ih =>
      rw [List.nodup_cons] at hx
      simp only [releaseEach]
      generalize ho : env.perform r.out (call x false) = o
      obtain ⟨f, hout, hheld, hblocked⟩ := ih hx.2
        (if o.isRaised then { r with blocked := true, out := r.out ++ [.call (call x false) o []] }
         else { r with held := r.held.discard x, out := r.out ++ [.call (call x false) o []] })
      -- the first call ended as `o`, the others as the induction hypothesis says
      have hf : ∀ y ∈ xs, Function.update f x o y = f y := by
        intro y hy
        exact Function.update_of_ne (by rintro rfl; exact hx.1 hy) _ _
      refine ⟨Function.update f x o, ?_, ?_, ?_⟩
      · have hcalls : releaseCalls call (Function.update f x o) xs = releaseCalls call f xs :=
          releaseCalls_congr hf
        have hfirst : releaseCalls call (Function.update f x o) (x :: xs) =
            .call (call x false) o [] :: releaseCalls call f xs := by
          rw [← hcalls]; simp [releaseCalls]
        rw [hout, hfirst]
        split <;> simp
      · intro y
        rw [hheld]
        by_cases hyx : y = x
        · subst hyx
          have := hx.1
          split <;> simp_all
        · have : Function.update f x o y = f y := Function.update_of_ne hyx _ _
          split <;> simp_all
      · rw [hblocked]
        have hany : xs.any (fun y => (Function.update f x o y).isRaised) = xs.any (fun y => (f y).isRaised) := by
          rw [Bool.eq_iff_iff]
          simp only [List.any_eq_true]
          constructor
          · rintro ⟨y, hy, h⟩; exact ⟨y, hy, by rw [← hf y hy]; exact h⟩
          · rintro ⟨y, hy, h⟩; exact ⟨y, hy, by rw [hf y hy]; exact h⟩
        rw [List.any_cons, hany, Function.update_self]
        cases o.isRaised <;> simp

/-! ## Fields that `reset` leaves alone -/

variable (env : Env) (reason : String) (s : TargetEngine)

@[simp] theorem reset_epoch : (s.reset env reason).epoch = 0 := by
  unfold reset; split <;> rfl

@[simp] theorem reset_queue : (s.reset env reason).queue = s.queue.clear := by
  unfold reset; split <;> rfl

@[simp] theorem reset_leases : (s.reset env reason).leases = s.leases := by
  unfold reset; split <;> rfl

@[simp] theorem reset_lastChallenge : (s.reset env reason).lastChallenge = s.lastChallenge := by
  unfold reset; split <;> rfl

@[simp] theorem reset_lastHeartbeat : (s.reset env reason).lastHeartbeat = s.lastHeartbeat := by
  unfold reset; split <;> rfl

@[simp] theorem reset_lastEchoIssued : (s.reset env reason).lastEchoIssued = s.lastEchoIssued := by
  unfold reset; split <;> rfl

@[simp] theorem reset_network : (s.reset env reason).network = s.network := by
  unfold reset; split <;> rfl

@[simp] theorem reset_lastEpoch : (s.reset env reason).lastEpoch = s.lastEpoch := by
  unfold reset; split <;> rfl

@[simp] theorem reset_seq : (s.reset env reason).seq = s.seq := by
  unfold reset; split <;> rfl

@[simp] theorem reset_connected : (s.reset env reason).connected = s.connected := by
  unfold reset; split <;> rfl

/-- What `reset` reports after its releases. -/
def resetReport : List Out :=
  if s.epoch ≠ 0 then [.emit (.paused s.epoch), .status reason] else []

/-- `releaseAll` adds no report and leaves what `reset` leaves. -/
theorem reset_eq : (s.reset env reason).keys = (s.releaseAll env).keys ∧
    (s.reset env reason).buttons = (s.releaseAll env).buttons ∧
    (s.reset env reason).blocked = (s.releaseAll env).blocked ∧
    (s.reset env reason).out = (s.releaseAll env).out ++ s.resetReport reason := by
  unfold reset resetReport
  split
  · exact ⟨rfl, rfl, rfl, by simp [emit, status]⟩
  · exact ⟨rfl, rfl, rfl, by simp⟩

/-- Every tracked key and button is released once, in the order of the sets; what stays tracked is what failed. -/
theorem reset_spec :
    ∃ onKey onButton : Int → Outcome,
      (s.reset env reason).out = s.out ++ releaseCalls .key onKey s.keys.elems ++
        releaseCalls .button onButton s.buttons.elems ++ s.resetReport reason ∧
      (∀ k, k ∈ (s.reset env reason).keys ↔ k ∈ s.keys ∧ (onKey k).isRaised = true) ∧
      (∀ b, b ∈ (s.reset env reason).buttons ↔ b ∈ s.buttons ∧ (onButton b).isRaised = true) ∧
      (s.reset env reason).blocked = (s.blocked || s.keys.elems.any (fun k => (onKey k).isRaised) ||
        s.buttons.elems.any (fun b => (onButton b).isRaised)) := by
  obtain ⟨hkeys, hbuttons, hbl, ho⟩ := s.reset_eq env reason
  obtain ⟨f, hout, hheld, hblocked⟩ :=
    releaseEach_spec env .key s.keys.elems s.keys.nodup ⟨s.keys, s.blocked, s.out⟩
  obtain ⟨g, hout', hheld', hblocked'⟩ :=
    releaseEach_spec env .button s.buttons.elems s.buttons.nodup
      ⟨s.buttons, (releaseEach env .key s.keys.elems ⟨s.keys, s.blocked, s.out⟩).blocked,
        (releaseEach env .key s.keys.elems ⟨s.keys, s.blocked, s.out⟩).out⟩
  refine ⟨f, g, ?_, ?_, ?_, ?_⟩
  · rw [ho, show (s.releaseAll env).out = _ from hout', hout]
  · intro k
    rw [hkeys]
    exact (hheld k).trans ⟨fun h => ⟨h.1, h.2 h.1⟩, fun h => ⟨h.1, fun _ => h.2⟩⟩
  · intro b
    rw [hbuttons]
    exact (hheld' b).trans ⟨fun h => ⟨h.1, h.2 h.1⟩, fun h => ⟨h.1, fun _ => h.2⟩⟩
  · rw [hbl, show (s.releaseAll env).blocked = _ from hblocked', hblocked]

/-- A release that failed leaves the engine blocked. -/
theorem reset_released (h : (s.reset env reason).blocked = false) :
    (s.reset env reason).keys = ∅ ∧ (s.reset env reason).buttons = ∅ := by
  obtain ⟨f, g, _, hk, hb, hbl⟩ := s.reset_spec env reason
  rw [hbl] at h
  simp only [Bool.or_eq_false_iff, List.any_eq_false, Bool.not_eq_true] at h
  constructor
  · rw [PySet.eq_empty_iff_forall]
    intro k hmem
    obtain ⟨hm, hr⟩ := (hk k).mp hmem
    rw [h.1.2 k hm] at hr; cases hr
  · rw [PySet.eq_empty_iff_forall]
    intro b hmem
    obtain ⟨hm, hr⟩ := (hb b).mp hmem
    rw [h.2 b hm] at hr; cases hr

end TargetEngine

end RemoteInput
