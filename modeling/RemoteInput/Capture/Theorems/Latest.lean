import RemoteInput.Capture.Lemmas.Windows

/-!
# The capture follows the latest request
-/

namespace RemoteInput

/-- `_apply_state` is on its way to an activation, or to the handler of its exception. -/
def Applying.trying : Applying → Bool
  | .idle | .restored => false
  | _ => true

/-- `_apply_state` has saved the cursor. -/
def Applying.located : Applying → Bool
  | .measuring _ | .anchoring _ | .releasing _ _ => true
  | _ => false

/-- `_apply_state` knows the anchor. -/
def Applying.anchored : Applying → Bool
  | .anchoring _ | .releasing _ _ => true
  | _ => false

namespace WindowsCapture

variable {w w' : WindowsCapture} {action : CaptureAction}

/-- The invariant. While the cursor is away from where it was found, the hook thread or a message is still to look at the
request. -/
structure Sound (w : WindowsCapture) : Prop where
  posted : w.posted = if w.statePending then 1 else 0
  latest : w.requests.getLast?.getD false = w.requestedActive
  active : w.policy.active = true →
    w.requestedActive = true ∧ w.origin.isSome = true ∧ w.anchor.isSome = true ∧ w.applying = .idle
  origin : w.origin.isSome = true → w.requestedActive = true ∨ w.statePending = true
  trying : w.applying.trying = true → w.requestedActive = true ∨ w.statePending = true
  located : w.applying.located = true → w.origin.isSome = true
  anchored : w.applying.anchored = true → w.anchor.isSome = true
  saved : ∀ o, w.origin = some o → w.saved = some o
  restored : w.origin = none → w.restorations.getLast? = w.saved

theorem Sound.start : Sound {} := by
  constructor <;> simp [Applying.trying, Applying.located, Applying.anchored]

/-! ## Requests and hooks -/

theorem Sound.policy (h : w.Sound) {p : CapturePolicy} (hp : p.active = true → w.policy.active = true) :
    Sound { w with policy := p } :=
  ⟨h.posted, h.latest, fun ha => h.active (hp ha), h.origin, h.trying, h.located, h.anchored, h.saved, h.restored⟩

theorem Sound.fault (h : w.Sound) : w.fault.Sound := h.policy (by simp [CapturePolicy.pause])

/-- A request leaves a message behind; `False` comes after the policy has been paused. -/
theorem Sound.request (h : w.Sound) {active : Bool} (hp : active = false → w.policy.active = false) :
    (w.request active).Sound := by
  refine ⟨?_, ?_, fun ha => ?_, fun _ => .inr rfl, fun _ => .inr rfl, h.located, h.anchored, h.saved, h.restored⟩
  · have hposted := h.posted
    cases hs : w.statePending <;> simp [WindowsCapture.request, hs] at hposted ⊢ <;> exact hposted
  · simp [WindowsCapture.request]
  · obtain ⟨_, ho, han, hi⟩ := h.active ha
    cases active with
    | true => exact ⟨rfl, ho, han, hi⟩
    | false => exact absurd ((hp rfl).symm.trans ha) (by simp)

theorem Sound.setActive (h : w.Sound) (active : Bool) : (w.setActive active).Sound := by
  cases active with
  | true => exact h.request (by simp)
  | false => exact h.fault.request fun _ => rfl

theorem Sound.requests (h : w.Sound) {n : Nat} (hn : w.policy.active = true → n = 0) :
    Sound ((WindowsCapture.request false)^[n] w) := by
  induction n generalizing w with
  | zero => exact h
  | succ n ih =>
      have ha : w.policy.active = false := by
        cases ha : w.policy.active with
        | false => rfl
        | true => exact absurd (hn ha) (by simp)
      rw [Function.iterate_succ_apply]
      exact ih (h.request fun _ => ha) fun hr => absurd (ha.symm.trans hr) (by simp)

theorem Sound.seeKey (h : w.Sound) (k : Int) (down : Bool) : (w.seeKey k down).Sound :=
  ⟨h.posted, h.latest, h.active, h.origin, h.trying, h.located, h.anchored, h.saved, h.restored⟩

theorem Sound.seeButton (h : w.Sound) (b : Int) (down : Bool) : (w.seeButton b down).Sound :=
  ⟨h.posted, h.latest, h.active, h.origin, h.trying, h.located, h.anchored, h.saved, h.restored⟩

theorem Sound.key (h : w.Sound) (pauses : Pauses) (k : Int) (down : Bool) : (w.key pauses k down).Sound := by
  have hp : Sound { w with policy := (w.policy.key pauses k down).1 } := h.policy fun ha => (CapturePolicy.key_active ha).1
  have hr := hp.requests fun ha => (CapturePolicy.key_active ha).2
  unfold WindowsCapture.key
  dsimp only
  split
  · exact hr
  · exact hr.seeKey k down

theorem Sound.mouse (h : w.Sound) (pauses : Pauses) (op : Op) (a b : Int) : (w.mouse pauses op a b).Sound := by
  have hp : Sound { w with policy := (w.policy.mouse pauses op a b).1 } :=
    h.policy fun ha => (CapturePolicy.mouse_active ha).1
  have hr := hp.requests fun ha => (CapturePolicy.mouse_active ha).2
  unfold WindowsCapture.mouse
  dsimp only
  split
  · exact hr
  · exact hr.seeButton a (b ≠ 0)

/-! ## The hook thread -/

theorem Sound.restorations (h : w.Sound) : w.restoreCursor.restorations.getLast? = w.saved := by
  show (w.restorations ++ w.origin.toList).getLast? = w.saved
  cases ho : w.origin with
  | none => simpa using h.restored ho
  | some o => simp [h.saved o ho]

/-- After `_restore_cursor` nothing is promised about the cursor. -/
theorem Sound.restoreCursor (h : w.Sound) (hp : w.policy.active = false) {applying : Applying}
    (ht : applying.trying = true → w.requestedActive = true ∨ w.statePending = true)
    (hl : applying.located = false) (ha : applying.anchored = false) :
    Sound { w.restoreCursor with applying := applying } := by
  refine ⟨h.posted, h.latest, fun h' => absurd (hp.symm.trans h') (by simp), by simp [WindowsCapture.restoreCursor], ht,
    fun h' => absurd (hl.symm.trans h') (by simp), fun h' => absurd (ha.symm.trans h') (by simp),
    by simp [WindowsCapture.restoreCursor], fun _ => h.restorations⟩

/-- The hook thread goes on with an activation. -/
theorem Sound.proceed (h : w.Sound) {applying : Applying} (ht : w.applying.trying = true)
    (hl : applying.located = true → w.applying.located = true)
    (ha : applying.anchored = true → w.applying.anchored = true) :
    Sound { w with applying := applying } := by
  refine ⟨h.posted, h.latest, fun h' => ?_, h.origin, fun _ => h.trying ht, fun h' => h.located (hl h'),
    fun h' => h.anchored (ha h'), h.saved, h.restored⟩
  obtain ⟨_, _, _, hi⟩ := h.active h'
  rw [hi] at ht
  cases ht

theorem Sound.inactive (h : w.Sound) (hi : w.applying ≠ .idle) : w.policy.active = false := by
  cases ha : w.policy.active with
  | false => rfl
  | true => exact absurd (h.active ha).2.2.2 hi

theorem Sound.message (h : w.Sound) {healthy : Bool} (hs : w.message healthy = some w') : w'.Sound := by
  unfold WindowsCapture.message at hs
  split at hs
  · cases hs
  rename_i hg
  have hidle : w.applying = .idle := by tauto
  have hpend : w.statePending = true := by
    cases hp : w.statePending with
    | true => rfl
    | false => have := h.posted; rw [hp] at this; tauto
  have hposted : w.posted - 1 = 0 := by have := h.posted; rw [hpend, if_pos rfl] at this; omega
  dsimp only at hs
  split at hs
  · rename_i hreq
    have htaken : ∀ applying : Applying, applying.located = false → applying.anchored = false →
        (w.policy.active = true → applying = .idle) →
        Sound { w with posted := w.posted - 1, statePending := false, applying := applying } := by
      intro applying hl ha hi
      refine ⟨hposted, h.latest, fun h' => ?_, fun _ => .inl hreq, fun _ => .inl hreq,
        fun h' => absurd (hl.symm.trans h') (by simp), fun h' => absurd (ha.symm.trans h') (by simp), h.saved, h.restored⟩
      obtain ⟨hr, ho, han, _⟩ := h.active h'
      exact ⟨hr, ho, han, hi h'⟩
    split at hs
    · cases hs
      have := htaken .idle rfl rfl fun _ => rfl
      rw [← hidle] at this
      exact this
    · rename_i ha
      cases hs
      cases healthy with
      | true => exact htaken _ rfl rfl fun h' => absurd h' ha
      | false => exact htaken _ rfl rfl fun h' => absurd h' ha
  · rename_i hreq
    cases hs
    have hrest : (w.fault.restoreCursor).restorations.getLast? = w.saved := h.fault.restorations
    refine ⟨hposted, h.latest, by simp [WindowsCapture.fault, WindowsCapture.restoreCursor, CapturePolicy.pause],
      by simp [WindowsCapture.restoreCursor], ?_, ?_, ?_, by simp [WindowsCapture.restoreCursor], fun _ => hrest⟩
    · cases ho : w.origin <;> simp [Applying.trying]
    · cases ho : w.origin <;> simp [Applying.located]
    · cases ho : w.origin <;> simp [Applying.anchored]

theorem Sound.finish (h : w.Sound) {version : Nat} (ha : w.applying = .releasing version []) : (w.finish version).Sound := by
  unfold WindowsCapture.finish
  split
  · rename_i hreq
    have ho := h.located (by rw [ha]; rfl)
    have han := h.anchored (by rw [ha]; rfl)
    exact ⟨h.posted, h.latest, fun _ => ⟨hreq.1, ho, han, rfl⟩, h.origin, by simp [Applying.trying],
      by simp [Applying.located], by simp [Applying.anchored], h.saved, h.restored⟩
  · have hp := h.inactive (by rw [ha]; simp)
    cases ho : w.origin with
    | none => exact h.restoreCursor hp (by simp [Applying.trying]) rfl rfl
    | some o => exact h.restoreCursor hp (by simp [Applying.trying]) rfl rfl

theorem Sound.native (h : w.Sound) {r : NativeResult} (hs : w.native r = some w') : w'.Sound := by
  unfold WindowsCapture.native at hs
  split at hs
  · cases hs
  · cases hs
  · rename_i version ha
    have ht : w.applying.trying = true := by rw [ha]; rfl
    have hp := h.inactive (by rw [ha]; simp)
    split at hs
    · cases hs
      cases ho : w.origin with
      | none => exact h.restoreCursor hp (fun _ => h.trying ht) rfl rfl
      | some o => exact h.restoreCursor hp (fun _ => h.trying ht) rfl rfl
    · cases hs
      exact h.proceed ht (by simp [Applying.located]) (by simp [Applying.anchored])
  · rename_i version ha
    cases hs
    exact h.proceed (by rw [ha]; rfl) (by simp [Applying.located]) (by simp [Applying.anchored])
  · rename_i version ha
    have ht : w.applying.trying = true := by rw [ha]; rfl
    split at hs
    · cases hs
      have hp := h.inactive (by rw [ha]; simp)
      refine ⟨h.posted, h.latest, fun h' => absurd (hp.symm.trans h') (by simp), fun _ => h.trying ht,
        fun _ => h.trying ht, fun _ => rfl, by simp [Applying.anchored], fun o ho => ho, by simp⟩
    · cases hs
      exact h.proceed ht (by simp [Applying.located]) (by simp [Applying.anchored])
  · rename_i version ha
    cases hs
    have hp := h.inactive (by rw [ha]; simp)
    exact ⟨h.posted, h.latest, fun h' => absurd (hp.symm.trans h') (by simp), h.origin,
      fun _ => h.trying (by rw [ha]; rfl), fun _ => h.located (by rw [ha]; rfl), fun _ => rfl, h.saved, h.restored⟩
  · rename_i version ha
    cases hs
    split
    · exact h.proceed (by rw [ha]; rfl) (fun _ => by rw [ha]; rfl) (fun _ => by rw [ha]; rfl)
    · exact h.proceed (by rw [ha]; rfl) (by simp [Applying.located]) (by simp [Applying.anchored])
  · rename_i version ha
    cases hs
    exact h.finish ha
  · rename_i version key keys ha
    have ha' : (w.seeKey key false).applying = .releasing version (key :: keys) := ha
    split at hs
    · cases hs
      exact (h.seeKey key false).proceed (by rw [ha']; rfl) (fun _ => by rw [ha']; rfl) (fun _ => by rw [ha']; rfl)
    · cases hs
      exact h.proceed (by rw [ha]; rfl) (by simp [Applying.located]) (by simp [Applying.anchored])
  · rename_i ha
    cases hs
    have hp := h.inactive (by rw [ha]; simp)
    exact ⟨h.posted, h.latest, fun h' => absurd (hp.symm.trans h') (by simp), h.origin, by simp [Applying.trying],
      by simp [Applying.located], by simp [Applying.anchored], h.saved, h.restored⟩

theorem Sound.recover (h : w.Sound) (hs : w.recover = some w') : w'.Sound := by
  unfold WindowsCapture.recover at hs
  split at hs
  · rename_i ha
    cases hs
    have hp := h.inactive (by rw [ha]; simp)
    have hidle : Sound { w with applying := .idle } :=
      ⟨h.posted, h.latest, fun h' => absurd (hp.symm.trans h') (by simp), h.origin, by simp [Applying.trying],
        by simp [Applying.located], by simp [Applying.anchored], h.saved, h.restored⟩
    exact hidle.setActive false
  · cases hs

theorem Sound.step (h : w.Sound) (hs : w.step action = some w') : w'.Sound := by
  cases action with
  | setActive active => cases hs; exact h.setActive active
  | key pauses k down => cases hs; exact h.key pauses k down
  | mouse pauses op a b => cases hs; exact h.mouse pauses op a b
  | fault => cases hs; exact h.fault
  | message healthy => exact h.message hs
  | native r => exact h.native hs
  | recover => exact h.recover hs

/-! ## The latest request stays -/

theorem requests_latest {n : Nat} (hl : w.requests.getLast? = some false) :
    ((request false)^[n] w).requests.getLast? = some false := by
  induction n generalizing w with
  | zero => exact hl
  | succ n ih =>
      rw [Function.iterate_succ_apply]
      exact ih (by simp [request])

/-- Of the steps only `set_active(True)` requests an activation. -/
theorem step_requests (hs : w.step action = some w') (hne : action ≠ .setActive true)
    (hl : w.requests.getLast? = some false) : w'.requests.getLast? = some false := by
  cases action with
  | setActive active =>
      cases hs
      cases active with
      | true => exact absurd rfl hne
      | false => simp [setActive, request]
  | key pauses k down =>
      cases hs
      have hr := requests_latest (w := { w with policy := (w.policy.key pauses k down).1 })
        (n := pauseCount pauses [] (w.policy.key pauses k down).1.calls) hl
      unfold key
      dsimp only
      split
      · exact hr
      · exact hr
  | mouse pauses op a b =>
      cases hs
      have hr := requests_latest (w := { w with policy := (w.policy.mouse pauses op a b).1 })
        (n := pauseCount pauses [] (w.policy.mouse pauses op a b).1.calls) hl
      unfold mouse
      dsimp only
      split
      · exact hr
      · exact hr
  | fault => cases hs; exact hl
  | message healthy =>
      simp only [step, message] at hs
      split at hs
      · cases hs
      split at hs
      · split at hs <;> cases hs <;> exact hl
      · cases hs; exact hl
  | native r =>
      simp only [step, native] at hs
      split at hs
      case h_3 | h_5 | h_9 => split at hs <;> cases hs <;> exact hl
      case h_8 =>
        cases hs
        unfold finish
        split <;> exact hl
      all_goals cases hs <;> exact hl
  | recover =>
      simp only [step, recover] at hs
      split at hs
      · cases hs; simp [setActive, request]
      · cases hs

theorem run_requests {actions : List CaptureAction} (hs : w.run actions = some w') (hne : .setActive true ∉ actions)
    (hl : w.requests.getLast? = some false) : w'.requests.getLast? = some false := by
  have hbefore : Runs.Before step w (fun _ action => action ≠ .setActive true) actions := by
    rintro before action after _ rfl _ rfl
    exact hne (by simp)
  exact hbefore.invariant (I := fun w => w.requests.getLast? = some false) hl
    (fun _ _ _ hl hne hs => step_requests hs hne hl) hs

/-- In every state of a run the capture is active only on the latest request and with the cursor anchored, it stays inactive
after `set_active(False)`, and with no message left and no request to be active the cursor is back where it was saved. -/
theorem follows_latest_request {actions : List CaptureAction} (hs : run {} actions = some w) :
    (w.policy.active = true → w.requests.getLast? = some true ∧ w.origin.isSome ∧ w.anchor.isSome) ∧
    (∀ before after, actions = before ++ .setActive false :: after → .setActive true ∉ after → w.policy.active = false) ∧
    (w.posted = 0 → w.requests.getLast? ≠ some true → w.origin = none ∧ w.restorations.getLast? = w.saved) := by
  have h : w.Sound := Runs.invariant Sound.start (fun _ _ _ h hs => h.step hs) hs
  have hreq : w.requestedActive = true ↔ w.requests.getLast? = some true := by
    rw [← h.latest]
    cases w.requests.getLast? <;> simp
  refine ⟨fun ha => ?_, ?_, fun hp hl => ?_⟩
  · obtain ⟨hr, ho, han, _⟩ := h.active ha
    exact ⟨hreq.mp hr, ho, han⟩
  · rintro before after rfl hne
    rw [run, Runs.exec_append] at hs
    obtain ⟨w₁, _, hs⟩ := Option.bind_eq_some_iff.mp hs
    have hl : w.requests.getLast? = some false :=
      run_requests (w := w₁.setActive false) hs hne (by simp [setActive, request])
    cases ha : w.policy.active with
    | false => rfl
    | true =>
        have hr := hreq.mp (h.active ha).1
        exact absurd (hl.symm.trans hr) (by simp)
  · have hpend : w.statePending = false := by
      cases hp' : w.statePending with
      | false => rfl
      | true => have := h.posted; rw [hp', hp] at this; cases this
    have ho : w.origin = none := by
      cases ho : w.origin with
      | none => rfl
      | some o =>
          rcases h.origin (by simp [ho]) with hr | hr
          · exact absurd (hreq.mp hr) hl
          · exact absurd (hpend.symm.trans hr) (by simp)
    exact ⟨ho, h.restored ho⟩

/-- A request is applied, and the capture is active. -/
def engaged : List CaptureAction :=
  [.setActive true, .message true, .native {}, .native { point := (5, 6) }, .native { point := (100, 80) }, .native {},
    .native {}]

/-- The capture stops, and the next activation is cancelled in the middle; three requests share one message. -/
def cancelled : List CaptureAction :=
  engaged ++ [.setActive false, .message true, .native {}] ++ engaged.take 6 ++
    [.setActive false, .setActive true, .setActive false, .native {}, .native {}, .message true]

theorem follows_latest_request_cancelled :
    (∃ w, run {} engaged = some w ∧ w.policy.active = true ∧
      w.requests.getLast? = some true ∧ w.origin.isSome ∧ w.anchor.isSome) ∧
    ∃ w, run {} cancelled = some w ∧ w.policy.active = false ∧ w.posted = 0 ∧
      w.origin = none ∧ w.restorations.getLast? = w.saved ∧ w.saved = some (5, 6) := by
  constructor
  · obtain ⟨w, hw⟩ : ∃ w, run {} engaged = some w := Option.isSome_iff_exists.mp (by decide)
    have ha : w.policy.active = true := by
      have hv : (run {} engaged).map (fun (w : WindowsCapture) => w.policy.active) = some true := by decide
      rw [hw] at hv
      exact Option.some.inj hv
    exact ⟨w, hw, ha, (follows_latest_request hw).1 ha⟩
  obtain ⟨w, hw⟩ : ∃ w, run {} cancelled = some w := Option.isSome_iff_exists.mp (by decide)
  have hp : w.posted = 0 ∧ w.requests.getLast? = some false ∧ w.saved = some (5, 6) := by
    have := congrArg (Option.map fun (w : WindowsCapture) => (w.posted, w.requests.getLast?, w.saved)) hw
    have hv : (run {} cancelled).map (fun (w : WindowsCapture) => (w.posted, w.requests.getLast?, w.saved)) =
        some (0, some false, some (5, 6)) := by decide
    rw [hv] at this
    simpa [eq_comm] using this
  obtain ⟨_, hstop, hback⟩ := follows_latest_request hw
  obtain ⟨ho, hr⟩ := hback hp.1 (by simp [hp.2.1])
  have hinactive := hstop (cancelled.take 18) (cancelled.drop 19) (by rfl) (by simp [cancelled, engaged])
  exact ⟨w, hw, hinactive, hp.1, ho, hr, hp.2.2⟩

end WindowsCapture

end RemoteInput
