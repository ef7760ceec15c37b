import RemoteInput.Capture.Lemmas.Windows

/-!
# What the local system holds down
-/

namespace RemoteInput

namespace WindowsCapture

variable {w w' : WindowsCapture} {action : CaptureAction}

/-- What is physically up is up for the local system. -/
def Released (w : WindowsCapture) : Prop :=
  (∀ k ∈ w.localKeys, k ∈ w.policy.keys) ∧ ∀ b ∈ w.localButtons, b ∈ w.policy.buttons

instance (w : WindowsCapture) : Decidable w.Released :=
  inferInstanceAs (Decidable ((∀ k ∈ w.localKeys.elems, k ∈ w.policy.keys) ∧
    ∀ b ∈ w.localButtons.elems, b ∈ w.policy.buttons))

/-- A release of what is down locally, at a moment when releases are kept back. -/
def KeptBack (w : WindowsCapture) : CaptureAction → Prop
  | .key _ k false => k ∈ w.localKeys ∧ (k ∈ w.policy.swallowed ∨ w.policy.active = true)
  | .mouse _ .button b 0 => b ∈ w.localButtons ∧ w.policy.active = true
  | _ => False

/-- What is down locally while the policy is active was held at the activation. -/
structure Tracked (w : WindowsCapture) : Prop where
  released : w.Released
  keys : w.policy.active = true → ∀ k ∈ w.localKeys, k ∈ w.policy.ignored
  buttons : w.policy.active = true → ∀ b ∈ w.localButtons, b ∈ w.policy.ignoredButtons

theorem Tracked.start : Tracked {} := by
  constructor <;> simp [Released]

theorem Tracked.key (h : w.Tracked) {pauses : Pauses} {k : Int} {down : Bool} (hk : ¬ w.KeptBack (.key pauses k down)) :
    (w.key pauses k down).Tracked := by
  obtain ⟨hp, hb, hl⟩ := key_seen pauses k down w
  have hc := CapturePolicy.key_cases pauses k down w.policy
  have hlike := hc.like
  have hfate := hc.fate
  have hactive : (w.policy.key pauses k down).1.active = true → _ := CapturePolicy.key_active
  -- a key that is down locally afterwards
  have hlocal : ∀ x ∈ (w.key pauses k down).localKeys, (x ∈ w.localKeys ∧ (x = k → down = true)) ∨
      x = k ∧ down = true ∧ (w.policy.key pauses k down).1.active = false := by
    intro x hx
    rw [hl] at hx
    generalize hr : w.policy.key pauses k down = r at hx hfate
    cases hfate with
    | suppressed hs =>
        rw [if_pos rfl] at hx
        refine .inl ⟨hx, ?_⟩
        rintro rfl
        cases down with
        | true => rfl
        | false => exact absurd ⟨hx, hs rfl⟩ hk
    | passed ha _ _ _ _ hr' =>
        rw [if_neg (by simp)] at hx
        cases down with
        | true => exact (PySet.mem_add.mp hx).imp (fun h => ⟨h, fun _ => rfl⟩) fun he => ⟨he, rfl, hr'⟩
        | false =>
            obtain ⟨hx, hne⟩ := PySet.mem_discard.mp hx
            exact .inl ⟨hx, fun he => absurd he hne⟩
    | raised ha _ hd hr' =>
        rw [if_neg (by simp), hd] at hx
        obtain ⟨hx, hne⟩ := PySet.mem_discard.mp hx
        exact .inl ⟨hx, fun he => absurd he hne⟩
  refine ⟨⟨fun x hx => ?_, fun b hx => ?_⟩, fun ha x hx => ?_, fun ha b hx => ?_⟩
  · rw [hp, hlike.keys]
    show x ∈ (if down then _ else _)
    rcases hlocal x hx with ⟨hx', hd⟩ | ⟨rfl, rfl, _⟩
    · have hx' := h.released.1 x hx'
      cases down with
      | true => exact PySet.mem_add.mpr (.inl hx')
      | false => exact PySet.mem_discard.mpr ⟨hx', fun he => absurd (hd he) (by simp)⟩
    · exact PySet.mem_add.mpr (.inr rfl)
  · rw [hp, hlike.buttons]; exact h.released.2 b (hb ▸ hx)
  · rw [hp] at ha ⊢
    rcases hlocal x hx with ⟨hx, hd⟩ | ⟨_, _, hn⟩
    · have hi : x ∈ w.policy.ignored := h.keys (hactive ha).1 x hx
      rcases hlike.ignored with he | ⟨hd', _, he⟩
      · rw [he]; exact hi
      · rw [he]; exact PySet.mem_discard.mpr ⟨hi, fun he => absurd ((hd he).symm.trans hd') (by simp)⟩
    · exact absurd (hn.symm.trans ha) (by simp)
  · rw [hp] at ha ⊢
    rw [hlike.ignoredButtons]
    exact h.buttons (hactive ha).1 b (hb ▸ hx)

theorem Tracked.mouse (h : w.Tracked) {pauses : Pauses} {op : Op} {a b : Int} (hk : ¬ w.KeptBack (.mouse pauses op a b)) :
    (w.mouse pauses op a b).Tracked := by
  obtain ⟨hp, hl, hb⟩ := mouse_seen pauses op a b w
  have hc := CapturePolicy.mouse_cases pauses op a b w.policy
  obtain ⟨hkeys, hbuttons, hi, hib, _⟩ := hc.like
  have hactive : (w.policy.mouse pauses op a b).1.active = true → _ := CapturePolicy.mouse_active
  have hpass : (w.policy.mouse pauses op a b).2 = w.policy.active ∧
      ((w.policy.mouse pauses op a b).2 = false → (w.policy.mouse pauses op a b).1.active = false) := by
    generalize w.policy.mouse pauses op a b = r at hc
    cases hc with
    | ignored | unignored => exact ⟨rfl, id⟩
    | passed _ ha => exact ⟨ha.symm, fun _ => ha⟩
    | emitted _ ha => exact ⟨ha.symm, fun h => absurd h (by simp)⟩
  have hlocal : ∀ x ∈ (w.mouse pauses op a b).localButtons, (x ∈ w.localButtons ∧ (op = .button → x = a → b ≠ 0)) ∨
      x = a ∧ op = .button ∧ b ≠ 0 ∧ (w.policy.mouse pauses op a b).1.active = false := by
    intro x hx
    rw [hb] at hx
    by_cases hop : op = .button
    · subst hop
      cases ha : w.policy.active with
      | true =>
          rw [if_pos (.inl (hpass.1.trans ha))] at hx
          refine .inl ⟨hx, ?_⟩
          rintro - rfl rfl
          exact hk ⟨hx, ha⟩
      | false =>
          have hf := hpass.1.trans ha
          rw [if_neg (by simp [hf])] at hx
          by_cases hz : b = 0
          · rw [if_neg (not_not.mpr hz)] at hx
            obtain ⟨hx, hne⟩ := PySet.mem_discard.mp hx
            exact .inl ⟨hx, fun _ he => absurd he hne⟩
          · rw [if_pos hz] at hx
            exact (PySet.mem_add.mp hx).imp (fun h => ⟨h, fun _ _ => hz⟩) fun he => ⟨he, rfl, hz, hpass.2 hf⟩
    · rw [if_pos (.inr hop)] at hx
      exact .inl ⟨hx, fun h => absurd h hop⟩
  refine ⟨⟨fun x hx => ?_, fun x hx => ?_⟩, fun ha x hx => ?_, fun ha x hx => ?_⟩
  · rw [hp, hkeys]; exact h.released.1 x (hl ▸ hx)
  · rw [hp, hbuttons]
    show x ∈ (if op = .button then if b ≠ 0 then _ else _ else _)
    rcases hlocal x hx with ⟨hx, hd⟩ | ⟨rfl, hop, hz, _⟩
    · have hx := h.released.2 x hx
      by_cases hop : op = .button
      · rw [if_pos hop]
        by_cases hz : b = 0
        · rw [if_neg (not_not.mpr hz)]
          exact PySet.mem_discard.mpr ⟨hx, fun he => hd hop he hz⟩
        · rw [if_pos hz]; exact PySet.mem_add.mpr (.inl hx)
      · rw [if_neg hop]; exact hx
    · rw [if_pos hop, if_pos hz]; exact PySet.mem_add.mpr (.inr rfl)
  · rw [hp] at ha ⊢
    rw [hi]; exact h.keys (hactive ha).1 x (hl ▸ hx)
  · rw [hp] at ha ⊢
    have hold := h.buttons (hactive ha).1
    rcases hlocal x hx with ⟨hx, hd⟩ | ⟨_, _, _, hn⟩
    · rcases hib with he | ⟨hop, hz, he⟩
      · rw [he]; exact hold x hx
      · rw [he]; exact PySet.mem_discard.mpr ⟨hold x hx, fun he => hd hop he hz⟩
    · exact absurd (hn.symm.trans ha) (by simp)

/-- A step that leaves the keys alone, apart from releases for the local system, and does not activate. -/
theorem Tracked.of_same (h : w.Tracked) (hp : w'.policy.keys = w.policy.keys ∧ w'.policy.buttons = w.policy.buttons ∧
      w'.policy.ignored = w.policy.ignored ∧ w'.policy.ignoredButtons = w.policy.ignoredButtons)
    (ha : w'.policy.active = true → w.policy.active = true) (hk : ∀ k ∈ w'.localKeys, k ∈ w.localKeys)
    (hb : w'.localButtons = w.localButtons) : w'.Tracked := by
  obtain ⟨h1, h2, h3, h4⟩ := hp
  refine ⟨⟨fun k hx => ?_, fun b hx => ?_⟩, fun hact k hx => ?_, fun hact b hx => ?_⟩
  · rw [h1]; exact h.released.1 k (hk k hx)
  · rw [h2]; exact h.released.2 b (hb ▸ hx)
  · rw [h3]; exact h.keys (ha hact) k (hk k hx)
  · rw [h4]; exact h.buttons (ha hact) b (hb ▸ hx)

theorem Tracked.pause (h : w.Tracked) : w.fault.Tracked :=
  h.of_same ⟨rfl, rfl, rfl, rfl⟩ (by simp [fault, CapturePolicy.pause]) (fun _ h => h) rfl

theorem Tracked.setActive (h : w.Tracked) (active : Bool) : (w.setActive active).Tracked := by
  cases active with
  | true => exact h.of_same ⟨rfl, rfl, rfl, rfl⟩ id (fun _ h => h) rfl
  | false => exact h.pause.of_same ⟨rfl, rfl, rfl, rfl⟩ id (fun _ h => h) rfl

theorem Tracked.message (h : w.Tracked) {healthy : Bool} (hs : w.message healthy = some w') : w'.Tracked := by
  unfold WindowsCapture.message at hs
  split at hs
  · cases hs
  dsimp only at hs
  split at hs
  · split at hs
    · cases hs; exact h.of_same ⟨rfl, rfl, rfl, rfl⟩ id (fun _ h => h) rfl
    · cases hs; exact h.of_same ⟨rfl, rfl, rfl, rfl⟩ id (fun _ h => h) rfl
  · cases hs
    exact h.pause.of_same ⟨rfl, rfl, rfl, rfl⟩ id (fun _ h => h) rfl

/-- What the activation finds held is ignored. -/
theorem Tracked.activate (h : w.Tracked) {applying : Applying} :
    Tracked { w with policy := w.policy.activate, applying := applying } :=
  ⟨h.released, fun _ => h.released.1, fun _ => h.released.2⟩

theorem Tracked.native (h : w.Tracked) {r : NativeResult} (hs : w.native r = some w') : w'.Tracked := by
  have hsame : ∀ w'' : WindowsCapture, w''.policy = w.policy → w''.localKeys = w.localKeys →
      w''.localButtons = w.localButtons → w''.Tracked := by
    intro w'' hp hk hb
    exact h.of_same (by rw [hp]; exact ⟨rfl, rfl, rfl, rfl⟩) (by rw [hp]; exact id) (fun _ h => hk ▸ h) hb
  unfold WindowsCapture.native at hs
  split at hs
  case h_3 | h_5 => split at hs <;> cases hs <;> exact hsame _ rfl rfl rfl
  case h_8 =>
    cases hs
    unfold finish
    split
    · exact h.activate
    · exact hsame _ rfl rfl rfl
  case h_9 =>
    split at hs
    · cases hs
      exact h.of_same ⟨rfl, rfl, rfl, rfl⟩ id (fun _ h => (PySet.mem_discard.mp h).1) rfl
    · cases hs; exact hsame _ rfl rfl rfl
  all_goals cases hs <;> exact hsame _ rfl rfl rfl

theorem Tracked.step (h : w.Tracked) (hk : ¬ w.KeptBack action) (hs : w.step action = some w') : w'.Tracked := by
  cases action with
  | setActive active => cases hs; exact h.setActive active
  | key pauses k down => cases hs; exact h.key hk
  | mouse pauses op a b => cases hs; exact h.mouse hk
  | fault => cases hs; exact h.pause
  | message healthy => exact h.message hs
  | native r => exact h.native hs
  | recover =>
      simp only [WindowsCapture.step, recover] at hs
      split at hs
      · cases hs
        have hidle : Tracked { w with applying := .idle } := h.of_same ⟨rfl, rfl, rfl, rfl⟩ id (fun _ h => h) rfl
        exact hidle.setActive false
      · cases hs

/-- A release that is kept back leaves its key or button down. -/
theorem Tracked.stuck (h : w.Tracked) (hk : w.KeptBack action) : ∃ w', w.step action = some w' ∧ ¬ w'.Released := by
  cases action with
  | setActive | fault | message | native | recover => exact hk.elim
  | key pauses k down =>
      cases down with
      | true => exact hk.elim
      | false =>
          obtain ⟨hl, hb⟩ := hk
          refine ⟨_, rfl, fun hr => ?_⟩
          obtain ⟨hp, _, hseen⟩ := key_seen pauses k false w
          have hc := CapturePolicy.key_cases pauses k false w.policy
          have hkeys := hc.like.keys
          have hsup : (w.policy.key pauses k false).2 = some true := by
            have hfate := hc.fate
            generalize w.policy.key pauses k false = r at hfate
            cases hfate with
            | suppressed => rfl
            | passed ha _ hs =>
                rcases hb with hb | hb
                · exact absurd hb hs
                · exact absurd (ha.symm.trans hb) (by simp)
            | raised ha hi => exact absurd (h.keys ha k hl) hi
          rw [if_pos hsup] at hseen
          have hmem := hr.1 k (hseen ▸ hl)
          rw [hp, hkeys] at hmem
          exact (PySet.mem_discard.mp hmem).2 rfl
  | mouse pauses op a b =>
      obtain ⟨rfl, rfl, hl, ha⟩ : op = .button ∧ b = 0 ∧ a ∈ w.localButtons ∧ w.policy.active = true := by
        unfold KeptBack at hk
        split at hk
        · rename_i heq; cases heq
        · rename_i heq; cases heq; exact ⟨rfl, rfl, hk⟩
        · exact hk.elim
      refine ⟨_, rfl, fun hr => ?_⟩
      obtain ⟨hp, _, hseen⟩ := mouse_seen pauses .button a 0 w
      have hc := CapturePolicy.mouse_cases pauses .button a 0 w.policy
      have hbuttons := hc.like.2.1
      have hsup : (w.policy.mouse pauses .button a 0).2 = true := by
        generalize w.policy.mouse pauses .button a 0 = r at hc
        cases hc with
        | ignored | unignored => exact ha
        | passed _ hn => exact absurd (hn.symm.trans ha) (by simp)
        | emitted => rfl
      rw [if_pos (.inl hsup)] at hseen
      have hmem := hr.2 a (hseen ▸ hl)
      rw [hp, hbuttons] at hmem
      exact (PySet.mem_discard.mp hmem).2 rfl

/-! ## Runs -/

/-- In every state of the run what is physically up is up for the local system. -/
def LetsGo (actions : List CaptureAction) : Prop :=
  ∀ before after w, actions = before ++ after → run {} before = some w → w.Released

theorem tracked_of_letsGo {actions : List CaptureAction} (h : LetsGo actions) :
    ∀ before after w, actions = before ++ after → run {} before = some w → w.Tracked := by
  intro before
  induction before using List.reverseRecOn with
  | nil => intro after w _ hs; cases hs; exact Tracked.start
  | append_singleton before action ih =>
      intro after w he hs
      obtain ⟨w₁, h₁, hs₁⟩ := Runs.exec_concat.mp hs
      have htracked : w₁.Tracked := ih (action :: after) w₁ (by simp [he]) h₁
      refine htracked.step (fun hk => ?_) hs₁
      obtain ⟨w', hs', hn⟩ := htracked.stuck hk
      exact hn (h (before ++ [action]) after w' he (Runs.exec_concat.mpr ⟨w₁, h₁, hs'⟩))

/-! ## Where releases come to be kept back -/

/-- The activation finds nothing held, no key that is down locally becomes a hotkey, and no key that is still among the
forwarded ones is pressed while the policy is inactive. -/
def Careful (w : WindowsCapture) : CaptureAction → Prop
  | .key _ k true => ((w.policy.touch k true).hotkey k true → k ∉ w.localKeys) ∧
      (w.policy.active = false → k ∉ w.policy.forwarded)
  | .native _ => (∃ version, w.applying = .releasing version [] ∧ w.requestedActive = true ∧ w.stateVersion = version) →
      w.localKeys = ∅ ∧ w.localButtons = ∅
  | _ => True

/-- Nothing that is down locally is in the way of its release. -/
structure Clear (w : WindowsCapture) : Prop where
  active : w.policy.active = true → w.localKeys = ∅ ∧ w.localButtons = ∅
  keys : ∀ k ∈ w.localKeys, k ∉ w.policy.swallowed ∧ k ∉ w.policy.forwarded

theorem Clear.start : Clear {} := by
  constructor <;> simp

theorem Clear.not_keptBack (h : w.Clear) : ¬ w.KeptBack action := by
  intro hk
  cases action with
  | setActive | fault | message | native | recover => exact hk.elim
  | key pauses k down =>
      cases down with
      | true => exact hk.elim
      | false =>
          obtain ⟨hl, hb | hb⟩ := hk
          · exact (h.keys k hl).1 hb
          · rw [(h.active hb).1] at hl; exact absurd hl (by simp)
  | mouse pauses op a b =>
      unfold KeptBack at hk
      split at hk
      · rename_i heq; cases heq
      · rw [(h.active hk.2).2] at hk; exact absurd hk.1 (by simp)
      · exact hk

theorem Clear.pause (h : w.Clear) : w.fault.Clear := by
  refine ⟨by simp [fault, CapturePolicy.pause], fun k hk => ⟨fun hs => ?_, by simp [fault, CapturePolicy.pause]⟩⟩
  rcases CapturePolicy.mem_union.mp hs with hs | hs
  · exact (h.keys k hk).1 hs
  · exact (h.keys k hk).2 hs

/-- A step that leaves the policy alone and puts nothing down. -/
theorem Clear.of_same (h : w.Clear) (hp : w'.policy = w.policy) (hk : ∀ k ∈ w'.localKeys, k ∈ w.localKeys)
    (hb : w'.localButtons = w.localButtons) : w'.Clear := by
  refine ⟨fun ha => ?_, fun k hx => ?_⟩
  · rw [hp] at ha
    obtain ⟨h1, h2⟩ := h.active ha
    refine ⟨PySet.eq_empty_iff_forall.mpr fun k hx => ?_, hb.trans h2⟩
    exact absurd (h1 ▸ hk k hx) (by simp)
  · rw [hp]; exact h.keys k (hk k hx)

theorem Clear.setActive (h : w.Clear) (active : Bool) : (w.setActive active).Clear := by
  cases active with
  | true => exact h.of_same rfl (fun _ h => h) rfl
  | false => exact h.pause.of_same rfl (fun _ h => h) rfl

theorem Clear.key (h : w.Clear) {pauses : Pauses} {k : Int} {down : Bool} (hc : w.Careful (.key pauses k down)) :
    (w.key pauses k down).Clear := by
  obtain ⟨hp, hb, hl⟩ := key_seen pauses k down w
  have hcase := CapturePolicy.key_cases pauses k down w.policy
  have hfate := hcase.fate
  have hinactive := hcase.inactive
  have hactive : (w.policy.key pauses k down).1.active = true → _ := CapturePolicy.key_active
  have hkept : w.policy.active = true → (w.key pauses k down).localKeys = ∅ := by
    intro ha
    have he := (h.active ha).1
    generalize w.policy.key pauses k down = r at hl hfate
    cases hfate with
    | suppressed => rw [hl, if_pos rfl, he]
    | passed hn => exact absurd (hn.symm.trans ha) (by simp)
    | raised _ _ hd => rw [hl, if_neg (by simp), hd, he]; rfl
  refine ⟨fun ha => ?_, fun x hx => ?_⟩
  · rw [hp] at ha
    exact ⟨hkept (hactive ha).1, hb.trans (h.active (hactive ha).1).2⟩
  · cases ha : w.policy.active with
    | true => rw [hkept ha] at hx; exact absurd hx (by simp)
    | false =>
        obtain ⟨hf, hs⟩ := hinactive ha
        rw [hp]
        -- the key itself only when it has just been put down
        have hold : x ∈ w.localKeys → x ∉ (w.policy.key pauses k down).1.swallowed ∧
            x ∉ (w.policy.key pauses k down).1.forwarded := by
          intro hx'
          refine ⟨fun hm => ?_, fun hm => (h.keys x hx').2 (hf x hm)⟩
          rcases hs x hm with hm | hm | ⟨rfl, hm⟩
          · exact (h.keys x hx').1 hm
          · exact (h.keys x hx').2 hm
          · cases down with
            | true => exact hc.1 hm hx'
            | false => exact absurd hm.1 (by simp)
        generalize w.policy.key pauses k down = r at hl hfate hold
        cases hfate with
        | suppressed => rw [hl, if_pos rfl] at hx; exact hold hx
        | raised hn => exact absurd (ha.symm.trans hn) (by simp)
        | passed _ hh hns hsw hfw =>
            rw [hl, if_neg (by simp)] at hx
            cases down with
            | false => exact hold (PySet.mem_discard.mp hx).1
            | true =>
                rcases PySet.mem_add.mp hx with hx | rfl
                · exact hold hx
                · rw [hsw, hfw]; exact ⟨hns, hc.2 ha⟩

theorem Clear.mouse (h : w.Clear) (pauses : Pauses) (op : Op) (a b : Int) : (w.mouse pauses op a b).Clear := by
  obtain ⟨hp, hl, hb⟩ := mouse_seen pauses op a b w
  have hcase := CapturePolicy.mouse_cases pauses op a b w.policy
  have hactive : (w.policy.mouse pauses op a b).1.active = true → _ := CapturePolicy.mouse_active
  have hsame : w.policy.active = false → (w.policy.mouse pauses op a b).1.swallowed = w.policy.swallowed ∧
      (w.policy.mouse pauses op a b).1.forwarded = w.policy.forwarded := by
    intro ha
    generalize w.policy.mouse pauses op a b = r at hcase
    cases hcase with
    | ignored | unignored | passed => exact ⟨rfl, rfl⟩
    | emitted _ hn => exact absurd (ha.symm.trans hn) (by simp)
  have hsup : w.policy.active = true → (w.policy.mouse pauses op a b).2 = true := by
    intro ha
    generalize w.policy.mouse pauses op a b = r at hcase
    cases hcase with
    | ignored | unignored => exact ha
    | passed _ hn => exact absurd (hn.symm.trans ha) (by simp)
    | emitted => rfl
  refine ⟨fun ha => ?_, fun x hx => ?_⟩
  · rw [hp] at ha
    obtain ⟨hk, hbu⟩ := h.active (hactive ha).1
    rw [hl, hb, if_pos (.inl (hsup (hactive ha).1))]
    exact ⟨hk, hbu⟩
  · rw [hl] at hx
    cases ha : w.policy.active with
    | true => rw [(h.active ha).1] at hx; exact absurd hx (by simp)
    | false =>
        obtain ⟨hs, hf⟩ := hsame ha
        rw [hp, hs, hf]
        exact h.keys x hx

theorem Clear.native (h : w.Clear) {r : NativeResult} (hc : w.Careful (.native r)) (hs : w.native r = some w') :
    w'.Clear := by
  have hsame : ∀ w'' : WindowsCapture, w''.policy = w.policy → w''.localKeys = w.localKeys →
      w''.localButtons = w.localButtons → w''.Clear := fun _ hp hk hb => h.of_same hp (fun _ h => hk ▸ h) hb
  unfold WindowsCapture.native at hs
  split at hs
  case h_3 | h_5 => split at hs <;> cases hs <;> exact hsame _ rfl rfl rfl
  case h_8 version happ =>
    cases hs
    unfold finish
    split
    · rename_i hv
      have hnone := hc ⟨version, happ, hv.1, hv.2⟩
      exact ⟨fun _ => hnone, fun k hk => absurd (hnone.1 ▸ hk) (by simp)⟩
    · exact hsame _ rfl rfl rfl
  case h_9 =>
    split at hs
    · cases hs; exact h.of_same rfl (fun _ h => (PySet.mem_discard.mp h).1) rfl
    · cases hs; exact hsame _ rfl rfl rfl
  all_goals cases hs <;> exact hsame _ rfl rfl rfl

theorem Clear.message (h : w.Clear) {healthy : Bool} (hs : w.message healthy = some w') : w'.Clear := by
  unfold WindowsCapture.message at hs
  split at hs
  · cases hs
  dsimp only at hs
  split at hs
  · split at hs
    · cases hs; exact h.of_same rfl (fun _ h => h) rfl
    · cases hs; exact h.of_same rfl (fun _ h => h) rfl
  · cases hs
    exact h.pause.of_same rfl (fun _ h => h) rfl

theorem Clear.step (h : w.Clear) (hc : w.Careful action) (hs : w.step action = some w') : w'.Clear := by
  cases action with
  | setActive active => cases hs; exact h.setActive active
  | key pauses k down => cases hs; exact h.key hc
  | mouse pauses op a b => cases hs; exact h.mouse pauses op a b
  | fault => cases hs; exact h.pause
  | message healthy => exact h.message hs
  | native r => exact h.native hc hs
  | recover =>
      simp only [WindowsCapture.step, recover] at hs
      split at hs
      · cases hs
        have hidle : Clear { w with applying := .idle } := h.of_same rfl (fun _ h => h) rfl
        exact hidle.setActive false
      · cases hs

/-! ## The result -/

/-- Exactly the releases that are kept back leave something down; there are none in a run whose steps are all careful. -/
theorem lets_go_of_local_input (actions : List CaptureAction) :
    (LetsGo actions ↔ Runs.Before step {} (fun w action => ¬ w.KeptBack action) actions) ∧
      (Runs.Before step {} Careful actions → LetsGo actions) := by
  have hiff : LetsGo actions ↔ Runs.Before step {} (fun w action => ¬ w.KeptBack action) actions := by
    constructor
    · intro hgo before action after w he hs hk
      obtain ⟨w', hs', hn⟩ := (tracked_of_letsGo hgo before (action :: after) w he hs).stuck hk
      exact hn (hgo (before ++ [action]) after w' (by simp [he]) (Runs.exec_concat.mpr ⟨w, hs, hs'⟩))
    · intro hb before after w he hs
      subst he
      exact (hb.left.invariant Tracked.start (fun _ _ _ h hk hs => h.step hk hs) hs).released
  refine ⟨hiff, fun hc => hiff.mpr ?_⟩
  intro before action after w he hs
  subst he
  exact (hc.left.invariant Clear.start (fun _ _ _ h hc hs => h.step hc hs) hs).not_keptBack

/-- No callback pauses the policy. -/
def quiet : Pauses := fun _ _ => false

/-- Button 1 goes down, the capture is activated, and the button comes up. -/
def heldButton : List CaptureAction :=
  [.mouse quiet .button 1 1, .setActive true, .message true, .native {}, .native {}, .native {}, .native {}, .native {},
    .mouse quiet .button 1 0]

theorem button_stays_down : ¬ LetsGo heldButton := by
  intro h
  obtain ⟨w, hw⟩ : ∃ w, run {} heldButton = some w := Option.isSome_iff_exists.mp (by decide)
  have hr : (run {} heldButton).map (fun (w : WindowsCapture) => decide w.Released) = some false := by decide
  rw [hw] at hr
  have := h heldButton [] w (List.append_nil _).symm hw
  simp [this] at hr

end WindowsCapture

end RemoteInput
