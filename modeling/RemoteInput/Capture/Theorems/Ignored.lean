import RemoteInput.Capture.Lemmas.Policy

/-!
# Keys held at activation
-/

namespace RemoteInput

namespace CapturePolicy

variable {p : CapturePolicy} {k : Int} {op : PolicyOp}

/-- What is ignored is physically held. -/
def Covered (p : CapturePolicy) : Prop := (∀ k ∈ p.ignored, k ∈ p.keys) ∧ ∀ b ∈ p.ignoredButtons, b ∈ p.buttons

instance (p : CapturePolicy) : Decidable p.Covered :=
  inferInstanceAs (Decidable ((∀ k ∈ p.ignored.elems, k ∈ p.keys) ∧ ∀ b ∈ p.ignoredButtons.elems, b ∈ p.buttons))

/-- A release that is swallowed although the key is ignored too. -/
def BadRelease (p : CapturePolicy) : PolicyOp → Prop
  | .key _ k false => k ∈ p.swallowed ∧ k ∈ p.ignored
  | _ => False

/-- A press of `k` that is no hotkey is forwarded, or deferred when `k` is a modifier. -/
def NextPress (k : Int) (p : CapturePolicy) : Prop :=
  p.active = true → ¬ (p.touch k true).hotkey k true → ∀ pauses,
    (p.key pauses k true).2 = some true ∧
    if k ∈ reservedMods then k ∈ (p.key pauses k true).1.pending
    else .emit { op := .key, a := k, b := 1 } ∈ (p.key pauses k true).1.calls

/-! ## One operation -/

theorem Covered.key (h : p.Covered) {pauses : Pauses} {down : Bool} (hk : ¬ p.BadRelease (.key pauses k down)) :
    (p.key pauses k down).1.Covered := by
  have hl := (key_cases pauses k down p).like
  obtain ⟨hi, hb⟩ := h
  have hsub : ∀ x ∈ (p.key pauses k down).1.ignored, x ∈ p.ignored := by
    intro x hx
    rcases hl.ignored with he | ⟨_, _, he⟩
    · exact he ▸ hx
    · exact (PySet.mem_discard.mp (he ▸ hx)).1
  refine ⟨fun x hx => ?_, ?_⟩
  · rw [hl.keys]
    cases down with
    | true => exact PySet.mem_add.mpr (.inl (hi x (hsub x hx)))
    | false =>
        refine PySet.mem_discard.mpr ⟨hi x (hsub x hx), ?_⟩
        rintro rfl
        exact hl.released rfl (fun hs => hk ⟨hs, hsub x hx⟩) hx
  · rw [hl.buttons, hl.ignoredButtons]; exact hb

theorem Covered.mouse (h : p.Covered) (pauses : Pauses) (op : Op) (a b : Int) : (p.mouse pauses op a b).1.Covered := by
  obtain ⟨hk, hbu, hi, hib, hrel⟩ := (mouse_cases pauses op a b p).like
  refine ⟨fun x hx => ?_, fun x hx => ?_⟩
  · rw [hk]; exact h.1 x (hi ▸ hx)
  · have hold : x ∈ p.ignoredButtons := by
      rcases hib with he | ⟨_, _, he⟩
      · exact he ▸ hx
      · exact (PySet.mem_discard.mp (he ▸ hx)).1
    have hx' : x ∈ p.buttons := h.2 x hold
    rw [hbu]
    show x ∈ (if op = .button then if b ≠ 0 then p.buttons.add a else p.buttons.discard a else p.buttons)
    by_cases hop : op = .button
    · rw [if_pos hop]
      by_cases hb : b = 0
      · rw [if_neg (not_not.mpr hb)]
        exact PySet.mem_discard.mpr ⟨hx', fun he => hrel hop hb (he ▸ hx)⟩
      · rw [if_pos hb]; exact PySet.mem_add.mpr (.inl hx')
    · rw [if_neg hop]; exact hx'

theorem Covered.step (h : p.Covered) (hop : ¬ p.BadRelease op) : (p.step op).Covered := by
  cases op with
  | activate => exact ⟨fun _ hk => hk, fun _ hb => hb⟩
  | pause => exact h
  | key pauses k down => exact h.key hop
  | mouse pauses op a b => exact h.mouse pauses op a b

/-- A bad release leaves the key ignored. -/
theorem not_covered_of_badRelease (h : p.BadRelease op) : ¬ (p.step op).Covered := by
  cases op with
  | activate | pause | mouse => exact h.elim
  | key pauses k down =>
      cases down with
      | true => exact h.elim
      | false =>
          obtain ⟨hs, hi⟩ := h
          have hl := (key_cases pauses k false p).like
          intro hc
          have hmem : k ∈ (p.key pauses k false).1.ignored := by
            rcases hl.ignored with he | ⟨_, hns, _⟩
            · rw [he]; exact hi
            · exact absurd hs hns
          have hkeys : k ∈ (p.touch k false).keys := hl.keys ▸ hc.1 k hmem
          exact (PySet.mem_discard.mp hkeys).2 rfl

/-- `k` is held since the activation. -/
structure Held (k : Int) (p : CapturePolicy) : Prop where
  keys : k ∈ p.keys
  ignored : k ∈ p.ignored
  unsent : Unsent k p

/-- `k` has been released and nothing remembers it. -/
structure Gone (k : Int) (p : CapturePolicy) : Prop where
  keys : k ∉ p.keys
  ignored : k ∉ p.ignored
  swallowed : k ∉ p.swallowed
  unsent : Unsent k p

theorem Held.step (h : Held k p) (hop : ∀ pauses, op ≠ .key pauses k false) : Held k (p.step op) := by
  cases op with
  | activate => exact ⟨h.keys, h.keys, ⟨by simp [CapturePolicy.step, activate], by simp [CapturePolicy.step, activate]⟩⟩
  | pause => exact ⟨h.keys, h.ignored, (pause_away k p h.unsent).1⟩
  | mouse pauses op a b =>
      have hc := mouse_cases pauses op a b p
      obtain ⟨hk, _, hi, _, _⟩ := hc.like
      exact ⟨by rw [CapturePolicy.step, hk]; exact h.keys, by rw [CapturePolicy.step, hi]; exact h.ignored,
        (hc.unsent (k := k) h.unsent).1⟩
  | key pauses j down =>
      have hc := key_cases pauses j down p
      have hl := hc.like
      have hother : down = false → j ≠ k := by
        rintro rfl rfl; exact hop pauses rfl
      refine ⟨?_, ?_, ?_⟩
      · rw [CapturePolicy.step, hl.keys]
        cases down with
        | true => exact PySet.mem_add.mpr (.inl h.keys)
        | false => exact PySet.mem_discard.mpr ⟨h.keys, Ne.symm (hother rfl)⟩
      · rw [CapturePolicy.step]
        rcases hl.ignored with he | ⟨hd, _, he⟩
        · rw [he]; exact h.ignored
        · rw [he]; exact PySet.mem_discard.mpr ⟨h.ignored, Ne.symm (hother hd)⟩
      · by_cases hj : j = k
        · -- an autorepeat of `k` itself
          subst hj
          cases down with
          | true => exact hc.autorepeat h.ignored h.unsent
          | false => exact absurd rfl (hother rfl)
        · exact (hc.unsent (.inl hj) h.unsent).1

/-- Once released, `k` is gone unless the release was a bad one. -/
theorem Held.release (h : Held k p) {pauses : Pauses} (hb : ¬ p.BadRelease (.key pauses k false)) :
    Gone k (p.step (.key pauses k false)) := by
  have hc := key_cases pauses k false p
  have hl := hc.like
  have hs : k ∉ p.swallowed := fun hs => hb ⟨hs, h.ignored⟩
  obtain ⟨hu, hsw⟩ := hc.unsent (.inr rfl) h.unsent
  refine ⟨?_, hl.released rfl hs, hsw hs, hu⟩
  rw [CapturePolicy.step, hl.keys]
  exact fun hm => (PySet.mem_discard.mp hm).2 rfl

theorem Gone.step (h : Gone k p) (hop : ∀ pauses, op ≠ .key pauses k true) : Gone k (p.step op) := by
  cases op with
  | activate =>
      exact ⟨h.keys, h.keys, h.swallowed, ⟨by simp [CapturePolicy.step, activate], by simp [CapturePolicy.step, activate]⟩⟩
  | pause =>
      obtain ⟨hu, hs⟩ := pause_away k p h.unsent
      exact ⟨h.keys, h.ignored, fun hm => h.swallowed (hs.mp hm), hu⟩
  | mouse pauses op a b =>
      have hc := mouse_cases pauses op a b p
      obtain ⟨hk, _, hi, _, _⟩ := hc.like
      obtain ⟨hu, hs⟩ := hc.unsent (k := k) h.unsent
      exact ⟨by rw [CapturePolicy.step, hk]; exact h.keys, by rw [CapturePolicy.step, hi]; exact h.ignored,
        hs h.swallowed, hu⟩
  | key pauses j down =>
      have hc := key_cases pauses j down p
      have hl := hc.like
      have hother : j ≠ k ∨ down = false := by
        by_cases hj : j = k
        · subst hj
          cases down with
          | true => exact absurd rfl (hop pauses)
          | false => exact .inr rfl
        · exact .inl hj
      obtain ⟨hu, hs⟩ := hc.unsent hother h.unsent
      refine ⟨?_, ?_, hs h.swallowed, hu⟩
      · rw [CapturePolicy.step, hl.keys]
        show k ∉ (if down then p.keys.add j else p.keys.discard j)
        cases down with
        | true => exact fun hm => (PySet.mem_add.mp hm).elim h.keys (Ne.symm (hother.resolve_right (by simp)))
        | false => exact fun hm => h.keys (PySet.mem_discard.mp hm).1
      · rw [CapturePolicy.step]
        rcases hl.ignored with he | ⟨_, _, he⟩
        · rw [he]; exact h.ignored
        · rw [he]; exact fun hm => h.ignored (PySet.mem_discard.mp hm).1

theorem forward_emits (pauses : Pauses) (k : Int) (p : CapturePolicy) :
    .emit { op := .key, a := k, b := 1 } ∈ (p.forward pauses k true).calls := by
  rw [forward_down]
  show _ ∈ (call pauses _ _).calls
  rw [call_calls]
  simp

theorem Gone.nextPress (h : Gone k p) : NextPress k p := by
  intro ha hh pauses
  have hc := key_cases pauses k true p
  generalize p.key pauses k true = r at hc
  cases hc with
  | repeated hk | fired hk => exact absurd hk hh
  | held _ hs => exact absurd hs h.swallowed
  | unswallowed _ _ hd | unignored _ _ _ hd | modifier _ _ _ _ hd => cases hd
  | ignored _ _ hi => exact absurd hi h.ignored
  | passed _ _ _ hna => exact absurd (hna.symm.trans ha) (by simp)
  | known _ _ _ _ _ hf => exact absurd hf h.unsent.1
  | deferred _ _ _ hm => exact ⟨rfl, by rw [if_pos hm]; exact PySet.mem_add.mpr (.inr rfl)⟩
  | forwarded _ _ _ _ hm => exact ⟨rfl, by rw [if_neg hm]; exact forward_emits pauses k _⟩

/-! ## Runs -/

theorem exec_append (p : CapturePolicy) (ops ops' : List PolicyOp) : p.exec (ops ++ ops') = (p.exec ops).exec ops' :=
  List.foldl_append

theorem Held.exec (h : Held k p) {ops : List PolicyOp} (hops : ∀ pauses, .key pauses k false ∉ ops) :
    Held k (p.exec ops) := by
  induction ops generalizing p with
  | nil => exact h
  | cons op ops ih =>
      refine ih (h.step fun pauses he => hops pauses (he ▸ List.mem_cons_self)) fun pauses hm => ?_
      exact hops pauses (List.mem_cons_of_mem _ hm)

theorem Gone.exec (h : Gone k p) {ops : List PolicyOp} (hops : ∀ pauses, .key pauses k true ∉ ops) :
    Gone k (p.exec ops) := by
  induction ops generalizing p with
  | nil => exact h
  | cons op ops ih =>
      refine ih (h.step fun pauses he => hops pauses (he ▸ List.mem_cons_self)) fun pauses hm => ?_
      exact hops pauses (List.mem_cons_of_mem _ hm)

/-- The property of a run: in every state only held keys and buttons are ignored, and a key that was held at an activation
and has been released since is forwarded or deferred when it is pressed next. -/
def IgnoresUntilReleased (ops : List PolicyOp) : Prop :=
  (∀ before after, ops = before ++ after → (exec {} before).Covered) ∧
  ∀ before mid after k pauses, ops = before ++ .activate :: mid ++ .key pauses k false :: after →
    k ∈ (exec {} before).keys → (∀ pauses, .key pauses k false ∉ mid) → (∀ pauses, .key pauses k true ∉ after) →
    NextPress k (exec {} ops)

/-- Exactly the releases of keys that are both swallowed and ignored leave a key ignored that is not held. -/
theorem ignored_until_released (ops : List PolicyOp) :
    IgnoresUntilReleased ops ↔
      ∀ before op after, ops = before ++ op :: after → ¬ (exec {} before).BadRelease op := by
  constructor
  · rintro ⟨hcov, _⟩ before op after he hbad
    have hc := hcov (before ++ [op]) after (by simp [he])
    rw [exec_append] at hc
    exact not_covered_of_badRelease hbad hc
  · intro hgood
    constructor
    · intro before
      induction before using List.reverseRecOn with
      | nil => exact fun _ _ => ⟨by simp [CapturePolicy.exec], by simp [CapturePolicy.exec]⟩
      | append_singleton before op ih =>
          intro after he
          rw [exec_append]
          exact (ih (op :: after) (by simp [he])).step (hgood before op after (by simp [he]))
    · intro before mid after k pauses he hk hmid hafter
      have hactivated : Held k ((exec {} before).step .activate) :=
        ⟨hk, hk, ⟨by simp [CapturePolicy.step, activate], by simp [CapturePolicy.step, activate]⟩⟩
      have hheld : Held k (exec {} (before ++ .activate :: mid)) := by
        rw [exec_append]; exact hactivated.exec hmid
      have hgone := hheld.release (hgood (before ++ .activate :: mid) (.key pauses k false) after he)
      rw [he, exec_append]
      exact (hgone.exec hafter).nextPress

/-- Ctrl+Alt+F9 activates while F9 is still held; its release is swallowed, so it stays ignored, and the next press of F9
is lost. -/
theorem hotkey_stays_ignored :
    ¬ IgnoresUntilReleased [.key calm 0xA2 true, .key calm 0xA4 true, .key calm f9 true, .activate, .key calm f9 false] ∧
    ((exec {} [.key calm 0xA2 true, .key calm 0xA4 true, .key calm f9 true, .activate, .key calm f9 false,
        .key calm 0xA2 false, .key calm 0xA4 false]).key calm f9 true).1.calls = [] := by
  constructor
  · intro h
    exact absurd (h.1 _ [] (List.append_nil _).symm) (by decide)
  · decide

end CapturePolicy

end RemoteInput
