import RemoteInput.Capture.Lemmas.Policy
import RemoteInput.Capture.Windows

/-!
# What an event of the hooks does to the capture
-/

namespace RemoteInput

open WindowsCapture (pauseCount)

theorem WindowsCapture.pauseCount_append (pauses : Pauses) (before l l' : List PolicyCall) :
    pauseCount pauses before (l ++ l') = pauseCount pauses before l + pauseCount pauses (before ++ l) l' := by
  induction l generalizing before with
  | nil => simp [pauseCount]
  | cons c l ih =>
      rw [List.cons_append, pauseCount, ih, pauseCount, Nat.add_assoc, List.append_assoc]
      rfl

namespace CapturePolicy

variable {pauses : Pauses} {p q : CapturePolicy} {k : Int} {down : Bool}

/-! ## An event that leaves the policy active -/

/-- From `p` to `q` some calls were made, and if `q` is active none of them has paused. -/
def Calls (pauses : Pauses) (p q : CapturePolicy) : Prop :=
  ∃ new, q.calls = p.calls ++ new ∧ (q.active = true → p.active = true ∧ pauseCount pauses p.calls new = 0)

theorem Calls.of_eq (hc : q.calls = p.calls) (ha : q.active = p.active) : Calls pauses p q :=
  ⟨[], by simpa using hc, fun h => ⟨ha ▸ h, rfl⟩⟩

theorem Calls.trans {r : CapturePolicy} (h : Calls pauses p q) (h' : Calls pauses q r) : Calls pauses p r := by
  obtain ⟨new, hc, ha⟩ := h
  obtain ⟨new', hc', ha'⟩ := h'
  refine ⟨new ++ new', by rw [hc', hc, List.append_assoc], fun hr => ?_⟩
  obtain ⟨hq, hn'⟩ := ha' hr
  obtain ⟨hp, hn⟩ := ha hq
  refine ⟨hp, ?_⟩
  rw [WindowsCapture.pauseCount_append, hn, ← hc, hn']

theorem call_calls_mono (pauses : Pauses) (c : PolicyCall) (p : CapturePolicy) : Calls pauses p (p.call pauses c) := by
  refine ⟨[c], call_calls pauses c p, fun ha => ?_⟩
  rcases call_cases pauses c p with ⟨_, h⟩ | ⟨hn, h⟩
  · rw [h] at ha; cases ha
  · rw [h] at ha; exact ⟨ha, by simp [pauseCount, hn]⟩

theorem pressed_calls (pauses : Pauses) (k : Int) (p : CapturePolicy) : Calls pauses p (p.pressed pauses k) :=
  (call_calls_mono pauses _ p).trans (.of_eq rfl rfl)

theorem released_calls (pauses : Pauses) (k : Int) (p : CapturePolicy) : Calls pauses p (p.released pauses k) :=
  (call_calls_mono pauses _ p).trans (.of_eq rfl rfl)

theorem flushEach_calls (pauses : Pauses) (keys : List Int) (p : CapturePolicy) :
    Calls pauses p (flushEach pauses keys p) := by
  induction keys generalizing p with
  | nil => exact .of_eq rfl rfl
  | cons key keys ih => exact (pressed_calls pauses key p).trans (ih _)

theorem flushModifiers_calls (pauses : Pauses) (p : CapturePolicy) : Calls pauses p (p.flushModifiers pauses) :=
  (flushEach_calls pauses p.pending.elems p).trans (.of_eq rfl rfl)

theorem forward_calls (pauses : Pauses) (k : Int) (down : Bool) (p : CapturePolicy) :
    Calls pauses p (p.forward pauses k down) := by
  have hf := flushModifiers_calls pauses p
  cases down with
  | true =>
      rw [forward_down]
      exact hf.trans (pressed_calls pauses k _)
  | false =>
      rw [forward_up]
      split
      · exact hf.trans (released_calls pauses k _)
      · exact hf

theorem releaseModifier_calls (pauses : Pauses) (k : Int) (p : CapturePolicy) :
    Calls pauses p (p.releaseModifier pauses k).1 := by
  have hc := releaseModifier_cases pauses k p
  generalize p.releaseModifier pauses k = r at hc ⊢
  cases hc with
  | raised => exact call_calls_mono pauses _ p
  | tapped =>
      have ht : Calls pauses p (p.tapped pauses k) := (pressed_calls pauses k p).trans (.of_eq rfl rfl)
      exact ht.trans (released_calls pauses k _)
  | released => exact released_calls pauses k p
  | idle => exact .of_eq rfl rfl

theorem KeyCase.calls {repeated : Bool} {r : CapturePolicy × Option Bool} (h : KeyCase pauses k down repeated q r) :
    Calls pauses q r.1 := by
  cases h with
  | repeated | held | unswallowed | ignored | unignored | passed | known | deferred => exact .of_eq rfl rfl
  | fired _ _ c =>
      have hq : Calls pauses q { q with swallowed := q.swallowed.add k, pending := ∅ } := .of_eq rfl rfl
      exact hq.trans (call_calls_mono pauses c _)
  | modifier => exact releaseModifier_calls pauses k q
  | forwarded => exact forward_calls pauses k down q

/-- Whether an event passes on to the local system, and from which states. -/
inductive KeyFate (k : Int) (down : Bool) (q : CapturePolicy) : CapturePolicy × Option Bool → Prop where
  | passed {r : CapturePolicy} (ha : q.active = false) (hh : ¬ q.hotkey k down) (hs : k ∉ q.swallowed)
      (hsw : r.swallowed = q.swallowed) (hf : r.forwarded = q.forwarded) (hr : r.active = false) :
      KeyFate k down q (r, some false)
  | raised {r : CapturePolicy} (ha : q.active = true) (hi : k ∉ q.ignored) (hd : down = false) (hr : r.active = false) :
      KeyFate k down q (r, none)
  | suppressed {r : CapturePolicy} (hs : down = false → k ∈ q.swallowed ∨ q.active = true) : KeyFate k down q (r, some true)

theorem releaseModifier_fate (hd : down = false) (ha : q.active = true) (hi : k ∉ q.ignored) :
    KeyFate k down q (q.releaseModifier pauses k) := by
  have hc := releaseModifier_cases pauses k q
  generalize q.releaseModifier pauses k = r at hc ⊢
  cases hc with
  | raised _ hp =>
      refine .raised ha hi hd ?_
      rcases call_cases pauses (.emit { op := .key, a := k, b := 1 }) q with ⟨_, h⟩ | ⟨hn, _⟩
      · show (q.call pauses (.emit { op := .key, a := k, b := 1 })).active = false
        rw [h]
        rfl
      · exact absurd (hn.symm.trans hp) (by simp)
  | tapped | released | idle => exact .suppressed fun _ => .inr ha

theorem KeyCase.fate {repeated : Bool} {r : CapturePolicy × Option Bool} (h : KeyCase pauses k down repeated q r) :
    KeyFate k down q r := by
  cases h with
  | repeated h | fired h => exact .suppressed (by simp [h.1])
  | held _ hs | unswallowed _ hs => exact .suppressed fun _ => .inl hs
  | ignored hh hs =>
      cases ha : q.active with
      | false => exact .passed ha hh hs rfl rfl ha
      | true => exact .suppressed fun _ => .inr ha
  | unignored hh hs =>
      cases ha : q.active with
      | false => exact .passed ha hh hs rfl rfl rfl
      | true => exact .suppressed fun _ => .inr ha
  | passed hh hs _ ha => exact .passed ha hh hs rfl rfl ha
  | known _ _ ha | deferred _ _ ha => exact .suppressed fun _ => .inr ha
  | modifier _ hi ha _ hd => exact releaseModifier_fate hd ha hi
  | forwarded _ _ _ ha => exact .suppressed fun _ => .inr ha

/-- While the policy is inactive only a hotkey adds to the swallowed keys, and nothing is forwarded. -/
theorem KeyCase.inactive {repeated : Bool} {r : CapturePolicy × Option Bool} (h : KeyCase pauses k down repeated q r)
    (ha : q.active = false) : (∀ x ∈ r.1.forwarded, x ∈ q.forwarded) ∧
      ∀ x ∈ r.1.swallowed, x ∈ q.swallowed ∨ x ∈ q.forwarded ∨ x = k ∧ q.hotkey k down := by
  cases h with
  | repeated h => exact ⟨fun _ h => h, fun x hx => (PySet.mem_add.mp hx).imp id fun he => .inr ⟨he, h⟩⟩
  | fired h _ c =>
      have hadd : ∀ x ∈ q.swallowed.add k, x ∈ q.swallowed ∨ x ∈ q.forwarded ∨ x = k ∧ q.hotkey k down :=
        fun x hx => (PySet.mem_add.mp hx).imp id fun he => .inr ⟨he, h⟩
      rcases call_cases pauses c { q with swallowed := q.swallowed.add k, pending := ∅ } with ⟨_, hc⟩ | ⟨_, hc⟩
      · rw [hc]
        refine ⟨fun x hx => absurd hx (by simp [pause]), fun x hx => ?_⟩
        rcases mem_union.mp hx with hx | hx
        · exact hadd x hx
        · exact .inr (.inl hx)
      · rw [hc]; exact ⟨fun _ h => h, hadd⟩
  | held | ignored | passed | unignored => exact ⟨fun _ h => h, fun _ h => .inl h⟩
  | unswallowed => exact ⟨fun _ h => h, fun x hx => .inl (PySet.mem_discard.mp hx).1⟩
  | known _ _ h | deferred _ _ h | modifier _ _ h | forwarded _ _ _ h => exact absurd (ha.symm.trans h) (by simp)

theorem MouseCase.calls {op : Op} {a b : Int} {r : CapturePolicy × Bool} (h : MouseCase pauses op a b q r) :
    Calls pauses q r.1 := by
  cases h with
  | ignored | unignored | passed => exact .of_eq rfl rfl
  | emitted => exact (flushModifiers_calls pauses q).trans (call_calls_mono pauses _ _)

/-- After an event that leaves the policy active it was active before, and no callback has paused it. -/
theorem key_active (ha : (p.key pauses k down).1.active = true) :
    p.active = true ∧ pauseCount pauses [] (p.key pauses k down).1.calls = 0 := by
  obtain ⟨new, hc, h⟩ := (key_cases pauses k down p).calls
  rw [hc]
  exact h ha

theorem mouse_active {op : Op} {a b : Int} (ha : (p.mouse pauses op a b).1.active = true) :
    p.active = true ∧ pauseCount pauses [] (p.mouse pauses op a b).1.calls = 0 := by
  obtain ⟨new, hc, h⟩ := (mouse_cases pauses op a b p).calls
  rw [hc]
  exact h ha

end CapturePolicy

namespace WindowsCapture

variable {w w' : WindowsCapture}

/-- What requests do not touch. -/
structure Same (w w' : WindowsCapture) : Prop where
  policy : w'.policy = w.policy
  origin : w'.origin = w.origin
  anchor : w'.anchor = w.anchor
  applying : w'.applying = w.applying
  saved : w'.saved = w.saved
  restorations : w'.restorations = w.restorations
  localKeys : w'.localKeys = w.localKeys
  localButtons : w'.localButtons = w.localButtons

theorem requests_same (n : Nat) (w : WindowsCapture) : w.Same ((request false)^[n] w) := by
  induction n generalizing w with
  | zero => exact ⟨rfl, rfl, rfl, rfl, rfl, rfl, rfl, rfl⟩
  | succ n ih =>
      rw [Function.iterate_succ_apply]
      obtain ⟨h1, h2, h3, h4, h5, h6, h7, h8⟩ := ih (request false w)
      exact ⟨h1, h2, h3, h4, h5, h6, h7, h8⟩

/-! ## What the local system sees -/

theorem key_seen (pauses : Pauses) (k : Int) (down : Bool) (w : WindowsCapture) :
    (w.key pauses k down).policy = (w.policy.key pauses k down).1 ∧
    (w.key pauses k down).localButtons = w.localButtons ∧
    (w.key pauses k down).localKeys = if (w.policy.key pauses k down).2 = some true then w.localKeys
      else if down then w.localKeys.add k else w.localKeys.discard k := by
  obtain ⟨hp, _, _, _, _, _, hk, hb⟩ := requests_same (pauseCount pauses [] (w.policy.key pauses k down).1.calls)
    { w with policy := (w.policy.key pauses k down).1 }
  unfold key
  dsimp only
  split
  · exact ⟨hp, hb, hk⟩
  · refine ⟨hp, hb, ?_⟩
    show (if down then _ else _) = _
    rw [hk]

theorem mouse_seen (pauses : Pauses) (op : Op) (a b : Int) (w : WindowsCapture) :
    (w.mouse pauses op a b).policy = (w.policy.mouse pauses op a b).1 ∧
    (w.mouse pauses op a b).localKeys = w.localKeys ∧
    (w.mouse pauses op a b).localButtons = if (w.policy.mouse pauses op a b).2 ∨ op ≠ .button then w.localButtons
      else if b ≠ 0 then w.localButtons.add a else w.localButtons.discard a := by
  obtain ⟨hp, _, _, _, _, _, hk, hb⟩ := requests_same (pauseCount pauses [] (w.policy.mouse pauses op a b).1.calls)
    { w with policy := (w.policy.mouse pauses op a b).1 }
  unfold mouse
  dsimp only
  split
  · exact ⟨hp, hk, hb⟩
  · refine ⟨hp, hk, ?_⟩
    show (if decide (b ≠ 0) = true then _ else _) = _
    simp only [decide_eq_true_eq]
    rw [hb]

end WindowsCapture

end RemoteInput
