import RemoteInput.Capture.Lemmas.Emitted
import RemoteInput.Capture.Theorems.Ignored

/-!
# Events around a hotkey
-/

namespace RemoteInput

namespace CapturePolicy

variable {pauses : Pauses} {p q r : CapturePolicy} {j k : Int} {down : Bool} {op : PolicyOp}

/-! ## What calls leave behind -/

/-- Only an active policy is active afterwards, and then it has not been paused. What is swallowed stays so, and a key is
forwarded only when its press is emitted. -/
structure Onward (p q : CapturePolicy) : Prop where
  live : q.active = true → p.active = true ∧ q.swallowed = p.swallowed
  swallowed : ∀ x ∈ p.swallowed, x ∈ q.swallowed
  calls : ∀ c ∈ p.calls, c ∈ q.calls
  forwarded : ∀ x ∈ q.forwarded, x ∈ p.forwarded ∨ .emit (keyEvent x true) ∈ q.calls

theorem Onward.refl (p : CapturePolicy) : Onward p p := ⟨fun h => ⟨h, rfl⟩, fun _ h => h, fun _ h => h, fun _ h => .inl h⟩

theorem Onward.trans (h : Onward p q) (h' : Onward q r) : Onward p r where
  live hr := by
    obtain ⟨hq, hs⟩ := h'.live hr
    exact ⟨(h.live hq).1, hs.trans (h.live hq).2⟩
  swallowed x hx := h'.swallowed x (h.swallowed x hx)
  calls c hc := h'.calls c (h.calls c hc)
  forwarded x hx := by
    rcases h'.forwarded x hx with hx | hx
    · exact (h.forwarded x hx).imp_right (h'.calls _)
    · exact .inr hx

theorem call_onward (pauses : Pauses) (c : PolicyCall) (p : CapturePolicy) : Onward p (p.call pauses c) := by
  have hcalls : ∀ x ∈ p.calls, x ∈ (p.call pauses c).calls := by
    intro x hx
    rw [call_calls]
    exact List.mem_append_left _ hx
  rcases call_cases pauses c p with ⟨_, h⟩ | ⟨_, h⟩
  · rw [h] at hcalls ⊢
    refine ⟨fun ha => absurd ha (by simp [pause]), fun x hx => ?_, hcalls, fun x hx => absurd hx (PySet.notMem_empty x)⟩
    exact mem_union.mpr (.inl hx)
  · rw [h] at hcalls ⊢
    exact ⟨fun ha => ⟨ha, rfl⟩, fun _ hx => hx, hcalls, fun _ hx => .inl hx⟩

theorem pressed_onward (pauses : Pauses) (k : Int) (p : CapturePolicy) : Onward p (p.pressed pauses k) := by
  have h := call_onward pauses (.emit (keyEvent k true)) p
  refine ⟨h.live, h.swallowed, h.calls, fun x hx => ?_⟩
  rcases PySet.mem_add.mp hx with hx | rfl
  · exact h.forwarded x hx
  · refine .inr ?_
    show _ ∈ (p.call pauses (.emit (keyEvent x true))).calls
    rw [call_calls]
    simp

theorem released_onward (pauses : Pauses) (k : Int) (p : CapturePolicy) : Onward p (p.released pauses k) := by
  have h := call_onward pauses (.emit (keyEvent k false)) p
  exact ⟨h.live, h.swallowed, h.calls, fun x hx => h.forwarded x (PySet.mem_discard.mp hx).1⟩

theorem flushModifiers_onward (pauses : Pauses) (p : CapturePolicy) : Onward p (p.flushModifiers pauses) := by
  have hloop : ∀ (keys : List Int) (q : CapturePolicy), Onward q (flushEach pauses keys q) := by
    intro keys
    induction keys with
    | nil => exact .refl
    | cons key keys ih => exact fun q => (pressed_onward pauses key q).trans (ih _)
  have h := hloop p.pending.elems p
  exact ⟨h.live, h.swallowed, h.calls, h.forwarded⟩

theorem forward_onward (pauses : Pauses) (k : Int) (down : Bool) (p : CapturePolicy) :
    Onward p (p.forward pauses k down) := by
  apply (flushModifiers_onward pauses p).trans
  cases down with
  | true => rw [forward_down]; exact pressed_onward pauses k _
  | false =>
      rw [forward_up]
      split
      · exact released_onward pauses k _
      · exact .refl _

theorem releaseModifier_onward (pauses : Pauses) (k : Int) (p : CapturePolicy) :
    Onward p (p.releaseModifier pauses k).1 := by
  have hc := releaseModifier_cases pauses k p
  generalize p.releaseModifier pauses k = r at hc ⊢
  cases hc with
  | raised => exact call_onward pauses _ p
  | tapped =>
      have h := pressed_onward pauses k p
      have ht : Onward p (p.tapped pauses k) := ⟨h.live, h.swallowed, h.calls, h.forwarded⟩
      exact ht.trans (released_onward pauses k _)
  | released => exact released_onward pauses k p
  | idle => exact .refl p

/-! ## A key event -/

/-- Whatever an event calls, and when it can. -/
theorem KeyCase.calls_only {P : PolicyCall → Prop} {repeated : Bool} {r : CapturePolicy × Option Bool}
    (h : KeyCase pauses k down repeated q r)
    (hpend : q.active = true → ∀ x ∈ q.pending, P (.emit (keyEvent x true)))
    (hown : q.active = true → k ∉ q.swallowed → k ∉ q.ignored → ∀ down, P (.emit (keyEvent k down)))
    (hhot : q.hotkey k down → repeated = false → P (if k = f9 then .toggle else .stop)) (hq : ∀ c ∈ q.calls, P c) :
    ∀ c ∈ r.1.calls, P c := by
  cases h with
  | repeated | held | unswallowed | ignored | unignored | passed | known | deferred => exact hq
  | fired h hr c hc =>
      intro x hx
      rw [call_calls, List.mem_append, List.mem_singleton] at hx
      rcases hx with hx | rfl
      · exact hq x hx
      · rw [hc]; exact hhot h hr
  | modifier hs hi ha => exact (releaseModifier_only pauses q (hown ha hs hi)).calls hq
  | forwarded _ hs hi ha => exact (forward_only pauses q (hpend ha) fun _ => hown ha hs hi down).calls hq

/-- What is active afterwards was active, and a further key is swallowed only as a hotkey. -/
theorem KeyCase.live {repeated : Bool} {r : CapturePolicy × Option Bool} (h : KeyCase pauses k down repeated q r)
    (ha : r.1.active = true) : q.active = true ∧ ∀ x ∈ r.1.swallowed, x ∈ q.swallowed ∨ x = k ∧ k ∉ reservedMods := by
  have hof : ∀ {r : CapturePolicy}, Onward q r → r.active = true →
      q.active = true ∧ ∀ x ∈ r.swallowed, x ∈ q.swallowed ∨ x = k ∧ k ∉ reservedMods :=
    fun h ha => ⟨(h.live ha).1, fun x hx => .inl ((h.live ha).2 ▸ hx)⟩
  cases h with
  | repeated h => exact ⟨ha, fun x hx => (PySet.mem_add.mp hx).imp_right fun he => ⟨he, hotkey_not_reserved h⟩⟩
  | fired h _ c =>
      obtain ⟨ha, hs⟩ := (call_onward pauses c _).live ha
      refine ⟨ha, fun x hx => ?_⟩
      rw [hs] at hx
      exact (PySet.mem_add.mp hx).imp_right fun he => ⟨he, hotkey_not_reserved h⟩
  | held | ignored | passed | known | unignored | deferred => exact ⟨ha, fun _ hx => .inl hx⟩
  | unswallowed => exact ⟨ha, fun _ hx => .inl (PySet.mem_discard.mp hx).1⟩
  | modifier => exact hof (releaseModifier_onward pauses k q) ha
  | forwarded => exact hof (forward_onward pauses k down q) ha

/-- What is swallowed stays so until it is released. -/
theorem KeyCase.swallowed {repeated : Bool} {r : CapturePolicy × Option Bool} (h : KeyCase pauses j down repeated q r)
    (hk : k ∈ q.swallowed) (hj : j ≠ k ∨ down = true) : k ∈ r.1.swallowed := by
  cases h with
  | repeated => exact PySet.mem_add.mpr (.inl hk)
  | fired _ _ c => exact (call_onward pauses c _).swallowed k (PySet.mem_add.mpr (.inl hk))
  | held | ignored | passed | known | unignored | deferred => exact hk
  | unswallowed _ _ hd =>
      have hne : j ≠ k := hj.resolve_right (by simp [hd])
      exact PySet.mem_discard.mpr ⟨hk, Ne.symm hne⟩
  | modifier => exact (releaseModifier_onward pauses j q).swallowed k hk
  | forwarded => exact (forward_onward pauses j down q).swallowed k hk

/-- A key is forwarded only when its press is emitted. -/
theorem KeyCase.adds {repeated : Bool} {r : CapturePolicy × Option Bool} (h : KeyCase pauses j down repeated q r)
    (hk : k ∈ r.1.forwarded) : k ∈ q.forwarded ∨ .emit (keyEvent k true) ∈ r.1.calls := by
  cases h with
  | repeated | held | ignored | passed | known | unswallowed | unignored | deferred => exact .inl hk
  | fired _ _ c => exact (call_onward pauses c _).forwarded k hk
  | modifier => exact (releaseModifier_onward pauses j q).forwarded k hk
  | forwarded => exact (forward_onward pauses j down q).forwarded k hk

/-- A swallowed key is not sent. -/
theorem KeyCase.consumed {repeated : Bool} {r : CapturePolicy × Option Bool} (h : KeyCase pauses k true repeated q r)
    (hs : k ∈ q.swallowed) (hu : Unsent k q) : Unsent k r.1 := by
  cases h with
  | repeated | held => exact hu
  | fired _ _ c => exact (call_away pauses c k { q with swallowed := q.swallowed.add k, pending := ∅ } ⟨hu.1, by simp⟩).1
  | unswallowed _ _ hd | unignored _ _ _ hd | modifier _ _ _ _ hd => cases hd
  | ignored _ hn | passed _ hn | known hn | deferred hn | forwarded _ hn => exact absurd hs hn

/-! ## A mouse event -/

theorem MouseCase.calls_only {P : PolicyCall → Prop} {op : Op} {a b : Int} {r : CapturePolicy × Bool}
    (h : MouseCase pauses op a b q r) (hpend : q.active = true → ∀ x ∈ q.pending, P (.emit (keyEvent x true)))
    (hown : q.active = true → P (.emit { op := op, a := a, b := b })) (hq : ∀ c ∈ q.calls, P c) : ∀ c ∈ r.1.calls, P c := by
  cases h with
  | ignored | unignored | passed => exact hq
  | emitted _ ha => exact ((flushModifiers_only pauses q (hpend ha)).trans (call_only pauses _ (hown ha))).calls hq

theorem MouseCase.onward {op : Op} {a b : Int} {r : CapturePolicy × Bool} (h : MouseCase pauses op a b q r) :
    Onward q r.1 := by
  cases h with
  | ignored | passed => exact .refl q
  | unignored => exact ⟨fun ha => ⟨ha, rfl⟩, fun _ h => h, fun _ h => h, fun _ h => .inl h⟩
  | emitted => exact (flushModifiers_onward pauses q).trans (call_onward pauses _ _)

/-! ## What is being sent -/

/-- While the policy is active, a modifier that is being sent is held, neither swallowed nor ignored. -/
def Kept (p : CapturePolicy) : Prop :=
  p.active = true → ∀ k ∈ reservedMods, ¬ Unsent k p → k ∈ p.keys ∧ k ∉ p.swallowed ∧ k ∉ p.ignored

theorem Kept.key (h : p.Kept) (pauses : Pauses) (j : Int) (down : Bool) : (p.key pauses j down).1.Kept := by
  intro hactive k hm hk
  have hc := key_cases pauses j down p
  have hl := hc.like
  obtain ⟨ha, hswallowed⟩ := hc.live hactive
  have hignored : ∀ x ∈ (p.key pauses j down).1.ignored, x ∈ p.ignored := by
    intro x hx
    rcases hl.ignored with he | ⟨_, _, he⟩
    · exact he ▸ hx
    · exact (PySet.mem_discard.mp (he ▸ hx)).1
  have hns : k ∉ p.swallowed → k ∉ (p.key pauses j down).1.swallowed := by
    intro hn hs
    rcases hswallowed k hs with hs | ⟨rfl, hnm⟩
    · exact hn hs
    · exact hnm hm
  by_cases hj : j = k
  · subst hj
    have hunsent : ∀ P : Prop, (¬ Unsent j p → ¬ P) → P → Unsent j p := fun P h hp => not_not.mp fun hu => h hu hp
    cases down with
    | true =>
        refine ⟨?_, hns fun hs => ?_, fun hi => ?_⟩
        · rw [hl.keys]; exact PySet.mem_add.mpr (.inr rfl)
        · exact hk (hc.consumed hs (hunsent _ (fun hu => (h ha j hm hu).2.1) hs))
        · have hi := hignored j hi
          exact hk (hc.autorepeat hi (hunsent _ (fun hu => (h ha j hm hu).2.2) hi))
    | false =>
        refine absurd (hc.released ha (fun hi => ?_) fun hs => ?_) hk
        · exact hunsent _ (fun hu => (h ha j hm hu).2.2) hi
        · exact hunsent _ (fun hu => (h ha j hm hu).2.1) hs
  · have hsent : ¬ Unsent k p := fun hu => hk (hc.unsent (.inl hj) hu).1
    obtain ⟨hkeys, hs, hi⟩ := h ha k hm hsent
    refine ⟨?_, hns hs, fun hi' => hi (hignored k hi')⟩
    rw [hl.keys]
    cases down with
    | true => exact PySet.mem_add.mpr (.inl hkeys)
    | false => exact PySet.mem_discard.mpr ⟨hkeys, Ne.symm hj⟩

theorem Kept.step (h : p.Kept) (op : PolicyOp) : (p.step op).Kept := by
  cases op with
  | activate => exact fun _ k _ hk => absurd ⟨PySet.notMem_empty k, PySet.notMem_empty k⟩ hk
  | pause => exact fun ha => by cases ha
  | key pauses j down => exact h.key pauses j down
  | mouse pauses op a b =>
      intro hactive k hm hk
      have hc := mouse_cases pauses op a b p
      obtain ⟨ha, hs⟩ := hc.onward.live hactive
      obtain ⟨hkeys, _, hi, _, _⟩ := hc.like
      show k ∈ (p.mouse pauses op a b).1.keys ∧ k ∉ (p.mouse pauses op a b).1.swallowed ∧
          k ∉ (p.mouse pauses op a b).1.ignored
      rw [hkeys, hs, hi]
      exact h ha k hm fun hu => hk (hc.unsent hu).1

end CapturePolicy

end RemoteInput
