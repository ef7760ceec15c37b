import RemoteInput.Capture.Lemmas.Policy

/-!
# What the policy emits
-/

namespace RemoteInput

namespace CapturePolicy

variable {pauses : Pauses} {p q : CapturePolicy} {k : Int} {down : Bool}

/-- The event of a key. -/
def keyEvent (key : Int) (down : Bool) : Event := { op := .key, a := key, b := if down then 1 else 0 }

section

variable {P : PolicyCall → Prop}

/-- From `p` to `q` every call satisfies `P`, and no key was deferred. -/
structure CallsOnly (P : PolicyCall → Prop) (p q : CapturePolicy) : Prop where
  calls : (∀ c ∈ p.calls, P c) → ∀ c ∈ q.calls, P c
  pending : ∀ x ∈ q.pending, x ∈ p.pending

theorem CallsOnly.of_eq (hc : q.calls = p.calls) (hp : q.pending = p.pending) : CallsOnly P p q :=
  ⟨fun h => hc ▸ h, fun _ hx => hp ▸ hx⟩

theorem CallsOnly.trans {r : CapturePolicy} (h : CallsOnly P p q) (h' : CallsOnly P q r) : CallsOnly P p r :=
  ⟨fun hp => h'.calls (h.calls hp), fun x hx => h.pending x (h'.pending x hx)⟩

theorem call_only (pauses : Pauses) {c : PolicyCall} (p : CapturePolicy) (h : P c) : CallsOnly P p (p.call pauses c) := by
  constructor
  · intro hp x hx
    rw [call_calls, List.mem_append, List.mem_singleton] at hx
    exact hx.elim (hp x) fun hx => hx ▸ h
  · rcases call_cases pauses c p with ⟨_, hc⟩ | ⟨_, hc⟩
    · rw [hc]; simp [pause]
    · rw [hc]; exact fun _ h => h

theorem emitKey_only (pauses : Pauses) (p : CapturePolicy) (h : P (.emit (keyEvent k down))) :
    CallsOnly P p (p.emitKey pauses k down) := call_only pauses p h

theorem flushEach_only (pauses : Pauses) {keys : List Int} (p : CapturePolicy)
    (h : ∀ x ∈ keys, P (.emit (keyEvent x true))) : CallsOnly P p (flushEach pauses keys p) := by
  induction keys generalizing p with
  | nil => exact .of_eq rfl rfl
  | cons key keys ih =>
      refine ((emitKey_only pauses p (h key (by simp))).trans ?_).trans (ih _ fun x hx => h x (by simp [hx]))
      exact .of_eq rfl rfl

theorem flushModifiers_only (pauses : Pauses) (p : CapturePolicy) (h : ∀ x ∈ p.pending, P (.emit (keyEvent x true))) :
    CallsOnly P p (p.flushModifiers pauses) := by
  refine (flushEach_only pauses p h).trans ⟨id, fun x hx => ?_⟩
  exact absurd hx (by simp [flushModifiers])

theorem forward_only (pauses : Pauses) (p : CapturePolicy) (hp : ∀ x ∈ p.pending, P (.emit (keyEvent x true)))
    (hk : down = true ∨ k ∈ p.forwarded ∨ k ∈ p.pending → P (.emit (keyEvent k down))) :
    CallsOnly P p (p.forward pauses k down) := by
  have hf := flushModifiers_only pauses p hp
  cases down with
  | true =>
      rw [forward_down]
      exact (hf.trans (emitKey_only pauses _ (hk (.inl rfl)))).trans (.of_eq rfl rfl)
  | false =>
      rw [forward_up]
      split
      · rename_i hsent
        refine (hf.trans (emitKey_only pauses _ (hk ?_))).trans (.of_eq rfl rfl)
        -- a key that is being sent after the flush was forwarded or deferred before it
        by_contra hn
        push Not at hn
        exact (flushModifiers_away pauses k p ⟨hn.2.1, hn.2.2⟩).1.1 hsent
      · exact hf

theorem releaseModifier_only (pauses : Pauses) (p : CapturePolicy) (h : ∀ down, P (.emit (keyEvent k down))) :
    CallsOnly P p (p.releaseModifier pauses k).1 := by
  have hc := releaseModifier_cases pauses k p
  generalize p.releaseModifier pauses k = r at hc ⊢
  cases hc with
  | raised => exact emitKey_only pauses p (h true)
  | tapped =>
      have ht : CallsOnly P p (p.tapped pauses k) :=
        ⟨(emitKey_only pauses p (h true)).calls, fun x hx => (PySet.mem_discard.mp hx).1⟩
      exact (ht.trans (emitKey_only pauses _ (h false))).trans (.of_eq rfl rfl)
  | released => exact (emitKey_only pauses p (h false)).trans (.of_eq rfl rfl)
  | idle => exact .of_eq rfl rfl

end

variable {P : Event → Prop}

/-- The deferred keys are modifiers. -/
def Deferred (p : CapturePolicy) : Prop := ∀ x ∈ p.pending, x ∈ reservedMods

/-- `key` at `k` may emit an event of `k` itself. -/
def SendsKey (k : Int) (down : Bool) (p : CapturePolicy) : Prop :=
  p.active = true ∧ k ∉ p.swallowed ∧ k ∉ p.ignored ∧ (down = true ∨ k ∈ p.forwarded)

instance (k : Int) (down : Bool) (p : CapturePolicy) : Decidable (p.SendsKey k down) :=
  inferInstanceAs (Decidable (_ ∧ _ ∧ _ ∧ (_ ∨ _)))

theorem hotkey_not_reserved (h : q.hotkey k down) : k ∉ reservedMods := by
  rcases h.2.1 with rfl | rfl <;> decide

/-- After its release a key is no longer being sent, unless it was swallowed. -/
theorem KeyCase.released {repeated : Bool} {r : CapturePolicy × Option Bool} (h : KeyCase pauses k false repeated q r)
    (ha : q.active = true) (hi : k ∈ q.ignored → Unsent k q) (hs : k ∈ q.swallowed → Unsent k q) :
    Unsent k r.1 := by
  have hreleased : ∀ q : CapturePolicy, k ∉ q.pending → Unsent k (q.released pauses k) := fun q hq =>
    ⟨fun hf => (PySet.mem_discard.mp hf).2 rfl,
      fun hx => hq ((call_only (P := fun _ => True) pauses q trivial).pending k hx)⟩
  cases h with
  | repeated h | fired h => exact absurd h.1 (by simp)
  | held _ _ hd | ignored _ _ _ hd | known _ _ _ _ hd | deferred _ _ _ _ hd => cases hd
  | unswallowed _ hs' => exact hs hs'
  | unignored _ _ hi' => exact hi hi'
  | passed _ _ _ hna => rw [ha] at hna; cases hna
  | modifier =>
      have hc := releaseModifier_cases pauses k q
      generalize q.releaseModifier pauses k = r at hc ⊢
      cases hc with
      | raised _ hc =>
          rcases call_cases pauses (.emit (keyEvent k true)) q with ⟨_, he⟩ | ⟨hn, _⟩
          · show Unsent k (q.call pauses (.emit (keyEvent k true)))
            rw [he]
            exact ⟨PySet.notMem_empty k, PySet.notMem_empty k⟩
          · exact absurd (hn.symm.trans hc) (by simp)
      | tapped => exact hreleased _ fun hq => (PySet.mem_discard.mp hq).2 rfl
      | released hq => exact hreleased q hq
      | idle hq hf => exact ⟨hf, hq⟩
  | forwarded _ _ _ _ hm =>
      have hpend : k ∉ (q.flushModifiers pauses).pending := PySet.notMem_empty k
      rw [forward_up]
      split
      · exact hreleased _ hpend
      · exact ⟨by assumption, hpend⟩

/-- Every emitted event satisfies `P`. -/
def Emits (P : Event → Prop) (c : PolicyCall) : Prop := ∀ e, c = .emit e → P e

theorem emits_emit {e : Event} (h : P e) : Emits P (.emit e) := by
  intro e' he
  cases he
  exact h

instance [DecidablePred P] : DecidablePred (Emits P)
  | .emit e => decidable_of_iff (P e) ⟨emits_emit, fun h => h e rfl⟩
  | .toggle | .stop => isTrue fun _ he => by cases he

theorem emits_hotkey (k : Int) : Emits P (if k = f9 then .toggle else .stop) := by
  intro e he
  split at he <;> cases he

theorem forall_emits {calls : List PolicyCall} : (∀ c ∈ calls, Emits P c) ↔ ∀ e, .emit e ∈ calls → P e :=
  ⟨fun h e he => h _ he e rfl, fun h _ hc e he => h e (he ▸ hc)⟩

variable (hmods : ∀ x ∈ reservedMods, ∀ down, P (keyEvent x down))

include hmods

theorem KeyCase.only {repeated : Bool} {r : CapturePolicy × Option Bool} (h : KeyCase pauses k down repeated q r)
    (hd : q.Deferred) (hk : q.SendsKey k down → P (keyEvent k down)) :
    ((∀ e, .emit e ∈ q.calls → P e) → ∀ e, .emit e ∈ r.1.calls → P e) ∧ r.1.Deferred := by
  rw [← forall_emits, ← forall_emits]
  have hof : ∀ {r : CapturePolicy}, CallsOnly (Emits P) q r →
      ((∀ c ∈ q.calls, Emits P c) → ∀ c ∈ r.calls, Emits P c) ∧ r.Deferred :=
    fun h => ⟨h.calls, fun x hx => hd x (h.pending x hx)⟩
  have hpend : ∀ x ∈ q.pending, Emits P (.emit (keyEvent x true)) := fun x hx => emits_emit (hmods x (hd x hx) true)
  cases h with
  | repeated | held | unswallowed | ignored | unignored | passed | known => exact hof (.of_eq rfl rfl)
  | fired _ _ c hc =>
      have hq : CallsOnly (Emits P) q { q with swallowed := q.swallowed.add k, pending := ∅ } :=
        ⟨id, fun x hx => absurd hx (by simp)⟩
      exact hof (hq.trans (call_only pauses _ (hc ▸ emits_hotkey k)))
  | deferred _ _ _ hm => exact ⟨id, fun x hx => (PySet.mem_add.mp hx).elim (hd x) fun he => he ▸ hm⟩
  | modifier _ _ _ hm => exact hof (releaseModifier_only pauses q fun down => emits_emit (hmods k hm down))
  | forwarded _ hs hi ha hm =>
      refine hof (forward_only pauses q hpend fun hk' => emits_emit (hk ⟨ha, hs, hi, ?_⟩))
      rcases hk' with h | h | h
      · exact .inl h
      · exact .inr h
      · exact absurd (hd k h) hm

theorem key_only (pauses : Pauses) (k : Int) (down : Bool) (hd : p.Deferred) (hk : p.SendsKey k down → P (keyEvent k down)) :
    (∀ e, .emit e ∈ (p.key pauses k down).1.calls → P e) ∧ (p.key pauses k down).1.Deferred := by
  have h := (key_cases pauses k down p).only hmods (q := p.touch k down) hd hk
  exact ⟨h.1 (by simp [touch]), h.2⟩

theorem mouse_only (pauses : Pauses) (op : Op) (a b : Int) (hd : p.Deferred)
    (h : p.active = true → P { op := op, a := a, b := b }) :
    (∀ e, .emit e ∈ (p.mouse pauses op a b).1.calls → P e) ∧ (p.mouse pauses op a b).1.Deferred := by
  have hpend : ∀ x ∈ p.pending, Emits P (.emit (keyEvent x true)) := fun x hx => emits_emit (hmods x (hd x hx) true)
  have hc := mouse_cases pauses op a b p
  generalize p.mouse pauses op a b = r at hc ⊢
  cases hc with
  | ignored | passed | unignored => exact ⟨by simp [touchButton], hd⟩
  | emitted _ ha =>
      have he := (flushModifiers_only pauses (p.touchButton op a b) hpend).trans (call_only pauses _ (emits_emit (h ha)))
      exact ⟨forall_emits.mp (he.calls (by simp [touchButton])), fun x hx => hd x (he.pending x hx)⟩

end CapturePolicy

end RemoteInput
