import RemoteInput.Lib.Strokes
import RemoteInput.Capture.Lemmas.Emitted

/-!
# The forwarded stream
-/

namespace RemoteInput

open Strokes (Open Balanced)

/-- The presses and releases among the events of one kind. -/
def strokes (op : Op) (log : List Event) : List (Int × Bool) :=
  log.filterMap fun e => if e.op = op then some (e.a, decide (e.b ≠ 0)) else none

theorem strokes_append (op : Op) (log more : List Event) : strokes op (log ++ more) = strokes op log ++ strokes op more :=
  List.filterMap_append ..

theorem strokes_of_ne {op : Op} {log : List Event} (h : ∀ e ∈ log, e.op ≠ op) : strokes op log = [] := by
  apply List.filterMap_eq_nil_iff.mpr
  intro e he
  rw [if_neg (h e he)]

theorem strokes_key (k : Int) (down : Bool) : strokes .key [CapturePolicy.keyEvent k down] = [(k, down)] := by
  cases down <;> rfl

def PolicyCall.event : PolicyCall → Option Event
  | .emit e => some e
  | _ => none

namespace CapturePolicy

variable {p q : CapturePolicy} {log : List Event} {k : Int} {down : Bool}

/-- The events that the event in progress has emitted. -/
def emitted (p : CapturePolicy) : List Event := p.calls.filterMap PolicyCall.event

theorem mem_emitted {e : Event} : e ∈ p.emitted ↔ .emit e ∈ p.calls := by
  unfold emitted
  rw [List.mem_filterMap]
  constructor
  · rintro ⟨c, hc, he⟩
    cases c with
    | emit => cases he; exact hc
    | toggle | stop => cases he
  · exact fun h => ⟨_, h, rfl⟩

theorem call_emitted (pauses : Pauses) (e : Event) (p : CapturePolicy) :
    (p.call pauses (.emit e)).emitted = p.emitted ++ [e] := by
  unfold emitted
  rw [call_calls, List.filterMap_append]
  rfl

/-! ## The record of forwarded keys -/

/-- `forwarded` is what the log leaves open, and the log releases nothing else. -/
structure Logged (log : List Event) (p : CapturePolicy) : Prop where
  balanced : Balanced (strokes .key log)
  forwarded : ∀ k, k ∈ p.forwarded ↔ Open (strokes .key log) k

theorem Logged.of_eq (h : Logged (log ++ p.emitted) p) (hc : q.emitted = p.emitted) (hf : q.forwarded = p.forwarded) :
    Logged (log ++ q.emitted) q := ⟨hc ▸ h.balanced, fun k => by rw [hf, hc]; exact h.forwarded k⟩

theorem Logged.pressed (h : Logged (log ++ p.emitted) p) (k : Int) :
    Logged (log ++ (p.pressed calm k).emitted) (p.pressed calm k) := by
  have hlog : strokes .key (log ++ (p.pressed calm k).emitted) = strokes .key (log ++ p.emitted) ++ [(k, true)] := by
    show strokes .key (log ++ (p.emitKey calm k true).emitted) = _
    rw [emitKey, call_emitted, ← List.append_assoc, strokes_append, ← strokes_key k true]
    rfl
  constructor
  · rw [hlog]; exact h.balanced.press k
  · intro x
    rw [hlog, Strokes.open_press, ← h.forwarded x]
    exact PySet.mem_add

theorem Logged.released (h : Logged (log ++ p.emitted) p) (hk : k ∈ p.forwarded) :
    Logged (log ++ (p.released calm k).emitted) (p.released calm k) := by
  have hlog : strokes .key (log ++ (p.released calm k).emitted) = strokes .key (log ++ p.emitted) ++ [(k, false)] := by
    show strokes .key (log ++ (p.emitKey calm k false).emitted) = _
    rw [emitKey, call_emitted, ← List.append_assoc, strokes_append, ← strokes_key k false]
    rfl
  constructor
  · rw [hlog]; exact h.balanced.release ((h.forwarded k).mp hk)
  · intro x
    rw [hlog, Strokes.open_release, ← h.forwarded x]
    exact PySet.mem_discard

theorem Logged.flushModifiers (h : Logged (log ++ p.emitted) p) :
    Logged (log ++ (p.flushModifiers calm).emitted) (p.flushModifiers calm) := by
  have hloop : ∀ (keys : List Int) (q : CapturePolicy), Logged (log ++ q.emitted) q →
      Logged (log ++ (flushEach calm keys q).emitted) (flushEach calm keys q) := by
    intro keys
    induction keys with
    | nil => exact fun _ h => h
    | cons key keys ih => exact fun q h => ih _ (h.pressed key)
  exact (hloop p.pending.elems p h).of_eq rfl rfl

theorem Logged.forward (h : Logged (log ++ p.emitted) p) (k : Int) (down : Bool) :
    Logged (log ++ (p.forward calm k down).emitted) (p.forward calm k down) := by
  have hf := h.flushModifiers
  cases down with
  | true => rw [forward_down]; exact hf.pressed k
  | false =>
      rw [forward_up]
      split
      · rename_i hk; exact hf.released hk
      · exact hf

theorem Logged.releaseModifier (h : Logged (log ++ p.emitted) p) (k : Int) :
    Logged (log ++ (p.releaseModifier calm k).1.emitted) (p.releaseModifier calm k).1 := by
  have hc := releaseModifier_cases calm k p
  generalize p.releaseModifier calm k = r at hc ⊢
  cases hc with
  | raised _ hc => cases hc
  | tapped =>
      have ht : Logged (log ++ (p.tapped calm k).emitted) (p.tapped calm k) := (h.pressed k).of_eq rfl rfl
      exact ht.released (PySet.mem_add.mpr (.inr rfl))
  | released _ hf => exact h.released hf
  | idle => exact h

theorem KeyCase.logged {repeated : Bool} {r : CapturePolicy × Option Bool} (h : KeyCase calm k down repeated q r)
    (hq : Logged (log ++ q.emitted) q) : Logged (log ++ r.1.emitted) r.1 := by
  cases h with
  | repeated | held | unswallowed | ignored | unignored | passed | known | deferred => exact hq.of_eq rfl rfl
  | fired _ _ c hc =>
      refine hq.of_eq ?_ rfl
      show (q.calls ++ [c]).filterMap PolicyCall.event = q.calls.filterMap PolicyCall.event
      have hnone : c.event = none := by rw [hc]; split <;> rfl
      rw [List.filterMap_append, List.filterMap_cons_none hnone, List.filterMap_nil, List.append_nil]
  | modifier => exact hq.releaseModifier k
  | forwarded => exact hq.forward k down

theorem MouseCase.logged {op : Op} {a b : Int} {r : CapturePolicy × Bool} (h : MouseCase calm op a b q r) (hop : op ≠ .key)
    (hq : Logged (log ++ q.emitted) q) : Logged (log ++ r.1.emitted) r.1 := by
  cases h with
  | ignored | unignored | passed => exact hq.of_eq rfl rfl
  | emitted =>
      have hf := hq.flushModifiers
      have hlog : strokes .key (log ++ ((q.flushModifiers calm).call calm (.emit { op := op, a := a, b := b })).emitted) =
          strokes .key (log ++ (q.flushModifiers calm).emitted) := by
        have hother : strokes .key [({ op := op, a := a, b := b } : Event)] = [] := strokes_of_ne (by simpa using hop)
        rw [call_emitted, ← List.append_assoc, strokes_append, hother, List.append_nil]
      exact ⟨hlog ▸ hf.balanced, fun k => by rw [hlog]; exact hf.forwarded k⟩

/-! ## What is being sent -/

/-- What an event whose callbacks do not pause leaves to itself. -/
structure Steady (p q : CapturePolicy) : Prop where
  active : q.active = p.active
  swallowed : q.swallowed = p.swallowed
  pending : ∀ x ∈ q.pending, x ∈ p.pending

theorem Steady.refl (p : CapturePolicy) : Steady p p := ⟨rfl, rfl, fun _ h => h⟩

theorem Steady.trans {r : CapturePolicy} (h : Steady p q) (h' : Steady q r) : Steady p r :=
  ⟨h'.active.trans h.active, h'.swallowed.trans h.swallowed, fun x hx => h.pending x (h'.pending x hx)⟩

theorem flushModifiers_steady (p : CapturePolicy) : Steady p (p.flushModifiers calm) := by
  have hloop : ∀ (keys : List Int) (q : CapturePolicy), Steady q (flushEach calm keys q) := by
    intro keys
    induction keys with
    | nil => exact .refl
    | cons key keys ih =>
        intro q
        have hone : Steady q (q.pressed calm key) := ⟨rfl, rfl, fun _ h => h⟩
        exact hone.trans (ih _)
  exact (hloop p.pending.elems p).trans ⟨rfl, rfl, fun _ h => absurd h (by simp [flushModifiers])⟩

theorem forward_steady (k : Int) (down : Bool) (p : CapturePolicy) : Steady p (p.forward calm k down) := by
  apply (flushModifiers_steady p).trans
  cases down with
  | true => rw [forward_down]; exact ⟨rfl, rfl, fun _ h => h⟩
  | false =>
      rw [forward_up]
      split
      · exact ⟨rfl, rfl, fun _ h => h⟩
      · exact .refl _

theorem releaseModifier_steady (k : Int) (p : CapturePolicy) : Steady p (p.releaseModifier calm k).1 := by
  have hc := releaseModifier_cases calm k p
  generalize p.releaseModifier calm k = r at hc ⊢
  cases hc with
  | raised | released | idle => exact ⟨rfl, rfl, fun _ h => h⟩
  | tapped => exact ⟨rfl, rfl, fun x hx => (PySet.mem_discard.mp hx).1⟩

/-- While a policy is active: what is being sent is held and not ignored, and what is deferred is not swallowed. -/
structure Sending (p : CapturePolicy) : Prop where
  active : p.active = true
  keys : ∀ k, ¬ Unsent k p → k ∈ p.keys ∧ k ∉ p.ignored
  pending : ∀ k ∈ p.pending, k ∈ reservedMods ∧ k ∉ p.swallowed

/-- The deferred keys are modifiers that are not swallowed, after every event. -/
theorem KeyCase.pending {repeated : Bool} {r : CapturePolicy × Option Bool} (h : KeyCase calm k down repeated q r)
    (ha : q.active = true) (hp : ∀ x ∈ q.pending, x ∈ reservedMods ∧ x ∉ q.swallowed) :
    r.1.active = true ∧ ∀ x ∈ r.1.pending, x ∈ reservedMods ∧ x ∉ r.1.swallowed := by
  have hof : ∀ {r : CapturePolicy}, Steady q r → r.active = true ∧ ∀ x ∈ r.pending, x ∈ reservedMods ∧ x ∉ r.swallowed :=
    fun h => ⟨h.active.trans ha, fun x hx => h.swallowed ▸ hp x (h.pending x hx)⟩
  cases h with
  | repeated h =>
      refine ⟨ha, fun x hx => ⟨(hp x hx).1, fun hs => ?_⟩⟩
      rcases PySet.mem_add.mp hs with hs | rfl
      · exact (hp x hx).2 hs
      · exact hotkey_not_reserved h (hp x hx).1
  | fired => exact ⟨ha, fun x hx => absurd hx (PySet.notMem_empty x)⟩
  | held | ignored | passed | known => exact hof (.refl q)
  | unignored => exact hof ⟨rfl, rfl, fun _ h => h⟩
  | unswallowed => exact ⟨ha, fun x hx => ⟨(hp x hx).1, fun hs => (hp x hx).2 (PySet.mem_discard.mp hs).1⟩⟩
  | deferred hs _ _ hm =>
      refine ⟨ha, fun x hx => ?_⟩
      rcases PySet.mem_add.mp hx with hx | rfl
      · exact hp x hx
      · exact ⟨hm, hs⟩
  | modifier => exact hof (releaseModifier_steady k q)
  | forwarded => exact hof (forward_steady k down q)

/-! ## Buttons -/

/-- The buttons that the log leaves open are held and not ignored. -/
def Clicked (log : List Event) (p : CapturePolicy) : Prop :=
  ∀ b, Open (strokes .button log) b → b ∈ p.buttons ∧ b ∉ p.ignoredButtons

theorem KeyCase.clicked {repeated : Bool} {r : CapturePolicy × Option Bool} (h : KeyCase calm k down repeated q r)
    (hd : q.Deferred) (hno : q.emitted = []) (hq : Clicked log q) : Clicked (log ++ r.1.emitted) r.1 := by
  have hl := h.like
  have hkeys : ∀ e ∈ r.1.emitted, e.op = .key := by
    intro e he
    refine (h.only (P := fun e => e.op = .key) (fun _ _ _ => rfl) hd fun _ => rfl).1 (fun e he => ?_) e (mem_emitted.mp he)
    rw [← mem_emitted, hno] at he
    cases he
  have hnone : strokes .button r.1.emitted = [] := strokes_of_ne fun e he => by rw [hkeys e he]; decide
  intro b hb
  rw [strokes_append, hnone, List.append_nil] at hb
  rw [hl.buttons, hl.ignoredButtons]
  exact hq b hb

/-- What the mouse emits after the flush. -/
theorem flushed_strokes (hno : p.calls = []) (e : Event) :
    strokes .button ((p.flushModifiers calm).call calm (.emit e)).emitted = strokes .button [e] := by
  have hkeys : ∀ x ∈ (p.flushModifiers calm).emitted, x.op = .key := by
    intro x hx
    have hall : ∀ c ∈ (p.flushModifiers calm).calls, Emits (fun x => x.op = .key) c := by
      refine (flushModifiers_only calm p fun _ _ => emits_emit rfl).calls fun c hc => ?_
      rw [hno] at hc
      cases hc
    exact forall_emits.mp hall x (mem_emitted.mp hx)
  have hnone : strokes .button (p.flushModifiers calm).emitted = [] := strokes_of_ne fun x hx => by rw [hkeys x hx]; decide
  rw [call_emitted, strokes_append, hnone, List.nil_append]

theorem Clicked.mouse (h : Clicked log p) (ha : p.active = true) (op : Op) (a b : Int) :
    Clicked (log ++ (p.mouse calm op a b).1.emitted) (p.mouse calm op a b).1 := by
  have hc := mouse_cases calm op a b p
  -- the buttons that were held before, but for one that is released
  have htouch : ∀ x, x ∈ p.buttons → (op = .button → b = 0 → x ≠ a) → x ∈ (p.touchButton op a b).buttons := by
    intro x hx hne
    show x ∈ (if op = .button then if b ≠ 0 then p.buttons.add a else p.buttons.discard a else p.buttons)
    split
    · rename_i hop
      split
      · exact PySet.mem_add.mpr (.inl hx)
      · rename_i hb; exact PySet.mem_discard.mpr ⟨hx, hne hop (not_not.mp hb)⟩
    · exact hx
  generalize p.mouse calm op a b = r at hc ⊢
  cases hc with
  | ignored hop hi hb =>
      intro x hx
      obtain ⟨hx, hn⟩ := h x (by simpa [emitted, touchButton] using hx)
      exact ⟨htouch x hx fun _ h0 => absurd h0 hb, hn⟩
  | unignored hop hi hb =>
      intro x hx
      obtain ⟨hx, hn⟩ := h x (by simpa [emitted, touchButton] using hx)
      refine ⟨htouch x hx fun _ _ he => ?_, fun hm => hn (PySet.mem_discard.mp hm).1⟩
      subst he
      exact hn hi
  | passed _ hna =>
      have hna : p.active = false := hna
      rw [ha] at hna; cases hna
  | emitted hi =>
      have hlike :=
        (flushModifiers_like calm (p.touchButton op a b)).trans (call_like calm (.emit { op := op, a := a, b := b }) _)
      intro x hx
      rw [strokes_append, flushed_strokes (p := p.touchButton op a b) rfl] at hx
      rw [hlike.buttons, hlike.ignoredButtons]
      by_cases hop : op = .button
      · subst hop
        have hone :
            strokes .button [({ op := .button, a := a, b := b } : Event)] = [(a, decide (b ≠ 0))] := by simp [strokes]
        rw [hone] at hx
        by_cases hb : b = 0
        · rw [decide_eq_false (not_not.mpr hb), Strokes.open_release] at hx
          obtain ⟨hx', hn⟩ := h x hx.1
          exact ⟨htouch x hx' fun _ _ => hx.2, hn⟩
        · rw [decide_eq_true hb, Strokes.open_press] at hx
          rcases hx with hx | rfl
          · obtain ⟨hx, hn⟩ := h x hx
            exact ⟨htouch x hx fun _ h0 => absurd h0 hb, hn⟩
          · refine ⟨?_, hi rfl⟩
            show x ∈ (if Op.button = .button then if b ≠ 0 then p.buttons.add x else p.buttons.discard x else p.buttons)
            rw [if_pos rfl, if_pos hb]
            exact PySet.mem_add.mpr (.inr rfl)
      · have hnone : strokes .button [({ op := op, a := a, b := b } : Event)] = [] := strokes_of_ne (by simpa using hop)
        rw [hnone, List.append_nil] at hx
        obtain ⟨hx, hn⟩ := h x hx
        exact ⟨htouch x hx fun h0 => absurd h0 hop, hn⟩

end CapturePolicy

end RemoteInput
