import RemoteInput.Capture.Lemmas.Stream
import RemoteInput.Capture.Theorems.Ignored

/-!
# The forwarded stream keeps up with the hand
-/

namespace RemoteInput

open Strokes (Open Balanced)

namespace CapturePolicy

variable {p : CapturePolicy} {log : List Event} {k : Int} {down : Bool} {inputs : List PolicyInput} {i : PolicyInput}

/-- The state after the inputs. -/
def run (p : CapturePolicy) (inputs : List PolicyInput) : CapturePolicy := p.exec (inputs.map (PolicyInput.op calm))

/-- What the inputs emit. -/
def sent : CapturePolicy → List PolicyInput → List Event
  | _, [] => []
  | p, i :: inputs => (p.step (i.op calm)).emitted ++ sent (p.step (i.op calm)) inputs

theorem run_concat (p : CapturePolicy) (inputs : List PolicyInput) (i : PolicyInput) :
    p.run (inputs ++ [i]) = (p.run inputs).step (i.op calm) := by
  unfold run
  rw [List.map_append, exec_append]
  rfl

theorem sent_concat (p : CapturePolicy) (inputs : List PolicyInput) (i : PolicyInput) :
    p.sent (inputs ++ [i]) = p.sent inputs ++ (p.run (inputs ++ [i])).emitted := by
  rw [run_concat]
  induction inputs generalizing p with
  | nil => exact List.append_nil _
  | cons j inputs ih =>
      show (p.step (j.op calm)).emitted ++ sent (p.step (j.op calm)) (inputs ++ [i]) = _
      rw [ih, ← List.append_assoc]
      rfl

/-- The remote side holds down only what is held, and `forwarded` says which keys. -/
structure Tracked (log : List Event) (p : CapturePolicy) : Prop where
  keys : ∀ k, Open (strokes .key log) k → k ∈ p.keys
  buttons : ∀ b, Open (strokes .button log) b → b ∈ p.buttons
  balanced : Balanced (strokes .key log)
  forwarded : ∀ k, k ∈ p.forwarded ↔ Open (strokes .key log) k

/-- In every state of an activation. -/
def StreamTracked (p : CapturePolicy) (inputs : List PolicyInput) : Prop :=
  ∀ before after, inputs = before ++ after → Tracked (sent p.activate before) (run p.activate before)

/-- The release of a key that is both swallowed and forwarded. -/
def StuckRelease (p : CapturePolicy) : PolicyInput → Prop
  | .key k false => k ∈ p.swallowed ∧ k ∈ p.forwarded
  | _ => False

/-! ## One input -/

theorem Sending.key (h : p.Sending) (k : Int) (down : Bool) (hk : ¬ p.StuckRelease (.key k down)) :
    (p.key calm k down).1.Sending := by
  have hc := key_cases calm k down p
  have hl := hc.like
  obtain ⟨hactive, hpending⟩ := hc.pending h.active h.pending
  refine ⟨hactive, fun x hx => ?_, hpending⟩
  have hignored : ∀ x ∈ (p.key calm k down).1.ignored, x ∈ p.ignored := by
    intro x hx
    rcases hl.ignored with he | ⟨_, _, he⟩
    · exact he ▸ hx
    · exact (PySet.mem_discard.mp (he ▸ hx)).1
  have hunsent : ∀ x ∈ p.ignored, Unsent x p := fun x hi => by
    by_contra hx
    exact (h.keys x hx).2 hi
  cases down with
  | true =>
      by_cases hxk : x = k
      · subst hxk
        refine ⟨?_, fun hi => hx (hc.autorepeat (hignored x hi) (hunsent x (hignored x hi)))⟩
        rw [hl.keys]; exact PySet.mem_add.mpr (.inr rfl)
      · have hsent : ¬ Unsent x p := fun hu => hx (hc.unsent (.inl (Ne.symm hxk)) hu).1
        obtain ⟨hkeys, hi⟩ := h.keys x hsent
        refine ⟨?_, fun hi' => hi (hignored x hi')⟩
        rw [hl.keys]; exact PySet.mem_add.mpr (.inl hkeys)
  | false =>
      have hsent : ¬ Unsent x p := fun hu => hx (hc.unsent (.inr rfl) hu).1
      obtain ⟨hkeys, hi⟩ := h.keys x hsent
      refine ⟨?_, fun hi' => hi (hignored x hi')⟩
      rw [hl.keys]
      refine PySet.mem_discard.mpr ⟨hkeys, ?_⟩
      rintro rfl
      exact hx (hc.released h.active (hunsent x) fun hs => ⟨fun hf => hk ⟨hs, hf⟩, fun hq => (h.pending x hq).2 hs⟩)

theorem Sending.mouse (h : p.Sending) (op : Op) (a b : Int) : (p.mouse calm op a b).1.Sending := by
  have hc := mouse_cases calm op a b p
  obtain ⟨hk, _, hi, _, _⟩ := hc.like
  have hsteady : Steady p (p.mouse calm op a b).1 := by
    have ht : Steady p (p.touchButton op a b) := ⟨rfl, rfl, fun _ h => h⟩
    generalize p.mouse calm op a b = r at hc ⊢
    cases hc with
    | ignored | passed | unignored => exact ⟨rfl, rfl, fun _ h => h⟩
    | emitted => exact (ht.trans (flushModifiers_steady _)).trans ⟨rfl, rfl, fun _ h => h⟩
  refine ⟨hsteady.active.trans h.active, fun x hx => ?_, fun x hx => hsteady.swallowed ▸ h.pending x (hsteady.pending x hx)⟩
  rw [hk, hi]
  exact h.keys x fun hu => hx (hc.unsent hu).1

/-- What holds along an activation. -/
structure Streaming (log : List Event) (p : CapturePolicy) : Prop where
  sending : p.Sending
  logged : Logged log p
  clicked : Clicked log p

theorem Streaming.deferred (h : Streaming log p) : p.Deferred := fun k hk => (h.sending.pending k hk).1

theorem Streaming.tracked (h : Streaming log p) : Tracked log p where
  keys k hk := (h.sending.keys k fun hu => hu.1 ((h.logged.forwarded k).mpr hk)).1
  buttons b hb := (h.clicked b hb).1
  balanced := h.logged.balanced
  forwarded := h.logged.forwarded

theorem Logged.touched (h : Logged log p) (k : Int) (down : Bool) :
    Logged (log ++ (p.touch k down).emitted) (p.touch k down) := by
  rw [show (p.touch k down).emitted = [] from rfl, List.append_nil]
  exact ⟨h.balanced, h.forwarded⟩

theorem Streaming.mouse (h : Streaming log p) {op : Op} (hop : op ≠ .key) (a b : Int) :
    Streaming (log ++ (p.mouse calm op a b).1.emitted) (p.mouse calm op a b).1 := by
  refine ⟨h.sending.mouse op a b, (mouse_cases calm op a b p).logged hop ?_, h.clicked.mouse h.sending.active op a b⟩
  rw [show (p.touchButton op a b).emitted = [] from rfl, List.append_nil]
  exact ⟨h.logged.balanced, h.logged.forwarded⟩

theorem Streaming.step (h : Streaming log p) (hi : ¬ p.StuckRelease i) :
    Streaming (log ++ (p.step (i.op calm)).emitted) (p.step (i.op calm)) := by
  cases i with
  | key k down =>
      have hc := key_cases calm k down p
      exact ⟨h.sending.key k down hi, hc.logged (h.logged.touched k down), hc.clicked h.deferred rfl h.clicked⟩
  | move dx dy => exact h.mouse (by decide) dx dy
  | button a b => exact h.mouse (by decide) a b
  | scroll dx dy => exact h.mouse (by decide) dx dy

theorem streaming_activate (p : CapturePolicy) : Streaming [] p.activate := by
  refine ⟨⟨rfl, fun k hk => ?_, fun k hk => ?_⟩, ⟨lawful_nil, fun k => ?_⟩, fun b hb => ?_⟩
  · exact absurd ⟨PySet.notMem_empty k, PySet.notMem_empty k⟩ hk
  · exact absurd hk (PySet.notMem_empty k)
  · exact iff_of_false (PySet.notMem_empty k) Strokes.not_open_nil
  · exact absurd hb Strokes.not_open_nil

/-! ## Runs -/

/-- Exactly the releases of keys that are both swallowed and forwarded leave a key down on the remote side. -/
theorem stream_tracked (p : CapturePolicy) (inputs : List PolicyInput) :
    StreamTracked p inputs ↔
      ∀ before i after, inputs = before ++ i :: after → ¬ (run p.activate before).StuckRelease i := by
  constructor
  · intro htracked before i after he hstuck
    have hbefore := htracked before (i :: after) he
    have hafter := htracked (before ++ [i]) after (by simp [he])
    rw [sent_concat, run_concat] at hafter
    generalize run p.activate before = q at hstuck hbefore hafter
    cases i with
    | move | button | scroll => exact hstuck
    | key k down =>
        cases down with
        | true => exact hstuck
        | false =>
            obtain ⟨hs, hf⟩ := hstuck
            -- the release is swallowed: `forwarded` keeps the key
            have hc := key_cases calm k false q
            have hkeys : k ∉ (q.key calm k false).1.keys := by
              rw [hc.like.keys]
              exact fun hm => (PySet.mem_discard.mp hm).2 rfl
            have hkept : k ∈ (q.key calm k false).1.forwarded := by
              generalize q.key calm k false = r at hc ⊢
              cases hc with
              | repeated h | fired h => exact absurd h.1 (by simp)
              | held _ _ hd => cases hd
              | unswallowed => exact hf
              | ignored _ hn | unignored _ hn | passed _ hn | known hn | deferred hn | modifier hn | forwarded _ hn =>
                  exact absurd hs hn
            exact hkeys (hafter.keys k ((hafter.forwarded k).mp hkept))
  · intro hgood before after he
    have hstreaming : Streaming (sent p.activate before) (run p.activate before) := by
      induction before using List.reverseRecOn generalizing after with
      | nil => exact streaming_activate p
      | append_singleton before i ih =>
          have he : inputs = before ++ i :: after := by simpa using he
          rw [sent_concat, run_concat]
          exact (ih (i :: after) he).step (hgood before i after he)
    exact hstreaming.tracked

/-- F9 is forwarded, Ctrl and Alt are pressed, and F9 repeats: its release is swallowed, and it stays down on the remote
side. -/
theorem function_key_stays_down :
    ¬ StreamTracked {} [.key f9 true, .key 0xA2 true, .key 0xA4 true, .key f9 true, .key f9 false] := by
  intro h
  have hkeys := (h _ [] (List.append_nil _).symm).keys f9 ⟨[], [], by decide, by simp⟩
  exact absurd hkeys (by decide)

end CapturePolicy

end RemoteInput
