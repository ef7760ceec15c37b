import RemoteInput.Capture.Lemmas.Chord

/-!
# The control chord
-/

namespace RemoteInput

namespace CapturePolicy

variable {pauses : Pauses} {p : CapturePolicy} {j k m : Int} {down : Bool} {op : PolicyOp} {ops : List PolicyOp}

/-! ## Runs -/

/-- The calls of one operation. -/
def made (p : CapturePolicy) : PolicyOp → List PolicyCall
  | .activate | .pause => []
  | .key pauses key down => (p.key pauses key down).1.calls
  | .mouse pauses op a b => (p.mouse pauses op a b).1.calls

/-- A condition on every operation of a run and the state before it. -/
def Along (P : CapturePolicy → PolicyOp → Prop) : CapturePolicy → List PolicyOp → Prop
  | _, [] => True
  | p, op :: ops => P p op ∧ Along P (p.step op) ops

def alongDecidable {P : CapturePolicy → PolicyOp → Prop} [∀ p op, Decidable (P p op)] :
    (p : CapturePolicy) → (ops : List PolicyOp) → Decidable (Along P p ops)
  | _, [] => isTrue trivial
  | p, op :: ops => @instDecidableAnd (P p op) _ _ (alongDecidable (p.step op) ops)

instance {P : CapturePolicy → PolicyOp → Prop} [∀ p op, Decidable (P p op)] (p : CapturePolicy) (ops : List PolicyOp) :
    Decidable (Along P p ops) := alongDecidable p ops

theorem along_append {P : CapturePolicy → PolicyOp → Prop} {more : List PolicyOp} :
    Along P p (ops ++ more) ↔ Along P p ops ∧ Along P (p.exec ops) more := by
  induction ops generalizing p with
  | nil => simp [Along, CapturePolicy.exec]
  | cons op ops ih =>
      show P p op ∧ Along P (p.step op) (ops ++ more) ↔ (P p op ∧ Along P (p.step op) ops) ∧ _
      rw [ih, and_assoc]
      rfl

/-- Mouse operations are not those of keys, and the hotkeys pause an active policy. -/
def Regular (p : CapturePolicy) : PolicyOp → Prop
  | .key pauses _ _ => p.active = true → pauses [] .toggle = true ∧ pauses [] .stop = true
  | .mouse _ op _ _ => op ≠ .key
  | _ => True

instance (p : CapturePolicy) : (op : PolicyOp) → Decidable (Regular p op)
  | .key .. => inferInstanceAs (Decidable (_ → _ ∧ _))
  | .mouse .. => inferInstanceAs (Decidable (_ ≠ _))
  | .activate | .pause => isTrue trivial

theorem Regular.mouse (h : Regular p op) {pauses : Pauses} {kind : Op} {a b : Int} (he : op = .mouse pauses kind a b) :
    kind ≠ .key := by
  subst he
  exact h

/-! ## The property -/

/-- A press of F9 or F10, not a repetition, while some Ctrl and some Alt key is held. -/
def FreshChord (p : CapturePolicy) (k : Int) : Prop := (k = f9 ∨ k = f10) ∧ k ∉ p.keys ∧ p.holdsAny ctrl ∧ p.holdsAny alt

instance (p : CapturePolicy) (k : Int) : Decidable (p.FreshChord k) := inferInstanceAs (Decidable (_ ∧ _))

/-- What the chord calls. -/
def hotkeyCall (k : Int) : PolicyCall := if k = f9 then .toggle else .stop

/-- The release of a key. -/
def Releases (k : Int) : PolicyOp → Prop
  | .key _ j down => j = k ∧ down = false
  | _ => False

/-- No event of the key is emitted. -/
def Hides (k : Int) (p : CapturePolicy) (op : PolicyOp) : Prop :=
  ∀ c ∈ p.made op, Emits (fun e => ¬ (e.op = .key ∧ e.a = k)) c

instance (k : Int) (p : CapturePolicy) (op : PolicyOp) : Decidable (Hides k p op) :=
  inferInstanceAs (Decidable (∀ c ∈ p.made op, Emits _ c))

/-- The chord of `k` is not called again, no event of `k` is emitted, and an event of `k` itself makes no call at all. -/
def Spares (k : Int) (p : CapturePolicy) (op : PolicyOp) : Prop :=
  hotkeyCall k ∉ p.made op ∧ Hides k p op ∧ ∀ pauses down, op = .key pauses k down → p.made op = []

/-- Every chord makes its call once until its key is released, and neither the key nor a modifier whose press has not been
emitted before the chord is emitted from then on until it is released. -/
structure ChordLocal (ops : List PolicyOp) : Prop where
  once : ∀ before pauses k after, ops = before ++ .key pauses k true :: after → (exec {} before).FreshChord k →
    (∀ op ∈ after, ¬ Releases k op) →
      (exec {} before).made (.key pauses k true) = [hotkeyCall k] ∧
      Along (Spares k) (exec {} (before ++ [.key pauses k true])) after ∧
      ∀ pauses, (exec {} ops).made (.key pauses k false) = []
  hidden : ∀ before pauses m mid pauses' k after, ops = before ++ .key pauses m true :: mid ++ .key pauses' k true :: after →
    m ∈ reservedMods → m ∉ (exec {} before).keys → (∀ op ∈ mid, ¬ Releases m op) →
    Along (Hides m) (exec {} before) (.key pauses m true :: mid) →
    (exec {} (before ++ .key pauses m true :: mid)).FreshChord k → (∀ op ∈ after, ¬ Releases m op) →
      Along (Hides m) (exec {} (before ++ .key pauses m true :: mid)) (.key pauses' k true :: after) ∧
      ∀ pauses, Hides m (exec {} ops) (.key pauses m false)

/-! ## After the chord: its key -/

theorem chord_not_reserved (h : k = f9 ∨ k = f10) : k ∉ reservedMods := by
  rcases h with rfl | rfl <;> decide

/-- The key is held and swallowed. -/
structure Taken (k : Int) (p : CapturePolicy) : Prop where
  chord : k = f9 ∨ k = f10
  keys : k ∈ p.keys
  swallowed : k ∈ p.swallowed
  deferred : p.Deferred

theorem hotkeyCall_inj (hj : j = f9 ∨ j = f10) (hk : k = f9 ∨ k = f10) (h : hotkeyCall j = hotkeyCall k) : j = k := by
  rcases hj with rfl | rfl <;> rcases hk with rfl | rfl <;> first | rfl | exact absurd h (by decide)

theorem emit_ne_hotkeyCall (e : Event) (k : Int) : .emit e ≠ hotkeyCall k := by
  unfold hotkeyCall
  split <;> simp

theorem Deferred.step (h : p.Deferred) (op : PolicyOp) : (p.step op).Deferred := by
  cases op with
  | activate | pause => exact fun x hx => absurd hx (PySet.notMem_empty x)
  | key pauses k down => exact (key_only (P := fun _ => True) (fun _ _ _ => trivial) pauses k down h fun _ => trivial).2
  | mouse pauses op a b => exact (mouse_only (P := fun _ => True) (fun _ _ _ => trivial) pauses op a b h fun _ => trivial).2

theorem KeyCase.taken {repeated : Bool} {r : CapturePolicy × Option Bool} (h : KeyCase pauses k down repeated p r)
    (hs : k ∈ p.swallowed) (hr : down = true → repeated = true) : r.1.calls = p.calls := by
  cases h with
  | repeated | held | unswallowed => rfl
  | fired h hn => rw [hr h.1] at hn; cases hn
  | ignored _ hn | unignored _ hn | passed _ hn | known hn | deferred hn | modifier hn | forwarded _ hn => exact absurd hs hn

theorem Taken.step (h : Taken k p) (hop : ¬ Releases k op) : Taken k (p.step op) := by
  refine ⟨h.chord, ?_, ?_, h.deferred.step op⟩
  · cases op with
    | activate | pause => exact h.keys
    | mouse pauses op a b => rw [CapturePolicy.step, (mouse_cases pauses op a b p).like.1]; exact h.keys
    | key pauses j down =>
        rw [CapturePolicy.step, (key_cases pauses j down p).like.keys]
        cases down with
        | true => exact PySet.mem_add.mpr (.inl h.keys)
        | false => exact PySet.mem_discard.mpr ⟨h.keys, fun he => hop ⟨he.symm, rfl⟩⟩
  · cases op with
    | activate => exact h.swallowed
    | pause => exact mem_union.mpr (.inl h.swallowed)
    | mouse pauses op a b => exact (mouse_cases pauses op a b p).onward.swallowed k h.swallowed
    | key pauses j down =>
        refine (key_cases pauses j down p).swallowed h.swallowed ?_
        by_cases hj : j = k
        · exact .inr (by simpa [Releases, hj] using hop)
        · exact .inl hj

theorem Taken.spares (h : Taken k p) (hop : ¬ Releases k op) (hreg : Regular p op) : Spares k p op := by
  have hpend : ∀ x ∈ p.pending, x ≠ k := by
    rintro x hx rfl
    exact chord_not_reserved h.chord (h.deferred x hx)
  -- the calls of another key
  have hspared : ∀ calls : List PolicyCall, (∀ c ∈ calls, c ≠ hotkeyCall k ∧ Emits (fun e => ¬ (e.op = .key ∧ e.a = k)) c) →
      hotkeyCall k ∉ calls ∧ ∀ c ∈ calls, Emits (fun e => ¬ (e.op = .key ∧ e.a = k)) c :=
    fun calls hc => ⟨fun hm => (hc _ hm).1 rfl, fun c hm => (hc c hm).2⟩
  have hother : ∀ x ≠ k, ∀ down, PolicyCall.emit (keyEvent x down) ≠ hotkeyCall k ∧
      Emits (fun e => ¬ (e.op = .key ∧ e.a = k)) (.emit (keyEvent x down)) :=
    fun x hx down => ⟨emit_ne_hotkeyCall _ k, emits_emit fun he => hx he.2⟩
  cases op with
  | activate | pause => exact ⟨by simp [made], by simp [Hides, made], fun _ _ _ => rfl⟩
  | mouse pauses op a b =>
      have hc := mouse_cases pauses op a b p
      obtain ⟨hcall, hhides⟩ := hspared _ (hc.calls_only (fun _ x hx => hother x (hpend x hx) true)
        (fun _ => ⟨emit_ne_hotkeyCall _ k, emits_emit fun he => hreg he.1⟩) (by simp [touchButton]))
      exact ⟨hcall, hhides, fun _ _ he => by cases he⟩
  | key pauses j down =>
      have hc := key_cases pauses j down p
      by_cases hj : j = k
      · subst hj
        have hnone : p.made (.key pauses j down) = [] := hc.taken h.swallowed fun _ => decide_eq_true h.keys
        exact ⟨by simp [hnone], by simp [Hides, hnone], fun _ _ _ => hnone⟩
      · obtain ⟨hcall, hhides⟩ := hspared _ (hc.calls_only (fun _ x hx => hother x (hpend x hx) true)
          (fun _ _ _ => hother j hj) (fun hh _ => ⟨fun he => hj (hotkeyCall_inj hh.2.1 h.chord he), emits_hotkey j⟩)
          (by simp [touch]))
        exact ⟨hcall, hhides, fun _ _ he => absurd (by cases he; rfl) hj⟩

theorem Taken.run (h : Taken k p) (hops : ∀ op ∈ ops, ¬ Releases k op) (hreg : Along Regular p ops) :
    Along (Spares k) p ops ∧ Taken k (p.exec ops) := by
  induction ops generalizing p with
  | nil => exact ⟨trivial, h⟩
  | cons op ops ih =>
      have hop := hops op List.mem_cons_self
      obtain ⟨hspares, htaken⟩ := ih (h.step hop) (fun op hm => hops op (List.mem_cons_of_mem _ hm)) hreg.2
      exact ⟨⟨h.spares hop hreg.1, hspares⟩, htaken⟩

/-- The chord. -/
theorem FreshChord.fired (h : p.FreshChord k) (pauses : Pauses) :
    p.key pauses k true = (call pauses (hotkeyCall k)
      { p.touch k true with swallowed := p.swallowed.add k, pending := ∅ }, some true) := by
  obtain ⟨hk, hnew, ⟨c, hc, hck⟩, ⟨a, ha, hak⟩⟩ := h
  have hhot : (p.touch k true).hotkey k true :=
    ⟨rfl, hk, ⟨c, hc, PySet.mem_add.mpr (.inl hck)⟩, ⟨a, ha, PySet.mem_add.mpr (.inl hak)⟩⟩
  have hcase := key_cases pauses k true p
  generalize p.key pauses k true = r at hcase ⊢
  cases hcase with
  | repeated _ hr => exact absurd (of_decide_eq_true hr) hnew
  | fired _ _ c hc => rw [hc]; rfl
  | held hn | ignored hn | passed hn | forwarded hn => exact absurd hhot hn
  | unswallowed _ _ hd | unignored _ _ _ hd | modifier _ _ _ _ hd => cases hd
  | known _ _ _ hm | deferred _ _ _ hm => exact absurd hm (chord_not_reserved hk)

theorem FreshChord.made (h : p.FreshChord k) (pauses : Pauses) : p.made (.key pauses k true) = [hotkeyCall k] := by
  rw [CapturePolicy.made, h.fired, call_calls]
  rfl

theorem FreshChord.taken (h : p.FreshChord k) (hd : p.Deferred) (pauses : Pauses) :
    Taken k (p.step (.key pauses k true)) := by
  refine ⟨h.1, ?_, ?_, hd.step _⟩
  · rw [CapturePolicy.step, (key_cases pauses k true p).like.keys]
    exact PySet.mem_add.mpr (.inr rfl)
  · rw [CapturePolicy.step, h.fired]
    exact (call_onward pauses _ _).swallowed k (PySet.mem_add.mpr (.inr rfl))

/-! ## Before the chord: a modifier -/

/-- A held modifier that an active policy has not forwarded. -/
structure Waiting (m : Int) (p : CapturePolicy) : Prop where
  keys : m ∈ p.keys
  unsent : p.active = true → m ∉ p.forwarded

theorem keys_step (hm : m ∈ p.keys) (hop : ¬ Releases m op) : m ∈ (p.step op).keys := by
  cases op with
  | activate | pause => exact hm
  | mouse pauses op a b => rw [CapturePolicy.step, (mouse_cases pauses op a b p).like.1]; exact hm
  | key pauses j down =>
      rw [CapturePolicy.step, (key_cases pauses j down p).like.keys]
      cases down with
      | true => exact PySet.mem_add.mpr (.inl hm)
      | false => exact PySet.mem_discard.mpr ⟨hm, fun he => hop ⟨he.symm, rfl⟩⟩

/-- A modifier is forwarded only when its press is emitted. -/
theorem forwarded_step (hu : p.active = true → m ∉ p.forwarded) (hhides : Hides m p op) (ha : (p.step op).active = true) :
    m ∉ (p.step op).forwarded := by
  have hno : .emit (keyEvent m true) ∉ p.made op := fun he => hhides _ he _ rfl ⟨rfl, rfl⟩
  cases op with
  | activate | pause => exact PySet.notMem_empty m
  | mouse pauses op a b =>
      have h := (mouse_cases pauses op a b p).onward
      exact fun hf => (h.forwarded m hf).elim (hu (h.live ha).1) hno
  | key pauses j down =>
      have hc := key_cases pauses j down p
      exact fun hf => (hc.adds hf).elim (hu (hc.live ha).1) hno

theorem Waiting.run (h : Waiting m p) (hops : ∀ op ∈ ops, ¬ Releases m op) (hhides : Along (Hides m) p ops) :
    Waiting m (p.exec ops) := by
  induction ops generalizing p with
  | nil => exact h
  | cons op ops ih =>
      have hstep : Waiting m (p.step op) := ⟨keys_step h.keys (hops op List.mem_cons_self), forwarded_step h.unsent hhides.1⟩
      exact ih hstep (fun op hm => hops op (List.mem_cons_of_mem _ hm)) hhides.2

/-! ## After the chord: the modifiers -/

/-- A held key of which nothing is sent: the policy is paused, or has been activated with the key held. -/
structure Dormant (m : Int) (p : CapturePolicy) : Prop where
  keys : m ∈ p.keys
  held : p.active = true → Held m p

theorem Waiting.chord (h : Waiting m p) (hm : m ∈ reservedMods) (hc : p.FreshChord k)
    (hreg : Regular p (.key pauses k true)) :
    Dormant m (p.step (.key pauses k true)) := by
  have hne : k ≠ m := fun he => chord_not_reserved hc.1 (he ▸ hm)
  refine ⟨keys_step h.keys fun hr => hne hr.1, fun ha => ?_⟩
  -- an active policy has been paused by the call
  rw [CapturePolicy.step, hc.fired] at ha
  have hactive := ((call_onward pauses _ _).live ha).1
  obtain ⟨htoggle, hstop⟩ := hreg hactive
  have hpauses : pauses [] (hotkeyCall k) = true := by
    unfold hotkeyCall
    split
    · exact htoggle
    · exact hstop
  rcases call_cases pauses (hotkeyCall k) { p.touch k true with swallowed := p.swallowed.add k, pending := ∅ } with
    ⟨_, he⟩ | ⟨hn, _⟩
  · rw [he] at ha; cases ha
  · exact absurd (hn.symm.trans hpauses) (by simp)

theorem Dormant.hides (h : Dormant m p) (hop : ∀ pauses kind a b, op = .mouse pauses kind a b → kind ≠ .key) :
    Hides m p op := by
  have hother : ∀ x ≠ m, ∀ down, Emits (fun e => ¬ (e.op = .key ∧ e.a = m)) (.emit (keyEvent x down)) :=
    fun x hx down => emits_emit fun he => hx he.2
  have hpend : p.active = true → ∀ x ∈ p.pending, x ≠ m := by
    rintro ha x hx rfl
    exact (h.held ha).unsent.2 hx
  cases op with
  | activate | pause => simp [Hides, made]
  | mouse pauses op a b =>
      exact (mouse_cases pauses op a b p).calls_only (fun ha x hx => hother x (hpend ha x hx) true)
        (fun _ => emits_emit fun he => hop _ _ _ _ rfl he.1) (by simp [touchButton])
  | key pauses j down =>
      refine (key_cases pauses j down p).calls_only (fun ha x hx => hother x (hpend ha x hx) true) (fun ha _ hi => ?_)
        (fun _ _ => emits_hotkey j) (by simp [touch])
      refine hother j ?_
      rintro rfl
      exact hi (h.held ha).ignored

theorem Dormant.step (h : Dormant m p) (hop : ¬ Releases m op) : Dormant m (p.step op) := by
  refine ⟨keys_step h.keys hop, fun ha => ?_⟩
  have hnot : ∀ pauses, op ≠ .key pauses m false := by
    rintro pauses rfl
    exact hop ⟨rfl, rfl⟩
  cases op with
  | activate => exact ⟨h.keys, h.keys, ⟨PySet.notMem_empty m, PySet.notMem_empty m⟩⟩
  | pause => cases ha
  | mouse pauses op a b => exact (h.held ((mouse_cases pauses op a b p).onward.live ha).1).step hnot
  | key pauses j down => exact (h.held ((key_cases pauses j down p).live ha).1).step hnot

theorem Dormant.run (h : Dormant m p) (hops : ∀ op ∈ ops, ¬ Releases m op)
    (hreg : Along Regular p ops) : Along (Hides m) p ops ∧ Dormant m (p.exec ops) := by
  induction ops generalizing p with
  | nil => exact ⟨trivial, h⟩
  | cons op ops ih =>
      have hop := hops op List.mem_cons_self
      obtain ⟨hhides, hdormant⟩ := ih (h.step hop) (fun op hm => hops op (List.mem_cons_of_mem _ hm)) hreg.2
      exact ⟨⟨h.hides fun _ _ _ _ he => hreg.1.mouse he, hhides⟩, hdormant⟩

/-! ## Runs from the start -/

theorem exec_deferred (ops : List PolicyOp) : (exec {} ops).Deferred ∧ (exec {} ops).Kept := by
  induction ops using List.reverseRecOn with
  | nil => exact ⟨fun x hx => absurd hx (PySet.notMem_empty x), fun ha => by cases ha⟩
  | append_singleton ops op ih =>
      rw [exec_append]
      exact ⟨ih.1.step op, ih.2.step op⟩

theorem exec_cons_of_append (before : List PolicyOp) (op : PolicyOp) (after : List PolicyOp) :
    exec p (before ++ op :: after) = ((exec p before).step op).exec after := by
  rw [exec_append]
  rfl

/-- A modifier that has just been pressed. -/
theorem pressed_waiting (h : p.Kept) (hm : m ∈ reservedMods) (hnew : m ∉ p.keys) (hhides : Hides m p (.key pauses m true)) :
    Waiting m (p.step (.key pauses m true)) := by
  refine ⟨?_, forwarded_step (fun ha hf => hnew ?_) hhides⟩
  · rw [CapturePolicy.step, (key_cases pauses m true p).like.keys]
    exact PySet.mem_add.mpr (.inr rfl)
  · exact (h ha m hm fun hu => hu.1 hf).1

/-- In every run of keys, mouse events, activations and pauses. -/
theorem chord_local (ops : List PolicyOp) (h : Along Regular {} ops) : ChordLocal ops := by
  constructor
  · rintro before pauses k after rfl hc hafter
    have htaken := hc.taken (exec_deferred before).1 pauses
    obtain ⟨hspares, hend⟩ := htaken.run hafter (along_append.mp h).2.2
    refine ⟨hc.made pauses, ?_, fun pauses => ?_⟩
    · rw [exec_append]; exact hspares
    · rw [exec_cons_of_append]
      exact (key_cases pauses k false _).taken hend.swallowed (by simp)
  · rintro before pauses m mid pauses' k after rfl hm hnew hmid hhides hc hafter
    obtain ⟨_, hreg, hregs⟩ := along_append.mp h
    have hwaiting : Waiting m (exec {} (before ++ .key pauses m true :: mid)) := by
      rw [exec_cons_of_append]
      exact (pressed_waiting (exec_deferred before).2 hm hnew hhides.1).run hmid hhides.2
    have hdormant := hwaiting.chord hm hc hreg
    obtain ⟨hrest, hend⟩ := hdormant.run hafter hregs
    refine ⟨⟨?_, hrest⟩, fun pauses => ?_⟩
    · rw [Hides, hc.made]
      intro c hc'
      rw [List.mem_singleton.mp hc']
      exact emits_hotkey k
    · rw [exec_cons_of_append]
      exact hend.hides fun _ _ _ _ he => by cases he

/-- The hotkeys pause the policy, and nothing else does. -/
def obliging : Pauses := fun _ c => decide (c = .toggle ∨ c = .stop)

/-- Ctrl+Alt+F9 with the policy active: the release of Ctrl is not emitted. -/
theorem chord_local_active :
    Along (Hides 0xA2) (exec {} [.activate, .key obliging 0xA2 true, .key obliging 0xA4 true])
      [.key obliging f9 true, .key obliging 0xA4 false] ∧
    (exec {} [.activate, .key obliging 0xA2 true, .key obliging 0xA4 true]).made (.key obliging f9 true) = [.toggle] := by
  have h := chord_local [.activate, .key obliging 0xA2 true, .key obliging 0xA4 true, .key obliging f9 true,
    .key obliging 0xA4 false] (by decide)
  constructor
  · refine (h.hidden [.activate] obliging 0xA2 [.key obliging 0xA4 true] obliging f9 [.key obliging 0xA4 false] rfl
      (by decide) (by decide) ?_ (by decide) (by decide) ?_).1 <;> simp [Releases]
  · refine (h.once _ obliging f9 [.key obliging 0xA4 false] rfl (by decide) ?_).1
    simp [Releases, f9]

end CapturePolicy

end RemoteInput
