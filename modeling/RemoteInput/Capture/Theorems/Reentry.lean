import RemoteInput.Capture.Lemmas.Chord

/-!
# A pause from inside `emit`
-/

namespace RemoteInput

namespace CapturePolicy

variable {pauses : Pauses} {p q : CapturePolicy} {k : Int} {down : Bool} {calls : List PolicyCall} {keys : List Int}

/-- The emitted press of a key. -/
def press (k : Int) : PolicyCall := .emit (keyEvent k true)

/-- Some `emit` among the calls of an event has paused the policy. -/
def EmitPaused (pauses : Pauses) (calls : List PolicyCall) : Prop :=
  ∃ before e after, calls = before ++ .emit e :: after ∧ pauses before (.emit e) = true

/-- The pause is complete: nothing is emitted after it, and from `p` the event ends in a paused policy `q` that swallows held
keys only, among them those whose press has been forwarded. -/
structure CompletePause (pauses : Pauses) (p q : CapturePolicy) : Prop where
  last : ∀ before e after, q.calls = before ++ .emit e :: after → pauses before (.emit e) = true → ∀ e', .emit e' ∉ after
  active : q.active = false
  pending : q.pending = ∅
  forwarded : q.forwarded = ∅
  swallowed : ∀ k ∈ q.swallowed, k ∈ q.keys
  suppressed : ∀ k ∈ q.keys, k ∈ p.forwarded ∨ press k ∈ q.calls → k ∈ q.swallowed

/-- No press of the flush pauses, and what is swallowed, forwarded or deferred is held. -/
def PausesAtMouse (pauses : Pauses) (p : CapturePolicy) : Prop :=
  (∀ before x after, p.pending.elems = before ++ x :: after → pauses (before.map press) (press x) = false) ∧
    ∀ x, x ∈ p.swallowed ∨ x ∈ p.forwarded ∨ x ∈ p.pending → x ∈ p.keys

/-- The press of a modifier that is tapped pauses, and what else is swallowed or forwarded is held. -/
def PausesAtTap (pauses : Pauses) (p : CapturePolicy) (k : Int) : Prop :=
  k ∈ reservedMods ∧ k ∈ p.pending ∧ pauses [] (press k) = true ∧
    ∀ x, x ∈ p.swallowed ∨ x ∈ p.forwarded → x ∈ p.keys ∧ x ≠ k

/-- The pause comes at the end of the event. -/
def PausesLast (pauses : Pauses) (p : CapturePolicy) : PolicyInput → Prop
  | .key k down => down = false ∧ PausesAtTap pauses p k
  | _ => PausesAtMouse pauses p

/-! ## Which call pauses -/

theorem not_emitPaused_nil : ¬ EmitPaused pauses [] := by
  rintro ⟨before, e, after, he, _⟩
  simp at he

theorem EmitPaused.of_concat {c : PolicyCall} (h : EmitPaused pauses (calls ++ [c])) :
    EmitPaused pauses calls ∨ pauses calls c = true ∧ ∃ e, c = .emit e := by
  obtain ⟨before, e, after, he, hp⟩ := h
  rcases List.eq_nil_or_concat after with rfl | ⟨after, x, rfl⟩
  · obtain ⟨rfl, hc⟩ := List.append_inj' he rfl
    cases hc
    exact .inr ⟨hp, e, rfl⟩
  · have he : calls ++ [c] = (before ++ .emit e :: after) ++ [x] := by simpa using he
    exact .inl ⟨before, e, after, (List.append_inj' he rfl).1, hp⟩

/-- After a complete pause only the last call can have paused. -/
theorem CompletePause.earlier (h : CompletePause pauses p q) {e : Event} (he : q.calls = calls ++ [.emit e]) :
    ¬ EmitPaused pauses calls := by
  rintro ⟨before, e', after, rfl, hp⟩
  exact h.last before e' (after ++ [.emit e]) (by rw [he]; simp) hp e (by simp)

/-- When no call but the last has paused, nothing is emitted after the one that has. -/
theorem last_of_earlier {c : PolicyCall} (h : ¬ EmitPaused pauses calls) {before after : List PolicyCall} {e : Event}
    (he : calls ++ [c] = before ++ .emit e :: after) (hp : pauses before (.emit e) = true) : ∀ e', .emit e' ∉ after := by
  rcases List.eq_nil_or_concat after with rfl | ⟨after, x, rfl⟩
  · simp
  · have he : calls ++ [c] = (before ++ .emit e :: after) ++ [x] := by simpa using he
    exact absurd ⟨before, e, after, (List.append_inj' he rfl).1, hp⟩ h

theorem emitPaused_map : EmitPaused pauses (keys.map press) ↔
    ∃ before x after, keys = before ++ x :: after ∧ pauses (before.map press) (press x) = true := by
  constructor
  · rintro ⟨before, e, after, he, hp⟩
    obtain ⟨l, rest, rfl, rfl, hrest⟩ := List.map_eq_append_iff.mp he
    obtain ⟨x, l', rfl, hx, rfl⟩ := List.map_eq_cons_iff.mp hrest
    exact ⟨l, x, l', rfl, hx ▸ hp⟩
  · rintro ⟨before, x, after, rfl, hp⟩
    exact ⟨before.map press, _, after.map press, by simp [press], hp⟩

theorem call_paused {c : PolicyCall} (h : pauses p.calls c = true) :
    p.call pauses c = { p with calls := p.calls ++ [c] }.pause := by
  unfold call
  rw [if_pos h]

theorem call_unpaused {c : PolicyCall} (h : pauses p.calls c = false) :
    p.call pauses c = { p with calls := p.calls ++ [c] } := by
  unfold call
  rw [h]
  rfl

/-! ## The flush -/

theorem flushEach_made (pauses : Pauses) (keys : List Int) (p : CapturePolicy) :
    (flushEach pauses keys p).calls = p.calls ++ keys.map press := by
  induction keys generalizing p with
  | nil => exact (List.append_nil _).symm
  | cons key keys ih =>
      rw [flushEach_cons, ih]
      show (p.call pauses (press key)).calls ++ _ = _
      rw [call_calls, List.append_assoc]
      rfl

theorem flushModifiers_made (pauses : Pauses) (p : CapturePolicy) :
    (p.flushModifiers pauses).calls = p.calls ++ p.pending.elems.map press := flushEach_made pauses _ p

/-- The last key of the flush stays in `forwarded`, whether its press has paused or not. -/
theorem flushModifiers_forwarded (pauses : Pauses) (h : p.pending ≠ ∅) : ∃ x, x ∈ (p.flushModifiers pauses).forwarded := by
  have hloop : ∀ (keys : List Int) (q : CapturePolicy), keys ≠ [] → ∃ x, x ∈ (flushEach pauses keys q).forwarded := by
    intro keys q hne
    obtain ⟨init, last, rfl⟩ := (List.eq_nil_or_concat keys).resolve_left hne
    refine ⟨last, ?_⟩
    clear hne
    induction init generalizing q with
    | nil => exact PySet.mem_add.mpr (.inr rfl)
    | cons key init ih => exact ih (q.pressed pauses key)
  exact hloop p.pending.elems p fun he => h (PySet.eq_empty_iff.mpr he)

/-- A flush in which no press pauses. -/
theorem flushEach_unpaused (keys : List Int) (p : CapturePolicy)
    (h : ∀ before x after, keys = before ++ x :: after → pauses (p.calls ++ before.map press) (press x) = false) :
    (flushEach pauses keys p).swallowed = p.swallowed ∧
      ∀ x, x ∈ (flushEach pauses keys p).forwarded ↔ x ∈ p.forwarded ∨ x ∈ keys := by
  induction keys generalizing p with
  | nil => exact ⟨rfl, fun x => by simp [flushEach]⟩
  | cons key keys ih =>
      have hone : pauses p.calls (press key) = false := by simpa using h [] key keys rfl
      have hcall : p.emitKey pauses key true = { p with calls := p.calls ++ [press key] } := call_unpaused hone
      have hrest : ∀ before x after, keys = before ++ x :: after →
          pauses ((p.pressed pauses key).calls ++ before.map press) (press x) = false := by
        rintro before x after rfl
        have hcalls : (p.pressed pauses key).calls = p.calls ++ [press key] := by rw [pressed, hcall]
        have := h (key :: before) x after rfl
        rwa [List.map_cons, List.append_cons, ← hcalls] at this
      obtain ⟨hs, hf⟩ := ih _ hrest
      rw [flushEach_cons]
      refine ⟨hs.trans (by rw [pressed, hcall]), fun x => ?_⟩
      rw [hf, pressed, hcall, List.mem_cons, ← or_assoc]
      exact or_congr_left PySet.mem_add

/-! ## A key event -/

/-- A release that is emitted leaves its key swallowed when it pauses. -/
theorem released_incomplete (hk : k ∉ q.keys) (hf : k ∈ q.forwarded)
    (hp : EmitPaused pauses (q.released pauses k).calls) : ¬ CompletePause pauses p (q.released pauses k) := by
  intro h
  have hmade : (q.released pauses k).calls = q.calls ++ [.emit (keyEvent k false)] := call_calls pauses _ q
  rw [hmade] at hp
  have hpauses := (hp.of_concat.resolve_left (h.earlier hmade)).1
  have hpaused : q.emitKey pauses k false = pause { q with calls := q.calls ++ [.emit (keyEvent k false)] } :=
    call_paused hpauses
  have hs : k ∈ (q.released pauses k).swallowed := by
    show k ∈ (q.emitKey pauses k false).swallowed
    rw [hpaused]
    exact mem_union.mpr (.inr hf)
  have hkeys : (q.released pauses k).keys = q.keys := (call_like pauses (.emit (keyEvent k false)) q).keys
  exact hk (hkeys ▸ h.swallowed k hs)

theorem pressed_incomplete (p : CapturePolicy) (k : Int) : ¬ CompletePause pauses p (q.pressed pauses k) := by
  intro h
  have hk : k ∈ (q.pressed pauses k).forwarded := PySet.mem_add.mpr (.inr rfl)
  rw [h.forwarded] at hk
  exact PySet.notMem_empty k hk

theorem flushModifiers_incomplete (hno : q.calls = []) (hp : EmitPaused pauses (q.flushModifiers pauses).calls) :
    ¬ CompletePause pauses p (q.flushModifiers pauses) := by
  intro h
  have hne : q.pending ≠ ∅ := by
    intro he
    rw [flushModifiers_made, hno, he] at hp
    exact not_emitPaused_nil hp
  obtain ⟨x, hx⟩ := flushModifiers_forwarded pauses hne
  rw [h.forwarded] at hx
  exact PySet.notMem_empty x hx

theorem raised_complete (hk : pauses [] (press k) = true) (hno : q.calls = [])
    (hp : ∀ x, x ∈ p.forwarded ↔ x ∈ q.forwarded) (hne : k ∉ q.keys) :
    CompletePause pauses p (q.emitKey pauses k true) ↔ ∀ x, x ∈ q.swallowed ∨ x ∈ q.forwarded → x ∈ q.keys := by
  have hpaused : q.emitKey pauses k true = pause { q with calls := [press k] } := by
    have h := call_paused (p := q) (c := press k) (by rw [hno]; exact hk)
    rw [hno] at h
    exact h
  rw [hpaused]
  constructor
  · intro h x hx
    exact h.swallowed x (mem_union.mpr hx)
  · intro h
    refine ⟨fun before e after he _ e' hm => ?_, rfl, rfl, rfl, fun x hx => h x (mem_union.mp hx), fun x hx hf => ?_⟩
    · have hlen := congrArg List.length he
      have : 0 < after.length := List.length_pos_of_mem hm
      simp [pause] at hlen
      omega
    · rcases hf with hf | hf
      · exact mem_union.mpr (.inr ((hp x).mp hf))
      · cases List.mem_singleton.mp hf
        exact absurd hx hne

theorem key_pause_complete (hp : EmitPaused pauses (p.key pauses k down).1.calls) :
    CompletePause pauses p (p.key pauses k down).1 ↔ down = false ∧ PausesAtTap pauses p k := by
  have hc := key_cases pauses k down p
  have hreleased : down = false → k ∉ (p.touch k down).keys := by
    rintro rfl hk
    exact (PySet.mem_discard.mp hk).2 rfl
  generalize p.key pauses k down = r at hc hp
  cases hc with
  | repeated | held | unswallowed | ignored | unignored | passed | known | deferred => exact absurd hp not_emitPaused_nil
  | fired _ _ c hc =>
      rw [call_calls] at hp
      rcases hp.of_concat with hp | ⟨_, e, he⟩
      · exact absurd hp not_emitPaused_nil
      · rw [hc] at he
        split at he <;> cases he
  | modifier _ _ _ hm hd =>
      subst hd
      have hcase := releaseModifier_cases pauses k (p.touch k false)
      generalize (p.touch k false).releaseModifier pauses k = r at hcase hp
      cases hcase with
      | raised hpend hpauses =>
          refine (raised_complete (p := p) (q := p.touch k false) hpauses rfl (fun _ => Iff.rfl) (hreleased rfl)).trans ?_
          constructor
          · exact fun h => ⟨rfl, hm, hpend, hpauses, fun x hx => PySet.mem_discard.mp (h x hx)⟩
          · exact fun h x hx => PySet.mem_discard.mpr (h.2.2.2.2 x hx)
      | tapped hpend hpauses =>
          refine iff_of_false (released_incomplete ?_ (PySet.mem_add.mpr (.inr rfl)) hp) ?_
          · show k ∉ ((p.touch k false).call pauses (press k)).keys
            rw [(call_like pauses (press k) (p.touch k false)).keys]
            exact hreleased rfl
          · exact fun h => absurd (h.2.2.2.1.symm.trans hpauses) (by simp)
      | released hpend hf =>
          exact iff_of_false (released_incomplete (hreleased rfl) hf hp) fun h => hpend h.2.2.1
      | idle => exact absurd hp not_emitPaused_nil
  | forwarded _ _ _ _ hm =>
      refine iff_of_false ?_ fun h => hm h.2.1
      cases down with
      | true => rw [forward_down]; exact pressed_incomplete p k
      | false =>
          rw [forward_up] at hp ⊢
          split at hp
          · rename_i hf
            rw [if_pos hf]
            refine released_incomplete ?_ hf hp
            rw [(flushModifiers_like pauses (p.touch k false)).keys]
            exact hreleased rfl
          · rename_i hf
            rw [if_neg hf]
            exact flushModifiers_incomplete rfl hp

/-! ## A mouse event -/

theorem press_unpaused {keys : List Int} (hflush : ¬ EmitPaused pauses (keys.map press)) (before : List Int) (x : Int)
    (after : List Int) (he : keys = before ++ x :: after) : pauses (before.map press) (press x) = false := by
  by_contra hx
  exact hflush (emitPaused_map.mpr ⟨before, x, after, he, by simpa using hx⟩)

/-- What a pause after a flush swallows, when no press of the flush paused. -/
theorem flushModifiers_swallows (hno : q.calls = []) (hflush : ¬ EmitPaused pauses (q.pending.elems.map press)) (x : Int) :
    x ∈ union (q.flushModifiers pauses).swallowed (q.flushModifiers pauses).forwarded ↔
      x ∈ q.swallowed ∨ x ∈ q.forwarded ∨ x ∈ q.pending := by
  have hpass : ∀ before x after, q.pending.elems = before ++ x :: after →
      pauses (q.calls ++ before.map press) (press x) = false := by
    rw [hno]
    exact press_unpaused hflush
  obtain ⟨hs, hf⟩ := flushEach_unpaused q.pending.elems q hpass
  have hswallowed : (q.flushModifiers pauses).swallowed = q.swallowed := hs
  rw [mem_union, hswallowed]
  exact or_congr_right (hf x)

theorem mouse_pause_complete {op : Op} {a b : Int} (hop : op ≠ .key)
    (hp : EmitPaused pauses (p.mouse pauses op a b).1.calls) :
    CompletePause pauses p (p.mouse pauses op a b).1 ↔ PausesAtMouse pauses p := by
  have hc := mouse_cases pauses op a b p
  generalize p.mouse pauses op a b = r at hc hp
  cases hc with
  | ignored | unignored | passed => exact absurd hp not_emitPaused_nil
  | emitted =>
      have hmade := flushModifiers_made pauses (p.touchButton op a b)
      rw [show (p.touchButton op a b).calls = [] from rfl, List.nil_append] at hmade
      have hcalls := call_calls pauses (.emit { op := op, a := a, b := b }) ((p.touchButton op a b).flushModifiers pauses)
      rw [hmade] at hcalls
      -- either way no press of the flush pauses, so that the event of the mouse does
      by_cases hflush : EmitPaused pauses (p.pending.elems.map press)
      · refine iff_of_false (fun h => h.earlier hcalls hflush) fun h => ?_
        obtain ⟨before, x, after, he, hx⟩ := emitPaused_map.mp hflush
        exact absurd (hx.symm.trans (h.1 before x after he)) (by simp)
      rw [hcalls] at hp
      have hpauses := (hp.of_concat.resolve_left hflush).1
      have hpaused := call_paused (p := (p.touchButton op a b).flushModifiers pauses) (by rw [hmade]; exact hpauses)
      have hkeys := (flushModifiers_like pauses (p.touchButton op a b)).keys
      have hswallowed := flushModifiers_swallows (q := p.touchButton op a b) rfl hflush
      rw [hpaused] at hcalls ⊢
      constructor
      · exact fun h => ⟨press_unpaused hflush, fun x hx => hkeys ▸ h.swallowed x ((hswallowed x).mpr hx)⟩
      · intro h
        refine ⟨fun before e after he hp => ?_, rfl, rfl, rfl, fun x hx => ?_, fun x _ hx => (hswallowed x).mpr ?_⟩
        · exact last_of_earlier hflush (hcalls.symm.trans he) hp
        · exact hkeys ▸ h.2 x ((hswallowed x).mp hx)
        · rcases hx with hx | hx
          · exact .inr (.inl hx)
          · rw [hcalls] at hx
            rcases List.mem_append.mp hx with hx | hx
            · obtain ⟨y, hy, he⟩ := List.mem_map.mp hx
              cases he
              exact .inr (.inr hy)
            · cases List.mem_singleton.mp hx
              exact absurd rfl hop

/-! ## Every event -/

/-- A pause from inside `emit` is complete exactly when it comes at the end of the event. -/
theorem pause_complete_iff (pauses : Pauses) (p : CapturePolicy) (i : PolicyInput)
    (h : EmitPaused pauses (p.step (i.op pauses)).calls) :
    CompletePause pauses p (p.step (i.op pauses)) ↔ PausesLast pauses p i := by
  cases i with
  | key k down => exact key_pause_complete h
  | move dx dy => exact mouse_pause_complete (by decide) h
  | button a b => exact mouse_pause_complete (by decide) h
  | scroll dx dy => exact mouse_pause_complete (by decide) h

/-- A movement whose event finds the queue full. -/
theorem pause_complete_move :
    CompletePause (fun _ _ => true) (exec {} [.activate])
      ((exec {} [.activate]).step ((PolicyInput.move 1 0).op fun _ _ => true)) :=
  (pause_complete_iff (fun _ _ => true) (exec {} [.activate]) (.move 1 0) ⟨[], _, [], rfl, rfl⟩).mpr
    ⟨fun _ _ _ he => by simp [exec, step, activate] at he, fun x hx => by simp [exec, step, activate] at hx⟩

/-- A key whose press finds the queue full: it stays in `forwarded`, and is not swallowed although it is held. -/
theorem press_pause_incomplete :
    EmitPaused (fun _ _ => true) ((exec {} [.activate]).step ((PolicyInput.key 0x41 true).op fun _ _ => true)).calls ∧
    ¬ CompletePause (fun _ _ => true) (exec {} [.activate])
      ((exec {} [.activate]).step ((PolicyInput.key 0x41 true).op fun _ _ => true)) := by
  constructor
  · exact ⟨[], keyEvent 0x41 true, [], by decide, rfl⟩
  · intro h
    exact absurd (h.suppressed 0x41 (by decide) (.inr (by decide))) (by decide)

end CapturePolicy

end RemoteInput
