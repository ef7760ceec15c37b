import RemoteInput.Controller.Bridge
import RemoteInput.Wire.Bridge
import RemoteInput.Wire.Lemmas.Queue

/-!
# No wakeup is lost and no frame is left out
-/

namespace RemoteInput

/-! ## The outbox -/

namespace Channel

variable {α : Type} {c : Channel α} {s s' : Wakeup.State (Channel α) Bool (WriterPoint α)}
  {action : Wakeup.Action (Time × α) Empty WriterEnv}

/-- The writer has something to do. -/
def Work (c : Channel α) : Prop := c.outbox.items ≠ [] ∨ c.outbox.failed = true

/-- How the locked section ends. -/
inductive PutCase (c : Channel α) (now : Time) (raw : α) : Outbox α → Prop where
  | overflow : PutCase c now raw { items := [], failed := true }
  | refused (h : c.outbox.failed = true) : PutCase c now raw c.outbox
  | appended (h : c.outbox.failed = false) :
      PutCase c now raw { items := c.outbox.items ++ [(raw, now)], failed := c.outbox.failed }

theorem put_cases (c : Channel α) (now : Time) (raw : α) : PutCase c now raw (c.put (now, raw)).1.outbox := by
  unfold put
  dsimp only
  split
  · exact .overflow
  · split
    · rename_i h; exact .refused h
    · rename_i h; exact .appended (by simpa using h)

theorem put_failed {now : Time} {raw : α} (h : c.outbox.failed = true) : (c.put (now, raw)).1.outbox.failed = true := by
  have hc := c.put_cases now raw
  generalize (c.put (now, raw)).1.outbox = o at hc
  cases hc with
  | overflow => rfl
  | refused => exact h
  | appended hf => rw [h] at hf; cases hf

theorem bridge_wakes : (bridge α).Wakes Work := by
  constructor
  · rintro ⟨now, raw⟩ c hw
    change Work (c.put (now, raw)).1 at hw
    change Work c ∨ (c.outbox.items.isEmpty || (c.put (now, raw)).1.outbox.failed) = true
    have hc := c.put_cases now raw
    generalize hput : (c.put (now, raw)).1.outbox = o at hc
    cases hc with
    | overflow => exact .inr (Bool.or_true _)
    | refused h => exact .inl (.inr h)
    | appended h =>
        by_cases hi : c.outbox.items = []
        · rw [hi]; exact .inr rfl
        · exact .inl (.inl hi)
  · rintro ⟨now, raw⟩ c kept h
    rcases Bool.or_eq_true_iff.mp h with h | h
    · exact Bool.or_eq_true_iff.mpr (.inl h)
    · exact Bool.or_eq_true_iff.mpr (.inr (put_failed h))
  · exact fun input => input.elim
  · exact fun input => input.elim
  · intro env point c h
    change (c.writer env point).2 = .wait at h
    change ¬ Work (c.writer env point).1
    unfold writer at h ⊢
    cases point with
    | taking =>
        dsimp only at h ⊢
        by_cases hf : c.outbox.failed
        · rw [if_pos hf] at h; cases h
        · rw [if_neg hf] at h ⊢
          cases hi : c.outbox.items with
          | nil => simp [Work, hi, hf]
          | cons item rest => rw [hi] at h; cases h
    | taken raw entered =>
        dsimp only at h
        split at h <;> cases h
    | sending =>
        dsimp only at h
        split at h <;> cases h

/-! ## The order of the frames -/

/-- The item that the writer has taken and not yet passed on. -/
def held : Wakeup.Consumer (WriterPoint α) → List α
  | .draining (.taken raw _) => [raw]
  | _ => []

/-- What was given to the outbox was passed on, is held by the writer, or came later; while the writer runs and nothing has
failed, what came later waits. -/
def Ordered (s : Wakeup.State (Channel α) Bool (WriterPoint α)) : Prop :=
  ∃ later, s.shared.given = s.shared.passed ++ held s.consumer ++ later ∧
    (s.shared.outbox.failed = false → s.consumer ≠ .ended → later = s.shared.outbox.waiting)

theorem Ordered.put (h : Ordered s) (now : Time) (raw : α) : Ordered { s with shared := (s.shared.put (now, raw)).1 } := by
  obtain ⟨later, hgiven, hlater⟩ := h
  refine ⟨later ++ [raw], ?_, ?_⟩
  · change s.shared.given ++ [raw] = s.shared.passed ++ held s.consumer ++ (later ++ [raw])
    rw [hgiven, List.append_assoc]
  · change (s.shared.put (now, raw)).1.outbox.failed = false → _ → _ = (s.shared.put (now, raw)).1.outbox.waiting
    have hc := s.shared.put_cases now raw
    generalize (s.shared.put (now, raw)).1.outbox = o at hc
    cases hc with
    | overflow => exact fun h => nomatch h
    | refused hf => exact fun h => by rw [hf] at h; cases h
    | appended hf =>
        intro _ hrun
        rw [hlater hf hrun]
        simp [Outbox.waiting]

/-- The writer is cancelled. -/
theorem Ordered.cancel (h : Ordered s) : Ordered { s with consumer := .ended } := by
  obtain ⟨later, hgiven, -⟩ := h
  refine ⟨held s.consumer ++ later, ?_, fun _ hrun => absurd rfl hrun⟩
  rw [hgiven]
  simp [held]

theorem Ordered.turn (h : Ordered s) {env : WriterEnv} (hs : (bridge α).turn env s = some s') : Ordered s' := by
  have hcancel := h.cancel
  obtain ⟨later, hgiven, hlater⟩ := h
  unfold Wakeup.Bridge.turn at hs
  cases hc : s.consumer with
  | ended => rw [hc] at hs; cases hs
  | clearing =>
      rw [hc] at hs hgiven hlater
      cases hs
      exact ⟨later, hgiven, fun hf _ => hlater hf (by simp)⟩
  | waiting =>
      rw [hc] at hs hgiven hlater
      dsimp only at hs
      split at hs <;> cases hs
      exact ⟨later, hgiven, fun hf _ => hlater hf (by simp)⟩
  | draining point =>
      rw [hc] at hs hgiven hlater
      dsimp only [bridge, writer] at hs
      cases point with
      | taking =>
          by_cases hf : s.shared.outbox.failed
          · simp only [hf, if_true, Option.some.injEq] at hs
            subst hs
            exact hcancel
          · cases hi : s.shared.outbox.items with
            | nil =>
                simp only [hf, hi, Bool.false_eq_true, if_false, Option.some.injEq] at hs
                subst hs
                exact ⟨later, hgiven, fun hf _ => hlater hf (by simp)⟩
            | cons item rest =>
                simp only [hf, hi, Bool.false_eq_true, if_false, Option.some.injEq] at hs
                subst hs
                have hwait : later = item.1 :: rest.map Prod.fst := by
                  rw [hlater (by simpa using hf) (by simp), Outbox.waiting, hi, List.map_cons]
                refine ⟨rest.map Prod.fst, ?_, fun _ _ => rfl⟩
                rw [hgiven, hwait]
                simp [held]
      | taken raw entered =>
          by_cases hage : env.now - entered > maxQueueAge
          · simp only [hage, if_true, Option.some.injEq] at hs
            subst hs
            exact hcancel
          · simp only [hage, if_false, Option.some.injEq] at hs
            subst hs
            refine ⟨later, ?_, fun hf _ => hlater hf (by simp)⟩
            rw [hgiven]
            simp [held]
      | sending =>
          cases hsent : env.sent with
          | true =>
              simp only [hsent, if_true, Option.some.injEq] at hs
              subst hs
              exact ⟨later, hgiven, fun hf _ => hlater hf (by simp)⟩
          | false =>
              simp only [hsent, Bool.false_eq_true, if_false, Option.some.injEq] at hs
              subst hs
              exact hcancel

theorem Ordered.step (h : Ordered s) (hs : (bridge α).step s action = some s') : Ordered s' := by
  cases action with
  | put input =>
      cases hs
      exact h.put input.1 input.2
  | wake producer =>
      obtain ⟨kept, -, rfl⟩ := Option.map_eq_some_iff.mp hs
      exact h
  | other input => exact input.elim
  | callback =>
      unfold Wakeup.Bridge.step at hs
      dsimp only at hs
      split at hs <;> cases hs
      exact h
  | start => simp [Wakeup.Bridge.step, bridge] at hs
  | turn env => exact h.turn hs
  | cancel =>
      cases hs
      exact h.cancel
  | close =>
      unfold Wakeup.Bridge.step at hs
      dsimp only at hs
      split at hs <;> cases hs
      exact h

end Channel

/-! ## The controller's queue -/

namespace Controller

/-- The sender has something to do. -/
def Work (c : Controller) : Prop := c.queue.items ≠ [] ∨ c.queue.failed = true

theorem work_clear {c : Controller} {q : InputQueue} (h : c.queue = q.clear) : ¬ Work c := by
  rintro (hw | hw)
  · rw [h] at hw; exact hw rfl
  · rw [h] at hw; cases hw

/-- A call that clears leaves the queue or empties it. -/
theorem clearing_work (input : Clearing) (c : Controller) (h : Work (clearing input c)) : Work c := by
  cases input with
  | stop | disconnect => exact absurd h (work_clear rfl)
  | activate env =>
      change Work (c.activate env) at h
      unfold activate at h
      split at h
      · exact h
      · split at h
        · exact h
        · exact absurd h (work_clear rfl)

theorem putQueue_work (input : Time × Event) (c : Controller) : Work c ∨ (c.putQueue input).2 = true := by
  by_cases hf : c.queue.failed = true
  · exact .inl (.inr hf)
  by_cases hi : c.queue.items = []
  · right
    unfold putQueue InputQueue.put
    rw [if_neg hf, hi]
    rfl
  · exact .inl (.inl hi)

theorem senderTurn_wait {env : ControllerEnv} {point : SenderPoint} {c : Controller}
    (h : (c.senderTurn env point).2 = .wait) :
    ¬ Work (c.senderTurn env point).1 := by
  unfold senderTurn at h ⊢
  cases point with
  | popping =>
      dsimp only at h ⊢
      have hc := c.queue.pop_cases env.now
      generalize c.queue.pop env.now = popped at h hc ⊢
      cases hc with
      | failed | expired | item => cases h
      | empty hf hi => simp [Work, hf, hi]
  | popped event => cases h
  | stopping => exact work_clear rfl

theorem bridge_wakes : bridge.Wakes Work := by
  constructor
  · exact fun input c _ => putQueue_work input c
  · exact fun _ _ _ h => h
  · exact clearing_work
  · exact fun _ _ _ h => h
  · exact fun _ _ _ h => senderTurn_wait h

end Controller

/-! ## Both -/

/-- While the writer or the sender waits on a clear event that nobody is about to set, its queue is empty and has not failed;
and the writer passes on a prefix of the frames that were put into its outbox. -/
theorem bridges_sound {α : Type} {capacity : Nat} {c : Controller}
    {actions : List (Wakeup.Action (Time × α) Empty WriterEnv)}
    {steps : List (Wakeup.Action (Time × Event) Clearing ControllerEnv)}
    {s : Wakeup.State (Channel α) Bool (WriterPoint α)} {t : Wakeup.State Controller Bool SenderPoint}
    (hs : Channel.run capacity actions = some s) (ht : c.runBridge steps = some t) :
    ((Channel.bridge α).Asleep s → s.shared.outbox.items = [] ∧ s.shared.outbox.failed = false) ∧
      (Controller.bridge.Asleep t → t.shared.queue.items = [] ∧ t.shared.queue.failed = false) ∧
      s.shared.passed <+: s.shared.given := by
  refine ⟨fun hasleep => ?_, fun hasleep => ?_, ?_⟩
  · have hidle := Channel.bridge_wakes.not_asleep (fun h => by cases h) rfl hs hasleep
    simpa [Channel.Work] using hidle
  · have hidle := Controller.bridge_wakes.not_asleep (fun h => by cases h) rfl ht hasleep
    simpa [Controller.Work] using hidle
  · have hstart : Channel.Ordered (Channel.start α capacity) := ⟨[], rfl, fun _ _ => rfl⟩
    obtain ⟨later, hgiven, -⟩ : Channel.Ordered s := Runs.invariant hstart (fun _ _ _ h hs => h.step hs) hs
    rw [hgiven, List.append_assoc]
    exact List.prefix_append _ _

/-- A frame and an event go through, and then both wait. -/
theorem bridges_sound_waiting :
    ∃ s t, Channel.run 256 [.put (0, 1), .wake 0, .callback, .turn {}, .turn {}, .turn {}, .turn {}, .turn {}] = some s ∧
      Controller.runBridge {} [.start, .put (0, { op := .move }), .wake 0, .callback, .turn { now := 0 }, .turn { now := 0 },
        .turn { now := 0 }, .turn { now := 0 }] = some t ∧
      (s.shared.outbox.items = [] ∧ s.shared.outbox.failed = false) ∧
      (t.shared.queue.items = [] ∧ t.shared.queue.failed = false) ∧ s.shared.passed <+: s.shared.given := by
  have hs : (Channel.run 256 [.put (0, 1), .wake 0, .callback, .turn {}, .turn {}, .turn {}, .turn {}, .turn {}]).map
      (fun s => (s.consumer, s.ready, s.scheduled, s.between)) = some (.waiting, false, 0, []) := by
    decide +kernel
  have ht : (Controller.runBridge {} [.start, .put (0, { op := .move }), .wake 0, .callback, .turn { now := 0 },
      .turn { now := 0 }, .turn { now := 0 }, .turn { now := 0 }]).map
      (fun t => (t.consumer, t.ready, t.scheduled, t.between)) = some (.waiting, false, 0, []) := by
    decide +kernel
  obtain ⟨s, hs, hs'⟩ := Option.map_eq_some_iff.mp hs
  obtain ⟨t, ht, ht'⟩ := Option.map_eq_some_iff.mp ht
  simp only [Prod.mk.injEq] at hs' ht'
  obtain ⟨houtbox, hqueue, hprefix⟩ := bridges_sound hs ht
  refine ⟨s, t, hs, ht, houtbox ?_, hqueue ?_, hprefix⟩
  · exact ⟨hs'.1, hs'.2.1, hs'.2.2.1, by simp [hs'.2.2.2]⟩
  · exact ⟨ht'.1, ht'.2.1, ht'.2.2.1, by simp [ht'.2.2.2]⟩

end RemoteInput
