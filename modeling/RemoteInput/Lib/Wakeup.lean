import RemoteInput.Lib.Runs

/-!
# Waking a consumer

Producers change what is shared in a locked section and then may schedule a wakeup. The consumer clears its event, drains
what is shared, and waits for the event once nothing is left. Neither order is enforced: any number of producers can be
between their section and their wakeup, and others may take away what the consumer has not yet seen.
-/

namespace Wakeup

/-- Where the consumer goes after a step of draining. -/
inductive Turn (κ : Type*) where
  | next (point : κ)
  | wait
  | stop

/-- Where the consumer stands. `clearing` is before it clears the event, and an ended one has returned, raised or was
cancelled. -/
inductive Consumer (κ : Type*) where
  | ended
  | clearing
  | draining (point : κ)
  | waiting
  deriving DecidableEq

def Consumer.hasEnded {κ : Type*} : Consumer κ → Bool
  | .ended => true
  | _ => false

/-- What producers, others and the consumer do to `σ`. A producer keeps `ω` from its section for its wakeup. -/
structure Bridge (σ π ω γ κ χ : Type*) where
  /-- The locked section. -/
  put : π → σ → σ × ω
  /-- Whether a producer wakes the consumer. -/
  wakes : σ → ω → Bool
  /-- The other steps on what is shared. -/
  other : γ → σ → σ
  first : κ
  drain : χ → κ → σ → σ × Turn κ
  /-- A consumer that has ended may be started again. -/
  restarts : Bool

/-- `scheduled` counts the callbacks that will set the event. -/
structure State (σ ω κ : Type*) where
  shared : σ
  ready : Bool := false
  scheduled : Nat := 0
  between : List ω := []
  consumer : Consumer κ
  closed : Bool := false

inductive Action (π γ χ : Type*) where
  | put (input : π)
  | wake (producer : Nat)
  | other (input : γ)
  | callback
  | start
  | turn (input : χ)
  | cancel
  | close

variable {σ π ω γ κ χ : Type*} {B : Bridge σ π ω γ κ χ} {s s' : State σ ω κ} {action : Action π γ χ} {work : σ → Prop}

/-- One step of the consumer. Only it clears the event, so an event that is set stays set until it resumes. -/
def Bridge.turn (B : Bridge σ π ω γ κ χ) (input : χ) (s : State σ ω κ) : Option (State σ ω κ) :=
  match s.consumer with
  | .ended => none
  | .clearing => some { s with ready := false, consumer := .draining B.first }
  | .draining point =>
      let (shared, turn) := B.drain input point s.shared
      some { s with shared := shared, consumer := match turn with
        | .next point => .draining point
        | .wait => .waiting
        | .stop => .ended }
  | .waiting => if s.ready then some { s with consumer := .clearing } else none

/-- One step; `none` when it cannot be taken. The loop closes after its tasks have ended, and a wakeup of a closed loop
raises. -/
def Bridge.step (B : Bridge σ π ω γ κ χ) (s : State σ ω κ) : Action π γ χ → Option (State σ ω κ)
  | .put input =>
      let (shared, kept) := B.put input s.shared
      some { s with shared := shared, between := s.between ++ [kept] }
  | .wake producer =>
      s.between[producer]?.map fun kept =>
        { s with between := s.between.eraseIdx producer,
                 scheduled := if B.wakes s.shared kept ∧ s.closed = false then s.scheduled + 1 else s.scheduled }
  | .other input => some { s with shared := B.other input s.shared }
  | .callback => if s.scheduled = 0 ∨ s.closed then none else some { s with scheduled := s.scheduled - 1, ready := true }
  | .start => if B.restarts ∧ s.consumer.hasEnded ∧ s.closed = false then some { s with consumer := .clearing } else none
  | .turn input => B.turn input s
  | .cancel => some { s with consumer := .ended }
  | .close => if s.consumer.hasEnded then some { s with closed := true } else none

/-- What a bridge needs for its wakeups to be enough: `work` is what the consumer must not sleep over. -/
structure Bridge.Wakes (B : Bridge σ π ω γ κ χ) (work : σ → Prop) : Prop where
  /-- A producer that brings work wakes. -/
  put : ∀ input s, work (B.put input s).1 → work s ∨ B.wakes (B.put input s).1 (B.put input s).2 = true
  put_kept : ∀ input s kept, B.wakes s kept = true → B.wakes (B.put input s).1 kept = true
  /-- Others bring no work. -/
  other : ∀ input s, work (B.other input s) → work s
  other_kept : ∀ input s kept, B.wakes s kept = true → B.wakes (B.other input s) kept = true
  /-- The consumer waits when there is none. -/
  wait : ∀ input point s, (B.drain input point s).2 = .wait → ¬ work (B.drain input point s).1

/-- The consumer waits on a clear event that nobody is about to set. -/
structure Bridge.Asleep (B : Bridge σ π ω γ κ χ) (s : State σ ω κ) : Prop where
  waiting : s.consumer = .waiting
  clear : s.ready = false
  unscheduled : s.scheduled = 0
  unwoken : ∀ kept ∈ s.between, B.wakes s.shared kept = false

/-- A consumer that waits while there is work is about to be woken. -/
structure Bridge.Awake (B : Bridge σ π ω γ κ χ) (work : σ → Prop) (s : State σ ω κ) : Prop where
  woken : work s.shared → s.consumer = .waiting →
    s.ready = true ∨ 0 < s.scheduled ∨ ∃ kept ∈ s.between, B.wakes s.shared kept = true
  ended : s.closed = true → s.consumer = .ended

theorem Bridge.Awake.not_asleep (h : B.Awake work s) (hs : B.Asleep s) : ¬ work s.shared := by
  intro hw
  rcases h.woken hw hs.waiting with hr | hc | ⟨kept, hk, hwakes⟩
  · rw [hs.clear] at hr; cases hr
  · exact absurd hs.unscheduled (Nat.ne_of_gt hc)
  · rw [hs.unwoken kept hk] at hwakes; cases hwakes

/-- A producer that wakes is about to wake, or it has scheduled the wakeup. -/
theorem Bridge.wake_kept {producer : Nat} {kept : ω} (hp : s.between[producer]? = some kept) (hopen : s.closed = false)
    (h : ∃ kept ∈ s.between, B.wakes s.shared kept = true) :
    0 < (if B.wakes s.shared kept ∧ s.closed = false then s.scheduled + 1 else s.scheduled) ∨
      ∃ kept ∈ s.between.eraseIdx producer, B.wakes s.shared kept = true := by
  obtain ⟨other, hother, hwakes⟩ := h
  obtain ⟨i, hi⟩ := List.mem_iff_getElem?.mp hother
  by_cases he : i = producer
  · obtain rfl : kept = other := by rw [he, hp] at hi; exact Option.some.inj hi
    left
    rw [if_pos ⟨hwakes, hopen⟩]
    exact Nat.succ_pos _
  · exact .inr ⟨other, List.mem_eraseIdx_iff_getElem?.mpr ⟨i, he, hi⟩, hwakes⟩

theorem Bridge.Awake.turn (h : B.Awake work s) (hB : B.Wakes work) {input : χ} (hs : B.turn input s = some s') :
    B.Awake work s' := by
  unfold Bridge.turn at hs
  cases hc : s.consumer with
  | ended => simp [hc] at hs
  | clearing =>
      simp only [hc, Option.some.injEq] at hs
      subst hs
      exact ⟨fun _ hw => (by cases hw), fun hcl => by rw [h.ended hcl] at hc; cases hc⟩
  | draining point =>
      simp only [hc, Option.some.injEq] at hs
      subst hs
      refine ⟨fun hw hwait => ?_, fun hcl => by rw [h.ended hcl] at hc; cases hc⟩
      cases ht : (B.drain input point s.shared).2 with
      | wait => exact absurd hw (hB.wait input point s.shared ht)
      | next | stop => simp [ht] at hwait
  | waiting =>
      rw [hc] at hs
      dsimp only at hs
      split at hs <;> cases hs
      exact ⟨fun _ hw => (by cases hw), fun hcl => by rw [h.ended hcl] at hc; cases hc⟩

theorem Bridge.Awake.step (h : B.Awake work s) (hB : B.Wakes work) (hs : B.step s action = some s') : B.Awake work s' := by
  cases action with
  | put input =>
      cases hs
      refine ⟨fun hw hwait => ?_, h.ended⟩
      rcases hB.put input s.shared hw with hold | hnew
      · refine (h.woken hold hwait).imp_right (Or.imp_right ?_)
        rintro ⟨kept, hk, hwakes⟩
        exact ⟨kept, List.mem_append_left _ hk, hB.put_kept input s.shared kept hwakes⟩
      · exact .inr (.inr ⟨_, List.mem_append_right _ (List.mem_singleton_self _), hnew⟩)
  | wake producer =>
      obtain ⟨kept, hp, rfl⟩ := Option.map_eq_some_iff.mp hs
      refine ⟨fun hw hwait => ?_, h.ended⟩
      have hopen : s.closed = false := by
        cases hcl : s.closed with
        | false => rfl
        | true => rw [h.ended hcl] at hwait; cases hwait
      rcases h.woken hw hwait with hr | hc | hk
      · exact .inl hr
      · refine .inr (.inl ?_)
        dsimp only
        split <;> omega
      · exact .inr (Bridge.wake_kept hp hopen hk)
  | other input =>
      cases hs
      refine ⟨fun hw hwait => ?_, h.ended⟩
      refine (h.woken (hB.other input s.shared hw) hwait).imp_right (Or.imp_right ?_)
      rintro ⟨kept, hk, hwakes⟩
      exact ⟨kept, hk, hB.other_kept input s.shared kept hwakes⟩
  | callback =>
      unfold Bridge.step at hs
      dsimp only at hs
      split at hs <;> cases hs
      exact ⟨fun _ _ => .inl rfl, h.ended⟩
  | start =>
      unfold Bridge.step at hs
      dsimp only at hs
      split at hs <;> cases hs
      rename_i hstart
      exact ⟨fun _ hw => (by cases hw), fun hcl => by rw [hstart.2.2] at hcl; cases hcl⟩
  | turn input => exact h.turn hB hs
  | cancel =>
      cases hs
      exact ⟨fun _ hw => (by cases hw), fun _ => rfl⟩
  | close =>
      unfold Bridge.step at hs
      dsimp only at hs
      split at hs
      · rename_i hended
        cases hs
        have he : s.consumer = .ended := by
          cases hc : s.consumer <;> simp [hc, Consumer.hasEnded] at hended ⊢
        exact ⟨fun _ hw => (by rw [he] at hw; cases hw), fun _ => he⟩
      · cases hs

/-- In no run does the consumer sleep over work. -/
theorem Bridge.Wakes.not_asleep (hB : B.Wakes work) {start : State σ ω κ} {actions : List (Action π γ χ)}
    (hstart : start.consumer ≠ .waiting) (hopen : start.closed = false) (hs : Runs.exec B.step start actions = some s)
    (hasleep : B.Asleep s) : ¬ work s.shared := by
  have h0 : B.Awake work start := ⟨fun _ hw => absurd hw hstart, fun hcl => by rw [hopen] at hcl; cases hcl⟩
  have h : B.Awake work s := Runs.invariant h0 (fun _ _ _ h hs => h.step hB hs) hs
  exact h.not_asleep hasleep

end Wakeup
