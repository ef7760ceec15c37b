import Mathlib

/-!
# Runs of a partial step function

The state after a list of actions, where an action may be impossible. A condition on steps holds along a run when it holds of
every action and the state before it.
-/

namespace Runs

variable {σ α : Type*} {step : σ → α → Option σ} {s s' : σ} {a : α} {actions more : List α}

/-- The state after the actions. -/
def exec (step : σ → α → Option σ) : σ → List α → Option σ
  | s, [] => some s
  | s, a :: actions => (step s a).bind fun s => exec step s actions

theorem exec_append (s : σ) (actions more : List α) :
    exec step s (actions ++ more) = (exec step s actions).bind fun s => exec step s more := by
  induction actions generalizing s with
  | nil => rfl
  | cons a actions ih =>
      show (step s a).bind _ = ((step s a).bind _).bind _
      rw [Option.bind_assoc]
      exact congrArg _ (funext ih)

/-- The state before the last action. -/
theorem exec_concat : exec step s (actions ++ [a]) = some s' ↔ ∃ t, exec step s actions = some t ∧ step t a = some s' := by
  rw [exec_append, Option.bind_eq_some_iff]
  simp [exec]

/-- `P` holds of every action of the run from `s` and the state before it. -/
def Before (step : σ → α → Option σ) (s : σ) (P : σ → α → Prop) (actions : List α) : Prop :=
  ∀ before a after t, actions = before ++ a :: after → exec step s before = some t → P t a

variable {P Q : σ → α → Prop} {I : σ → Prop}

theorem Before.left (h : Before step s P (actions ++ more)) : Before step s P actions := by
  intro before a after t he
  refine h before a (after ++ more) t ?_
  rw [he, List.append_assoc, List.cons_append]

theorem Before.last (h : Before step s P (actions ++ [a])) {t : σ} (ht : exec step s actions = some t) : P t a :=
  h actions a [] t rfl ht

/-- What every step that meets the condition keeps holds after a run. -/
theorem Before.invariant (h : Before step s P actions) (h0 : I s)
    (hstep : ∀ t a t', I t → P t a → step t a = some t' → I t') (hs : exec step s actions = some s') : I s' := by
  induction actions using List.reverseRecOn generalizing s' with
  | nil => cases hs; exact h0
  | append_singleton actions a ih =>
      obtain ⟨t, ht, hs⟩ := exec_concat.mp hs
      exact hstep t a s' (ih h.left ht) (h.last ht) hs

/-- What every step keeps holds after a run. -/
theorem invariant (h0 : I s) (hstep : ∀ t a t', I t → step t a = some t' → I t') (hs : exec step s actions = some s') :
    I s' :=
  Before.invariant (P := fun _ _ => True) (fun _ _ _ _ _ _ => trivial) h0 (fun t a t' h _ => hstep t a t' h) hs

/-! ## Conditions on steps that can be evaluated -/

theorem before_nil : Before step s P [] := by
  intro before a after t he
  simp at he

theorem before_cons : Before step s P (a :: actions) ↔ P s a ∧ ∀ t, step s a = some t → Before step t P actions := by
  constructor
  · intro h
    refine ⟨h [] a actions s rfl rfl, fun t ht before b after u he hu => ?_⟩
    refine h (a :: before) b after u (by rw [he, List.cons_append]) ?_
    rw [exec, ht]; exact hu
  · rintro ⟨ha, h⟩ before b after u he hu
    cases before with
    | nil => cases he; cases hu; exact ha
    | cons c before =>
        obtain ⟨rfl, he'⟩ := List.cons.inj he
        obtain ⟨t, ht, hu⟩ := Option.bind_eq_some_iff.mp hu
        exact h t ht before b after u he' hu

theorem before_append :
    Before step s P (actions ++ more) ↔ Before step s P actions ∧ ∀ t, exec step s actions = some t →
    Before step t P more := by
  induction actions generalizing s with
  | nil => simp [before_nil, exec]
  | cons a actions ih =>
      rw [List.cons_append, before_cons, before_cons, and_assoc]
      refine and_congr_right fun _ => ⟨fun h => ⟨fun t ht => (ih.mp (h t ht)).1, fun u hu => ?_⟩, fun h t ht => ?_⟩
      · obtain ⟨t, ht, hu⟩ := Option.bind_eq_some_iff.mp hu
        exact (ih.mp (h t ht)).2 u hu
      · refine ih.mpr ⟨h.1 t ht, fun u hu => h.2 u ?_⟩
        rw [exec, ht]; exact hu

theorem before_of_forall (h : ∀ a ∈ actions, ∀ s, P s a) : Before step s P actions := by
  intro before a after t he _
  exact h a (by simp [he]) t

/-- The condition evaluated along the run. -/
def check (step : σ → α → Option σ) (P : σ → α → Prop) [∀ s a, Decidable (P s a)] : σ → List α → Bool
  | _, [] => true
  | s, a :: actions => decide (P s a) && (step s a).all fun t => check step P t actions

theorem check_iff [∀ s a, Decidable (P s a)] : check step P s actions = true ↔ Before step s P actions := by
  induction actions generalizing s with
  | nil => exact ⟨fun _ => before_nil, fun _ => rfl⟩
  | cons a actions ih =>
      rw [before_cons, check, Bool.and_eq_true, decide_eq_true_iff, Option.all_eq_true]
      exact and_congr_right fun _ => forall_congr' fun t => imp_congr_right fun _ => ih

instance [∀ s a, Decidable (P s a)] : Decidable (Before step s P actions) := decidable_of_iff _ check_iff

end Runs
