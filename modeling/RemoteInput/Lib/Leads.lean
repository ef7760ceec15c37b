import RemoteInput.Lib.Runs

/-!
# What a system can reach by itself

From a state some actions of a kind, at most so many, lead to a state of another kind. What the system can always do by
itself without its surroundings is said with actions that are its own.
-/

namespace Runs

variable {σ α : Type*} {step : σ → α → Option σ} {own : α → Prop} {n m : Nat} {s t : σ} {a : α} {P Q : σ → Prop}

/-- At most `n` actions of the kind `own` lead from `s` to a state with `Q`. -/
def Leads (step : σ → α → Option σ) (own : α → Prop) (n : Nat) (s : σ) (Q : σ → Prop) : Prop :=
  ∃ actions, actions.length ≤ n ∧ (∀ a ∈ actions, own a) ∧ ∃ t, exec step s actions = some t ∧ Q t

namespace Leads

theorem here (h : Q s) : Leads step own n s Q := ⟨[], Nat.zero_le n, by simp, s, rfl, h⟩

theorem cons (ha : own a) (hs : step s a = some t) (h : Leads step own n t Q) : Leads step own (n + 1) s Q := by
  obtain ⟨actions, hn, hown, u, hu, hQ⟩ := h
  refine ⟨a :: actions, by simpa using hn, ?_, u, ?_, hQ⟩
  · intro b hb
    rcases List.mem_cons.mp hb with rfl | hb
    · exact ha
    · exact hown b hb
  · rw [exec, hs]
    exact hu

theorem mono (h : Leads step own n s P) (hn : n ≤ m) (hQ : ∀ t, P t → Q t) : Leads step own m s Q := by
  obtain ⟨actions, hl, hown, t, ht, hP⟩ := h
  exact ⟨actions, hl.trans hn, hown, t, ht, hQ t hP⟩

theorem trans (h : Leads step own n s P) (hnext : ∀ t, P t → Leads step own m t Q) : Leads step own (n + m) s Q := by
  obtain ⟨actions, hl, hown, t, ht, hP⟩ := h
  obtain ⟨more, hl', hown', u, hu, hQ⟩ := hnext t hP
  refine ⟨actions ++ more, by simpa using Nat.add_le_add hl hl', ?_, u, ?_, hQ⟩
  · intro a ha
    exact (List.mem_append.mp ha).elim (hown a) (hown' a)
  · rw [exec_append, ht]
    exact hu

end Leads

end Runs
