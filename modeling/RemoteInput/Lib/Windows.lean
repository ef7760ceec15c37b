import Mathlib

/-!
# Sliding windows

Moments in the order of time, of which no window of a given length holds more than some number. A window is half open: it
ends at a moment, and a moment exactly one length before its end is outside.
-/

namespace Windows

variable {τ : Type*} [AddCommGroup τ] [LinearOrder τ] {span now last : τ} {times : List τ} {limit : Nat}

/-- The moments in the window that ends at `last`. -/
def within (span last : τ) (times : List τ) : List τ := times.filter fun t => last - span < t ∧ t ≤ last

/-- No window holds more than `limit` moments. -/
def Bounded (span : τ) (limit : Nat) (times : List τ) : Prop := ∀ last, (within span last times).length ≤ limit

theorem Bounded.nil : Bounded span limit [] := by
  intro last
  simp [within]

/-- The moments that still count at `now`. -/
def recent (span now : τ) (times : List τ) : List τ := times.filter fun t => now - span < t

/-- What is in a later window and came before counts. -/
theorem within_le_recent [IsOrderedAddMonoid τ] (span : τ) (times : List τ) (hle : now ≤ last) :
    (within span last times).length ≤ (recent span now times).length := by
  refine (List.monotone_filter_right times fun t ht => ?_).length_le
  rw [decide_eq_true_eq] at ht ⊢
  exact lt_of_le_of_lt (sub_le_sub_right hle span) ht.1

/-- A further moment, when fewer than `limit` still count. -/
theorem Bounded.concat [IsOrderedAddMonoid τ] (h : Bounded span limit times)
    (hlen : (recent span now times).length < limit) : Bounded span limit (times ++ [now]) := by
  intro last
  have happ : within span last (times ++ [now]) = within span last times ++ within span last [now] := List.filter_append ..
  by_cases hin : last - span < now ∧ now ≤ last
  · have hone : within span last [now] = [now] := by rw [within, List.filter_singleton, decide_eq_true hin, cond_true]
    have := within_le_recent span times hin.2
    rw [happ, hone, List.length_append, List.length_singleton]
    omega
  · have hnone : within span last [now] = [] := by rw [within, List.filter_singleton, decide_eq_false hin, cond_false]
    rw [happ, hnone, List.append_nil]
    exact h last

/-! ## Forgetting what no longer counts -/

/-- In the order of time, the moments that count are what is left after the first ones that do not. -/
theorem dropWhile_recent (h : times.Pairwise (· ≤ ·)) :
    times.dropWhile (fun t => t ≤ now - span) = recent span now times := by
  induction times with
  | nil => rfl
  | cons t times ih =>
      obtain ⟨hle, htail⟩ := List.pairwise_cons.mp h
      by_cases ht : t ≤ now - span
      · rw [List.dropWhile_cons_of_pos (by simpa using ht), ih htail, recent, recent,
          List.filter_cons_of_neg (by simpa using ht)]
      · have hall : ∀ u ∈ t :: times, now - span < u := by
          intro u hu
          rcases List.mem_cons.mp hu with rfl | hu
          · exact not_le.mp ht
          · exact lt_of_lt_of_le (not_le.mp ht) (hle u hu)
        rw [List.dropWhile_cons_of_neg (by simpa using ht), recent, List.filter_eq_self.mpr]
        intro u hu
        simpa using hall u hu

theorem recent_append (old : List τ) (h : ∀ t ∈ old, t ≤ now - span) :
    recent span now (old ++ times) = recent span now times := by
  rw [recent, List.filter_append, List.filter_eq_nil_iff.mpr, List.nil_append]
  · rfl
  · intro t ht
    simpa using h t ht

end Windows
