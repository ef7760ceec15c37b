import RemoteInput.Lib.History

/-!
# Presses and releases

A log of strokes, each of which presses something or releases it.
-/

namespace Strokes

variable {α : Type} {log : List (α × Bool)} {a b : α}

/-- `a` has been pressed and not released since. -/
def Open (log : List (α × Bool)) (a : α) : Prop := ∃ before after, log = before ++ (a, true) :: after ∧ (a, false) ∉ after

/-- Every release is one of something that is open. -/
def Balanced (log : List (α × Bool)) : Prop := Lawful (fun before x => x.2 = false → Open before x.1) log

theorem not_open_nil : ¬ Open [] a := by
  rintro ⟨before, after, he, _⟩
  simp at he

theorem Open.concat (h : Open log a) (hb : b ≠ a) (down : Bool) : Open (log ++ [(b, down)]) a := by
  obtain ⟨before, after, rfl, hno⟩ := h
  refine ⟨before, after ++ [(b, down)], by simp, ?_⟩
  intro hm
  rcases List.mem_append.mp hm with hm | hm
  · exact hno hm
  · cases List.mem_singleton.mp hm
    exact hb rfl

theorem Open.of_concat {down : Bool} (h : Open (log ++ [(b, down)]) a) : Open log a ∨ down = true ∧ a = b := by
  obtain ⟨before, after, he, hno⟩ := h
  rcases List.eq_nil_or_concat after with rfl | ⟨after, x, rfl⟩
  · obtain ⟨_, hx⟩ := List.append_inj' he rfl
    cases hx
    exact .inr ⟨rfl, rfl⟩
  · have he : log ++ [(b, down)] = (before ++ (a, true) :: after) ++ [x] := by simpa using he
    refine .inl ⟨before, after, (List.append_inj' he rfl).1, fun hm => hno ?_⟩
    simp [hm]

theorem open_press : Open (log ++ [(b, true)]) a ↔ Open log a ∨ a = b := by
  constructor
  · intro h
    exact h.of_concat.imp_right And.right
  · rintro (h | rfl)
    · by_cases hb : b = a
      · subst hb; exact ⟨log, [], rfl, by simp⟩
      · exact h.concat hb true
    · exact ⟨log, [], rfl, by simp⟩

theorem open_release : Open (log ++ [(b, false)]) a ↔ Open log a ∧ a ≠ b := by
  constructor
  · intro h
    refine ⟨h.of_concat.resolve_right (by simp), ?_⟩
    rintro rfl
    obtain ⟨before, after, he, hno⟩ := h
    rcases List.eq_nil_or_concat after with rfl | ⟨after, x, rfl⟩
    · obtain ⟨_, hx⟩ := List.append_inj' he rfl
      cases hx
    · have he : log ++ [(a, false)] = (before ++ (a, true) :: after) ++ [x] := by simpa using he
      obtain ⟨_, hx⟩ := List.append_inj' he rfl
      apply hno
      simp [← (List.cons.inj hx).1]
  · rintro ⟨h, hb⟩
    exact h.concat (Ne.symm hb) false

theorem Balanced.press (h : Balanced log) (a : α) : Balanced (log ++ [(a, true)]) :=
  Lawful.concat h (fun hd => by cases hd)

theorem Balanced.release (h : Balanced log) (ha : Open log a) : Balanced (log ++ [(a, false)]) :=
  Lawful.concat h (fun _ => ha)

end Strokes
