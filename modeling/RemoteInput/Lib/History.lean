import Mathlib

/-!
# Histories

A list of events in the order in which they happened, where each event must be allowed by those before it.
-/

variable {α : Type} {R : List α → α → Prop} {l l' : List α} {x : α}

/-- Every entry is allowed after the entries before it. -/
def Lawful (R : List α → α → Prop) (l : List α) : Prop := ∀ before x after, l = before ++ x :: after → R before x

theorem lawful_nil : Lawful R [] := by
  intro before x after h
  simp at h

theorem Lawful.concat (h : Lawful R l) (hx : R l x) : Lawful R (l ++ [x]) := by
  intro before y after hs
  rcases List.eq_nil_or_concat after with rfl | ⟨after', z, rfl⟩
  · obtain ⟨rfl, hy⟩ := List.append_inj' hs rfl
    cases hy; exact hx
  · have hs : l ++ [x] = (before ++ y :: after') ++ [z] := by simpa using hs
    exact h before y after' (List.append_inj' hs rfl).1
