import Mathlib

/-!
# A log cut into segments

Items that stand for the segments of a log, one after the other.
-/

variable {α β γ : Type*} {R S : List α → β → Prop} {log log' segment : List α} {items items' : List β} {x y : β} {a : α}

/-- The items stand for consecutive segments that make up the log. -/
def Segments (R : List α → β → Prop) (log : List α) (items : List β) : Prop :=
  ∃ segments : List (List α), segments.flatten = log ∧ List.Forall₂ R segments items

namespace Segments

theorem nil : Segments R [] [] := ⟨[], rfl, .nil⟩

theorem cons (h : Segments R log items) (hx : R segment x) : Segments R (segment ++ log) (x :: items) := by
  obtain ⟨segments, rfl, hall⟩ := h
  exact ⟨segment :: segments, rfl, .cons hx hall⟩

theorem one (hx : R segment x) : Segments R segment [x] := ⟨[segment], by simp, .cons hx .nil⟩

theorem append (h : Segments R log items) (h' : Segments R log' items') : Segments R (log ++ log') (items ++ items') := by
  obtain ⟨segments, rfl, hall⟩ := h
  obtain ⟨segments', rfl, hall'⟩ := h'
  exact ⟨segments ++ segments', List.flatten_append, List.rel_append hall hall'⟩

theorem concat (h : Segments R log items) (hx : R segment x) : Segments R (log ++ segment) (items ++ [x]) :=
  h.append (one hx)

theorem of_cons (h : Segments R log (x :: items)) :
    ∃ segment rest, log = segment ++ rest ∧ R segment x ∧ Segments R rest items := by
  obtain ⟨segments, rfl, hall⟩ := h
  cases hall with
  | cons hx hrest => exact ⟨_, _, rfl, hx, _, rfl, hrest⟩

theorem of_append (h : Segments R log (items ++ items')) :
    ∃ before after, log = before ++ after ∧ Segments R before items ∧ Segments R after items' := by
  induction items generalizing log with
  | nil => exact ⟨[], log, rfl, nil, h⟩
  | cons x items ih =>
      obtain ⟨segment, rest, rfl, hx, hrest⟩ := of_cons h
      obtain ⟨before, after, rfl, hbefore, hafter⟩ := ih hrest
      exact ⟨segment ++ before, after, (List.append_assoc ..).symm, hbefore.cons hx, hafter⟩

/-- One more entry, taken into the last item. -/
theorem extend (h : Segments R log (items ++ [x])) (hx : ∀ segment, R segment x → R (segment ++ [a]) y) :
    Segments R (log ++ [a]) (items ++ [y]) := by
  obtain ⟨before, after, rfl, hbefore, hafter⟩ := of_append h
  obtain ⟨segment, rest, rfl, hseg, hrest⟩ := of_cons hafter
  obtain ⟨segments, rfl, hall⟩ := hrest
  cases hall
  rw [List.flatten_nil, List.append_nil, List.append_assoc]
  exact hbefore.concat (hx segment hseg)

/-- The relation may be weakened where the segment is a part of the log. -/
theorem imp (h : Segments R log items) (hS : ∀ segment x, segment.Sublist log → R segment x → S segment x) :
    Segments S log items := by
  obtain ⟨segments, rfl, hall⟩ := h
  refine ⟨segments, rfl, ?_⟩
  induction hall with
  | nil => exact .nil
  | @cons segment x segments items hx _ ih =>
      refine .cons (hS _ _ (List.sublist_append_left ..) hx) (ih fun segment x hs => hS segment x ?_)
      exact hs.trans (List.sublist_append_right ..)

theorem map {T : List γ → β → Prop} (f : α → γ) (h : Segments R log items)
    (hT : ∀ segment x, R segment x → T (segment.map f) x) :
    Segments T (log.map f) items := by
  obtain ⟨segments, rfl, hall⟩ := h
  refine ⟨segments.map (List.map f), List.map_flatten.symm, ?_⟩
  exact List.forall₂_map_left_iff.mpr (hall.imp fun segment x => hT segment x)

theorem map_items {δ : Type*} {T : List α → δ → Prop} (f : β → δ) (h : Segments R log items)
    (hT : ∀ segment x, R segment x → T segment (f x)) : Segments T log (items.map f) := by
  obtain ⟨segments, rfl, hall⟩ := h
  exact ⟨segments, rfl, List.forall₂_map_right_iff.mpr (hall.imp fun segment x => hT segment x)⟩

end Segments
