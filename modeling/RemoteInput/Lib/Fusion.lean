import RemoteInput.Lib.Segments

/-!
# Fusing adjacent items

A partial operation fuses two adjacent items of a list into one. When it associates, items that were fused on the way may be
fused again, and the result is still a fusion of the first list.
-/

variable {α : Type*} {join : α → α → Option α} {log log' items items' : List α} {x y z : α}

/-- The items of the list are fused into one, from left to right. -/
inductive Fuses (join : α → α → Option α) : List α → α → Prop where
  | one (x : α) : Fuses join [x] x
  | more {xs : List α} {x y z : α} (h : Fuses join xs x) (hz : join x y = some z) : Fuses join (xs ++ [y]) z

/-- What is fused from the right can be fused from the left. -/
def Regroups (join : α → α → Option α) : Prop :=
  ∀ x y z u v, join y z = some u → join x u = some v → ∃ w, join x y = some w ∧ join w z = some v

namespace Fuses

theorem append (ha : Regroups join) (h : Fuses join log x) (h' : Fuses join log' y) (hz : join x y = some z) :
    Fuses join (log ++ log') z := by
  induction h' generalizing z with
  | one y => exact h.more hz
  | more _ hy ih =>
      obtain ⟨w, hw, hz⟩ := ha _ _ _ _ _ hy hz
      rw [← List.append_assoc]
      exact (ih hw).more hz

theorem trans (ha : Regroups join) (h : Segments (Fuses join) log items) (h' : Fuses join items x) : Fuses join log x := by
  induction h' generalizing log with
  | one x =>
      obtain ⟨segment, rest, rfl, hs, hrest⟩ := h.of_cons
      obtain ⟨segments, rfl, hall⟩ := hrest
      cases hall
      simpa using hs
  | more _ hz ih =>
      obtain ⟨before, after, rfl, hbefore, hafter⟩ := h.of_append
      obtain ⟨segment, rest, rfl, hs, hrest⟩ := hafter.of_cons
      obtain ⟨segments, rfl, hall⟩ := hrest
      cases hall
      simpa using (ih hbefore).append ha hs hz

end Fuses

namespace Segments

/-- A fusion of a fusion. -/
theorem fuse (ha : Regroups join) (h : Segments (Fuses join) log items) (h' : Segments (Fuses join) items items') :
    Segments (Fuses join) log items' := by
  obtain ⟨segments, rfl, hall⟩ := h'
  induction hall generalizing log with
  | nil => exact h
  | cons hx _ ih =>
      rw [List.flatten_cons] at h
      obtain ⟨before, after, rfl, hbefore, hafter⟩ := h.of_append
      exact (ih hafter).cons (hx.trans ha hbefore)

/-- The last two items are fused. -/
theorem fuse_last (ha : Regroups join) (h : Segments (Fuses join) log (items ++ [x] ++ [y])) (hz : join x y = some z) :
    Segments (Fuses join) log (items ++ [z]) := by
  obtain ⟨before, last, rfl, hbefore, hlast⟩ := h.of_append
  obtain ⟨first, middle, rfl, hfirst, hmiddle⟩ := hbefore.of_append
  rw [List.append_assoc]
  refine hfirst.append (.one ?_)
  exact Fuses.trans ha (hmiddle.append hlast) (.more (.one x) hz)

/-- The first items stand for the beginning of the log. -/
theorem of_prefix {β : Type*} {R : List α → β → Prop} {items items' : List β} (h : Segments R log items)
    (hp : items' <+: items) : ∃ taken, taken <+: log ∧ Segments R taken items' := by
  obtain ⟨rest, rfl⟩ := hp
  obtain ⟨before, after, rfl, hbefore, _⟩ := h.of_append
  exact ⟨before, List.prefix_append _ _, hbefore⟩

/-- Nothing is fused. -/
theorem fuse_refl (join : α → α → Option α) (items : List α) : Segments (Fuses join) items items := by
  induction items with
  | nil => exact .nil
  | cons x items ih => exact ih.cons (.one x)

end Segments
