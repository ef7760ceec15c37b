import Mathlib

/-!
# Sets with an iteration order

A finite set kept as the list of its elements in one order of iteration, without repetition. `add` puts a new
element last and `discard` removes one, so a loop over a snapshot of the set visits every element once.
-/

/-- A finite set together with the order in which a loop visits it. -/
structure PySet (α : Type) where
  elems : List α
  nodup : elems.Nodup
  deriving DecidableEq

namespace PySet

variable {α : Type}

instance : Membership α (PySet α) := ⟨fun s a => a ∈ s.elems⟩

theorem mem_def {s : PySet α} {a : α} : a ∈ s ↔ a ∈ s.elems := Iff.rfl

/-- The set without elements. -/
def empty : PySet α := ⟨[], List.nodup_nil⟩

instance : EmptyCollection (PySet α) := ⟨empty⟩

instance : Inhabited (PySet α) := ⟨∅⟩

@[simp] theorem elems_empty : (∅ : PySet α).elems = [] := rfl

@[simp] theorem notMem_empty (a : α) : a ∉ (∅ : PySet α) := List.not_mem_nil

theorem ext_elems {s t : PySet α} (h : s.elems = t.elems) : s = t := by
  cases s; cases t; cases h; rfl

theorem eq_empty_iff {s : PySet α} : s = ∅ ↔ s.elems = [] :=
  ⟨fun h => by rw [h]; rfl, fun h => ext_elems h⟩

theorem eq_empty_iff_forall {s : PySet α} : s = ∅ ↔ ∀ a, a ∉ s := by
  rw [eq_empty_iff, List.eq_nil_iff_forall_not_mem]; rfl

variable [DecidableEq α]

instance (a : α) (s : PySet α) : Decidable (a ∈ s) := inferInstanceAs (Decidable (a ∈ s.elems))

/-- `s.add(a)`: a new element comes last. -/
def add (s : PySet α) (a : α) : PySet α :=
  if h : a ∈ s.elems then s
  else ⟨s.elems ++ [a], by
    rw [List.nodup_append]
    refine ⟨s.nodup, List.nodup_singleton a, ?_⟩
    rintro x hx y hy rfl
    exact h (List.mem_singleton.mp hy ▸ hx)⟩

/-- `s.discard(a)`: nothing happens when `a` is absent. -/
def discard (s : PySet α) (a : α) : PySet α :=
  ⟨s.elems.filter (· ≠ a), s.nodup.filter _⟩

@[simp] theorem mem_add {s : PySet α} {a b : α} : b ∈ s.add a ↔ b ∈ s ∨ b = a := by
  unfold add
  split
  · rename_i h
    exact ⟨Or.inl, fun hb => hb.elim id (fun e => e ▸ h)⟩
  · simp only [mem_def, List.mem_append, List.mem_singleton]

@[simp] theorem mem_discard {s : PySet α} {a b : α} : b ∈ s.discard a ↔ b ∈ s ∧ b ≠ a := by
  simp [discard, mem_def]

theorem discard_of_notMem {s : PySet α} {a : α} (h : a ∉ s) : s.discard a = s := by
  apply ext_elems
  apply List.filter_eq_self.mpr
  intro x hx
  exact decide_eq_true fun he => h (he ▸ hx)

end PySet
