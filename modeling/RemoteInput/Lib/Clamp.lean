import Mathlib

/-!
# Nearest points of intervals and of unions
-/

namespace Clamp

/-! ## Intervals -/

section Interval

variable {α : Type*} [LinearOrder α] {lo hi v w : α}

/-- The point of the interval that is nearest to `v`, when the interval has one. -/
def clamp (lo hi v : α) : α := min (max v lo) hi

theorem clamp_mem (h : lo ≤ hi) (v : α) : clamp lo hi v ∈ Set.Icc lo hi := ⟨le_min (le_max_right v lo) h, min_le_right _ _⟩

theorem clamp_of_le (hv : v ≤ lo) (h : lo ≤ hi) : clamp lo hi v = lo := by
  rw [clamp, max_eq_right hv, min_eq_left h]

theorem clamp_of_mem (hv : v ∈ Set.Icc lo hi) : clamp lo hi v = v := by
  rw [clamp, max_eq_left hv.1, min_eq_left hv.2]

theorem clamp_of_ge (hv : hi ≤ v) : clamp lo hi v = hi := by
  rw [clamp, min_eq_right (hv.trans (le_max_left v lo))]

/-- No point of the interval is closer. -/
theorem clamp_sq_le [CommRing α] [IsStrictOrderedRing α] (hw : w ∈ Set.Icc lo hi) (v : α) :
    (clamp lo hi v - v) ^ 2 ≤ (w - v) ^ 2 := by
  rcases le_total v lo with hlo | hlo
  · rw [clamp_of_le hlo (hw.1.trans hw.2)]
    exact pow_le_pow_left₀ (sub_nonneg.mpr hlo) (sub_le_sub_right hw.1 v) 2
  rcases le_total v hi with hhi | hhi
  · rw [clamp_of_mem ⟨hlo, hhi⟩, sub_self, zero_pow two_ne_zero]
    exact sq_nonneg _
  · rw [clamp_of_ge hhi, sub_sq_comm hi v, sub_sq_comm w v]
    exact pow_le_pow_left₀ (sub_nonneg.mpr hhi) (sub_le_sub_left hw.2 v) 2

end Interval

/-! ## Unions -/

/-- Of the least points of several regions, the least is the least of all. -/
theorem isMinOn_biUnion {ι β γ : Type*} [Preorder γ] {cost : β → γ} {indices : List ι} {region : ι → Set β} {best : ι → β}
    {chosen : β} (hbest : ∀ i ∈ indices, IsMinOn cost (region i) (best i))
    (hchosen : ∀ i ∈ indices, cost chosen ≤ cost (best i)) : IsMinOn cost (⋃ i ∈ indices, region i) chosen := by
  intro w hw
  obtain ⟨i, hi, hw⟩ := Set.mem_iUnion₂.mp hw
  exact (hchosen i hi).trans (hbest i hi hw)

end Clamp
