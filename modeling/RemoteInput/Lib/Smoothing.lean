import Mathlib

/-!
# Exponential smoothing

A mean of samples and their mean deviation from it, each smoothed with a weight of its own. The deviation follows the error
of the mean, so it may grow while the mean already falls. When the deviation is given `ratio` times the excess of the mean,
both excesses shrink together.
-/

namespace Smoothing

variable {α : Type*} [Field α] [LinearOrder α] [IsStrictOrderedRing α]
  {weight fast ratio old sample mean deviation bound cap excess : α}

/-- The next value of a smoothed quantity. -/
def smooth (weight old sample : α) : α := (1 - weight) * old + weight * sample

theorem smooth_nonneg (hweight : 0 ≤ weight) (hle : weight ≤ 1) (hold : 0 ≤ old) (hsample : 0 ≤ sample) :
    0 ≤ smooth weight old sample :=
  add_nonneg (mul_nonneg (sub_nonneg.mpr hle) hold) (mul_nonneg hweight hsample)

theorem smooth_lt (hweight : 0 < weight) (hle : weight ≤ 1) (hold : old < bound) (hsample : sample < bound) :
    smooth weight old sample < bound := by
  have hfirst : (1 - weight) * old ≤ (1 - weight) * bound := mul_le_mul_of_nonneg_left hold.le (sub_nonneg.mpr hle)
  have hsecond : weight * sample < weight * bound := mul_lt_mul_of_pos_left hsample hweight
  have hsum : (1 - weight) * bound + weight * bound = bound := by ring
  rw [smooth]
  linarith

theorem smooth_le (hweight : 0 ≤ weight) (hle : weight ≤ 1) (hold : old ≤ bound) (hsample : sample ≤ cap) :
    smooth weight old sample ≤ (1 - weight) * bound + weight * cap :=
  add_le_add (mul_le_mul_of_nonneg_left hold (sub_nonneg.mpr hle)) (mul_le_mul_of_nonneg_left hsample hweight)

/-- Two amounts differ by no more than the larger bound. -/
theorem error_le (hold : 0 ≤ old) (hsample : 0 ≤ sample) (hbound : old ≤ bound) (hle : sample ≤ bound) :
    |old - sample| ≤ bound := by
  rw [abs_le]
  constructor <;> linarith

/-- The mean is above `cap` by at most `excess`, and the deviation by at most `ratio` times that. -/
structure Near (ratio cap excess mean deviation : α) : Prop where
  mean : mean ≤ cap + excess
  deviation : deviation ≤ cap + ratio * excess

/-- A sample of at most `cap` shrinks the excess by the weight of the mean. -/
theorem Near.step (h : Near ratio cap excess mean deviation) (hweight : 0 ≤ weight) (hle : weight ≤ 1) (hfast : 0 ≤ fast)
    (hfast_le : fast ≤ 1) (hratio : fast ≤ ratio * (fast - weight)) (hexcess : 0 ≤ excess) (hmean : 0 ≤ mean)
    (hsample : 0 ≤ sample) (hcap : sample ≤ cap) :
    Near ratio cap ((1 - weight) * excess) (smooth weight mean sample) (smooth fast deviation |mean - sample|) := by
  constructor
  · calc
      smooth weight mean sample ≤ (1 - weight) * (cap + excess) + weight * cap := smooth_le hweight hle h.mean hcap
      _ = cap + (1 - weight) * excess := by ring
  · have herror : |mean - sample| ≤ cap + excess :=
      error_le hmean hsample h.mean (hcap.trans (le_add_of_nonneg_right hexcess))
    have hshrink : fast * excess ≤ ratio * (fast - weight) * excess := mul_le_mul_of_nonneg_right hratio hexcess
    calc
      smooth fast deviation |mean - sample| ≤ (1 - fast) * (cap + ratio * excess) + fast * (cap + excess) :=
        smooth_le hfast hfast_le h.deviation herror
      _ = cap + (1 - fast) * ratio * excess + fast * excess := by ring
      _ ≤ cap + (1 - fast) * ratio * excess + ratio * (fast - weight) * excess := add_le_add_right hshrink _
      _ = cap + ratio * ((1 - weight) * excess) := by ring

end Smoothing
