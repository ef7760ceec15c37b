import RemoteInput.Lib.Smoothing
import RemoteInput.Wire.Timing

/-!
# The estimate of the network recovers

`observe` smooths the round trip with weight 1/8 and its variation with 1/4, so the variation may exceed what the samples
allow by twice as much as the round trip does.
-/

namespace RemoteInput

open Smoothing

namespace NetworkTiming

variable {n : NetworkTiming} {seconds cap excess : Time} {samples : List (Option Time)}

/-- A sample that is used lies in the range, and smooths the estimate or starts it. -/
theorem observe_cases (n : NetworkTiming) (seconds : Time) :
    n.observe seconds = (n, false) ∨
      (0 ≤ seconds ∧ seconds < networkTimeoutMax) ∧
        ((n.rtt = none ∧ n.observe seconds = ({ rtt := some seconds, variation := seconds / 2 }, true)) ∨
          ∃ rtt, n.rtt = some rtt ∧ n.observe seconds =
            ({ rtt := some (smooth (1 / 8) rtt seconds), variation := smooth (1 / 4) n.variation |rtt - seconds| },
              true)) := by
  unfold observe
  split
  · exact .inl rfl
  · rename_i hrange
    refine .inr ⟨not_not.mp hrange, ?_⟩
    cases hrtt : n.rtt with
    | none => exact .inl ⟨rfl, rfl⟩
    | some rtt =>
        refine .inr ⟨rtt, rfl, ?_⟩
        have hmean : 7 / 8 * rtt + 1 / 8 * seconds = smooth (1 / 8) rtt seconds := by rw [smooth]; ring
        have hvariation : 3 / 4 * n.variation + 1 / 4 * |rtt - seconds| = smooth (1 / 4) n.variation |rtt - seconds| := by
          rw [smooth]; ring
        rw [← hmean, ← hvariation]

/-! ## The range of the estimate -/

/-- What holds in every state that measurements reach. -/
structure Ranged (n : NetworkTiming) : Prop where
  rtt : ∀ rtt ∈ n.rtt, 0 ≤ rtt ∧ rtt < networkTimeoutMax
  variation : 0 ≤ n.variation ∧ n.variation < networkTimeoutMax

theorem Ranged.start : Ranged {} := ⟨by simp, le_rfl, by norm_num [networkTimeoutMax]⟩

theorem Ranged.observe (h : Ranged n) (seconds : Time) : Ranged (n.observe seconds).1 := by
  rcases n.observe_cases seconds with he | ⟨⟨hzero, hmax⟩, ⟨-, he⟩ | ⟨rtt, hrtt, he⟩⟩
  · rw [he]
    exact h
  · rw [he]
    have hhalf : seconds / 2 < networkTimeoutMax := by linarith
    exact ⟨by simp [hzero, hmax], by positivity, hhalf⟩
  · rw [he]
    obtain ⟨hrtt_zero, hrtt_max⟩ := h.rtt rtt hrtt
    have herror : |rtt - seconds| < networkTimeoutMax := by
      rw [abs_lt]
      constructor <;> linarith
    constructor
    · rintro _ ⟨⟩
      exact ⟨smooth_nonneg (by norm_num) (by norm_num) hrtt_zero hzero, smooth_lt (by norm_num) (by norm_num) hrtt_max hmax⟩
    · exact ⟨smooth_nonneg (by norm_num) (by norm_num) h.variation.1 (abs_nonneg _),
        smooth_lt (by norm_num) (by norm_num) h.variation.2 herror⟩

theorem Ranged.observeFloat (h : Ranged n) (sample : Option Time) : Ranged (n.observeFloat sample).1 := by
  cases sample with
  | none => exact h
  | some seconds => exact h.observe seconds

theorem observeFloat_refused {sample : Option Time} (h : (n.observeFloat sample).2 = false) :
    (n.observeFloat sample).1 = n := by
  cases sample with
  | none => rfl
  | some seconds =>
      rw [observeFloat, Option.elim_some] at h ⊢
      rcases n.observe_cases seconds with he | ⟨-, ⟨-, he⟩ | ⟨rtt, -, he⟩⟩
      · rw [he]
      · rw [he] at h
        cases h
      · rw [he] at h
        cases h

theorem Ranged.run (h : Ranged n) (samples : List (Option Time)) : Ranged (n.run samples).1 := by
  induction samples generalizing n with
  | nil => exact h
  | cons sample samples ih => exact ih (h.observeFloat sample)

/-! ## What low samples do -/

/-- The excess over the samples after some number of them, from any state in the range. -/
def excessAfter (count : Nat) : Time := networkTimeoutMax * (7 / 8) ^ count

theorem excessAfter_succ (count : Nat) : excessAfter (count + 1) = (1 - 1 / 8) * excessAfter count := by
  rw [excessAfter, excessAfter, pow_succ]
  ring

/-- The estimate is near the cap of the samples. -/
def Settling (cap excess : Time) (n : NetworkTiming) : Prop := ∀ rtt ∈ n.rtt, Near 2 cap excess rtt n.variation

theorem Ranged.settling (h : Ranged n) (hcap : 0 ≤ cap) : Settling cap (excessAfter 0) n := by
  intro rtt hrtt
  have hmax := (h.rtt rtt hrtt).2
  have hvariation := h.variation.2
  have hpos : 0 < networkTimeoutMax := by norm_num [networkTimeoutMax]
  rw [excessAfter, pow_zero, mul_one]
  constructor <;> linarith

theorem excessAfter_nonneg (count : Nat) : 0 ≤ excessAfter count := by
  rw [excessAfter, networkTimeoutMax]
  positivity

/-- A sample of at most `cap` that is used shrinks the excess. -/
theorem Settling.observe (h : Settling cap excess n) (hranged : Ranged n) (hexcess : 0 ≤ excess) (hle : seconds ≤ cap)
    (hused : (n.observe seconds).2 = true) : Settling cap ((1 - 1 / 8) * excess) (n.observe seconds).1 := by
  rcases n.observe_cases seconds with he | ⟨⟨hzero, -⟩, ⟨-, he⟩ | ⟨rtt, hrtt, he⟩⟩
  · rw [he] at hused
    cases hused
  · rw [he]
    rintro _ ⟨⟩
    constructor
    · linarith
    · dsimp only
      linarith
  · rw [he]
    rintro _ ⟨⟩
    exact (h rtt hrtt).step (by norm_num) (by norm_num) (by norm_num) (by norm_num) (by norm_num) hexcess
      (hranged.rtt rtt hrtt).1 hzero hle

/-- Each sample that is used counts once, whatever is refused in between. -/
theorem Settling.run {count : Nat} (h : Settling cap (excessAfter count) n) (hranged : Ranged n)
    (hlow : ∀ seconds ∈ (n.run samples).2, seconds ≤ cap) :
    Settling cap (excessAfter (count + (n.run samples).2.length)) (n.run samples).1 := by
  induction samples generalizing n count with
  | nil => exact h
  | cons sample samples ih =>
      have hnext := hranged.observeFloat sample
      cases hused : (n.observeFloat sample).2 with
      | false =>
          have hrun : n.run (sample :: samples) = (n.observeFloat sample).1.run samples := by simp [run, hused]
          have hsame : (n.observeFloat sample).1 = n := observeFloat_refused hused
          rw [hrun, hsame] at hlow ⊢
          exact ih h hranged hlow
      | true =>
          cases sample with
          | none => cases hused
          | some seconds =>
              have hrun : n.run (some seconds :: samples) =
                  (((n.observe seconds).1.run samples).1, seconds :: ((n.observe seconds).1.run samples).2) := by
                have hobserved : (n.observe seconds).2 = true := hused
                simp [run, observeFloat, hobserved]
              rw [hrun] at hlow ⊢
              have hle : seconds ≤ cap := hlow seconds List.mem_cons_self
              have hsettling := h.observe hranged (excessAfter_nonneg count) hle hused
              rw [← excessAfter_succ] at hsettling
              have hlast := ih hsettling hnext fun s hs => hlow s (List.mem_cons_of_mem _ hs)
              rwa [add_right_comm, add_assoc] at hlast

theorem excessAfter_le {count : Nat} (h : 60 ≤ count) : excessAfter count ≤ 1 / 180 := by
  calc
    excessAfter count ≤ networkTimeoutMax * (7 / 8) ^ 60 := by
      refine mul_le_mul_of_nonneg_left (pow_le_pow_of_le_one (by norm_num) (by norm_num) h) (by norm_num [networkTimeoutMax])
    _ ≤ 1 / 180 := by norm_num [networkTimeoutMax]

/-- Near 0.35 s the deadline is the least one. -/
theorem Settling.timeout (h : Settling (7 / 20) excess n) (hle : excess ≤ 1 / 180) : n.timeout = networkTimeoutMin := by
  rw [NetworkTiming.timeout]
  cases hrtt : n.rtt with
  | none => rfl
  | some rtt =>
      obtain ⟨hmean, hdeviation⟩ := h rtt hrtt
      have hestimate : rtt + 4 * n.variation + challengeInterval ≤ networkTimeoutMin := by
        rw [challengeInterval, networkTimeoutMin]
        linarith
      dsimp only
      rw [max_eq_left hestimate]
      exact min_eq_right (by norm_num [networkTimeoutMin, networkTimeoutMax])

/-! ## Recovery -/

/-- Every state that measurements reach is in range, and from the 60th sample on of further ones that are at most 0.35 s the
deadline is the least one, whatever samples are refused in between. -/
theorem recovers (history further : List (Option Time)) :
    ((∀ rtt ∈ (run {} history).1.rtt, 0 ≤ rtt ∧ rtt < networkTimeoutMax) ∧
      0 ≤ (run {} history).1.variation ∧ (run {} history).1.variation < networkTimeoutMax) ∧
    ((∀ seconds ∈ ((run {} history).1.run further).2, seconds ≤ 7 / 20) →
      60 ≤ ((run {} history).1.run further).2.length →
      ((run {} history).1.run further).1.timeout = networkTimeoutMin) := by
  have hranged : Ranged (run {} history).1 := Ranged.start.run history
  refine ⟨⟨hranged.rtt, hranged.variation⟩, fun hlow hcount => ?_⟩
  have hsettled := (hranged.settling (by norm_num)).run hranged hlow
  exact hsettled.timeout (excessAfter_le (hcount.trans (Nat.le_add_left _ 0)))

/-- Round trips that rise, the last of them out of range. -/
def rising : List (Option Time) := [some (9 / 10), some (8 / 5), some (14 / 5), some 30]

/-- They raise the deadline to the most it can be, and 60 round trips of 0.05 s with one that is not finite between bring it
back. -/
theorem recovers_rising :
    (run {} rising).1.timeout = networkTimeoutMax ∧
    ((run {} rising).1.run
      (List.replicate 30 (some (1 / 20)) ++ none :: List.replicate 30 (some (1 / 20)))).1.timeout = networkTimeoutMin :=
  ⟨by decide +kernel, (recovers rising _).2 (by decide +kernel) (by decide +kernel)⟩

end NetworkTiming

end RemoteInput
