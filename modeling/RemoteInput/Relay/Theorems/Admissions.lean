import RemoteInput.Relay.Lemmas.Plain

/-!
# How many attempts a limiter lets through
-/

namespace RemoteInput

namespace PlainLimit

/-- Of the calls for a key in a window at most `attempts` return `True`, whatever other keys are used in between. No call
raises, and there are no more buckets than the capacity. -/
theorem never_over_admits (attempts : Nat) (seconds : Time) (capacity : Nat) (calls : List (Time × String))
    (hpositive : 1 ≤ attempts) (hclock : (calls.map Prod.fst).Pairwise (· ≤ ·)) :
    ∃ l answers, run { attempts := attempts, seconds := seconds, capacity := capacity } calls = .ok (l, answers) ∧
      answers.length = calls.length ∧ l.buckets.length ≤ capacity ∧
      ∀ key last, (admissions seconds calls answers key last).length ≤ attempts := by
  obtain ⟨now, hsorted⟩ : ∃ now, (calls.map Prod.fst ++ [now]).Pairwise (· ≤ ·) := by
    rcases List.eq_nil_or_concat' (calls.map Prod.fst) with hnil | ⟨times, now, hlast⟩
    · exact ⟨0, by simp [hnil]⟩
    · rw [hlast, List.pairwise_append] at hclock
      refine ⟨now, ?_⟩
      rw [hlast, List.pairwise_append, List.pairwise_append]
      refine ⟨hclock, List.pairwise_singleton _ _, fun t ht last hnow => ?_⟩
      rcases List.mem_append.mp ht with ht | ht
      · exact hclock.2.2 t ht last hnow
      · rw [List.mem_singleton.mp ht, List.mem_singleton.mp hnow]
  obtain ⟨l, answers, hrun, hlen, rfl, rfl, rfl, htidy⟩ := RateLimit.plain_start attempts seconds capacity hpositive hsorted
  refine ⟨l.plain, answers, hrun, hlen, by simpa [RateLimit.plain] using htidy.room, fun key last => ?_⟩
  exact (RateLimit.admissions_length l.seconds last key).trans_le (htidy.limits.bounded key last)

/-- Two attempts for a key are admitted and the third is not. -/
theorem never_over_admits_third :
    ∃ l answers, run { attempts := 2, seconds := 10, capacity := 2 }
      [(0, "ip"), (0, "ip"), (0, "ip"), (0, "second"), (0, "third"),
        (11, "ip")] = .ok (l, answers) ∧ answers.length = 6 ∧ l.buckets.length ≤ 2 ∧
      ∀ key last,
      (admissions 10 [(0, "ip"), (0, "ip"), (0, "ip"), (0, "second"), (0, "third"), (11, "ip")] answers key
        last).length ≤ 2 :=
  never_over_admits 2 10 2 _ (by decide) (by decide)

end PlainLimit

end RemoteInput
