import RemoteInput.Relay.Lemmas.Plain

/-!
# When a limiter refuses without cause

A refused call moves the bucket of its key to the end like an admitted one, although its last attempt is as old as before.
The loop that evicts stops at the first bucket that counts, so a bucket that no longer does can keep a place behind it.
-/

namespace RemoteInput

namespace RateLimit

variable {l : RateLimit} {span now : Time} {key other : String} {buckets : List (String × Bucket)}
  {logins calls : List (Time × String)} {answers : List Bool}

/-! ## Which buckets count -/

/-- A key with a call that counts is one with a bucket that counts. -/
theorem Kept.counting (h : Kept span now buckets logins) (hsorted : (allowedAt key logins).Pairwise (· ≤ ·)) :
    Windows.recent span now (allowedAt key logins) ≠ [] ↔ ∃ b, (key, b) ∈ buckets ∧ now - span < b.last := by
  constructor
  · intro hne
    obtain ⟨t, ht⟩ := List.exists_mem_of_ne_nil _ hne
    obtain ⟨hin, hlive⟩ := List.mem_filter.mp ht
    rw [decide_eq_true_eq] at hlive
    have hbucket : ∃ b, (key, b) ∈ buckets := by
      by_contra hnone
      push Not at hnone
      exact absurd (h.absent key hnone t hin) (not_le.mpr hlive)
    obtain ⟨b, hb⟩ := hbucket
    obtain ⟨old, he, ho⟩ := h.found key b hb
    rw [he] at hin hsorted
    rcases List.mem_append.mp hin with hin | hin
    · exact absurd (ho t hin) (not_le.mpr hlive)
    · exact ⟨b, hb, hlive.trans_le (Bucket.le_last (List.pairwise_append.mp hsorted).2.1 hin)⟩
  · rintro ⟨b, hb, hlive⟩
    obtain ⟨old, he, -⟩ := h.found key b hb
    refine List.ne_nil_of_mem (a := b.last) (List.mem_filter.mpr ⟨?_, decide_eq_true hlive⟩)
    rw [he]
    exact List.mem_append_right _ (List.getLast_mem b.nonempty)

/-- At `now` every call of the past lies before the end of the window. -/
theorem Limits.within (h : Limits l now logins) (key : String) :
    Windows.within l.seconds now (allowedAt key logins) = Windows.recent l.seconds now (allowedAt key logins) := by
  refine List.filter_congr fun t ht => ?_
  have hpast : t ≤ now := h.past _ (mem_allowedAt ht)
  simp [hpast]

theorem Limits.admissions (h : Limits l now (admitted calls answers)) (key : String) :
    (PlainLimit.admissions l.seconds calls answers key now).length =
      (Windows.recent l.seconds now (allowedAt key (admitted calls answers))).length := by
  rw [admissions_length, h.within]

theorem Limits.admissions_ne_nil (h : Limits l now (admitted calls answers)) (key : String) :
    PlainLimit.admissions l.seconds calls answers key now ≠ [] ↔
      ∃ b, (key, b) ∈ l.evict now ∧ now - l.seconds < b.last := by
  rw [← (h.kept.evict h.sorted).counting (h.sorted key), ← List.length_pos_iff, ← List.length_pos_iff, h.admissions]

theorem mem_calls (h : PlainLimit.admissions span calls answers key now ≠ []) : key ∈ calls.map Prod.snd := by
  obtain ⟨call, hcall⟩ := List.exists_mem_of_ne_nil _ h
  obtain ⟨hin, hkey⟩ := List.mem_filter.mp hcall
  rw [decide_eq_true_eq] at hkey
  exact List.mem_map.mpr ⟨call.1, (List.of_mem_zip hin).1, hkey.1⟩

/-- The buckets that count. -/
def countingBuckets (l : RateLimit) (now : Time) : List (String × Bucket) :=
  (l.evict now).filter fun entry => now - l.seconds < entry.2.last

/-- The other keys with a call that counts are those with a bucket that counts. -/
theorem Tidy.busyOthers (h : Tidy l now (admitted calls answers)) (hnew : ∀ entry ∈ l.evict now, entry.1 ≠ key) :
    (PlainLimit.busyOthers l.seconds calls answers key now).card = (l.countingBuckets now).length := by
  have hnodup : ((l.countingBuckets now).map Prod.fst).Nodup :=
    h.keys.sublist (((List.filter_sublist).trans (List.dropWhile_sublist _)).map _)
  rw [← List.length_map (f := Prod.fst), ← List.toFinset_card_of_nodup hnodup]
  congr 1
  ext other
  rw [PlainLimit.busyOthers, Finset.mem_filter, List.mem_toFinset, List.mem_toFinset, h.limits.admissions_ne_nil]
  constructor
  · rintro ⟨-, -, b, hb, hlive⟩
    exact List.mem_map.mpr ⟨(other, b), List.mem_filter.mpr ⟨hb, decide_eq_true hlive⟩, rfl⟩
  · intro hother
    obtain ⟨entry, hentry, rfl⟩ := List.mem_map.mp hother
    obtain ⟨hb, hlive⟩ := List.mem_filter.mp hentry
    have hcounts : ∃ b, (entry.1, b) ∈ l.evict now ∧ now - l.seconds < b.last := ⟨entry.2, hb, of_decide_eq_true hlive⟩
    exact ⟨mem_calls ((h.limits.admissions_ne_nil _).mpr hcounts), hnew entry hb, hcounts⟩

/-! ## What a call returns -/

/-- The key has no bucket, and there is no room for one. -/
def Full (l : RateLimit) (now : Time) (key : String) : Prop :=
  (∀ entry ∈ l.evict now, entry.1 ≠ key) ∧ l.capacity ≤ (l.evict now).length

theorem allow_full (h : l.Full now key) : (l.allow now key).2 = false := by
  have hfull : (∀ entry ∈ l.evict now, entry.1 ≠ key) ∧ (l.evict now).length ≥ l.capacity := h
  rw [RateLimit.allow]
  dsimp only
  rw [if_pos hfull]

theorem Tidy.refused (h : Tidy l now (admitted calls answers)) (hrefused : (l.allow now key).2 = false) :
    l.Full now key ∨ l.attempts ≤ (PlainLimit.admissions l.seconds calls answers key now).length := by
  by_cases hfull : l.Full now key
  · exact .inl hfull
  right
  have hopen : ¬ ((∀ entry ∈ l.evict now, entry.1 ≠ key) ∧ (l.evict now).length ≥ l.capacity) := hfull
  rw [RateLimit.allow] at hrefused
  dsimp only at hrefused
  rw [if_neg hopen] at hrefused
  split at hrefused
  · cases hrefused
  · rename_i hlen
    rw [(h.limits.kept.evict h.limits.sorted).recent (h.limits.sorted key), ← h.limits.admissions] at hlen
    exact not_lt.mp hlen

/-! ## What is evicted -/

theorem expired_plain (horizon : Time) (entry : String × Bucket) :
    PlainLimit.Expired horizon (plainEntry entry) ↔ entry.2.last ≤ horizon := by
  have hlast : entry.2.times.getLast? = some entry.2.last := List.getLast?_eq_some_getLast entry.2.nonempty
  simp [PlainLimit.Expired, plainEntry, hlast]

/-- The loop evicts nothing when the first bucket counts, and else at least that bucket. -/
theorem evict_cases (l : RateLimit) (now : Time) :
    ((∀ entry ∈ l.buckets.head?, now - l.seconds < entry.2.last) ∧ l.evict now = l.buckets) ∨
      ((¬ ∀ entry ∈ l.buckets.head?, now - l.seconds < entry.2.last) ∧ (l.evict now).length < l.buckets.length) := by
  rw [evict]
  cases l.buckets with
  | nil => exact .inl ⟨by simp, rfl⟩
  | cons entry buckets =>
      by_cases hlive : now - l.seconds < entry.2.last
      · refine .inl ⟨by simpa using hlive, ?_⟩
        rw [List.dropWhile_cons_of_neg (by simpa using hlive)]
      · refine .inr ⟨by simpa using hlive, ?_⟩
        rw [List.dropWhile_cons_of_pos (by simpa using hlive), List.length_cons]
        exact Nat.lt_succ_of_le (List.dropWhile_sublist _).length_le

/-- The condition, with what the limiter knows of its fields. -/
theorem clogged_plain :
    l.plain.Clogged now key ↔
      (∀ entry ∈ l.buckets, entry.1 ≠ key) ∧ l.capacity ≤ l.buckets.length ∧
        (∀ entry ∈ l.buckets.head?, now - l.seconds < entry.2.last) ∧
        ∃ entry ∈ l.buckets, entry.2.last ≤ now - l.seconds := by
  have hhead : (∀ entry ∈ (l.buckets.map plainEntry).head?, ¬ PlainLimit.Expired (now - l.seconds) entry) ↔
      ∀ entry ∈ l.buckets.head?, now - l.seconds < entry.2.last := by
    cases l.buckets <;> simp [expired_plain]
  have hexpired : (∃ entry ∈ l.buckets.map plainEntry, PlainLimit.Expired (now - l.seconds) entry) ↔
      ∃ entry ∈ l.buckets, entry.2.last ≤ now - l.seconds := by
    constructor
    · rintro ⟨_, hmem, hlast⟩
      obtain ⟨entry, hentry, rfl⟩ := List.mem_map.mp hmem
      exact ⟨entry, hentry, (expired_plain ..).mp hlast⟩
    · rintro ⟨entry, hentry, hlast⟩
      exact ⟨plainEntry entry, List.mem_map_of_mem hentry, (expired_plain ..).mpr hlast⟩
  rw [PlainLimit.Clogged, plain, hhead, hexpired, List.forall_mem_map, List.length_map]
  rfl

/-- A key for which there is no room is one of a limiter that is clogged, or every bucket counts. -/
theorem Tidy.full_iff (h : Tidy l now logins) (hfull : l.Full now key) :
    l.capacity ≤ (l.countingBuckets now).length ↔ ¬ l.plain.Clogged now key := by
  rw [clogged_plain]
  rcases l.evict_cases now with ⟨hhead, hsame⟩ | ⟨-, hless⟩
  · rw [Full, hsame] at hfull
    rw [countingBuckets, hsame]
    constructor
    · rintro hcount ⟨-, -, -, entry, hentry, hexpired⟩
      have hless : (l.buckets.filter fun entry => now - l.seconds < entry.2.last).length < l.buckets.length :=
        List.length_filter_lt_length_iff_exists.mpr ⟨entry, hentry, by simpa using hexpired⟩
      exact absurd (hcount.trans_lt hless) (not_lt.mpr h.room)
    · intro hclear
      have hall : ∀ entry ∈ l.buckets, now - l.seconds < entry.2.last := by
        intro entry hentry
        by_contra hexpired
        exact hclear ⟨hfull.1, hfull.2, hhead, entry, hentry, not_lt.mp hexpired⟩
      rw [List.filter_eq_self.mpr fun entry hentry => decide_eq_true (hall entry hentry)]
      exact hfull.2
  · exact absurd (hfull.2.trans_lt hless) (not_lt.mpr h.room)

theorem Clogged.full (h : l.plain.Clogged now key) : l.Full now key := by
  rw [clogged_plain] at h
  obtain ⟨hnew, hfull, hhead, -⟩ := h
  rcases l.evict_cases now with ⟨-, hsame⟩ | ⟨hexpired, -⟩
  · rw [Full, hsame]
    exact ⟨hnew, hfull⟩
  · exact absurd hhead hexpired

/-- A key for which there is no bucket has no call that counts. -/
theorem Tidy.unused (h : Tidy l now (admitted calls answers)) (hfull : l.Full now key) :
    PlainLimit.admissions l.seconds calls answers key now = [] := by
  by_contra hne
  obtain ⟨b, hb, -⟩ := (h.limits.admissions_ne_nil key).mp hne
  exact hfull.1 (key, b) hb rfl

/-- A refusal has a cause, unless the limiter is clogged. -/
theorem Tidy.caused_iff (h : Tidy l now (admitted calls answers)) (key : String) :
    ((l.allow now key).2 = false → PlainLimit.Caused l.attempts l.seconds l.capacity calls answers key now) ↔
      ¬ l.plain.Clogged now key := by
  constructor
  · intro hcaused hclogged
    have hfull := Clogged.full hclogged
    rcases hcaused (allow_full hfull) with hused | hothers
    · rw [h.unused hfull] at hused
      exact absurd l.positive (not_lt.mpr hused)
    · rw [h.busyOthers hfull.1] at hothers
      exact (h.full_iff hfull).mp hothers hclogged
  · intro hclear hrefused
    rcases h.refused hrefused with hfull | hused
    · right
      rw [h.busyOthers hfull.1]
      exact (h.full_iff hfull).mpr hclear
    · exact .inl hused

end RateLimit

namespace PlainLimit

/-- After any calls in the order of time, a refusal has a cause if and only if the limiter was not clogged for that key. -/
theorem refused_with_cause_iff (attempts : Nat) (seconds : Time) (capacity : Nat) (calls : List (Time × String)) (now : Time)
    (key : String) (hpositive : 1 ≤ attempts) (hclock : (calls.map Prod.fst ++ [now]).Pairwise (· ≤ ·)) :
    ∃ l answers l' allowed,
      run { attempts := attempts, seconds := seconds, capacity := capacity } calls = .ok (l, answers) ∧
        l.allow now key = .ok (l', allowed) ∧
        ((allowed = false → Caused attempts seconds capacity calls answers key now) ↔ ¬ l.Clogged now key) := by
  obtain ⟨l, answers, hrun, -, rfl, rfl, rfl, htidy⟩ := RateLimit.plain_start attempts seconds capacity hpositive hclock
  exact ⟨l.plain, answers, _, _, hrun, RateLimit.plain_allow l now key, htidy.caused_iff key⟩

/-- The bucket of `"b"` no longer counts, but `"a"` stands before it since `"b"` was refused. -/
theorem refused_without_cause :
    ¬ ∀ (attempts : Nat) (seconds : Time) (capacity : Nat) (calls : List (Time × String)) (now : Time) (key : String),
      1 ≤ attempts → 1 ≤ capacity → (calls.map Prod.fst ++ [now]).Pairwise (· ≤ ·) →
      ∀ l answers l', run { attempts := attempts, seconds := seconds, capacity := capacity } calls = .ok (l, answers) →
        l.allow now key = .ok (l', false) → Caused attempts seconds capacity calls answers key now := by
  intro h
  let clogged : PlainLimit := { attempts := 1, seconds := 10, capacity := 2, buckets := [("a", [1]), ("b", [0])] }
  have hrun : run { attempts := 1, seconds := 10, capacity := 2 } [(0, "b"), (1, "a"), (5, "b")] =
      .ok (clogged, [true, true, false]) := by decide +kernel
  have hrefused : clogged.allow (21 / 2) "c" = .ok (clogged, false) := by decide +kernel
  have hcaused := h 1 10 2 _ (21 / 2) "c" le_rfl (by decide) (by decide +kernel) _ _ _ hrun hrefused
  revert hcaused
  decide +kernel

/-- Without the refused call the bucket of `"b"` is still first, and `"c"` finds room. -/
theorem refused_with_cause_iff_room :
    ∃ l answers l' allowed, run { attempts := 1, seconds := 10, capacity := 2 } [(0, "b"), (1, "a")] = .ok (l, answers) ∧
      l.allow (21 / 2) "c" = .ok (l', allowed) ∧
      ((allowed = false → Caused 1 10 2 [(0, "b"), (1, "a")] answers "c" (21 / 2)) ↔ ¬ l.Clogged (21 / 2) "c") :=
  refused_with_cause_iff 1 10 2 _ _ _ (by decide) (by decide +kernel)

end PlainLimit

end RemoteInput
