import RemoteInput.Relay.Lemmas.RateLimit

/-!
# What a limiter does without knowing its fields
-/

namespace RemoteInput

namespace RateLimit

variable {l : RateLimit} {clock now : Time} {key : String} {logins calls : List (Time × String)} {answers : List Bool}

/-! ## No bucket is empty -/

def plainEntry (entry : String × Bucket) : String × List Time := (entry.1, entry.2.times)

/-- The limiter without what it knows about its fields. -/
def plain (l : RateLimit) : PlainLimit :=
  { attempts := l.attempts, seconds := l.seconds, capacity := l.capacity, buckets := l.buckets.map plainEntry }

theorem plain_evict (horizon : Time) (buckets : List (String × Bucket)) :
    PlainLimit.evict horizon (buckets.map plainEntry) =
      .ok ((buckets.dropWhile fun entry => entry.2.last ≤ horizon).map plainEntry) := by
  induction buckets with
  | nil => rfl
  | cons entry buckets ih =>
      have hlast : entry.2.times.getLast? = some entry.2.last := List.getLast?_eq_some_getLast entry.2.nonempty
      rw [List.map_cons, plainEntry, PlainLimit.evict, hlast]
      dsimp only
      by_cases h : entry.2.last ≤ horizon
      · rw [if_pos h, ih, List.dropWhile_cons_of_pos (by simpa using h)]
      · rw [if_neg h, List.dropWhile_cons_of_neg (by simpa using h), List.map_cons, plainEntry]

theorem plain_bucketOf (buckets : List (String × Bucket)) (key : String) :
    PlainLimit.bucketOf (buckets.map plainEntry) key = timesOf buckets key := by
  have hfun : ((fun entry => decide (entry.1 = key)) ∘ plainEntry) = fun entry => decide (entry.1 = key) := rfl
  rw [PlainLimit.bucketOf, timesOf, List.find?_map, hfun]
  cases buckets.find? fun entry => decide (entry.1 = key) <;> rfl

theorem plain_store (buckets : List (String × Bucket)) (key : String) (bucket : Bucket) :
    (buckets.map plainEntry).filter (fun entry => entry.1 ≠ key) ++ [(key, bucket.times)] =
      (store buckets key bucket).map plainEntry := by
  rw [store, List.map_append, List.filter_map]
  rfl

/-- The call does not raise. -/
theorem plain_allow (l : RateLimit) (now : Time) (key : String) :
    l.plain.allow now key = .ok ((l.allow now key).1.plain, (l.allow now key).2) := by
  have hevict : PlainLimit.evict (now - l.seconds) (l.buckets.map plainEntry) = .ok ((l.evict now).map plainEntry) :=
    plain_evict ..
  have hany : (∀ entry ∈ (l.evict now).map plainEntry, entry.1 ≠ key) ↔ ∀ entry ∈ l.evict now, entry.1 ≠ key :=
    List.forall_mem_map
  rw [plain, PlainLimit.allow, hevict, RateLimit.allow]
  dsimp only [bind, Except.bind, pure, Except.pure]
  simp only [hany, List.length_map, plain_bucketOf]
  by_cases hfull : (∀ entry ∈ l.evict now, entry.1 ≠ key) ∧ (l.evict now).length ≥ l.capacity
  · rw [if_pos hfull, if_pos hfull]
    rfl
  rw [if_neg hfull, if_neg hfull]
  by_cases hlen : ((timesOf (l.evict now) key).dropWhile fun t => t ≤ now - l.seconds).length < l.attempts
  · rw [dif_pos hlen]
    simp only [plain, hlen, decide_true, if_true, ← plain_store]
  · rw [dif_neg hlen]
    simp only [plain, hlen, decide_false, Bool.false_eq_true, if_false, ← plain_store]

/-! ## The number of buckets -/

theorem store_length (buckets : List (String × Bucket)) (key : String) (bucket : Bucket) :
    (store buckets key bucket).length = (buckets.filter fun entry => entry.1 ≠ key).length + 1 := by
  rw [store, List.length_append, List.length_singleton]

/-- A new key is stored only below the capacity, and a known one takes its own place. -/
theorem store_length_le {buckets : List (String × Bucket)} {capacity : Nat} (bucket : Bucket)
    (hle : buckets.length ≤ capacity) (hroom : ¬ ((∀ entry ∈ buckets, entry.1 ≠ key) ∧ buckets.length ≥ capacity)) :
    (store buckets key bucket).length ≤ capacity := by
  rw [store_length]
  by_cases hnew : ∀ entry ∈ buckets, entry.1 ≠ key
  · have hlt : buckets.length < capacity := not_le.mp fun h => hroom ⟨hnew, h⟩
    have := List.length_filter_le (fun entry : String × Bucket => decide (entry.1 ≠ key)) buckets
    omega
  · push Not at hnew
    obtain ⟨entry, hin, he⟩ := hnew
    have : (buckets.filter fun entry => entry.1 ≠ key).length < buckets.length := by
      apply List.length_filter_lt_length_iff_exists.mpr
      exact ⟨entry, hin, by simpa using he⟩
    omega

theorem allow_capacity (l : RateLimit) (now : Time) (key : String) : (l.allow now key).1.capacity = l.capacity := by
  unfold RateLimit.allow
  dsimp only
  split
  · rfl
  · split <;> rfl

/-- A bucket goes back under its own key. -/
theorem store_keys {buckets : List (String × Bucket)} (h : (buckets.map Prod.fst).Nodup) (key : String) (bucket : Bucket) :
    ((store buckets key bucket).map Prod.fst).Nodup := by
  rw [store, List.map_append, List.nodup_append]
  refine ⟨h.sublist (List.filter_sublist.map _), List.nodup_singleton _, fun k hk other hother => ?_⟩
  obtain ⟨entry, hentry, rfl⟩ := List.mem_map.mp hk
  have hne : entry.1 ≠ key := by simpa using (List.mem_filter.mp hentry).2
  rwa [List.mem_singleton.mp hother]

theorem allow_keys (h : (l.buckets.map Prod.fst).Nodup) (now : Time) (key : String) :
    ((l.allow now key).1.buckets.map Prod.fst).Nodup := by
  have hevict : ((l.evict now).map Prod.fst).Nodup := h.sublist ((List.dropWhile_sublist _).map _)
  unfold RateLimit.allow
  dsimp only
  split
  · exact hevict
  · split
    · exact store_keys hevict key _
    · exact store_keys hevict key _

theorem allow_length (h : l.buckets.length ≤ l.capacity) (now : Time) (key : String) :
    (l.allow now key).1.buckets.length ≤ l.capacity := by
  have hevict : (l.evict now).length ≤ l.capacity := (List.dropWhile_sublist _).length_le.trans h
  unfold RateLimit.allow
  dsimp only
  split
  · exact hevict
  · rename_i hroom
    split
    · exact store_length_le _ hevict hroom
    · exact store_length_le _ hevict hroom

/-! ## Runs -/

/-- The calls that returned `True`. -/
def admitted (calls : List (Time × String)) (answers : List Bool) : List (Time × String) :=
  ((calls.zip answers).filter fun call => call.2).map Prod.fst

theorem admitted_cons (call : Time × String) (answer : Bool) :
    admitted (call :: calls) (answer :: answers) = (if answer then [call] else []) ++ admitted calls answers := by
  cases answer <;> rfl

/-- What holds of a limiter over all its calls. -/
structure Tidy (l : RateLimit) (clock : Time) (logins : List (Time × String)) : Prop where
  limits : Limits l clock logins
  room : l.buckets.length ≤ l.capacity
  keys : (l.buckets.map Prod.fst).Nodup

theorem Tidy.allow (h : Tidy l clock logins) (hle : clock ≤ now) (key : String) :
    Tidy (l.allow now key).1 now (if (l.allow now key).2 then logins ++ [(now, key)] else logins) where
  limits := ((h.limits.later hle).allow key).2.2
  room := (allow_length h.room now key).trans_eq (allow_capacity l now key).symm
  keys := allow_keys h.keys now key

/-- A run does not raise, and what it admits is within the limits. -/
theorem plain_run (h : Tidy l clock logins) (hclock : (clock :: calls.map Prod.fst).Pairwise (· ≤ ·)) :
    ∃ l' answers clock', l.plain.run calls = .ok (l'.plain, answers) ∧ answers.length = calls.length ∧
      l'.attempts = l.attempts ∧ l'.seconds = l.seconds ∧ l'.capacity = l.capacity ∧
      clock' ∈ clock :: calls.map Prod.fst ∧ Tidy l' clock' (logins ++ admitted calls answers) := by
  induction calls generalizing l clock logins with
  | nil => exact ⟨l, [], clock, rfl, rfl, rfl, rfl, rfl, List.mem_cons_self, by simpa [admitted] using h⟩
  | cons call calls ih =>
      obtain ⟨now, key⟩ := call
      rw [List.map_cons, List.pairwise_cons] at hclock
      have hle : clock ≤ now := hclock.1 now List.mem_cons_self
      obtain ⟨hattempts, hseconds, -⟩ := (h.limits.later hle).allow key
      obtain ⟨l', answers, clock', hrun, hsame, ha, hs, hc, hin, htidy⟩ := ih (h.allow hle key) hclock.2
      refine ⟨l', (l.allow now key).2 :: answers, clock', ?_, congrArg (· + 1) hsame, ha.trans hattempts, hs.trans hseconds,
        hc.trans (allow_capacity l now key), List.mem_cons_of_mem _ hin, ?_⟩
      · rw [PlainLimit.run, plain_allow]
        dsimp only [bind, Except.bind]
        rw [hrun]
        rfl
      · rw [admitted_cons, ← List.append_assoc]
        cases hallowed : (l.allow now key).2 with
        | true => simpa only [hallowed, if_true] using htidy
        | false => simpa [hallowed] using htidy

/-- Calls in the order of time to a new limiter, up to `now`. -/
theorem plain_start (attempts : Nat) (seconds : Time) (capacity : Nat) (hpositive : 1 ≤ attempts)
    (hclock : (calls.map Prod.fst ++ [now]).Pairwise (· ≤ ·)) :
    ∃ (l : RateLimit) (answers : List Bool),
      PlainLimit.run { attempts := attempts, seconds := seconds, capacity := capacity } calls = .ok (l.plain, answers) ∧
        answers.length = calls.length ∧ l.attempts = attempts ∧ l.seconds = seconds ∧ l.capacity = capacity ∧
        Tidy l now (admitted calls answers) := by
  let start : RateLimit := { attempts := attempts, positive := hpositive, seconds := seconds, capacity := capacity }
  obtain ⟨htimes, -, hlast⟩ := List.pairwise_append.mp hclock
  have hsorted : ((calls.map Prod.fst).headD now :: calls.map Prod.fst).Pairwise (· ≤ ·) := by
    cases calls with
    | nil => exact List.pairwise_singleton _ _
    | cons call calls =>
        refine List.pairwise_cons.mpr ⟨fun t ht => ?_, htimes⟩
        rcases List.mem_cons.mp ht with rfl | ht
        · exact le_rfl
        · exact (List.pairwise_cons.mp htimes).1 t ht
  have hstart : start.Tidy ((calls.map Prod.fst).headD now) [] := ⟨.start rfl, Nat.zero_le _, List.nodup_nil⟩
  obtain ⟨l, answers, clock, hrun, hlen, ha, hs, hc, hin, htidy⟩ := plain_run hstart hsorted
  have hle : clock ≤ now := by
    have hall : ∀ t ∈ calls.map Prod.fst, t ≤ now := fun t ht => hlast t ht now List.mem_cons_self
    rcases List.mem_cons.mp hin with rfl | hin
    · cases calls with
      | nil => exact le_rfl
      | cons call calls => exact hall _ List.mem_cons_self
    · exact hall clock hin
  exact ⟨l, answers, hrun, hlen, ha, hs, hc, htidy.limits.later hle, htidy.room, htidy.keys⟩

/-- The calls for a key in a window that returned `True`, by the readings at which they were admitted. -/
theorem admissions_length (seconds last : Time) (key : String) :
    (PlainLimit.admissions seconds calls answers key last).length =
      (Windows.within seconds last (allowedAt key (admitted calls answers))).length := by
  rw [PlainLimit.admissions, Windows.within, allowedAt, admitted, List.filter_map, List.filter_map, List.filter_map,
    List.length_map, List.length_map, List.filter_filter, List.filter_filter]
  congr 2
  funext call
  simp only [Function.comp, Bool.decide_and]
  cases call.2 <;> grind

end RateLimit

end RemoteInput
