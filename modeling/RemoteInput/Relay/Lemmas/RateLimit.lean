import RemoteInput.Lib.Windows
import RemoteInput.Relay.RateLimit

/-!
# What the buckets remember
-/

namespace RemoteInput

namespace RateLimit

variable {l : RateLimit} {clock now : Time} {key : String} {buckets : List (String × Bucket)}
  {logins : List (Time × String)}

/-- The readings at which a key was allowed, oldest first. -/
def allowedAt (key : String) (logins : List (Time × String)) : List Time :=
  (logins.filter fun login => login.2 = key).map Prod.fst

theorem allowedAt_append (key : String) (logins more : List (Time × String)) :
    allowedAt key (logins ++ more) = allowedAt key logins ++ allowedAt key more := by
  simp [allowedAt]

theorem allowedAt_same (now : Time) (key : String) : allowedAt key [(now, key)] = [now] := by simp [allowedAt]

theorem allowedAt_other (now : Time) {key k : String} (h : k ≠ key) : allowedAt k [(now, key)] = [] := by
  simp [allowedAt, Ne.symm h]

/-- Up to what no longer counts, the buckets hold the readings at which each key was allowed. -/
structure Kept (span clock : Time) (buckets : List (String × Bucket)) (logins : List (Time × String)) : Prop where
  found : ∀ key b, (key, b) ∈ buckets → ∃ old, allowedAt key logins = old ++ b.times ∧ ∀ t ∈ old, t ≤ clock - span
  absent : ∀ key, (∀ b, (key, b) ∉ buckets) → ∀ t ∈ allowedAt key logins, t ≤ clock - span

theorem Bucket.le_last {b : Bucket} (h : b.times.Pairwise (· ≤ ·)) {t : Time} (ht : t ∈ b.times) : t ≤ b.last := by
  have hsplit := List.dropLast_append_getLast b.nonempty
  rw [← hsplit, List.pairwise_append] at h
  rw [← hsplit, List.mem_append, List.mem_singleton] at ht
  rcases ht with ht | rfl
  · exact h.2.2 t ht _ (List.mem_singleton_self _)
  · exact le_rfl

/-- An evicted bucket no longer counts. -/
theorem Kept.evict (h : Kept l.seconds now l.buckets logins) (hsorted : ∀ key, (allowedAt key logins).Pairwise (· ≤ ·)) :
    Kept l.seconds now (l.evict now) logins := by
  constructor
  · exact fun key b hb => h.found key b ((List.dropWhile_sublist _).subset hb)
  · intro key hnone t ht
    by_cases hin : ∃ b, (key, b) ∈ l.buckets
    · obtain ⟨b, hb⟩ := hin
      obtain ⟨old, he, ho⟩ := h.found key b hb
      rw [he, List.mem_append] at ht
      rcases ht with ht | ht
      · exact ho t ht
      · have hkey := hsorted key
        rw [he, List.pairwise_append] at hkey
        have hgone : (key, b) ∈ l.buckets.takeWhile fun entry => entry.2.last ≤ now - l.seconds := by
          rw [← List.takeWhile_append_dropWhile (p := fun entry => decide (entry.2.last ≤ now - l.seconds)) (l := l.buckets),
            List.mem_append] at hb
          exact hb.resolve_right (hnone b)
        have hlast : b.last ≤ now - l.seconds := by simpa using List.mem_takeWhile_imp hgone
        exact (Bucket.le_last hkey.2.1 ht).trans hlast
    · push Not at hin
      exact h.absent key hin t ht

/-- What counts for a key can be read off its bucket. -/
theorem Kept.recent {span : Time} (h : Kept span now buckets logins) (hsorted : (allowedAt key logins).Pairwise (· ≤ ·)) :
    (timesOf buckets key).dropWhile (fun t => t ≤ now - span) = Windows.recent span now (allowedAt key logins) := by
  unfold timesOf
  split
  · rename_i entry hf
    have hkey : entry.1 = key := by simpa using List.find?_some hf
    obtain ⟨old, he, ho⟩ := h.found key entry.2 (hkey ▸ List.mem_of_find?_eq_some hf)
    rw [he] at hsorted ⊢
    rw [Windows.recent_append old ho, Windows.dropWhile_recent (List.pairwise_append.mp hsorted).2.1]
  · rename_i hf
    have hnone : ∀ b, (key, b) ∉ buckets := fun b hb => by simpa using List.find?_eq_none.mp hf _ hb
    rw [List.dropWhile_nil, Windows.recent, eq_comm, List.filter_eq_nil_iff]
    intro t ht
    simpa using h.absent key hnone t ht

theorem Kept.store {span : Time} {bucket : Bucket} {more : List (Time × String)} (h : Kept span now buckets logins)
    (hkey : ∃ old, allowedAt key more = old ++ bucket.times ∧ ∀ t ∈ old, t ≤ now - span)
    (hother : ∀ k ≠ key, allowedAt k more = allowedAt k logins) : Kept span now (store buckets key bucket) more := by
  constructor
  · intro k b hb
    rcases List.mem_append.mp hb with hb | hb
    · obtain ⟨hb, hne⟩ := List.mem_filter.mp hb
      rw [hother k (by simpa using hne)]
      exact h.found k b hb
    · cases List.mem_singleton.mp hb
      exact hkey
  · intro k hnone
    have hne : k ≠ key := by
      rintro rfl
      exact hnone bucket (List.mem_append_right _ (by simp))
    rw [hother k hne]
    exact h.absent k fun b hb => hnone b (List.mem_append_left _ (List.mem_filter.mpr ⟨hb, by simpa using hne⟩))

/-- The limiter remembers what it must about the readings at which it allowed, and no window of any key is too full. -/
structure Limits (l : RateLimit) (clock : Time) (logins : List (Time × String)) : Prop where
  kept : Kept l.seconds clock l.buckets logins
  past : ∀ login ∈ logins, login.1 ≤ clock
  sorted : ∀ key, (allowedAt key logins).Pairwise (· ≤ ·)
  bounded : ∀ key, Windows.Bounded l.seconds l.attempts (allowedAt key logins)

theorem Limits.start (h : l.buckets = []) : Limits l clock [] :=
  ⟨⟨by simp [h], by simp [allowedAt]⟩, by simp, by simp [allowedAt], fun _ => by simpa [allowedAt] using Windows.Bounded.nil⟩

theorem mem_allowedAt {t : Time} (h : t ∈ allowedAt key logins) : (t, key) ∈ logins := by
  obtain ⟨login, hl, rfl⟩ := List.mem_map.mp h
  obtain ⟨hl, he⟩ := List.mem_filter.mp hl
  rwa [← of_decide_eq_true he]

/-- Time passes. -/
theorem Limits.later (h : Limits l clock logins) (hle : clock ≤ now) : Limits l now logins := by
  have hmono : ∀ {t : Time}, t ≤ clock - l.seconds → t ≤ now - l.seconds := fun h => le_trans h (sub_le_sub_right hle _)
  refine ⟨⟨fun key b hb => ?_, fun key hn t ht => hmono (h.kept.absent key hn t ht)⟩,
    fun login hl => (h.past login hl).trans hle, h.sorted, h.bounded⟩
  obtain ⟨old, he, ho⟩ := h.kept.found key b hb
  exact ⟨old, he, fun t ht => hmono (ho t ht)⟩

/-- One call of `allow`. -/
theorem Limits.allow (h : Limits l now logins) (key : String) :
    (l.allow now key).1.attempts = l.attempts ∧ (l.allow now key).1.seconds = l.seconds ∧
      Limits (l.allow now key).1 now (if (l.allow now key).2 then logins ++ [(now, key)] else logins) := by
  have hkept := h.kept.evict h.sorted
  have hrecent := hkept.recent (h.sorted key)
  have hsplit : ∃ old, allowedAt key logins = old ++ Windows.recent l.seconds now (allowedAt key logins) ∧
      ∀ t ∈ old, t ≤ now - l.seconds := by
    rw [← Windows.dropWhile_recent (h.sorted key)]
    refine ⟨_, (List.takeWhile_append_dropWhile ..).symm, fun t ht => ?_⟩
    simpa using List.mem_takeWhile_imp ht
  unfold RateLimit.allow
  dsimp only
  split
  · exact ⟨rfl, rfl, hkept, h.past, h.sorted, h.bounded⟩
  split
  · rename_i hlen
    rw [hrecent] at hlen
    have hnew : allowedAt key (logins ++ [(now, key)]) = allowedAt key logins ++ [now] := by
      rw [allowedAt_append, allowedAt_same]
    have hother : ∀ k ≠ key, allowedAt k (logins ++ [(now, key)]) = allowedAt k logins := by
      intro k hk
      rw [allowedAt_append, allowedAt_other now hk, List.append_nil]
    refine ⟨rfl, rfl, hkept.store ?_ hother, ?_, fun k => ?_, fun k => ?_⟩
    · obtain ⟨old, he, ho⟩ := hsplit
      refine ⟨old, ?_, ho⟩
      rw [if_pos rfl, hnew]
      dsimp only
      rw [hrecent, ← List.append_assoc, ← he]
    · intro login hl
      rcases List.mem_append.mp hl with hl | hl
      · exact h.past login hl
      · rw [List.mem_singleton.mp hl]
    · by_cases hk : k = key
      · rw [hk, if_pos rfl, hnew, List.pairwise_append]
        refine ⟨h.sorted key, List.pairwise_singleton _ _, fun t ht u hu => ?_⟩
        rw [List.mem_singleton.mp hu]
        exact h.past _ (mem_allowedAt ht)
      · rw [if_pos rfl, hother k hk]; exact h.sorted k
    · by_cases hk : k = key
      · rw [hk, if_pos rfl, hnew]; exact (h.bounded key).concat hlen
      · rw [if_pos rfl, hother k hk]; exact h.bounded k
  · obtain ⟨old, he, ho⟩ := hsplit
    exact ⟨rfl, rfl, hkept.store ⟨old, by rw [← hrecent] at he; exact he, ho⟩ fun _ _ => rfl, h.past, h.sorted, h.bounded⟩

end RateLimit

end RemoteInput
