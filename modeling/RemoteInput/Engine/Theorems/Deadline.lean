import RemoteInput.Engine.Lemmas.Session

/-!
# Remote holds end without heartbeats
-/

namespace RemoteInput

namespace TargetEngine

/-! ## A hold does not outlive its heartbeats -/

/-- One of the first `i` operations issued `nonce`, after the time `f`. -/
def IssuedAfter (f : Time) (ops : List EngineOp) (i : Nat) (nonce : Nat) : Prop :=
  ∃ k < i, ∃ env bits, ops[k]? = some (.tick env bits) ∧ f < env.now ∧
    .emit (.challenge nonce) ∈ (stateAt ops (k + 1)).out

theorem IssuedAfter.mono {f : Time} {ops : List EngineOp} {i j nonce : Nat} (h : IssuedAfter f ops i nonce)
    (hij : i ≤ j) : IssuedAfter f ops j nonce := by
  obtain ⟨k, hk, rest⟩ := h
  exact ⟨k, by omega, rest⟩

/-- A lease that counts at `now` for a frame without a challenge newer than `f` was issued by `f`. -/
theorem validLease_old {s : TargetEngine} {f now limit : Time} {nonce : Nat} (h : s.validLease nonce now limit)
    (hold : ∀ t, s.leases nonce = some t → t ≤ f) : now < f + limit := by
  obtain ⟨issued, hi, _, hlt⟩ := h
  have := hold issued hi
  linarith

theorem inputTimeout_lt (s : TargetEngine) : s.network.inputTimeout ≤ 33 / 10 := by
  have := s.network.inputTimeout_le
  norm_num [networkTimeoutMax, challengeInterval, maxQueueAge] at this
  linarith

theorem timeout_le_three (s : TargetEngine) : s.network.timeout ≤ 3 := s.network.timeout_le

/-- Without frames that answer a challenge issued after `f`, every lease known to the frames is from `f` or before,
and the deadline of an active epoch was last moved before `f + 3.3`. -/
theorem deadline_invariant (ops : List EngineOp) (f : Time)
    (hecho : ∀ i env item, ops[i]? = some (.processOne env) → f < env.now →
      (stateAt ops i).popped env = some item → ¬ IssuedAfter f ops i item.event.lease) (i : Nat) :
    (∀ n t, (stateAt ops i).leases n = some t → t ≤ f ∨ IssuedAfter f ops i n) ∧
    ((stateAt ops i).epoch ≠ 0 → (stateAt ops i).lastHeartbeat < f + 33 / 10) := by
  induction i with
  | zero =>
      rw [stateAt_zero]
      exact ⟨fun n t h => by simp [initial] at h, fun h => absurd rfl h⟩
  | succ i ih =>
      obtain ⟨ihl, ihh⟩ := ih
      cases hop : ops[i]? with
      | none =>
          rw [stateAt_succ_of_none hop]
          exact ⟨fun n t h => (ihl n t h).imp id (·.mono (Nat.le_succ i)), ihh⟩
      | some op =>
          have hnext := stateAt_succ hop
          constructor
          · intro n t h
            rw [hnext] at h
            rcases step_leases h with h | ⟨env, bits, rfl, rfl, hout⟩
            · exact (ihl n t h).imp id (·.mono (Nat.le_succ i))
            · rcases le_or_gt env.now f with hf | hf
              · exact .inl hf
              · exact .inr ⟨i, Nat.lt_succ_self i, env, bits, hop, hf, hnext ▸ hout⟩
          · intro he
            rw [hnext] at he ⊢
            cases step_session (stateAt ops i) op with
            | ended h0 => exact absurd h0 he
            | kept h0 _ hh => rw [hh]; exact ihh (h0 ▸ he)
            | frame env item hproc hp hs =>
                subst hproc
                -- a lease that the frame may use is from `f` or before
                have hold : f < env.now → ∀ t, (stateAt ops i).leases item.event.lease = some t → t ≤ f :=
                  fun hf t ht => (ihl _ t ht).resolve_right (hecho i env item hop hf hp)
                cases hs with
                | ended h0 => exact absurd h0 he
                | kept h0 _ hh => rw [hh]; exact ihh (h0 ▸ he)
                | renewed _ _ _ _ hh issued hi hlt _ =>
                    rw [hh]
                    rcases le_or_gt env.now f with hf | hf
                    · linarith
                    · have := hold hf issued hi
                      have := timeout_le_three (stateAt ops i)
                      linarith
                | activated _ _ _ _ _ _ hh hv =>
                    rw [hh]
                    rcases le_or_gt env.now f with hf | hf
                    · linarith
                    · have := validLease_old hv (hold hf)
                      have := inputTimeout_lt (stateAt ops i)
                      linarith

/-- A remote hold cannot outlive its heartbeats: if no frame processed after `f` answers a challenge issued after `f`,
every tick from `f + 6.3` on ends the session, and it stays ended. A lease counts for an activation for less than
3.3 s and for a heartbeat for less than 3 s, and a tick 3 s or more after the last of them ends the session. -/
theorem hold_ends_without_heartbeats (ops : List EngineOp) (hclock : Monotonic ops) (f : Time)
    (hecho : ∀ i env item, ops[i]? = some (.processOne env) → f < env.now →
      (stateAt ops i).popped env = some item → ¬ IssuedAfter f ops i item.event.lease) :
    (∀ i env bits, ops[i]? = some (.tick env bits) → f + 63 / 10 ≤ env.now →
      ∀ j, i < j → (stateAt ops j).epoch = 0) ∧
    (∀ i env item, ops[i]? = some (.processOne env) → (stateAt ops i).popped env = some item →
      (stateAt ops (i + 1)).epoch ≠ 0 →
      ((stateAt ops (i + 1)).epoch = (stateAt ops i).epoch ∧
        (stateAt ops (i + 1)).lastHeartbeat = (stateAt ops i).lastHeartbeat) ∨
      ((stateAt ops (i + 1)).lastHeartbeat = env.now ∧
        ∃ issued, (stateAt ops i).leases item.event.lease = some issued ∧
          (item.event.op = .activate ∧ env.now - issued < 33 / 10 ∨
            item.event.op = .heartbeat ∧ env.now - issued < 3 ∧ (stateAt ops i).lastEchoIssued < issued))) ∧
    (∀ i env bits, ops[i]? = some (.tick env bits) → (stateAt ops i).epoch ≠ 0 →
      3 ≤ env.now - (stateAt ops i).lastHeartbeat → (stateAt ops (i + 1)).epoch = 0) := by
  have hinv := deadline_invariant ops f hecho
  have htick : ∀ i env bits, ops[i]? = some (.tick env bits) →
      ((stateAt ops i).epoch ≠ 0 → 3 ≤ env.now - (stateAt ops i).lastHeartbeat) →
      (stateAt ops (i + 1)).epoch = 0 := by
    intro i env bits hop hgap
    rw [stateAt_succ hop]
    cases step_session (stateAt ops i) (.tick env bits) with
    | ended h0 => exact h0
    | kept h0 _ _ ht =>
        rw [h0]
        by_contra hne
        have := ht env bits rfl hne
        have := hgap hne
        have := timeout_le_three (stateAt ops i)
        linarith
    | frame _ _ hproc => cases hproc
  refine ⟨?_, ?_, fun i env bits hop _ hgap => htick i env bits hop (fun _ => hgap)⟩
  · intro i env bits hop hlate j hij
    induction j with
    | zero => omega
    | succ j ih =>
        rcases Nat.lt_or_ge i j with hlt | hge
        · -- a later operation: only an `ACTIVATE` with a lease issued after `f + 3` could start a session
          have h0 := ih hlt
          cases hopj : ops[j]? with
          | none => rw [stateAt_succ_of_none hopj]; exact h0
          | some op =>
              rw [stateAt_succ hopj]
              cases step_session (stateAt ops j) op with
              | ended he => exact he
              | kept he => exact he.trans h0
              | frame env' item hproc hp hs =>
                  subst hproc
                  cases hs with
                  | ended he => exact he
                  | kept he => exact he.trans h0
                  | renewed _ _ he => exact he.trans h0
                  | activated _ _ _ _ _ _ _ hv =>
                      exfalso
                      have hle : env.now ≤ env'.now :=
                        hclock.le hlt hop hopj (by simp [EngineOp.readings]) (by simp [EngineOp.readings])
                      have hf : f < env'.now := by linarith
                      have := validLease_old hv fun t ht =>
                        ((hinv j).1 _ t ht).resolve_right (hecho j env' item hopj hf hp)
                      have := inputTimeout_lt (stateAt ops j)
                      linarith
        · have hij : j = i := by omega
          subst hij
          refine htick j env bits hop (fun hne => ?_)
          have := (hinv j).2 hne
          linarith
  · intro i env item hop hp he
    rw [stateAt_succ hop] at he ⊢
    cases step_session (stateAt ops i) (.processOne env) with
    | ended h0 => exact absurd h0 he
    | kept h0 _ hh => exact .inl ⟨h0, hh⟩
    | frame env' item' hproc hp' hs =>
        cases hproc
        obtain rfl : item' = item := Option.some.inj (hp'.symm.trans hp)
        cases hs with
        | ended h0 => exact absurd h0 he
        | kept h0 _ hh => exact .inl ⟨h0, hh⟩
        | renewed hh _ _ _ hnow issued hi hlt hnew =>
            have := timeout_le_three (stateAt ops i)
            exact .inr ⟨hnow, issued, hi, .inr ⟨hh, by linarith, hnew⟩⟩
        | activated ha _ _ _ _ _ hnow hv =>
            obtain ⟨issued, hi, _, hlt⟩ := hv
            have := inputTimeout_lt (stateAt ops i)
            exact .inr ⟨hnow, issued, hi, .inl ⟨ha, by linarith⟩⟩

/-- A session that is activated once and never renewed. -/
def unrenewedRun : List EngineOp :=
  [.setConnected { now := 0 } true, .tick { now := 1 } 7,
   .receive { now := 21 / 20 } { op := .activate, epoch := 5, seq := 1, lease := 7 },
   .processOne { now := 11 / 10 }, .tick { now := 8 } 9]

theorem hold_ends_without_heartbeats_unrenewed :
    (stateAt unrenewedRun 4).epoch = 5 ∧ (stateAt unrenewedRun 5).epoch = 0 := by
  refine ⟨by decide +kernel, ?_⟩
  refine (hold_ends_without_heartbeats unrenewedRun (by unfold Monotonic; decide +kernel) 1 ?_).1
    4 { now := 8 } 9 rfl (by norm_num) 5 (by omega)
  rintro i env item hop hf hp ⟨k, hk, env', bits, htick, hafter, _⟩
  -- the only frame is processed before the second tick
  have hi : i = 3 := by rcases i with _ | _ | _ | _ | _ | i <;> simp [unrenewedRun] at hop ⊢
  subst hi
  have hk1 : k = 1 := by rcases k with _ | _ | _ | k <;> simp [unrenewedRun] at htick ⊢; omega
  subst hk1
  simp only [unrenewedRun, List.getElem?_cons_succ, List.getElem?_cons_zero, Option.some.injEq,
    EngineOp.tick.injEq] at htick
  obtain ⟨rfl, _⟩ := htick
  exact lt_irrefl _ hafter

end TargetEngine

end RemoteInput
