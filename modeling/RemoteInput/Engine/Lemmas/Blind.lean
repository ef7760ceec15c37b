import RemoteInput.Engine.Lemmas.Cases

/-!
# What the queue decides

Nothing that `process_one` does with a frame depends on the rest of the queue, and all that it can do to the rest is to clear
it.
-/

namespace RemoteInput

namespace TargetEngine

variable {α : Type} {env : Env} {item : Item} {age : Time} {s : TargetEngine}

def withQueue (q : InputQueue) (s : TargetEngine) : TargetEngine := { s with queue := q }

/-- What is left of the rest. -/
def rest (clears : Bool) (q : InputQueue) : InputQueue := if clears then q.clear else q

theorem rest_rest (c d : Bool) (q : InputQueue) : rest d (rest c q) = rest (c || d) q := by cases c <;> cases d <;> rfl

/-- A step that clears the rest or leaves it, and that the rest has no part in. `put` gives a result another queue. -/
def Blind (put : InputQueue → α → α) (f : TargetEngine → α) (s : TargetEngine) : Prop :=
  ∃ clears, ∀ q, f (s.withQueue q) = put (rest clears q) (f s)

def putPair (q : InputQueue) (r : TargetEngine × Bool) : TargetEngine × Bool := (r.1.withQueue q, r.2)

def putInjected (q : InputQueue) : Injected → Injected
  | .ok s => .ok (s.withQueue q)
  | .refused s => .refused (s.withQueue q)
  | .raised s => .raised (s.withQueue q)

theorem blind_ite {put : InputQueue → α → α} {p : TargetEngine → Prop} [∀ s, Decidable (p s)] {f g : TargetEngine → α}
    (hp : ∀ q, p (s.withQueue q) ↔ p s) (hf : p s → Blind put f s) (hg : ¬ p s → Blind put g s) :
    Blind put (fun s => if p s then f s else g s) s := by
  by_cases h : p s
  · obtain ⟨clears, hf⟩ := hf h
    refine ⟨clears, fun q => ?_⟩
    dsimp only
    rw [if_pos h, if_pos ((hp q).mpr h)]
    exact hf q
  · obtain ⟨clears, hg⟩ := hg h
    refine ⟨clears, fun q => ?_⟩
    dsimp only
    rw [if_neg h, if_neg (mt (hp q).mp h)]
    exact hg q

/-! ## Resets and heartbeats -/

theorem reset_withQueue (env : Env) (reason : String) (s : TargetEngine) (q : InputQueue) :
    (s.withQueue q).reset env reason = (s.reset env reason).withQueue q.clear := by
  unfold reset
  by_cases h : s.epoch ≠ 0
  · rw [if_pos h]; exact if_pos h
  · rw [if_neg h]; exact if_neg h

theorem blind_rejectStale (event : Event) (limit : Time) (raised : Bool) :
    Blind putPair (fun s => (s.rejectStale env event limit, raised)) s := by
  refine ⟨true, fun q => congrArg (·, raised) ?_⟩
  have hreason : (s.withQueue q).staleReason event env.now limit = s.staleReason event env.now limit := rfl
  unfold rejectStale
  dsimp only
  rw [hreason, reset_withQueue]
  by_cases hop : event.op = .activate
  · rw [if_pos hop, if_pos hop]
    by_cases he : s.epoch = 0
    · rw [if_pos he]; exact if_pos he
    · rw [if_neg he]; exact if_neg he
  · rw [if_neg hop, if_neg hop]
    rfl

theorem observeHeartbeat_withQueue (event : Event) (now : Time) (s : TargetEngine) (q : InputQueue) :
    (s.withQueue q).observeHeartbeat event now = (s.observeHeartbeat event now).withQueue q := by
  have hleases : (s.withQueue q).leases = s.leases := rfl
  unfold observeHeartbeat
  rw [hleases]
  cases s.leases event.lease with
  | none => rfl
  | some issued =>
      dsimp only
      by_cases h : issued ≤ s.lastEchoIssued
      · rw [if_pos h]; exact if_pos h
      · rw [if_neg h]; exact if_neg h

theorem blind_observeHeartbeat (event : Event) (now : Time) (raised : Bool) :
    Blind putPair (fun s => (s.observeHeartbeat event now, raised)) s :=
  ⟨false, fun q => congrArg (·, raised) (observeHeartbeat_withQueue event now s q)⟩

theorem blind_activate (event : Event) : Blind putPair (activate env event) s := by
  unfold activate
  apply blind_ite (p := fun s => event.epoch = 0 ∨ event.epoch = s.lastEpoch ∨ env.permitted = some false) (fun _ => .rfl)
  · exact fun _ => ⟨false, fun _ => rfl⟩
  · intro _
    apply blind_ite (p := fun _ => env.permitted = none) (fun _ => .rfl)
    · exact fun _ => ⟨false, fun _ => rfl⟩
    · refine fun _ => ⟨true, fun q => ?_⟩
      dsimp only
      rw [reset_withQueue]
      rfl

/-! ## Injection -/

theorem blind_press (call : Int → Bool → Call) {track : TargetEngine → TargetEngine}
    (htrack : ∀ q, track (s.withQueue q) = (track s).withQueue q) : Blind putInjected (press env call track item) s := by
  refine ⟨false, fun q => ?_⟩
  unfold press
  rw [htrack]
  dsimp only [inject, withQueue]
  cases (env.perform (track s).out (call item.event.a true)).isRaised <;> rfl

theorem blind_unpress (call : Int → Bool → Call) {untrack : TargetEngine → TargetEngine}
    (huntrack : ∀ s q, untrack (s.withQueue q) = (untrack s).withQueue q) :
    Blind putInjected (unpress env call untrack item) s := by
  refine ⟨false, fun q => ?_⟩
  have hinject : (s.withQueue q).inject env (call item.event.a false) item =
      ((s.inject env (call item.event.a false) item).1.withQueue q, (s.inject env (call item.event.a false) item).2) := rfl
  unfold unpress
  dsimp only
  rw [hinject, huntrack]
  cases (s.inject env (call item.event.a false) item).2.isRaised <;> rfl

theorem blind_injectRelative (call : Int → Int → Call) : Blind putInjected (injectRelative env call item) s := by
  refine ⟨false, fun q => ?_⟩
  unfold injectRelative
  dsimp only [inject, withQueue]
  cases (env.perform s.out (call item.event.a item.event.b)).isRaised <;> rfl

theorem blind_injectEvent (env : Env) (item : Item) (s : TargetEngine) : Blind putInjected (injectEvent env item) s := by
  unfold injectEvent
  dsimp only
  cases item.event.op with
  | key =>
      dsimp only
      apply blind_ite (p := fun _ => env.supportsKey.any (fun supports => !supports item.event.a) = true) (fun _ => .rfl)
      · exact fun _ => ⟨true, fun q => congrArg Injected.refused (reset_withQueue ..)⟩
      · intro _
        apply blind_ite (p := fun _ => item.event.b ≠ 0) (fun _ => .rfl)
        · exact fun _ => blind_press .key fun _ => rfl
        · intro _
          apply blind_ite (p := fun s => item.event.a ∈ s.keys) (fun _ => .rfl)
          · exact fun _ => blind_unpress .key fun _ _ => rfl
          · exact fun _ => ⟨false, fun _ => rfl⟩
  | button =>
      dsimp only
      apply blind_ite (p := fun _ => item.event.b ≠ 0) (fun _ => .rfl)
      · exact fun _ => blind_press .button fun _ => rfl
      · intro _
        apply blind_ite (p := fun s => item.event.a ∈ s.buttons) (fun _ => .rfl)
        · exact fun _ => blind_unpress .button fun _ _ => rfl
        · exact fun _ => ⟨false, fun _ => rfl⟩
  | move => exact blind_injectRelative .move
  | scroll => exact blind_injectRelative .scroll
  | activate | heartbeat | reset | probe => exact ⟨false, fun _ => rfl⟩

/-! ## The frame as a whole -/

theorem blind_acknowledge (env : Env) (event : Event) (age : Time) (s : TargetEngine) :
    Blind withQueue (acknowledge env event age) s := by
  refine ⟨decide (env.durationUs > 100000), fun q => ?_⟩
  unfold acknowledge
  by_cases h : env.durationUs > 100000
  · simp only [h, if_true, decide_true, reset_withQueue]
    split <;> rfl
  · simp only [h, if_false, decide_false]
    split <;> rfl

theorem heartbeatExpired_withQueue (h : s.silent env.now) (q : InputQueue) :
    ((s.withQueue q).heartbeatExpired env).1 = (s.heartbeatExpired env).1.withQueue q.clear := by
  unfold heartbeatExpired
  rw [if_pos h]
  exact (congrArg Prod.fst (if_pos h)).trans (reset_withQueue ..)

theorem blind_inputFrame (env : Env) (item : Item) (age : Time) (s : TargetEngine) :
    Blind putPair (inputFrame env item age) s := by
  obtain ⟨c, hinject⟩ := blind_injectEvent env item (s.withSeq item.event.seq)
  unfold inputFrame
  apply blind_ite (p := fun s => (s.withSeq item.event.seq).silent env.now) (fun _ => .rfl)
  · exact fun h => ⟨true, fun q => congrArg (·, false) (heartbeatExpired_withQueue (s := s.withSeq item.event.seq) h q)⟩
  · intro _
    apply blind_ite (p := fun _ => item.event.op = .heartbeat) (fun _ => .rfl)
    · exact fun _ => ⟨false, fun q => congrArg (·, false) (observeHeartbeat_withQueue _ _ (s.withSeq item.event.seq) q)⟩
    · intro _
      cases hcase : (s.withSeq item.event.seq).injectEvent env item with
      | raised t | refused t =>
          refine ⟨c, fun q => ?_⟩
          have h := hinject q
          have hswap : (s.withQueue q).withSeq item.event.seq = (s.withSeq item.event.seq).withQueue q := rfl
          rw [hcase] at h
          dsimp only
          rw [hcase, hswap, h]
          rfl
      | ok t =>
          obtain ⟨d, hack⟩ := blind_acknowledge env item.event age t
          refine ⟨c || d, fun q => ?_⟩
          have h := hinject q
          have hswap : (s.withQueue q).withSeq item.event.seq = (s.withSeq item.event.seq).withQueue q := rfl
          rw [hcase] at h
          dsimp only
          rw [hcase, hswap, h, ← rest_rest]
          exact congrArg (·, false) (hack (rest c q))

theorem blind_lockedBody (env : Env) (item : Item) (age : Time) (s : TargetEngine) :
    Blind putPair (lockedBody env item age) s := by
  unfold lockedBody
  apply blind_ite (p := fun s => s.blocked = true ∨ ¬ s.connected = true) (fun _ => .rfl)
  · exact fun _ => ⟨false, fun _ => rfl⟩
  intro _
  apply blind_ite (p := fun s => s.ignores item.event) (fun _ => .rfl)
  · exact fun _ => ⟨false, fun _ => rfl⟩
  intro _
  apply blind_ite (p := fun s => ¬ s.validLease item.event.lease env.now (s.tokenLimit item.event)) (fun _ => .rfl)
  · exact fun _ => blind_rejectStale item.event (s.tokenLimit item.event) false
  intro _
  apply blind_ite (p := fun _ => item.event.op = .activate) (fun _ => .rfl)
  · exact fun _ => blind_activate item.event
  intro _
  apply blind_ite (p := fun s => item.event.op = .probe ∧ s.epoch = 0) (fun _ => .rfl)
  · exact fun _ => ⟨false, fun _ => rfl⟩
  intro _
  apply blind_ite (p := fun s => item.event.op = .heartbeat ∧ s.epoch = 0) (fun _ => .rfl)
  · exact fun _ => blind_observeHeartbeat item.event env.now false
  intro _
  apply blind_ite (p := fun s => item.event.epoch ≠ s.epoch ∨ s.epoch = 0 ∨ item.event.seq ≤ s.seq) (fun _ => .rfl)
  · exact fun _ => ⟨false, fun _ => rfl⟩
  · exact fun _ => blind_inputFrame env item age s

/-- Processing a frame clears the rest of the queue or leaves it, whatever it is. -/
theorem blind_processItem (env : Env) (item : Item) (age : Time) (s : TargetEngine) :
    Blind putPair (processItem env item age) s := by
  obtain ⟨c, hbody⟩ := blind_lockedBody env item age s
  unfold processItem
  rcases hcase : s.lockedBody env item age with ⟨t, raised⟩
  rw [hcase] at hbody
  cases raised with
  | false =>
      refine ⟨c, fun q => ?_⟩
      dsimp only
      rw [hbody q, hcase]
      rfl
  | true =>
      refine ⟨true, fun q => ?_⟩
      dsimp only
      rw [hbody q, hcase]
      refine congrArg (·, false) ((reset_withQueue ..).trans ?_)
      cases c <;> rfl

end TargetEngine

end RemoteInput
