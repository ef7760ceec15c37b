import RemoteInput.Engine.Lemmas.Holds

/-!
# Every remote hold is tracked
-/

namespace RemoteInput

namespace TargetEngine

/-- What the operating system may hold down is tracked, and is released once it is not needed any more. Both tracked
sets are what the calls so far leave to be released (`owed`): after every operation, and at every release. -/
theorem holds_tracked (ops : List EngineOp) :
    -- whatever may still be pressed is tracked
    (∀ k, pressed .key (initial.history ops) k = true → k ∈ (initial.exec ops).keys) ∧
    (∀ b, pressed .button (initial.history ops) b = true → b ∈ (initial.exec ops).buttons) ∧
    -- nothing is tracked while paused and not blocked
    ((initial.exec ops).epoch = 0 → (initial.exec ops).blocked = false →
      (initial.exec ops).keys = ∅ ∧ (initial.exec ops).buttons = ∅) ∧
    -- only what is tracked is released
    (∀ k, k ∈ (initial.exec ops).keys ↔ owed .key (initial.history ops) k = true) ∧
    (∀ b, b ∈ (initial.exec ops).buttons ↔ owed .button (initial.history ops) b = true) ∧
    ReleasesOwed (initial.history ops) ∧
    -- every reset, also one in the middle of an operation, attempts every release and keeps what failed
    (∀ (s : TargetEngine) env reason, ∃ onKey onButton : Int → Outcome,
      (s.reset env reason).out = s.out ++ releaseCalls .key onKey s.keys.elems ++
        releaseCalls .button onButton s.buttons.elems ++ s.resetReport reason ∧
      (∀ k, k ∈ (s.reset env reason).keys ↔ k ∈ s.keys ∧ (onKey k).isRaised = true) ∧
      (∀ b, b ∈ (s.reset env reason).buttons ↔ b ∈ s.buttons ∧ (onButton b).isRaised = true)) := by
  obtain ⟨hkeys, hbuttons, hreleases⟩ := ledger_run ops
  have hquiet : (initial.exec ops).Quiet :=
    exec_induction (fun s op hs => hs.step op) (by intro _ _; exact ⟨rfl, rfl⟩) ops
  refine ⟨?_, ?_, hquiet, hkeys, hbuttons, hreleases, ?_⟩
  · intro k h
    exact (hkeys k).mpr (owed_of_pressed (by simp) h)
  · intro b h
    exact (hbuttons b).mpr (owed_of_pressed (by simp) h)
  · intro s env reason
    obtain ⟨onKey, onButton, hout, hk, hb, _⟩ := s.reset_spec env reason
    exact ⟨onKey, onButton, hout, hk, hb⟩

end TargetEngine

end RemoteInput
