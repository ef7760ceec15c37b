import RemoteInput.Engine.Lemmas.Cases

/-!
# Runs, effects and clock readings
-/

namespace RemoteInput

namespace TargetEngine

variable {env : Env} {s : TargetEngine}

/-! ## Runs -/

/-- The engine as `__init__` leaves it. -/
def initial : TargetEngine := {}

@[simp] theorem exec_nil (s : TargetEngine) : s.exec [] = s := rfl

@[simp] theorem exec_cons (s : TargetEngine) (op : EngineOp) (ops : List EngineOp) :
    s.exec (op :: ops) = (s.step op).exec ops := rfl

theorem exec_append (s : TargetEngine) (ops ops' : List EngineOp) :
    s.exec (ops ++ ops') = (s.exec ops).exec ops' := List.foldl_append

theorem exec_take_succ {s : TargetEngine} {ops : List EngineOp} {i : Nat} {op : EngineOp} (h : ops[i]? = some op) :
    s.exec (ops.take (i + 1)) = (s.exec (ops.take i)).step op := by
  rw [List.take_add_one, h, exec_append]; rfl

theorem history_append (s : TargetEngine) (ops ops' : List EngineOp) :
    s.history (ops ++ ops') = s.history ops ++ (s.exec ops).history ops' := by
  induction ops generalizing s with
  | nil => rfl
  | cons op ops ih => simp only [List.cons_append, history, exec_cons, ih, List.append_assoc]

theorem history_concat (s : TargetEngine) (ops : List EngineOp) (op : EngineOp) :
    s.history (ops ++ [op]) = s.history ops ++ ((s.exec ops).step op).out := by
  rw [history_append]; simp [history]

/-- A property that holds at first and is kept by every operation holds after every run. -/
theorem exec_induction {P : TargetEngine → Prop} (hstep : ∀ s op, P s → P (s.step op)) {s : TargetEngine}
    (h : P s) (ops : List EngineOp) : P (s.exec ops) := by
  induction ops generalizing s with
  | nil => exact h
  | cons op ops ih => exact ih (hstep s op h)

/-- The state after the first `i` operations of a run from the start. -/
def stateAt (ops : List EngineOp) (i : Nat) : TargetEngine := initial.exec (ops.take i)

theorem stateAt_zero (ops : List EngineOp) : stateAt ops 0 = initial := by simp [stateAt]

theorem stateAt_succ {ops : List EngineOp} {i : Nat} {op : EngineOp} (h : ops[i]? = some op) :
    stateAt ops (i + 1) = (stateAt ops i).step op := exec_take_succ h

theorem stateAt_succ_of_none {ops : List EngineOp} {i : Nat} (h : ops[i]? = none) :
    stateAt ops (i + 1) = stateAt ops i := by
  rw [stateAt, List.take_add_one, h]; simp [stateAt]

/-! ## Effects only accumulate -/

theorem mem_reset {x : Out} {reason : String} (h : x ∈ s.out) : x ∈ (s.reset env reason).out := by
  obtain ⟨f, g, ho, _⟩ := s.reset_spec env reason
  rw [ho]
  simp only [List.mem_append]
  exact .inl (.inl (.inl h))

theorem heartbeatExpired_cases (env : Env) (s : TargetEngine) :
    (s.silent env.now ∧ ∃ reason, (s.heartbeatExpired env).1 = s.reset env reason) ∨
    (¬ s.silent env.now ∧ (s.heartbeatExpired env).1 = s) := by
  unfold heartbeatExpired
  split
  · rename_i h; exact .inl ⟨h, _, rfl⟩
  · rename_i h; exact .inr ⟨h, rfl⟩

/-! ## The end of `tick` -/

/-- `heartbeat_expired` resets or does nothing. -/
theorem heartbeatExpired_induction {P : TargetEngine → Prop} (hreset : ∀ s reason, P s → P (s.reset env reason))
    (h : P s) : P (s.heartbeatExpired env).1 := by
  rcases heartbeatExpired_cases env s with ⟨_, reason, he⟩ | ⟨_, he⟩
  · rw [he]; exact hreset _ _ h
  · rw [he]; exact h

/-- After the heartbeat check `tick` resets at most twice more. -/
theorem checkPermission_induction {P : TargetEngine → Prop} (hreset : ∀ s reason, P s → P (s.reset env reason))
    (h : P s) : P (s.checkPermission env).1 := by
  have hpause : P (s.pauseUnpermitted env) := by
    unfold pauseUnpermitted; split
    · exact hreset _ _ h
    · exact h
  unfold checkPermission
  split
  · exact h
  · show P ((s.pauseUnpermitted env).retryRelease env)
    unfold retryRelease; split
    · exact hreset _ _ hpause
    · exact hpause

/-! ## The frame that `process_one` takes -/

/-- The item that `process_one` takes from the queue. -/
def popped (s : TargetEngine) (env : Env) : Option Item :=
  match (s.queue.pop env.popNow).2 with
  | .item item _ => some item
  | _ => none

theorem popped_eq {queue : InputQueue} {item : Item} {age : Time}
    (h : s.queue.pop env.popNow = (queue, .item item age)) : s.popped env = some item := by
  simp [popped, h]

end TargetEngine

/-! ## Clock readings -/

theorem Monotonic.le {ops : List EngineOp} (h : Monotonic ops) {i j : Nat} (hij : i < j) {a b : EngineOp}
    (hi : ops[i]? = some a) (hj : ops[j]? = some b) {t u : Time} (ht : t ∈ a.readings) (hu : u ∈ b.readings) :
    t ≤ u := by
  have hp := (List.pairwise_flatMap.mp h).2
  obtain ⟨hil, rfl⟩ := List.getElem?_eq_some_iff.mp hi
  obtain ⟨hjl, rfl⟩ := List.getElem?_eq_some_iff.mp hj
  exact List.pairwise_iff_getElem.mp hp i j hil hjl hij t ht u hu

end RemoteInput
