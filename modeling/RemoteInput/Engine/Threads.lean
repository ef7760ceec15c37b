import RemoteInput.Engine.Semantics
import RemoteInput.Lib.Runs

/-!
# The engine's two threads

The worker thread takes an item from the queue before it takes the lock. `EngineThreads` is the engine together with what
the worker has in hand then; the network thread may act in between.
-/

namespace RemoteInput

/-- What `queue.pop()` gave to the worker. -/
inductive Register where
  | idle
  | popped (item : Item) (age : Time)
  | overloaded
  deriving DecidableEq

structure EngineThreads where
  engine : TargetEngine := {}
  register : Register := .idle

/-- What one thread does until it gives up the lock. -/
inductive ThreadOp where
  | receive (env : Env) (event : Event)
  | peerChanged (env : Env)
  | setConnected (env : Env) (value : Bool)
  | reset (env : Env) (reason : String)
  | tick (env : Env) (bits : Nat)
  | pop (env : Env)
  | body (env : Env)

namespace EngineThreads

/-- The worker's `queue.pop()`. -/
def pop (env : Env) (s : TargetEngine) : EngineThreads :=
  match s.queue.pop env.popNow with
  | (queue, .overload) => ⟨{ s with queue := queue }, .overloaded⟩
  | (queue, .empty) => ⟨{ s with queue := queue }, .idle⟩
  | (queue, .item item age) => ⟨{ s with queue := queue }, .popped item age⟩

/-- The rest of `process_one`. -/
def body (env : Env) (s : TargetEngine) : Register → Option TargetEngine
  | .idle => none
  | .overloaded => some (s.reset env "Paused: input processing failed")
  | .popped item age => some (s.processItem env item age).1

/-- One operation; `none` when the worker is at another point. Afterwards `out` lists its own effects only. -/
def step (p : EngineThreads) (op : ThreadOp) : Option EngineThreads :=
  let s := { p.engine with out := [] }
  match op with
  | .receive env event => some { p with engine := s.receive env event }
  | .peerChanged env => some { p with engine := s.peerChanged env }
  | .setConnected env value => some { p with engine := s.setConnected env value }
  | .reset env reason => some { p with engine := s.reset env reason }
  | .tick env bits => if p.register = .idle then some { p with engine := (s.tick env bits).1 } else none
  | .pop env => if p.register = .idle then some (pop env s) else none
  | .body env => (body env s p.register).map (fun s => { engine := s, register := .idle })

/-- Without another thread in between, the two steps of the worker are `process_one`. -/
theorem pop_body (env : Env) (s : TargetEngine) :
    (s.processOne env).1 = match (pop env s).register with
      | .idle => (pop env s).engine
      | .overloaded => (pop env s).engine.reset env "Paused: input processing failed"
      | .popped item age => ((pop env s).engine.processItem env item age).1 := by
  unfold TargetEngine.processOne pop
  rcases s.queue.pop env.popNow with ⟨queue, _ | _ | _⟩ <;> rfl

/-- The worker's pop adds no effect. -/
theorem pop_out (env : Env) (s : TargetEngine) : (pop env s).engine.out = s.out := by
  unfold pop
  rcases s.queue.pop env.popNow with ⟨queue, _ | _ | _⟩ <;> rfl

/-- An operation of one thread that nobody comes between is a run of the two threads. -/
theorem step_interleaves (s : TargetEngine) (op : EngineOp) :
    ∃ steps, Runs.exec step ⟨s, .idle⟩ steps = some ⟨s.step op, .idle⟩ := by
  cases op with
  | receive env event => exact ⟨[.receive env event], rfl⟩
  | tick env bits => exact ⟨[.tick env bits], rfl⟩
  | reset env reason => exact ⟨[.reset env reason], rfl⟩
  | peerChanged env => exact ⟨[.peerChanged env], rfl⟩
  | setConnected env value => exact ⟨[.setConnected env value], rfl⟩
  | processOne env =>
      have hpop : step ⟨s, .idle⟩ (.pop env) = some (pop env { s with out := [] }) := rfl
      have hwhole : s.step (.processOne env) = _ := pop_body env { s with out := [] }
      have hout := pop_out env { s with out := [] }
      rw [hwhole]
      generalize pop env { s with out := [] } = p at hpop hout ⊢
      obtain ⟨engine, register⟩ := p
      have hsame : ({ engine with out := [] } : TargetEngine) = engine := by cases engine; cases hout; rfl
      cases register with
      | idle => exact ⟨[.pop env], by rw [Runs.exec, hpop]; rfl⟩
      | popped item age =>
          refine ⟨[.pop env, .body env], ?_⟩
          rw [Runs.exec, hpop, Option.bind_some, Runs.exec, step, hsame]
          rfl
      | overloaded =>
          refine ⟨[.pop env, .body env], ?_⟩
          rw [Runs.exec, hpop, Option.bind_some, Runs.exec, step, hsame]
          rfl

/-- So a run of whole operations is one of the two threads. -/
theorem exec_interleaves (s : TargetEngine) (ops : List EngineOp) :
    ∃ steps, Runs.exec step ⟨s, .idle⟩ steps = some ⟨s.exec ops, .idle⟩ := by
  induction ops generalizing s with
  | nil => exact ⟨[], rfl⟩
  | cons op ops ih =>
      obtain ⟨first, hfirst⟩ := step_interleaves s op
      obtain ⟨rest, hrest⟩ := ih (s.step op)
      refine ⟨first ++ rest, ?_⟩
      rw [Runs.exec_append, hfirst, Option.bind_some, hrest]
      rfl

end EngineThreads

/-- The messages among the effects of an operation. -/
def messages (outs : List Out) : List Message :=
  outs.filterMap fun
    | .emit m => some m
    | _ => none

/-- The calls among the effects that were made for frames and reached the operating system. -/
def effective (outs : List Out) : List Call :=
  outs.filterMap fun
    | .call c outcome (_ :: _) => if outcome.tookEffect then some c else none
    | _ => none

end RemoteInput
