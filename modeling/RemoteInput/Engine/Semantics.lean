import RemoteInput.Lib.PySet
import RemoteInput.Wire.Queueing
import RemoteInput.Wire.Timing

/-!
# The target's lease clock and injector (`safety.py`)

`TargetEngine` is the state behind `lock` together with the effects of the operation in progress (`out`). What the
operating system and the clocks answer during one operation is an `Env`; nothing is assumed about it.
-/

namespace RemoteInput

/-! ## The injector and the outside world -/

/-- The calls that the engine makes on its injector. -/
inductive Call where
  | key (key : Int) (down : Bool)
  | button (button : Int) (down : Bool)
  | move (dx dy : Int)
  | scroll (horizontal vertical : Int)
  deriving DecidableEq, Repr

/-- How a call ended. A raising call may or may not have taken effect on the operating system. -/
inductive Outcome where
  | done
  | raised (took : Bool)
  deriving DecidableEq, Repr

def Outcome.isRaised : Outcome → Bool
  | .done => false
  | .raised _ => true

/-- The call reached the operating system. -/
def Outcome.tookEffect : Outcome → Bool
  | .done => true
  | .raised took => took

/-- One effect of an operation. `parts` are the received frames that a call injects; the releases made by `reset`
stand for no frame. -/
inductive Out where
  | emit (message : Message)
  | status (reason : String)
  | call (call : Call) (outcome : Outcome) (parts : List Event)
  deriving DecidableEq

/-- The answers of clocks, operating system and injector during one operation. How a call ends may depend on every
earlier effect of the operation. -/
structure Env where
  now : Time
  /-- The clock as `queue.pop` reads it, before `now`. -/
  popNow : Time := now
  /-- `injector.permitted()`; `none` when it raises. -/
  permitted : Option Bool := some true
  /-- `injector.supports_key`, where the injector has it. -/
  supportsKey : Option (Int → Bool) := none
  perform : List Out → Call → Outcome := fun _ _ => .done
  /-- Time spent in the injector, in microseconds. -/
  durationUs : ℚ := 0

/-! ## State -/

/-- `TargetEngine`, with the effects of the current operation. -/
structure TargetEngine where
  queue : InputQueue := {}
  leases : Nat → Option Time := fun _ => none
  lastChallenge : Time := -1000000000
  lastHeartbeat : Time := 0
  lastEchoIssued : Time := -1000000000
  network : NetworkTiming := {}
  epoch : Nat := 0
  lastEpoch : Nat := 0
  seq : Nat := 0
  keys : PySet Int := ∅
  buttons : PySet Int := ∅
  blocked : Bool := false
  connected : Bool := false
  out : List Out := []

/-- `f"{seconds * 1000:.0f}"`: rounded to the nearest integer, ties to even. -/
def ms (seconds : Time) : String :=
  let x := seconds * 1000
  let r := x - x.floor
  toString (if r < 1 / 2 then x.floor else if r > 1 / 2 then x.floor + 1
    else if x.floor % 2 = 0 then x.floor else x.floor + 1)

namespace TargetEngine

def emit (s : TargetEngine) (message : Message) : TargetEngine := { s with out := s.out ++ [.emit message] }

def status (s : TargetEngine) (reason : String) : TargetEngine := { s with out := s.out ++ [.status reason] }

/-! ## Releasing what is held -/

/-- The variables that a release loop of `reset` updates: the set it releases, `blocked` and the effects. -/
structure Release where
  held : PySet Int
  blocked : Bool
  out : List Out

/-- One of the two loops of `reset` over a snapshot: every release is attempted even if one fails. -/
def releaseEach (env : Env) (call : Int → Bool → Call) : List Int → Release → Release
  | [], r => r
  | x :: xs, r =>
      let outcome := env.perform r.out (call x false)
      let out := r.out ++ [.call (call x false) outcome []]
      releaseEach env call xs
        (if outcome.isRaised then { r with blocked := true, out := out }
         else { r with held := r.held.discard x, out := out })

/-- `reset` before it reports: the session ends, the queue is cleared and every release is attempted. -/
def releaseAll (env : Env) (s : TargetEngine) : TargetEngine :=
  let ks := releaseEach env .key s.keys.elems ⟨s.keys, s.blocked, s.out⟩
  let bs := releaseEach env .button s.buttons.elems ⟨s.buttons, ks.blocked, ks.out⟩
  { s with epoch := 0, queue := s.queue.clear, keys := ks.held, buttons := bs.held,
           blocked := bs.blocked, out := bs.out }

/-- `reset(reason)`. -/
def reset (env : Env) (reason : String) (s : TargetEngine) : TargetEngine :=
  if s.epoch ≠ 0 then ((s.releaseAll env).emit (.paused s.epoch)).status reason else s.releaseAll env

/-! ## Connection and peer changes -/

/-- `set_connected(value)`. -/
def setConnected (env : Env) (value : Bool) (s : TargetEngine) : TargetEngine :=
  { s with connected := value, leases := fun _ => none, lastChallenge := -1000000000,
           lastEchoIssued := -1000000000, network := {} }.reset env (if value then "Paused" else "Disconnected")

/-- `peer_changed()`. Issued challenges stay: one may already be in flight when a controller is admitted. -/
def peerChanged (env : Env) (s : TargetEngine) : TargetEngine :=
  { s.reset env "Paused" with network := {}, lastEchoIssued := -1000000000, lastChallenge := -1000000000 }

/-- `receive(event)`. -/
def receive (env : Env) (event : Event) (s : TargetEngine) : TargetEngine :=
  if event.op = .reset then s.reset env "Paused"
  else
    let put := s.queue.put env.now event
    let s := { s with queue := put.queue }
    if put.ok then s else s.reset env "Paused: input overload"

/-! ## Leases and heartbeats -/

/-- `valid_lease(nonce, now, limit)`. -/
def validLease (s : TargetEngine) (nonce : Nat) (now limit : Time) : Prop :=
  ∃ issued ∈ s.leases nonce, 0 ≤ now - issued ∧ now - issued < limit

instance (s : TargetEngine) (nonce : Nat) (now limit : Time) : Decidable (s.validLease nonce now limit) :=
  match h : s.leases nonce with
  | none => isFalse (by simp [validLease, h])
  | some issued =>
      decidable_of_iff (0 ≤ now - issued ∧ now - issued < limit) (by simp [validLease, h])

/-- The test of `heartbeat_expired(now)`. -/
def silent (s : TargetEngine) (now : Time) : Prop := s.epoch ≠ 0 ∧ now - s.lastHeartbeat ≥ s.network.timeout

instance (s : TargetEngine) (now : Time) : Decidable (s.silent now) := inferInstanceAs (Decidable (_ ∧ _))

/-- `heartbeat_expired(now)`: the new state and whether the session ended. -/
def heartbeatExpired (env : Env) (s : TargetEngine) : TargetEngine × Bool :=
  if s.silent env.now then
    (s.reset env
      s!"Paused: controller heartbeat timed out (gap {ms (env.now - s.lastHeartbeat)} ms; limit {ms s.network.timeout} ms)",
     true)
  else (s, false)

/-- `observe_heartbeat(event, now)`. Repeating a nonce with a new sequence must not extend a hold. -/
def observeHeartbeat (event : Event) (now : Time) (s : TargetEngine) : TargetEngine :=
  match s.leases event.lease with
  | none => s -- not reached: `validLease` has found the nonce
  | some issued =>
      if issued ≤ s.lastEchoIssued then s
      else { s with lastEchoIssued := issued, network := (s.network.observe (now - issued)).1,
                    lastHeartbeat := if s.epoch ≠ 0 then now else s.lastHeartbeat }

/-- The reason that `reject_stale` gives. -/
def staleReason (s : TargetEngine) (event : Event) (now limit : Time) : String :=
  let age := match s.leases event.lease with
    | none => "expired or unknown"
    | some issued => s!"age {ms (now - issued)} ms"
  let kind := if event.op = .heartbeat then "heartbeat" else "input"
  s!"Paused: stale {kind} (token {age}; limit {ms limit} ms)"

/-- `reject_stale(event, now, limit)`. -/
def rejectStale (env : Env) (event : Event) (limit : Time) (s : TargetEngine) : TargetEngine :=
  let reason := s.staleReason event env.now limit
  let s' := s.reset env reason
  if event.op = .activate then
    let s' := s'.emit (.paused event.epoch)
    if s.epoch = 0 then s'.status reason else s'
  else s'

/-! ## The worker's periodic check -/

/-- The bounded history that `tick` keeps for diagnostics; `validLease` enforces the shorter deadlines. -/
def pruneLeases (now : Time) (s : TargetEngine) : TargetEngine :=
  let recent (issued : Time) : Bool := now - issued < networkTimeoutMax + challengeInterval + maxQueueAge + 1
  { s with leases := fun nonce => (s.leases nonce).filter recent }

/-- The challenge that `tick` issues when one is due; `bits` is what `secrets.randbits(64)` draws. -/
def issueChallenge (now : Time) (bits : Nat) (s : TargetEngine) : TargetEngine :=
  if s.connected ∧ now - s.lastChallenge ≥ challengeInterval then
    { s with leases := Function.update s.leases (orOne bits) (some now), lastChallenge := now }.emit
      (.challenge (orOne bits))
  else s

/-- Control ends when input is no longer permitted. -/
def pauseUnpermitted (env : Env) (s : TargetEngine) : TargetEngine :=
  if s.epoch ≠ 0 ∧ env.permitted = some false then s.reset env "Paused: input permission lost" else s

/-- Releases that failed are retried while paused. -/
def retryRelease (env : Env) (s : TargetEngine) : TargetEngine :=
  if s.epoch = 0 ∧ (s.keys ≠ ∅ ∨ s.buttons ≠ ∅) then s.reset env "Paused: retrying input release" else s

/-- The end of `tick`; the second component tells that `permitted()` raised. -/
def checkPermission (env : Env) (s : TargetEngine) : TargetEngine × Bool :=
  if s.epoch ≠ 0 ∧ env.permitted = none then (s, true)
  else ((s.pauseUnpermitted env).retryRelease env, false)

/-- `tick()`. -/
def tick (env : Env) (bits : Nat) (s : TargetEngine) : TargetEngine × Bool :=
  let s := (s.pruneLeases env.now).issueChallenge env.now bits
  (s.heartbeatExpired env).1.checkPermission env

/-! ## Processing one frame -/

/-- What became of the injection of one frame. -/
inductive Injected where
  | ok (s : TargetEngine)
  | refused (s : TargetEngine)
  | raised (s : TargetEngine)

/-- One injector call made for the frame `item`. -/
def inject (env : Env) (call : Call) (item : Item) (s : TargetEngine) : TargetEngine × Outcome :=
  let outcome := env.perform s.out call
  ({ s with out := s.out ++ [.call call outcome item.parts] }, outcome)

/-- A press: the set is updated before the call. -/
def press (env : Env) (call : Int → Bool → Call) (track : TargetEngine → TargetEngine) (item : Item)
    (s : TargetEngine) : Injected :=
  let r := (track s).inject env (call item.event.a true) item
  if r.2.isRaised then .raised r.1 else .ok r.1

/-- A release of something held: the set is updated after the call. -/
def unpress (env : Env) (call : Int → Bool → Call) (untrack : TargetEngine → TargetEngine) (item : Item)
    (s : TargetEngine) : Injected :=
  let r := s.inject env (call item.event.a false) item
  if r.2.isRaised then .raised r.1 else .ok (untrack r.1)

/-- A movement or a scroll. -/
def injectRelative (env : Env) (call : Int → Int → Call) (item : Item) (s : TargetEngine) : Injected :=
  let r := s.inject env (call item.event.a item.event.b) item
  if r.2.isRaised then .raised r.1 else .ok r.1

/-- The dispatch on the opcode in `process_one`. -/
def injectEvent (env : Env) (item : Item) (s : TargetEngine) : Injected :=
  let event := item.event
  match event.op with
  | .key =>
      if env.supportsKey.any (fun supports => !supports event.a) then
        .refused (s.reset env "Paused: this key is not supported on the target")
      else if event.b ≠ 0 then
        s.press env .key (fun s => { s with keys := s.keys.add event.a }) item
      else if event.a ∈ s.keys then
        s.unpress env .key (fun s => { s with keys := s.keys.discard event.a }) item
      else .ok s
  | .button =>
      if event.b ≠ 0 then
        s.press env .button (fun s => { s with buttons := s.buttons.add event.a }) item
      else if event.a ∈ s.buttons then
        s.unpress env .button (fun s => { s with buttons := s.buttons.discard event.a }) item
      else .ok s
  | .move => s.injectRelative env .move item
  | .scroll => s.injectRelative env .scroll item
  | _ => .ok s

/-- The early return of `process_one`: a late paused-mode probe or an old or duplicate frame cannot invalidate a
different activation. `ACTIVATE` is exempt. -/
def ignores (s : TargetEngine) (event : Event) : Prop :=
  event.op ≠ .activate ∧
    (if (event.op = .heartbeat ∨ event.op = .probe) ∧ event.epoch = 0 then s.epoch ≠ 0
     else event.epoch ≠ s.epoch ∨ s.epoch = 0 ∨ event.seq ≤ s.seq)

instance (s : TargetEngine) (event : Event) : Decidable (s.ignores event) :=
  inferInstanceAs (Decidable (_ ∧ _))

/-- The token age that `process_one` allows. Paused calibration has the absolute bound. -/
def tokenLimit (s : TargetEngine) (event : Event) : Time :=
  if event.op = .heartbeat ∧ s.epoch = 0 then networkTimeoutMax
  else if event.op = .heartbeat then s.network.timeout
  else s.network.inputTimeout

/-- The `ACTIVATE` branch of `process_one`; the second component tells that `permitted()` raised. -/
def activate (env : Env) (event : Event) (s : TargetEngine) : TargetEngine × Bool :=
  if event.epoch = 0 ∨ event.epoch = s.lastEpoch ∨ env.permitted = some false then
    (s.emit (.paused event.epoch), false)
  else if env.permitted = none then (s, true)
  else
    let s := s.reset env "Paused"
    let s := { s with epoch := event.epoch, lastEpoch := event.epoch, seq := event.seq, lastHeartbeat := env.now }
    ((s.emit (.activated event.epoch)).status "Controlling", false)

/-- The end of `process_one`: a stalled injection pauses, and probes and every 32nd frame are acknowledged. -/
def acknowledge (env : Env) (event : Event) (age : Time) (s : TargetEngine) : TargetEngine :=
  let s := if env.durationUs > 100000 then s.reset env "Paused: input injection stalled" else s
  if event.op = .probe ∨ event.seq % 32 = 0 then s.emit (ack event (age * 1000000) env.durationUs) else s

def withSeq (seq : Nat) (s : TargetEngine) : TargetEngine := { s with seq := seq }

/-- `process_one` for an active epoch, from `self.seq = event.seq` on. -/
def inputFrame (env : Env) (item : Item) (age : Time) (s : TargetEngine) : TargetEngine × Bool :=
  let event := item.event
  let s := s.withSeq event.seq
  if s.silent env.now then ((s.heartbeatExpired env).1, false)
  else if event.op = .heartbeat then (s.observeHeartbeat event env.now, false)
  else match s.injectEvent env item with
    | .raised s => (s, true)
    | .refused s => (s, false)
    | .ok s => (s.acknowledge env event age, false)

/-- The section of `process_one` under the lock; the second component tells that something raised. -/
def lockedBody (env : Env) (item : Item) (age : Time) (s : TargetEngine) : TargetEngine × Bool :=
  let event := item.event
  if s.blocked ∨ ¬ s.connected then (s, false)
  else if s.ignores event then (s, false)
  else
    let limit := s.tokenLimit event
    if ¬ s.validLease event.lease env.now limit then (s.rejectStale env event limit, false)
    else if event.op = .activate then s.activate env event
    else if event.op = .probe ∧ s.epoch = 0 then (s.emit (ack event (age * 1000000) 0), false)
    else if event.op = .heartbeat ∧ s.epoch = 0 then (s.observeHeartbeat event env.now, false)
    else if event.epoch ≠ s.epoch ∨ s.epoch = 0 ∨ event.seq ≤ s.seq then (s, false)
    else s.inputFrame env item age

/-- The locked section with the handler of `process_one` around it; the second component is what `process_one`
returns. -/
def processItem (env : Env) (item : Item) (age : Time) (s : TargetEngine) : TargetEngine × Bool :=
  match s.lockedBody env item age with
  | (s, false) => (s, true)
  | (s, true) => (s.reset env "Paused: input processing failed", false)

/-- `process_one()`. -/
def processOne (env : Env) (s : TargetEngine) : TargetEngine × Bool :=
  match s.queue.pop env.popNow with
  | (queue, .overload) => ({ s with queue := queue }.reset env "Paused: input processing failed", false)
  | (queue, .empty) => ({ s with queue := queue }, false)
  | (queue, .item item age) => { s with queue := queue }.processItem env item age

end TargetEngine

/-! ## Runs -/

/-- The operations of the engine. -/
inductive EngineOp where
  | receive (env : Env) (event : Event)
  | processOne (env : Env)
  | tick (env : Env) (bits : Nat)
  | reset (env : Env) (reason : String)
  | peerChanged (env : Env)
  | setConnected (env : Env) (value : Bool)

namespace EngineOp

/-- The clock readings that an operation makes, in order. -/
def readings : EngineOp → List Time
  | .receive env event => if event.op = .reset then [] else [env.now]
  | .processOne env => [env.popNow, env.now]
  | .tick env _ => [env.now]
  | .reset _ _ | .peerChanged _ | .setConnected _ _ => []

end EngineOp

namespace TargetEngine

/-- One operation. It starts without effects, so afterwards `out` lists its own effects only. -/
def step (s : TargetEngine) (op : EngineOp) : TargetEngine :=
  let s := { s with out := [] }
  match op with
  | .receive env event => s.receive env event
  | .processOne env => (s.processOne env).1
  | .tick env bits => (s.tick env bits).1
  | .reset env reason => s.reset env reason
  | .peerChanged env => s.peerChanged env
  | .setConnected env value => s.setConnected env value

/-- The state after a run. -/
def exec (s : TargetEngine) (ops : List EngineOp) : TargetEngine := ops.foldl step s

/-- All effects of a run, oldest first. -/
def history (s : TargetEngine) : List EngineOp → List Out
  | [] => []
  | op :: ops => (s.step op).out ++ (s.step op).history ops

end TargetEngine

/-- The clock never goes back during a run. -/
def Monotonic (ops : List EngineOp) : Prop := (ops.flatMap EngineOp.readings).Pairwise (· ≤ ·)

end RemoteInput
