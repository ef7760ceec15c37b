import RemoteInput.Controller.Semantics
import RemoteInput.Wire.Lemmas.Queue

/-!
# What one handler of the controller can do

A handler is a few acts, or it sends a `RESET`. The clocks, the lease, the timing estimate and the deadlines only decide
which acts happen; no invariant speaks about them.
-/

namespace RemoteInput

namespace Controller

variable {env : ControllerEnv} {c c' d : Controller}

/-- `c'` differs from `c` at most in what decides about acts. -/
structure Like (c c' : Controller) : Prop where
  queue : c'.queue = c.queue
  connected : c'.connected = c.connected
  epoch : c'.epoch = c.epoch
  pendingEpoch : c'.pendingEpoch = c.pendingEpoch
  seq : c'.seq = c.seq
  outbox : c'.outbox = c.outbox
  scheduled : c'.scheduled = c.scheduled
  log : c'.log = c.log

theorem Like.refl (c : Controller) : c.Like c := ⟨rfl, rfl, rfl, rfl, rfl, rfl, rfl, rfl⟩

/-- `frame` goes to the outbox. -/
def push (now : Time) (frame : Event) (c : Controller) : Controller :=
  { c with seq := c.seq + 1, outbox := c.outbox.map (·.put now frame), log := c.log ++ [.sent frame] }

/-! ## Acts -/

/-- One act other than the sending of a `RESET`. -/
inductive Act (c : Controller) : Controller → Prop where
  | quiet : Act c c
  | stop : Act c c.stopControl
  | schedule : Act c (c.schedule .activate)
  | emit (now : Time) (event : Event) (hin : event.op.isInput = true) (hc : c.connected = true) (he : c.epoch ≠ 0)
      (hep : event.epoch = c.epoch) (hok : (c.queue.put now event).ok = true) :
      Act c { c with queue := (c.queue.put now event).queue, log := c.log ++ [.emitted event] }
  | overflow (queue : InputQueue) (event : Event) (hin : event.op.isInput = true) (hc : c.connected = true)
      (he : c.epoch ≠ 0) (hep : event.epoch = c.epoch) :
      Act c ({ c with queue := queue, log := c.log ++ [.emitted event] } : Controller).stopControl
  | stall (queue : InputQueue) : Act c ({ c with queue := queue } : Controller).stopControl
  | unschedule (rest : List Callback) (h : c.scheduled = .activate :: rest) : Act c { c with scheduled := rest }
  | begin (now : Time) (frame : Event) (rest : List Callback) (h : c.scheduled = .activate :: rest)
      (hc : c.connected = true) (he : c.epoch = 0) (hp : c.pendingEpoch = 0) (hop : frame.op = .activate)
      (h0 : frame.epoch ≠ 0) (hseq : frame.seq = c.seq + 1) :
      Act c (push now frame { c with scheduled := rest, pendingEpoch := frame.epoch, queue := c.queue.clear })
  | skip (item : Item) (rest : List Item) (hq : c.queue.items = item :: rest)
      (h : c.epoch = 0 ∨ item.event.epoch ≠ c.epoch) : Act c { c with queue := { c.queue with items := rest } }
  | take (now : Time) (item : Item) (stamp lease : Nat) (rest : List Item) (hq : c.queue.items = item :: rest)
      (he : c.epoch ≠ 0) (hep : item.event.epoch = c.epoch) :
      Act c (push now { item.event with seq := c.seq + 1, stamp := stamp, lease := lease }
        { c with queue := { c.queue with items := rest } })
  | beat (now : Time) (frame : Event) (hop : frame.op = .heartbeat ∨ frame.op = .probe)
      (hep : frame.epoch = c.epoch ∨ frame.epoch = c.pendingEpoch) (hseq : frame.seq = c.seq + 1) :
      Act c (c.push now frame)
  | activated (hp : c.pendingEpoch ≠ 0) : Act c { c with epoch := c.pendingEpoch, pendingEpoch := 0 }

/-- A `RESET` is sent, because of a stale `activated` or because a stop has scheduled it. -/
inductive Resets (c : Controller) : Controller → Prop where
  | stale (now : Time) (frame : Event) (ho : c.outbox.isSome) (hop : frame.op = .reset) (hseq : frame.seq = c.seq + 1) :
      Resets c (c.push now frame)
  | scheduled (now : Time) (frame : Event) (rest : List Callback) (h : c.scheduled = .sendReset :: rest)
      (hop : frame.op = .reset) (hseq : frame.seq = c.seq + 1) :
      Resets c (push now frame { c with scheduled := rest })
  | offline (rest : List Callback) (h : c.scheduled = .sendReset :: rest) (ho : c.outbox = none) :
      Resets c { c with scheduled := rest }

/-- Some acts, one after the other. -/
inductive Acts : Controller → Controller → Prop where
  | one {c d c' : Controller} (hl : c.Like d) (h : Act d c') : Acts c c'
  | more {c d c' : Controller} (h : Acts c d) (h' : Acts d c') : Acts c c'

theorem Acts.like (h : c.Like c') : Acts c c' := .one h .quiet

theorem Acts.act (h : Act c c') : Acts c c' := .one (.refl c) h

/-- What an invariant must survive to hold after every handler. -/
theorem Acts.induction {P : Controller → Prop} (hlike : ∀ c d, c.Like d → P c → P d) (hact : ∀ c d, Act c d → P c → P d)
    (h : Acts c c') (hc : P c) : P c' := by
  induction h with
  | one hl h => exact hact _ _ h (hlike _ _ hl hc)
  | more _ _ ih ih' => exact ih' (ih hc)

/-! ## The outbox -/

/-- The frames that wait for the writer. -/
def waiting (c : Controller) : List Event := (c.outbox.map Outbox.waiting).getD []

/-- The outbox has dropped nothing. -/
def Lossless (c : Controller) : Prop := ∀ outbox, c.outbox = some outbox → outbox.failed = false

theorem push_lossless {now : Time} {frame : Event} (ho : c.outbox.isSome = true) (h : (c.push now frame).Lossless) :
    c.Lossless ∧ (c.push now frame).waiting = c.waiting ++ [frame] := by
  obtain ⟨o, ho⟩ := Option.isSome_iff_exists.mp ho
  have hf : (o.put now frame).failed = false := h _ (by simp [push, ho])
  rcases o.put_cases now frame with hfail | ⟨hof, _, hw⟩
  · rw [hf] at hfail; cases hfail
  · refine ⟨fun outbox he => ?_, ?_⟩
    · rw [ho] at he; cases he; exact hof
    · simp [waiting, push, ho, hw]

/-! ## Handlers -/

theorem enqueue_acts (env : ControllerEnv) (input : Input) (c : Controller) : Acts c (c.enqueue env input.event) := by
  unfold enqueue
  split
  · exact .act .quiet
  rename_i h
  push Not at h
  have hc : c.connected = true := by simpa using h.1
  unfold capture
  dsimp only
  split
  · rename_i hok; exact .act (.emit env.now { input.event with epoch := c.epoch } input.isInput hc h.2 rfl hok)
  · exact .act (.overflow _ { input.event with epoch := c.epoch } input.isInput hc h.2 rfl)

theorem toggle_acts (c : Controller) : Acts c c.toggle := by
  unfold toggle
  split
  · exact .act .stop
  · exact .act .schedule

theorem sender_acts (env : ControllerEnv) (c : Controller) : Acts c (c.sender env) := by
  have hc := c.queue.pop_cases env.now
  unfold sender
  generalize c.queue.pop env.now = r at hc
  cases hc with
  | failed => exact .act (.stall _)
  | empty => exact .act .quiet
  | expired => exact .act (.stall _)
  | item item rest _ hq =>
      dsimp only
      split
      · rename_i h; exact .act (.skip item rest hq h)
      · rename_i h
        push Not at h
        exact .act (.take env.now item env.stamp c.lease rest hq h.1 h.2)

theorem expire_acts (env : ControllerEnv) (c : Controller) : Acts c (c.expire env) := by
  unfold expire
  split
  · exact .act .stop
  split
  · exact .act .stop
  split
  · exact .act .stop
  · exact .act .quiet

theorem probe_acts (env : ControllerEnv) (c : Controller) : Acts c (c.probe env) := by
  unfold probe
  split
  · exact .one (d := { c with lastProbe := env.now }) ⟨rfl, rfl, rfl, rfl, rfl, rfl, rfl, rfl⟩
      (.beat env.now (c.frame env { op := .probe, epoch := c.epoch }) (.inr rfl) (.inl rfl) rfl)
  · exact .act .quiet

theorem activate_acts (env : ControllerEnv) {rest : List Callback} (h : c.scheduled = .activate :: rest) :
    Acts c (({ c with scheduled := rest } : Controller).activate env) := by
  unfold activate
  split
  · exact .act (.unschedule rest h)
  rename_i hidle
  push Not at hidle
  split
  · exact .act (.unschedule rest h)
  rename_i hready
  push Not at hready
  exact .one (d := { c with activateDeadline := env.now + c.network.inputTimeout }) ⟨rfl, rfl, rfl, rfl, rfl, rfl, rfl, rfl⟩
    (.begin env.now (c.frame env { op := .activate, epoch := orOne env.bits }) rest h (by simpa using hready.1) hidle.1
      hidle.2 rfl (orOne_ne_zero _) rfl)

theorem sendReset_resets (env : ControllerEnv) {rest : List Callback} (h : c.scheduled = .sendReset :: rest) :
    Resets c (({ c with scheduled := rest } : Controller).sendReset env) := by
  unfold sendReset
  split
  · exact .scheduled env.now (c.frame env { op := .reset }) rest h rfl rfl
  · rename_i ho; exact .offline rest h (by simpa using ho)

/-- The oldest scheduled function is `send_reset`. -/
def ResetNext (c : Controller) : Prop := c.scheduled.head? = some .sendReset

instance (c : Controller) : Decidable c.ResetNext := inferInstanceAs (Decidable (_ = _))

theorem step_cases {op : ControllerOp} (h : c.step env op = some c') :
    Acts c c' ∨ op = .callback ∧ c.ResetNext ∧ Resets c c' := by
  cases op with
  | enqueue input => cases h; exact .inl (enqueue_acts env input c)
  | toggle => cases h; exact .inl (toggle_acts c)
  | stop => cases h; exact .inl (.act .stop)
  | callback =>
      unfold step callback at h
      dsimp only at h
      split at h
      · cases h
      · rename_i hs; cases h; exact .inl (activate_acts env hs)
      · rename_i hs; cases h; exact .inr ⟨rfl, by rw [ResetNext, hs]; rfl, sendReset_resets env hs⟩
  | sender => cases h; exact .inl (sender_acts env c)
  | monitor => cases h; exact .inl (.more (expire_acts env c) (probe_acts env _))

/-- The message is an `activated` that the controller does not wait for. -/
def StaleActivated (c : Controller) (message : Message) : Prop :=
  match message with
  | .activated epoch => epoch ≠ c.pendingEpoch ∨ c.pendingEpoch = 0
  | _ => False

instance (c : Controller) (message : Message) : Decidable (c.StaleActivated message) := by
  unfold StaleActivated; cases message <;> infer_instance

theorem read_cases {message : Message} (h : c.read env message = some c') :
    Acts c c' ∧ (∀ epoch, message = .activated epoch → c'.epoch = epoch ∧ c.pendingEpoch = epoch ∨ c.outbox = none) ∨
      c.StaleActivated message ∧ Resets c c' := by
  unfold read at h
  split at h <;> cases h
  · refine .inl ⟨?_, by simp⟩
    unfold readAck
    dsimp only
    split
    · exact .like ⟨rfl, rfl, rfl, rfl, rfl, rfl, rfl, rfl⟩
    · exact .act .quiet
  · rename_i nonce
    refine .inl ⟨?_, by simp⟩
    unfold readChallenge
    dsimp only
    split
    · refine .one (d := { c with lease := nonce, leaseReceived := env.now }) ⟨rfl, rfl, rfl, rfl, rfl, rfl, rfl, rfl⟩ ?_
      refine .beat env.now _ (.inl rfl) ?_ rfl
      show (if c.epoch ≠ 0 then c.epoch else c.pendingEpoch) = _ ∨ _
      split
      · exact .inl rfl
      · exact .inr rfl
    · exact .like ⟨rfl, rfl, rfl, rfl, rfl, rfl, rfl, rfl⟩
  · rename_i epoch
    unfold readActivated
    split
    · rename_i hstale
      unfold sendReset
      split
      · rename_i ho
        exact .inr ⟨hstale, .stale env.now (c.frame env { op := .reset }) ho rfl rfl⟩
      · rename_i ho
        exact .inl ⟨.act .quiet, fun _ _ => .inr (by simpa using ho)⟩
    · rename_i hfresh
      push Not at hfresh
      refine .inl ⟨.one (d := { c with active := true }) ⟨rfl, rfl, rfl, rfl, rfl, rfl, rfl, rfl⟩ (.activated hfresh.2), ?_⟩
      intro e he
      cases he
      exact .inl ⟨hfresh.1.symm, hfresh.1.symm⟩
  · refine .inl ⟨?_, by simp⟩
    split
    · exact .act .stop
    · exact .act .quiet

end Controller

end RemoteInput
