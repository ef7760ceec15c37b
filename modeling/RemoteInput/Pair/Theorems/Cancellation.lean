import RemoteInput.Controller.Lemmas.Log
import RemoteInput.Pair.Theorems.Activation

/-!
# A `RESET` and the epochs that the controller has stopped
-/

namespace RemoteInput

/-- The controller stopped `e`, active or pending. -/
def Stopped (e : Nat) (log : List Deed) : Prop := ∃ x y, .stopped x y ∈ log ∧ (x = e ∨ y = e)

theorem Stopped.append {e : Nat} {log : List Deed} (h : Stopped e log) (more : List Deed) : Stopped e (log ++ more) := by
  obtain ⟨x, y, hmem, he⟩ := h
  exact ⟨x, y, List.mem_append_left _ hmem, he⟩

/-! ## The controller -/

namespace Controller

variable {c c' : Controller}

/-- A `RESET` is sent after every epoch begun before it was stopped. -/
def Justified (before : List Deed) (deed : Deed) : Prop :=
  ∀ frame, deed = .sent frame → frame.op = .reset → ∀ f ∈ sentFrames before, f.op = .activate → Stopped f.epoch before

/-- Every epoch begun is active, pending or stopped, and every `RESET` is justified. -/
structure Settled (c : Controller) : Prop where
  begun : ∀ f ∈ sentFrames c.log, f.op = .activate → c.epoch = f.epoch ∨ c.pendingEpoch = f.epoch ∨ Stopped f.epoch c.log
  nonzero : ∀ f ∈ sentFrames c.log, f.op = .activate → f.epoch ≠ 0
  single : c.epoch = 0 ∨ c.pendingEpoch = 0
  justified : Lawful Justified c.log

theorem Settled.congr (h : c.Settled) (h1 : c'.epoch = c.epoch) (h2 : c'.pendingEpoch = c.pendingEpoch)
    (h3 : c'.log = c.log) : c'.Settled := by
  constructor
  · rw [h1, h2, h3]; exact h.begun
  · rw [h3]; exact h.nonzero
  · rw [h1, h2]; exact h.single
  · rw [h3]; exact h.justified

theorem Settled.stop (h : c.Settled) : c.stopControl.Settled := by
  have hframes : sentFrames c.stopControl.log = sentFrames c.log := by simp [stopControl, Controller.schedule]
  constructor
  · intro f hf hop
    rw [hframes] at hf
    have hstopped : Stopped f.epoch c.stopControl.log := by
      rcases h.begun f hf hop with he | he | he
      · exact ⟨_, _, List.mem_append_right _ (List.mem_singleton.mpr rfl), .inl he⟩
      · exact ⟨_, _, List.mem_append_right _ (List.mem_singleton.mpr rfl), .inr he⟩
      · exact he.append _
    exact .inr (.inr hstopped)
  · rw [hframes]; exact h.nonzero
  · exact .inl rfl
  · exact h.justified.concat fun frame hf => by cases hf

theorem Settled.record (h : c.Settled) (queue : InputQueue) (event : Event) :
    ({ c with queue := queue, log := c.log ++ [.emitted event] } : Controller).Settled := by
  refine ⟨fun f hf hop => ?_, ?_, h.single, h.justified.concat fun frame hf => by cases hf⟩
  · exact (h.begun f (by simpa using hf) hop).imp id (Or.imp id fun hs => hs.append _)
  · simpa using h.nonzero

/-- One more frame, which is no `RESET` unless it is justified. -/
theorem Settled.push {now : Time} {frame : Event} (h : c.Settled)
    (hbegun : frame.op = .activate → frame.epoch ≠ 0 ∧ c.pendingEpoch = frame.epoch)
    (hreset : frame.op = .reset → c.epoch = 0 ∧ c.pendingEpoch = 0) : (c.push now frame).Settled := by
  have hmem : ∀ f, f ∈ sentFrames (c.log ++ [.sent frame]) → f ∈ sentFrames c.log ∨ f = frame := by simp
  constructor
  · intro f hf hop
    rcases hmem f hf with hf | rfl
    · exact (h.begun f hf hop).imp id (Or.imp id fun hs => hs.append _)
    · exact .inr (.inl (hbegun hop).2)
  · intro f hf hop
    rcases hmem f hf with hf | rfl
    · exact h.nonzero f hf hop
    · exact (hbegun hop).1
  · exact h.single
  · refine h.justified.concat ?_
    intro frame' he hop f hf hact
    cases he
    -- nothing is active or pending, so the epoch has been stopped
    rcases h.begun f hf hact with he | he | he
    · exact absurd (he.symm.trans (hreset hop).1) (h.nonzero f hf hact)
    · exact absurd (he.symm.trans (hreset hop).2) (h.nonzero f hf hact)
    · exact he

theorem Settled.act (h : c.Settled) (ha : c.Act c') (hinput : ∀ it ∈ c.queue.items, it.event.op.isInput = true) :
    c'.Settled := by
  cases ha with
  | quiet | schedule | unschedule | skip => exact h.congr rfl rfl rfl
  | stop => exact h.stop
  | emit => exact h.record _ _
  | overflow queue event => exact (h.record queue event).stop
  | stall => exact Settled.stop (h.congr rfl rfl rfl)
  | begin now frame rest _ _ h0 hp hop hf =>
      refine Settled.push ?_ (fun _ => ⟨hf, rfl⟩) (by simp [hop])
      -- nothing was active or pending before
      refine ⟨fun f hf hact => .inr (.inr ?_), h.nonzero, .inl h0, h.justified⟩
      rcases h.begun f hf hact with he | he | he
      · exact absurd (he.symm.trans h0) (h.nonzero f hf hact)
      · exact absurd (he.symm.trans hp) (h.nonzero f hf hact)
      · exact he
  | take now item stamp lease rest hq =>
      have hop := hinput item (by simp [hq])
      refine Settled.push (h.congr rfl rfl rfl) ?_ ?_
      · intro hact; rw [show item.event.op = .activate from hact] at hop; cases hop
      · intro hact; rw [show item.event.op = .reset from hact] at hop; cases hop
  | beat now frame hop =>
      refine h.push ?_ ?_
      · intro hact; rcases hop with hop | hop <;> rw [hop] at hact <;> cases hact
      · intro hact; rcases hop with hop | hop <;> rw [hop] at hact <;> cases hact
  | activated hp =>
      refine ⟨fun f hf hact => ?_, h.nonzero, .inr rfl, h.justified⟩
      rcases h.begun f hf hact with he | he | he
      · have h0 : c.epoch = 0 := h.single.resolve_right hp
        exact absurd (he.symm.trans h0) (h.nonzero f hf hact)
      · exact .inl he
      · exact .inr (.inr he)

theorem Settled.idle (h : c.Settled) (hidle : c.epoch = 0 ∧ c.pendingEpoch = 0) (hr : c.Resets c') : c'.Settled := by
  cases hr with
  | stale now frame _ hop => exact h.push (by simp [hop]) (fun _ => hidle)
  | scheduled now frame rest _ hop => exact Settled.push (h.congr rfl rfl rfl) (by simp [hop]) (fun _ => hidle)
  | offline => exact h.congr rfl rfl rfl

/-- Only events of the capture are queued. -/
def Capturing (c : Controller) : Prop := ∀ it ∈ c.queue.items, it.event.op.isInput = true

theorem capturing_stop (c : Controller) : c.stopControl.Capturing := by
  simp [Capturing, stopControl, Controller.schedule, InputQueue.clear]

theorem Capturing.act (h : c.Capturing) (ha : c.Act c') : c'.Capturing := by
  cases ha with
  | quiet | schedule | unschedule | beat | activated => exact h
  | stop | overflow | stall => exact capturing_stop _
  | emit now event hin _ _ _ hok =>
      have hc := c.queue.put_cases now event
      rw [hok] at hc
      unfold Capturing
      dsimp only
      generalize (c.queue.put now event).queue = q at hc
      cases hc with
      | merged init last _ hq hco =>
          intro it hit
          rcases List.mem_append.mp hit with hit | hit
          · exact h it (by rw [hq]; exact List.mem_append_left _ hit)
          · rw [List.mem_singleton.mp hit]; exact hin
      | appended =>
          intro it hit
          rcases List.mem_append.mp hit with hit | hit
          · exact h it hit
          · rw [List.mem_singleton.mp hit]; exact hin
  | begin => intro it hit; simp [push, InputQueue.clear] at hit
  | skip item rest hq => exact fun it hit => h it (by rw [hq]; exact List.mem_cons_of_mem _ hit)
  | take now item stamp lease rest hq => exact fun it hit => h it (by rw [hq]; exact List.mem_cons_of_mem _ hit)

theorem Capturing.resets (h : c.Capturing) (hr : c.Resets c') : c'.Capturing := by cases hr <;> exact h

/-- What holds of the controller in a run whose `RESET`s are all sent while it is idle. -/
structure Careful (c : Controller) : Prop where
  settled : c.Settled
  capturing : c.Capturing
  numbered : c.Numbered

theorem Careful.acts (h : c.Careful) (ha : Acts c c') : c'.Careful := by
  refine ha.induction (P := Careful) (fun c d hl h => ?_) (fun c d ha h => ?_) h
  · exact ⟨h.settled.congr hl.epoch hl.pendingEpoch hl.log, by rw [Capturing, hl.queue]; exact h.capturing,
      h.numbered.congr hl.log hl.seq⟩
  · exact ⟨h.settled.act ha h.capturing, h.capturing.act ha, h.numbered.act ha⟩

theorem Careful.resets (h : c.Careful) (hidle : c.epoch = 0 ∧ c.pendingEpoch = 0) (hr : c.Resets c') : c'.Careful :=
  ⟨h.settled.idle hidle hr, h.capturing.resets hr, h.numbered.resets hr⟩

end Controller

/-! ## Both ends -/

namespace Pair

variable {p p' : Pair}

/-- The target has got `delivered`, the rest of what was sent is on its way, and nothing else activates the target. -/
structure Fifo (delivered : List Event) (p : Pair) : Prop where
  online : p.ctl.outbox.isSome = true
  sofar : ∃ rest, sentFrames p.ctl.log = delivered ++ framesOf p.up ++ rest
  all : p.ctl.Lossless → sentFrames p.ctl.log = delivered ++ framesOf p.up ++ p.ctl.waiting
  queued : ∀ it ∈ p.target.items, it.event.op = .activate → it.event ∈ delivered
  started : p.target.engine.epoch ≠ 0 → ∃ f ∈ delivered, f.op = .activate ∧ f.epoch = p.target.engine.epoch

variable {delivered : List Event}

theorem Fifo.appends (h : p.Fifo delivered) {c : Controller} {new : List Event} (ha : p.ctl.Appends c new)
    (down : List Message) : ({ p with ctl := c, down := down } : Pair).Fifo delivered := by
  refine ⟨ha.online h.online, ?_, fun hl => ?_, h.queued, h.started⟩
  · obtain ⟨rest, hr⟩ := h.sofar
    exact ⟨rest ++ new, by rw [ha.sent, hr]; simp⟩
  · obtain ⟨hl', hw⟩ := ha.waiting h.online hl
    rw [ha.sent, h.all hl', hw]
    simp

theorem Fifo.write (h : p.Fifo delivered) {now : Time} (hs : p.write now = some p') : p'.Fifo delivered := by
  unfold Pair.write at hs
  split at hs
  · rename_i frame outbox ho
    cases hs
    obtain ⟨o, ho, ht⟩ := Option.bind_eq_some_iff.mp ho
    obtain ⟨hf, -, hw⟩ := Outbox.take_eq ht
    have hl : p.ctl.Lossless := fun o' ho' => by rw [ho] at ho'; cases ho'; exact hf
    have hall : sentFrames p.ctl.log = delivered ++ framesOf (p.up ++ [.frame frame]) ++ outbox.waiting := by
      rw [h.all hl, Controller.waiting, ho, framesOf_append]
      simp [hw, framesOf]
    exact ⟨rfl, ⟨_, hall⟩, fun _ => hall, h.queued, h.started⟩
  · cases hs

/-- An operation of the target that receives at most the frame `arrived`. -/
theorem Fifo.thread (h : p.Fifo delivered) {op : ThreadOp} (up : List Message) (arrived : List Event)
    (hup : framesOf p.up = arrived ++ framesOf up) (hop : ∀ env event, op = .receive env event → event ∈ arrived)
    (hs : ({ p with up := up } : Pair).thread op = some p') : p'.Fifo (delivered ++ arrived) := by
  obtain ⟨target, ht, rfl⟩ := Option.map_eq_some_iff.mp hs
  have ht : p.target.step op = some target := ht
  obtain ⟨rest, hrest⟩ := h.sofar
  have hassoc : ∀ tail, delivered ++ framesOf p.up ++ tail = delivered ++ arrived ++ framesOf up ++ tail := by
    intro tail; rw [hup]; simp
  have hmem : ∀ {f}, f ∈ delivered → f ∈ delivered ++ arrived := fun hf => List.mem_append_left _ hf
  suffices hq : (∀ it ∈ target.items, it.event.op = .activate → it.event ∈ delivered ++ arrived) ∧
      (target.engine.epoch ≠ 0 → ∃ f ∈ delivered ++ arrived, f.op = .activate ∧ f.epoch = target.engine.epoch) from
    ⟨h.online, ⟨rest, hrest.trans (hassoc rest)⟩, fun hl => (h.all hl).trans (hassoc _), hq.1, hq.2⟩
  have hkept : target.engine.epoch = p.target.engine.epoch → target.engine.epoch ≠ 0 →
      ∃ f ∈ delivered ++ arrived, f.op = .activate ∧ f.epoch = target.engine.epoch := by
    intro he h0
    obtain ⟨f, hf, hact, hep⟩ := h.started (he ▸ h0)
    exact ⟨f, hmem hf, hact, hep.trans he.symm⟩
  cases EngineThreads.step_cases ht with
  | received env event hev hr hok hq hreg hstill =>
      refine ⟨fun it hit hact => ?_, hkept hstill.epoch⟩
      rw [EngineThreads.items, hreg, hq] at hit
      have hc := p.target.engine.queue.put_cases env.now event
      rw [hok] at hc
      generalize (p.target.engine.queue.put env.now event).queue = q at hc hit
      rcases List.mem_append.mp hit with hit | hit
      · exact hmem (h.queued it (List.mem_append_left _ hit) hact)
      · cases hc with
        | merged init last _ hitems hco =>
            rcases List.mem_append.mp hit with hit | hit
            · exact hmem (h.queued it (List.mem_append_right _ (by rw [hitems]; exact List.mem_append_left _ hit)) hact)
            · -- a merged event is a move
              rw [List.mem_singleton.mp hit] at hact
              exact absurd (hco.1.symm.trans hact) (by decide)
        | appended =>
            rcases List.mem_append.mp hit with hit | hit
            · exact hmem (h.queued it (List.mem_append_right _ hit) hact)
            · rw [List.mem_singleton.mp hit]
              exact List.mem_append_right _ (hop env event hev)
  | popped env _ hitems hstill =>
      exact ⟨fun it hit hact => hmem (h.queued it (hitems ▸ hit) hact), hkept hstill.epoch⟩
  | processed env item age _ hreg hidle hrest _ hsession _ =>
      have hold : ∀ it ∈ target.items, it ∈ p.target.items := by
        intro it hit
        rw [EngineThreads.items, hidle] at hit
        rcases hrest with hr | hr
        · exact List.mem_append_right _ (by simpa [Register.items, hr] using hit)
        · simp [Register.items, hr] at hit
      refine ⟨fun it hit hact => hmem (h.queued it (hold it hit) hact), ?_⟩
      cases hsession with
      | ended h0 => exact fun he => absurd h0 he
      | kept hk => exact hkept hk
      | renewed _ _ hk => exact hkept hk
      | activated hact _ _ hep =>
          intro _
          have hitem : item ∈ p.target.items := by simp [EngineThreads.items, hreg, Register.items]
          exact ⟨item.event, hmem (h.queued item hitem hact), hact, hep.symm⟩
  | other hreg hq hsame =>
      refine ⟨fun it hit hact => hmem (h.queued it ?_ hact), fun he => ?_⟩
      · rw [EngineThreads.items, hreg] at hit
        rcases hq with hq | hq
        · rw [hq, List.append_nil] at hit; exact List.mem_append_left _ hit
        · rw [hq] at hit; exact hit
      · rcases hsame with h0 | ⟨hk, _⟩
        · exact absurd h0 he
        · exact hkept hk he

theorem Fifo.deliver (h : p.Fifo delivered) {env : Env} (hs : p.deliver env = some p') :
    ∃ delivered', p'.Fifo delivered' := by
  unfold Pair.deliver at hs
  split at hs
  · cases hs
  rename_i message rest hu
  obtain ⟨op, ho, hs⟩ := Option.bind_eq_some_iff.mp hs
  have hsplit : framesOf p.up = framesOf [message] ++ framesOf rest := by rw [hu, ← framesOf_append]; rfl
  refine ⟨_, h.thread _ _ hsplit (fun env' event he => ?_) hs⟩
  cases message with
  | frame event' => cases ho; cases he; exact List.mem_singleton.mpr rfl
  | peerJoined => cases ho; cases he
  | peerGone => cases ho; cases he
  | _ => cases ho

/-! ## Runs -/

/-- `action` sends a `RESET`. -/
def SendsReset (p : Pair) : PairAction → Prop
  | .handle _ .callback => p.ctl.ResetNext
  | .read _ =>
      match p.down with
      | message :: _ => p.ctl.StaleActivated message
      | [] => False
  | _ => False

instance (p : Pair) (action : PairAction) : Decidable (p.SendsReset action) := by
  unfold SendsReset; split <;> try split
  all_goals infer_instance

/-- A `RESET` that `action` sends is sent while nothing is active or pending at the controller. -/
def ResetsIdle (p : Pair) (action : PairAction) : Prop :=
  p.SendsReset action → p.ctl.epoch = 0 ∧ p.ctl.pendingEpoch = 0

instance (p : Pair) (action : PairAction) : Decidable (p.ResetsIdle action) := inferInstanceAs (Decidable (_ → _))

def AllResetsIdle : Pair → List PairAction → Prop
  | _, [] => True
  | p, action :: actions => p.ResetsIdle action ∧ ∀ p' ∈ p.step action, p'.AllResetsIdle actions

def decideAllResetsIdle : ∀ (actions : List PairAction) (p : Pair), Decidable (p.AllResetsIdle actions)
  | [], _ => .isTrue trivial
  | action :: actions, p =>
      match h : p.step action with
      | none => decidable_of_iff (p.ResetsIdle action) (by simp [AllResetsIdle, h])
      | some p' =>
          let _ := decideAllResetsIdle actions p'
          decidable_of_iff (p.ResetsIdle action ∧ p'.AllResetsIdle actions) (by simp [AllResetsIdle, h])

instance (p : Pair) (actions : List PairAction) : Decidable (p.AllResetsIdle actions) := decideAllResetsIdle actions p

/-- Both sides of the invariant. -/
def Calm (p : Pair) : Prop := p.ctl.Careful ∧ ∃ delivered, p.Fifo delivered

theorem thread_ctl {op : ThreadOp} (hs : p.thread op = some p') : p'.ctl = p.ctl := by
  obtain ⟨target, _, rfl⟩ := Option.map_eq_some_iff.mp hs
  rfl

theorem Calm.step (h : p.Calm) {action : PairAction} (hidle : p.ResetsIdle action) (hs : p.step action = some p') :
    p'.Calm := by
  obtain ⟨hctl, delivered, hfifo⟩ := h
  have htarget : ∀ op, (∀ env event, op = .receive env event → event ∈ ([] : List Event)) → p.thread op = some p' →
      p'.Calm := by
    intro op hop hs
    refine ⟨by rw [thread_ctl hs]; exact hctl, _, hfifo.thread p.up [] rfl hop hs⟩
  cases action with
  | handle env op =>
      obtain ⟨c, hc, rfl⟩ := Option.map_eq_some_iff.mp hs
      rcases Controller.step_cases hc with ha | ⟨rfl, hnext, hr⟩
      · obtain ⟨new, hn⟩ := ha.appends
        exact ⟨hctl.acts ha, delivered, hfifo.appends hn p.down⟩
      · obtain ⟨new, hn⟩ := hr.appends
        exact ⟨hctl.resets (hidle hnext) hr, delivered, hfifo.appends hn p.down⟩
  | write now =>
      refine ⟨?_, delivered, hfifo.write hs⟩
      unfold Pair.step Pair.write at hs
      dsimp only at hs
      split at hs
      · cases hs
        exact ⟨hctl.settled.congr rfl rfl rfl, hctl.capturing, hctl.numbered.congr rfl rfl⟩
      · cases hs
  | read env =>
      unfold Pair.step Pair.read at hs
      dsimp only at hs
      split at hs
      · cases hs
      rename_i message rest hd
      obtain ⟨c, hc, rfl⟩ := Option.map_eq_some_iff.mp hs
      rcases Controller.read_cases hc with ⟨ha, _⟩ | ⟨hstale, hr⟩
      · obtain ⟨new, hn⟩ := ha.appends
        exact ⟨hctl.acts ha, delivered, hfifo.appends hn rest⟩
      · obtain ⟨new, hn⟩ := hr.appends
        have hsends : p.SendsReset (.read env) := by simpa [SendsReset, hd] using hstale
        exact ⟨hctl.resets (hidle hsends) hr, delivered, hfifo.appends hn rest⟩
  | deliver env =>
      refine ⟨?_, hfifo.deliver hs⟩
      unfold Pair.step Pair.deliver at hs
      dsimp only at hs
      split at hs
      · cases hs
      · obtain ⟨op, _, hs⟩ := Option.bind_eq_some_iff.mp hs
        rw [thread_ctl hs]; exact hctl
  | tick env bits => exact htarget _ (by simp) hs
  | pop env => exact htarget _ (by simp) hs
  | body env => exact htarget _ (by simp) hs

theorem Calm.run (h : p.Calm) (actions : List PairAction) (hidle : p.AllResetsIdle actions)
    (hr : p.run actions = some p') : p'.Calm := by
  induction actions generalizing p with
  | nil => cases hr; exact h
  | cons action actions ih =>
      obtain ⟨q, hq, hr⟩ := Option.bind_eq_some_iff.mp hr
      exact ih (h.step hidle.1 hq) (hidle.2 q hq) hr

/-- A new connection: no earlier session, and the controller has done nothing yet. -/
structure Started (p : Pair) : Prop extends Joined p where
  alone : p.up = [.peerJoined]
  unlogged : p.ctl.log = []
  unqueued : p.ctl.queue.items = []
  inactive : p.target.engine.epoch = 0
  unreceived : p.target.items = []

theorem Started.calm (h : p.Started) : p.Calm := by
  refine ⟨⟨⟨?_, ?_, .inl h.idle.1, ?_⟩, ?_, ?_, ?_⟩, [], ?_, ⟨[], ?_⟩, ?_, ?_, ?_⟩
  · simp [h.unlogged]
  · simp [h.unlogged]
  · rw [h.unlogged]; exact lawful_nil
  · simp [Controller.Capturing, h.unqueued]
  · rw [h.unlogged]; exact lawful_nil
  · simp [h.unlogged]
  · rw [h.outbox]; rfl
  · simp [h.unlogged, h.alone, framesOf]
  · intro _; simp [h.unlogged, h.alone, framesOf, Controller.waiting, h.outbox, Outbox.waiting]
  · simp [h.unreceived]
  · exact fun h0 => absurd h.inactive h0

/-- In a run whose `RESET`s are all sent while the controller is idle, a `RESET` that ends the epoch `e` was sent after the
controller had stopped `e`. -/
theorem reset_ends_stopped {p₀ p : Pair} {actions : List PairAction} {event : Event} {rest : List Message} {e : Nat}
    (h : p₀.Started) (hr : p₀.run actions = some p) (hidle : p₀.AllResetsIdle actions) (hup : p.up = .frame event :: rest)
    (hop : event.op = .reset) (he : p.target.engine.epoch = e) (h0 : e ≠ 0) :
    .sent event ∈ p.ctl.log ∧ ∀ before after, p.ctl.log = before ++ .sent event :: after → Stopped e before := by
  subst he
  obtain ⟨hctl, delivered, hfifo⟩ := h.calm.run actions hidle hr
  obtain ⟨tail, htail⟩ := hfifo.sofar
  have hframes : sentFrames p.ctl.log = delivered ++ event :: (framesOf rest ++ tail) := by
    rw [htail, hup]; simp [framesOf]
  obtain ⟨l, l', hlog, hl, -⟩ := sentFrames_split hframes
  refine ⟨by rw [hlog]; simp, fun before after hsplit => ?_⟩
  obtain ⟨rfl, rfl⟩ := hctl.numbered.unique hlog hsplit
  obtain ⟨f, hf, hact, hep⟩ := hfifo.started h0
  rw [← hep]
  exact hctl.settled.justified l _ l' hlog event rfl hop f (hl ▸ hf) hact

/-! ## A stop, and a stale `activated` -/

theorem fresh_started : fresh.Started := ⟨fresh_joined, rfl, rfl, rfl, rfl, rfl⟩

/-- `F9` while epoch 7 is active, up to the `RESET` that is then sent. -/
def stopping : List PairAction :=
  challenging ++ activating 7 ++ carried ++ carried ++ processed ++ processed ++
    [.read { now := 0 }, .handle { now := 0 } .toggle, .handle { now := 0 } .callback, .write 0]

theorem reset_ends_stopped_toggle : ∃ p event, fresh.run stopping = some p ∧ p.up = [.frame event] ∧
    event.op = .reset ∧ p.target.engine.epoch = 7 ∧ .sent event ∈ p.ctl.log ∧
    ∀ before after, p.ctl.log = before ++ .sent event :: after → Stopped 7 before := by
  have hrun : ((fresh.run stopping).map fun p => (p.up, p.target.engine.epoch)) =
      some ([.frame { op := .reset, seq := 3, lease := 1 }], 7) := by decide +kernel
  obtain ⟨p, hp, hrest⟩ := Option.map_eq_some_iff.mp hrun
  simp only [Prod.mk.injEq] at hrest
  have hidle : fresh.AllResetsIdle stopping := by decide +kernel
  obtain ⟨hsent, hstopped⟩ := reset_ends_stopped fresh_started hp hidle hrest.1 rfl hrest.2 (by decide)
  exact ⟨p, _, hp, hrest.1, rfl, hrest.2, hsent, hstopped⟩

/-- `F9` three times: epoch 7 is begun and stopped, and epoch 20 is begun while `activated` for 7 is still on its way. The
controller answers that message with a `RESET`. -/
def crossing : List PairAction :=
  challenging ++ activating 7 ++ carried ++ carried ++ processed ++ processed ++
    [.handle { now := 0 } .toggle, .handle { now := 0 } .callback] ++ activating 20 ++
    [.read { now := 0 }, .write 0, .deliver { now := 0 }, .write 0, .deliver { now := 0 }, .write 0] ++ processed

theorem stale_reset_ends_new_epoch : ∃ p event, fresh.run crossing = some p ∧ p.up = [.frame event] ∧
    event.op = .reset ∧ p.target.engine.epoch = 20 ∧ .sent event ∈ p.ctl.log ∧ ¬ Stopped 20 p.ctl.log ∧
    ((p.step (.deliver { now := 0 })).map fun p => p.target.engine.epoch) = some 0 := by
  have hrun : ((fresh.run crossing).map fun p => (p.up, p.target.engine.epoch, p.ctl.log.drop 2)) =
      some ([.frame { op := .reset, seq := 5, lease := 1 }], 20,
        [.stopped 0 7, .sent { op := .reset, seq := 3, lease := 1 },
          .sent { op := .activate, epoch := 20, seq := 4, lease := 1 }, .sent { op := .reset, seq := 5, lease := 1 }]) := by
    decide +kernel
  have hbegin : ((fresh.run crossing).map fun p => p.ctl.log.take 2) =
      some [.sent { op := .heartbeat, seq := 1, lease := 1 },
        .sent { op := .activate, epoch := 7, seq := 2, lease := 1 }] := by
    decide +kernel
  have hend : ((fresh.run (crossing ++ [.deliver { now := 0 }])).map fun p => p.target.engine.epoch) = some 0 := by
    decide +kernel
  obtain ⟨p, hp, hrest⟩ := Option.map_eq_some_iff.mp hrun
  simp only [Prod.mk.injEq] at hrest
  obtain ⟨hup, he, hlog⟩ := hrest
  rw [hp, Option.map_some, Option.some.injEq] at hbegin
  have hwhole : p.ctl.log = p.ctl.log.take 2 ++ p.ctl.log.drop 2 := (List.take_append_drop 2 _).symm
  rw [hbegin, hlog] at hwhole
  refine ⟨p, _, hp, hup, rfl, he, by rw [hwhole]; simp, ?_, ?_⟩
  · rintro ⟨x, y, hmem, hor⟩
    rw [hwhole] at hmem
    simp only [List.cons_append, List.nil_append, List.mem_cons, List.not_mem_nil, or_false, reduceCtorEq, false_or,
      Deed.stopped.injEq] at hmem
    omega
  · rw [run_append, hp] at hend
    simpa [Pair.run] using hend

end Pair

end RemoteInput
