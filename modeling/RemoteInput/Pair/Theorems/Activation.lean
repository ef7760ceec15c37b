import RemoteInput.Controller.Lemmas.Acts
import RemoteInput.Engine.Lemmas.Threads
import RemoteInput.Pair.Semantics

/-!
# No orphaned activation
-/

namespace RemoteInput

/-! ## What the controller does about an epoch -/

namespace Controller

variable {c c' : Controller} {e : Nat} {other : Prop}

/-- The controller of an open connection. -/
structure Online (c : Controller) : Prop where
  online : c.outbox.isSome = true
  single : c.epoch = 0 ∨ c.pendingEpoch = 0

theorem Online.like (h : c.Online) (hl : c.Like c') : c'.Online :=
  ⟨by rw [hl.outbox]; exact h.online, by rw [hl.epoch, hl.pendingEpoch]; exact h.single⟩

theorem Online.push (h : c.Online) (now : Time) (frame : Event) : (c.push now frame).Online :=
  ⟨by simpa [Controller.push] using h.online, h.single⟩

theorem Online.act (h : c.Online) (ha : c.Act c') : c'.Online := by
  cases ha with
  | stop | overflow | stall => exact ⟨h.online, .inl rfl⟩
  | begin now frame rest _ _ h0 =>
      refine Online.push ?_ now frame
      exact ⟨h.online, .inl h0⟩
  | take =>
      refine Online.push ?_ _ _
      exact ⟨h.online, h.single⟩
  | beat => exact h.push _ _
  | activated => exact ⟨h.online, .inr rfl⟩
  | quiet | schedule | emit | unschedule | skip => exact ⟨h.online, h.single⟩

theorem Online.resets (h : c.Online) (hr : c.Resets c') : c'.Online := by
  cases hr with
  | stale => exact h.push _ _
  | scheduled =>
      refine Online.push ?_ _ _
      exact ⟨h.online, h.single⟩
  | offline => exact ⟨h.online, h.single⟩

/-- A `RESET` is scheduled or waits in the outbox. -/
def Resetting (c : Controller) : Prop := .sendReset ∈ c.scheduled ∨ ∃ event ∈ c.waiting, event.op = .reset

theorem Resetting.push {now : Time} {frame : Event} (h : c.Resetting) (ho : c.Online)
    (hl : (c.push now frame).Lossless) : (c.push now frame).Resetting := by
  refine h.imp id ?_
  rintro ⟨event, hmem, hop⟩
  exact ⟨event, by rw [(push_lossless ho.online hl).2]; exact List.mem_append_left _ hmem, hop⟩

/-- `e` is active or pending, or a `RESET` is under way. -/
def Minds (c : Controller) (e : Nat) : Prop := c.epoch = e ∨ c.pendingEpoch = e ∨ c.Resetting

/-- The controller minds `e` unless somebody else does, `other`. -/
structure Minding (e : Nat) (other : Prop) (c : Controller) : Prop extends Online c where
  minds : c.Lossless → c.Minds e ∨ other

theorem Minding.like (h : c.Minding e other) (hl : c.Like c') : c'.Minding e other := by
  refine ⟨h.toOnline.like hl, fun hloss => ?_⟩
  have hm := h.minds (fun o ho => hloss o (hl.outbox.trans ho))
  unfold Minds Resetting waiting at hm ⊢
  rw [hl.epoch, hl.pendingEpoch, hl.scheduled, hl.outbox]
  exact hm

theorem minding_stop (h : c.stopControl.Online) : c.stopControl.Minding e other :=
  ⟨h, fun _ => .inl (.inr (.inr (.inl (by simp [stopControl, schedule]))))⟩

theorem Minding.push {now : Time} {frame : Event} (h : c.Minding e other) : (c.push now frame).Minding e other := by
  refine ⟨h.toOnline.push now frame, fun hl => ?_⟩
  have hm := h.minds (push_lossless h.online hl).1
  exact hm.imp (Or.imp id (Or.imp id fun hr => hr.push h.toOnline hl)) id

theorem Minding.act (he : e ≠ 0) (h : c.Minding e other) (ha : c.Act c') : c'.Minding e other := by
  have honline := h.toOnline.act ha
  cases ha with
  | quiet => exact h
  | stop | overflow | stall => exact minding_stop honline
  | schedule =>
      refine ⟨honline, fun hl => (h.minds hl).imp (Or.imp id (Or.imp id (Or.imp ?_ id))) id⟩
      exact fun hmem => List.mem_append_left _ hmem
  | emit | skip => exact ⟨honline, h.minds⟩
  | unschedule rest hs =>
      refine ⟨honline, fun hl => (h.minds hl).imp (Or.imp id (Or.imp id (Or.imp ?_ id))) id⟩
      rw [hs]; simp
  | begin now frame rest hs hc h0 hp hop hf hseq =>
      refine ⟨honline, fun hl => ?_⟩
      let d : Controller := { c with scheduled := rest, pendingEpoch := frame.epoch, queue := c.queue.clear }
      have hd : d.Online := ⟨h.online, .inl h0⟩
      -- nothing was active or pending, so a `RESET` is under way already
      rcases h.minds (push_lossless hd.online hl).1 with (hm | hm | hm) | hm
      · exact absurd (hm.symm.trans h0) he
      · exact absurd (hm.symm.trans hp) he
      · have hr : d.Resetting := hm.imp (by rw [hs]; simp [d]) id
        exact .inl (.inr (.inr (hr.push hd hl)))
      · exact .inr hm
  | take now item stamp lease rest hq h0 hep =>
      refine Minding.push ?_
      exact ⟨⟨h.online, h.single⟩, h.minds⟩
  | beat => exact h.push
  | activated hp =>
      refine ⟨honline, fun hl => (h.minds hl).imp ?_ id⟩
      rintro (hm | hm | hm)
      · exact absurd (h.single.resolve_right hp) (fun h0 => he (hm.symm.trans h0))
      · exact .inl hm
      · exact .inr (.inr hm)

theorem Minding.acts (he : e ≠ 0) (h : c.Minding e other) (ha : Acts c c') : c'.Minding e other :=
  ha.induction (P := Minding e other) (fun _ _ hl h => h.like hl) (fun _ _ ha h => h.act he ha) h

/-- A `RESET` minds every epoch. -/
theorem minding_resets (h : c.Online) (hr : c.Resets c') : c'.Minding e other := by
  have hreset : ∀ {d : Controller} {now frame}, d.Online → frame.op = .reset → (d.push now frame).Minding e other := by
    intro d now frame hd hop
    refine ⟨hd.push now frame, fun hl => .inl (.inr (.inr (.inr ⟨frame, ?_, hop⟩)))⟩
    rw [(push_lossless hd.online hl).2]; simp
  cases hr with
  | stale now frame _ hop => exact hreset h hop
  | scheduled now frame rest _ hop => exact hreset ⟨h.online, h.single⟩ hop
  | offline rest _ hn =>
      have := h.online
      rw [hn] at this; cases this

end Controller

/-! ## Who minds the epoch of the target -/

namespace Pair

variable {p p' : Pair} {e : Nat}

/-- A message that will end the session is on its way to the target, or `activated` to the controller. -/
def InFlight (up down : List Message) (e : Nat) : Prop :=
  (∃ event, event.op = .reset ∧ .frame event ∈ up) ∨ .activated e ∈ down ∨ .peerJoined ∈ up

/-- The invariant. -/
structure Accounted (p : Pair) : Prop extends p.ctl.Online where
  accounted : p.target.engine.epoch ≠ 0 → p.ctl.Lossless →
    p.ctl.Minds p.target.engine.epoch ∨ InFlight p.up p.down p.target.engine.epoch

theorem Accounted.minding (h : p.Accounted) (he : p.target.engine.epoch ≠ 0) :
    p.ctl.Minding p.target.engine.epoch (InFlight p.up p.down p.target.engine.epoch) :=
  ⟨h.toOnline, h.accounted he⟩

theorem Accounted.handle (h : p.Accounted) {env : ControllerEnv} {op : ControllerOp} {c : Controller}
    (hs : p.ctl.step env op = some c) : ({ p with ctl := c } : Pair).Accounted := by
  rcases Controller.step_cases hs with ha | ⟨_, _, hr⟩
  · refine ⟨ha.induction (P := Controller.Online) (fun _ _ hl h => h.like hl) (fun _ _ ha h => h.act ha) h.toOnline, ?_⟩
    exact fun he => ((h.minding he).acts he ha).minds
  · exact ⟨h.toOnline.resets hr, fun _ => (Controller.minding_resets h.toOnline hr).minds⟩

theorem Accounted.write (h : p.Accounted) {now : Time} (hs : p.write now = some p') : p'.Accounted := by
  unfold Pair.write at hs
  split at hs
  · rename_i frame outbox ho
    cases hs
    obtain ⟨o, ho, ht⟩ := Option.bind_eq_some_iff.mp ho
    obtain ⟨hf, -, hw⟩ := Outbox.take_eq ht
    refine ⟨⟨rfl, h.single⟩, fun he _ => ?_⟩
    have hl : p.ctl.Lossless := fun o' ho' => by rw [ho] at ho'; cases ho'; exact hf
    rcases h.accounted he hl with (hm | hm | hm | ⟨event, hmem, hop⟩) | hm | hm | hm
    · exact .inl (.inl hm)
    · exact .inl (.inr (.inl hm))
    · exact .inl (.inr (.inr (.inl hm)))
    · -- the frame may be the `RESET`
      rw [Controller.waiting, ho, Option.map_some, Option.getD_some, hw] at hmem
      rcases List.mem_cons.mp hmem with rfl | hmem
      · exact .inr (.inl ⟨event, hop, by simp⟩)
      · exact .inl (.inr (.inr (.inr ⟨event, hmem, hop⟩)))
    · obtain ⟨event, hop, hmem⟩ := hm
      exact .inr (.inl ⟨event, hop, List.mem_append_left _ hmem⟩)
    · exact .inr (.inr (.inl hm))
    · exact .inr (.inr (.inr (List.mem_append_left _ hm)))
  · cases hs

theorem Accounted.read (h : p.Accounted) {env : ControllerEnv} (hs : p.read env = some p') : p'.Accounted := by
  unfold Pair.read at hs
  split at hs
  · cases hs
  rename_i message rest hd
  obtain ⟨c, hc, rfl⟩ := Option.map_eq_some_iff.mp hs
  rcases Controller.read_cases hc with ⟨ha, hact⟩ | ⟨_, hr⟩
  · have honline := ha.induction (P := Controller.Online) (fun _ _ hl h => h.like hl) (fun _ _ ha h => h.act ha) h.toOnline
    refine ⟨honline, fun he hl => ?_⟩
    rcases ((h.minding he).acts he ha).minds hl with hm | hm | hm | hm
    · exact .inl hm
    · exact .inr (.inl hm)
    · rw [hd] at hm
      rcases List.mem_cons.mp hm with hm | hm
      · rcases hact _ hm.symm with ⟨hep, _⟩ | hn
        · exact .inl (.inl hep)
        · have := h.online
          rw [hn] at this; cases this
      · exact .inr (.inr (.inl hm))
    · exact .inr (.inr (.inr hm))
  · exact ⟨h.toOnline.resets hr, fun _ => (Controller.minding_resets h.toOnline hr).minds⟩

/-- An operation of the target ends its session, keeps it, or announces a new one. -/
theorem Accounted.thread (h : p.Accounted) {op : ThreadOp} (up : List Message)
    (hup : (∀ env, (∃ event, op = .receive env event ∧ event.op = .reset) ∨ op = .peerChanged env → False) →
      ∀ e, InFlight p.up p.down e → InFlight up p.down e)
    (hs : ({ p with up := up } : Pair).thread op = some p') : p'.Accounted := by
  obtain ⟨target, ht, rfl⟩ := Option.map_eq_some_iff.mp hs
  refine ⟨h.toOnline, ?_⟩
  show target.engine.epoch ≠ 0 → p.ctl.Lossless → p.ctl.Minds target.engine.epoch ∨
    InFlight up (p.down ++ messages target.engine.out) target.engine.epoch
  have hgrow : ∀ e, InFlight up p.down e → InFlight up (p.down ++ messages target.engine.out) e := by
    rintro e (hm | hm | hm)
    · exact .inl hm
    · exact .inr (.inl (List.mem_append_left _ hm))
    · exact .inr (.inr hm)
  have hkept : ∀ q : EngineThreads, q.engine.epoch = p.target.engine.epoch →
      (∀ env, (∃ event, op = .receive env event ∧ event.op = .reset) ∨ op = .peerChanged env → False) →
      q.engine.epoch ≠ 0 → p.ctl.Lossless → p.ctl.Minds q.engine.epoch ∨
        InFlight up (p.down ++ messages target.engine.out) q.engine.epoch := by
    intro q hq hnet he hl
    rw [hq] at he ⊢
    exact (h.accounted he hl).imp id fun hm => hgrow _ (hup hnet _ hm)
  cases EngineThreads.step_cases ht with
  | received env event hop hr _ _ _ hstill =>
      refine hkept target hstill.epoch ?_
      rintro env' (⟨event', he', hr'⟩ | he')
      · rw [hop] at he'; cases he'; exact hr hr'
      · rw [hop] at he'; cases he'
  | popped env hop _ hstill => exact hkept target hstill.epoch (by simp [hop])
  | processed env item age hop _ _ _ _ hsession _ =>
      cases hsession with
      | ended h0 => exact fun he => absurd h0 he
      | kept hk => exact hkept target hk (by simp [hop])
      | renewed _ _ hk => exact hkept target hk (by simp [hop])
      | activated _ _ _ hep _ _ _ _ hout =>
          intro _ _
          rw [hep]
          exact .inr (.inr (.inl (List.mem_append_right _ (mem_messages.mpr hout))))
  | other _ _ hsame _ _ hnet =>
      rcases hsame with h0 | ⟨hk, _⟩
      · exact fun he => absurd h0 he
      · intro he
        refine hkept target hk ?_ he
        rintro env (⟨event, hop, _⟩ | hop)
        · exact he (hnet env (.inl ⟨event, hop⟩))
        · exact he (hnet env (.inr hop))

theorem Accounted.deliver (h : p.Accounted) {env : Env} (hs : p.deliver env = some p') : p'.Accounted := by
  unfold Pair.deliver at hs
  split at hs
  · cases hs
  rename_i message rest hu
  obtain ⟨op, ho, hs⟩ := Option.bind_eq_some_iff.mp hs
  refine h.thread _ ?_ hs
  intro hnet e hm
  rw [hu] at hm
  rcases hm with ⟨event, hr, hm⟩ | hm | hm
  · rcases List.mem_cons.mp hm with rfl | hm
    · cases ho; exact (hnet env (.inl ⟨event, rfl, hr⟩)).elim
    · exact .inl ⟨event, hr, hm⟩
  · exact .inr (.inl hm)
  · rcases List.mem_cons.mp hm with rfl | hm
    · cases ho; exact (hnet env (.inr rfl)).elim
    · exact .inr (.inr hm)

theorem Accounted.step (h : p.Accounted) {action : PairAction} (hs : p.step action = some p') : p'.Accounted := by
  cases action with
  | handle env op =>
      obtain ⟨c, hc, rfl⟩ := Option.map_eq_some_iff.mp hs
      exact h.handle hc
  | write now => exact h.write hs
  | read env => exact h.read hs
  | deliver env => exact h.deliver hs
  | tick env bits => exact h.thread p.up (fun _ _ hm => hm) hs
  | pop env => exact h.thread p.up (fun _ _ hm => hm) hs
  | body env => exact h.thread p.up (fun _ _ hm => hm) hs

theorem Accounted.run (h : p.Accounted) (actions : List PairAction) (hr : p.run actions = some p') : p'.Accounted := by
  induction actions generalizing p with
  | nil => cases hr; exact h
  | cons action actions ih =>
      obtain ⟨q, hq, hr⟩ := Option.bind_eq_some_iff.mp hr
      exact ih (h.step hq) hr

theorem Joined.accounted (h : p.Joined) : p.Accounted := by
  obtain ⟨earlier, hup⟩ := h.joined
  exact ⟨⟨by rw [h.outbox]; rfl, .inl h.idle.1⟩, fun _ _ => .inr (.inr (.inr (by simp [hup])))⟩

/-- The epoch of the target is the controller's active or pending one, or it is about to end or to be announced: a `RESET`
is scheduled or on its way, `activated` is on its way, or the target has not handled `peer_joined` yet. -/
theorem no_orphaned_activation {p₀ p : Pair} {actions : List PairAction} (h : p₀.Joined) (hr : p₀.run actions = some p)
    (hlossless : p.ctl.Lossless) (he : p.target.engine.epoch = e) (h0 : e ≠ 0) :
    p.ctl.epoch = e ∨ p.ctl.pendingEpoch = e ∨
    (.sendReset ∈ p.ctl.scheduled ∨ ∃ event, event.op = .reset ∧ (event ∈ p.ctl.waiting ∨ .frame event ∈ p.up)) ∨
    .activated e ∈ p.down ∨ .peerJoined ∈ p.up := by
  subst he
  rcases (h.accounted.run actions hr).accounted h0 hlossless with
    (hm | hm | hm | ⟨event, hmem, hop⟩) | ⟨event, hop, hmem⟩ | hm | hm
  · exact .inl hm
  · exact .inr (.inl hm)
  · exact .inr (.inr (.inl (.inl hm)))
  · exact .inr (.inr (.inl (.inr ⟨event, hop, .inl hmem⟩)))
  · exact .inr (.inr (.inl (.inr ⟨event, hop, .inr hmem⟩)))
  · exact .inr (.inr (.inr (.inl hm)))
  · exact .inr (.inr (.inr (.inr hm)))

/-! ## A first activation -/

/-- A controller that has just been admitted to a target that is online. -/
def fresh : Pair where
  ctl := Controller.connect {}
  up := [.peerJoined]
  target := { engine := { connected := true } }
  down := []

theorem fresh_joined : fresh.Joined := ⟨rfl, ⟨rfl, rfl⟩, rfl, [], rfl⟩

/-- The target issues the challenge 1, and the controller answers it. -/
def challenging : List PairAction := [.deliver { now := 0 }, .tick { now := 0 } 1, .read { now := 0 }]

/-- `F9` while nothing is active or pending, with the drawn epoch `bits`. -/
def activating (bits : Nat) : List PairAction :=
  [.handle { now := 0 } .toggle, .handle { now := 0, bits := bits } .callback]

/-- A frame reaches the target's queue. -/
def carried : List PairAction := [.write 0, .deliver { now := 0 }]

/-- The worker processes the oldest frame. -/
def processed : List PairAction := [.pop { now := 0 }, .body { now := 0 }]

theorem no_orphaned_activation_first : ∃ p,
    fresh.run (challenging ++ activating 7 ++ carried ++ carried ++ processed ++ processed) = some p ∧
    p.target.engine.epoch = 7 ∧ (p.ctl.epoch = 7 ∨ p.ctl.pendingEpoch = 7 ∨
    (.sendReset ∈ p.ctl.scheduled ∨ ∃ event, event.op = .reset ∧ (event ∈ p.ctl.waiting ∨ .frame event ∈ p.up)) ∨
    .activated 7 ∈ p.down ∨ .peerJoined ∈ p.up) := by
  have hrun : ((fresh.run (challenging ++ activating 7 ++ carried ++ carried ++ processed ++ processed)).map
      fun p => (p.target.engine.epoch, p.ctl.outbox.map Outbox.failed)) = some (7, some false) := by decide +kernel
  obtain ⟨p, hp, hrest⟩ := Option.map_eq_some_iff.mp hrun
  simp only [Prod.mk.injEq] at hrest
  refine ⟨p, hp, hrest.1, no_orphaned_activation fresh_joined hp ?_ hrest.1 (by decide)⟩
  intro outbox ho
  simpa [ho] using hrest.2

end Pair

end RemoteInput
