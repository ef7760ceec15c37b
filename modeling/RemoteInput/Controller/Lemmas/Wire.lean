import RemoteInput.Controller.Lemmas.Steps

/-!
# The controller and its connection

A controller has an outbox while it has a connection, and shortly after. Frames are sent for an epoch that was drawn during
that connection.
-/

namespace RemoteInput

/-- The loop is at a statement that it reaches during a connection only. -/
def LoopPoint.busy : LoopPoint → Bool
  | .idle | .activate | .activating | .stopping .. => false
  | _ => true

/-- The task is one of a connection. -/
def ControllerThreads.LoopTask.ofConnection : ControllerThreads.LoopTask → Bool
  | .callback | .connect | .close => false
  | _ => true

namespace ControllerThreads

variable {t t' : ControllerThreads} {env : ControllerEnv} {action : ControllerAction} {e : Nat} {online : Prop}

/-! ## Frames and the outbox -/

/-- What a step does to the frames and to the outbox. -/
inductive Carries (t t' : ControllerThreads) (action : ControllerAction) : Prop where
  | same (ho : t'.controller.outbox = t.controller.outbox)
      (hf : sentFrames t'.controller.log = sentFrames t.controller.log)
  | pushed (frame : Event) (now : Time) (ho : t'.controller.outbox = t.controller.outbox.map (·.put now frame))
      (hf : sentFrames t'.controller.log = sentFrames t.controller.log ++ [frame])
      (hepoch : frame.epoch = 0 ∨ t.Engaged frame.epoch) (hl : t.loop = .idle ∨ t.loop.busy = true)
      (hon : t.controller.outbox.isSome = true ∨ t.loop.busy = true ∨
        ∃ env task, action = .begin env task ∧ task.ofConnection = true)
  | opened (env : ControllerEnv) (ha : action = .begin env .connect) (ho : t'.controller.outbox = some {})
      (hf : sentFrames t'.controller.log = sentFrames t.controller.log)
  | closed (mark : Nat) (hl : t.loop = .stopping true (.queue mark)) (ho : t'.controller.outbox = none)
      (hf : sentFrames t'.controller.log = sentFrames t.controller.log)

theorem stop_carries (closing : Bool) (t : ControllerThreads) (point : StopPoint) :
    sentFrames (t.stop closing point).1.controller.log = sentFrames t.controller.log ∧
      ((t.stop closing point).1.controller.outbox = t.controller.outbox ∨
        closing = true ∧ (∃ mark, point = .queue mark) ∧ (t.stop closing point).1.controller.outbox = none) := by
  cases point with
  | capture | connection | epoch | pending | schedule => exact ⟨rfl, .inl rfl⟩
  | queue mark =>
      cases closing with
      | true => exact ⟨rfl, .inr ⟨rfl, ⟨mark, rfl⟩, rfl⟩⟩
      | false => exact ⟨rfl, .inl rfl⟩

theorem hookStep_carries (hs : t.hookStep env = some t') (action : ControllerAction) : Carries t t' action := by
  unfold ControllerThreads.hookStep at hs
  cases hh : t.hook with
  | idle => rw [hh] at hs; cases hs
  | toggle | enqueue | enqueuing | putting => rw [hh] at hs; cases hs; exact .same rfl rfl
  | toggling =>
      rw [hh] at hs
      dsimp only at hs
      split at hs <;> cases hs <;> exact .same rfl rfl
  | stopping point =>
      rw [hh] at hs
      cases hs
      obtain ⟨hf, ho⟩ := stop_carries false t point
      exact .same (ho.resolve_right fun h => by cases h.1) hf

theorem send_carries (env : ControllerEnv) (event : Event) {c : Controller} (hc : t'.controller = c.send env event)
    (ho : c.outbox = t.controller.outbox) (hlog : c.log = t.controller.log)
    (hepoch : event.epoch = 0 ∨ t.Engaged event.epoch) (hl : t.loop = .idle ∨ t.loop.busy = true)
    (hon : t.controller.outbox.isSome = true ∨ t.loop.busy = true ∨
      ∃ env task, action = .begin env task ∧ task.ofConnection = true) :
    Carries t t' action := by
  refine .pushed (c.frame env event) env.now ?_ ?_ hepoch hl hon
  · rw [hc, ← ho]; rfl
  · rw [hc, ← hlog]; simp [Controller.send, sentFrames]

theorem sendReset_carries (env : ControllerEnv) {c : Controller} (hc : t'.controller = c.sendReset env)
    (ho : c.outbox = t.controller.outbox) (hlog : c.log = t.controller.log) (hl : t.loop = .idle ∨ t.loop.busy = true) :
    Carries t t' action := by
  unfold Controller.sendReset at hc
  split at hc
  · rename_i hs
    exact send_carries env _ hc ho hlog (.inl rfl) hl (.inl (ho ▸ hs))
  · exact .same (by rw [hc, ho]) (by rw [hc, hlog])

theorem loopStep_carries (hs : t.loopStep env = some t') (action : ControllerAction) : Carries t t' action := by
  unfold ControllerThreads.loopStep at hs
  cases hl : t.loop with
  | idle => rw [hl] at hs; cases hs
  | activate | activating | drawing | clearing | checked | loaded | assigned | popped =>
      rw [hl] at hs; cases hs; exact .same rfl rfl
  | sending =>
      rw [hl] at hs
      cases hs
      have hbusy : t.loop.busy = true := by rw [hl]; rfl
      exact send_carries env _ rfl rfl rfl (.inr (.inr (.inl rfl))) (.inr hbusy) (.inr (.inl hbusy))
  | activated | compared =>
      have hbusy : t.loop.busy = true := by rw [hl]; rfl
      rw [hl] at hs
      dsimp only at hs
      split at hs <;> cases hs
      · exact sendReset_carries env rfl rfl rfl (.inr hbusy)
      · exact .same rfl rfl
  | requesting =>
      rw [hl] at hs
      dsimp only at hs
      split at hs <;> cases hs
      exact .same rfl rfl
  | matching event =>
      rw [hl] at hs
      cases hs
      have hbusy : t.loop.busy = true := by rw [hl]; rfl
      by_cases he : event.epoch = t.controller.epoch
      · exact send_carries env event (if_neg (not_not.mpr he)) rfl rfl (.inr (.inl he.symm)) (.inr hbusy) (.inr (.inl hbusy))
      · have hc : (if event.epoch ≠ t.controller.epoch then t.controller else t.controller.send env event) =
            t.controller := if_pos he
        exact .same (congrArg Controller.outbox hc) (congrArg (fun c => sentFrames c.log) hc)
  | stopping closing point =>
      rw [hl] at hs
      dsimp only at hs
      split at hs <;> cases hs
      obtain ⟨hf, ho | ⟨rfl, ⟨mark, rfl⟩, ho⟩⟩ := stop_carries closing t point
      · exact .same ho hf
      · exact .closed mark hl ho hf

theorem begin_carries (hl : t.loop = .idle) {task : LoopTask} (hs : t.begin env task = some t') :
    Carries t t' (.begin env task) := by
  unfold ControllerThreads.begin at hs
  cases task with
  | activated | stop | close => cases hs; exact .same rfl rfl
  | ack op epoch seq stamp =>
      cases hs
      dsimp only [Controller.readAck]
      split <;> exact .same rfl rfl
  | challenge nonce =>
      cases hs
      dsimp only [Controller.readChallenge]
      split
      · refine send_carries env _ rfl rfl rfl ?_ (.inl hl) (.inr (.inr ⟨env, .challenge nonce, rfl, rfl⟩))
        dsimp only
        split
        · exact .inr (.inl rfl)
        · exact .inr (.inr (.inl rfl))
      · exact .same rfl rfl
  | callback =>
      dsimp only at hs
      split at hs <;> cases hs
      · exact .same rfl rfl
      · exact sendReset_carries env rfl rfl rfl (.inl hl)
  | sender =>
      dsimp only at hs
      split at hs <;> cases hs <;> exact .same rfl rfl
  | probe =>
      cases hs
      dsimp only [Controller.probe]
      split
      · refine .pushed _ env.now rfl (by simp [Controller.send, sentFrames]) (.inr (.inl rfl)) (.inl hl)
          (.inr (.inr ⟨env, .probe, rfl, rfl⟩))
      · exact .same rfl rfl
  | connect => cases hs; exact .opened env rfl rfl rfl

theorem step_carries (hs : t.step action = some t') : Carries t t' action := by
  cases action with
  | call call =>
      unfold ControllerThreads.step at hs
      dsimp only at hs
      split at hs <;> cases hs
      cases call <;> exact .same rfl rfl
  | hook env => exact hookStep_carries hs _
  | begin env task =>
      unfold ControllerThreads.step at hs
      dsimp only at hs
      split at hs
      · rename_i hl
        exact begin_carries hl hs
      · cases hs
  | loop env => exact loopStep_carries hs _

/-! ## Epochs that may be active -/

/-- An epoch that may become active was drawn, or could before. -/
theorem hookStep_engaged (hs : t.hookStep env = some t') (he : e ≠ 0) (hn : t'.Engaged e) : t.Engaged e := by
  unfold ControllerThreads.hookStep at hs
  cases hh : t.hook with
  | idle => rw [hh] at hs; cases hs
  | toggle | enqueue | enqueuing | putting => rw [hh] at hs; cases hs; exact hn
  | toggling =>
      rw [hh] at hs
      dsimp only at hs
      split at hs <;> cases hs <;> exact hn
  | stopping point =>
      rw [hh] at hs
      cases hs
      cases point with
      | capture | connection | queue | schedule => exact hn
      | epoch => exact hn.imp (fun h => absurd h.symm he) id
      | pending => exact hn.imp id (Or.imp (fun h => absurd h.symm he) id)

theorem engaged_loopTo {u : ControllerThreads} {point : LoopPoint} (hn : (u.loopTo point).Engaged e)
    (he : u.controller.epoch = e → t.controller.epoch = e)
    (hp : u.controller.pendingEpoch = e → t.controller.pendingEpoch = e)
    (hl : ∀ n, point ≠ .loaded e n) : t.Engaged e := by
  rcases hn with hn | hn | ⟨n, hn⟩
  · exact .inl (he hn)
  · exact .inr (.inl (hp hn))
  · exact absurd hn (hl n)

theorem sendReset_epochs (env : ControllerEnv) (c : Controller) :
    (c.sendReset env).epoch = c.epoch ∧ (c.sendReset env).pendingEpoch = c.pendingEpoch := by
  unfold Controller.sendReset
  split <;> exact ⟨rfl, rfl⟩

theorem loopStep_engaged (hs : t.loopStep env = some t') (he : e ≠ 0) (hn : t'.Engaged e) :
    t.Engaged e ∨ e ∈ t.draws (.loop env) := by
  unfold ControllerThreads.loopStep at hs
  cases hl : t.loop with
  | idle => rw [hl] at hs; cases hs
  | activate | activating | popped =>
      rw [hl] at hs
      cases hs
      refine .inl (engaged_loopTo hn id id (fun n => ?_))
      split <;> simp
  | drawing =>
      rw [hl] at hs
      cases hs
      rcases hn with hn | hn | ⟨n, hn⟩
      · exact .inl (.inl hn)
      · rw [draws, if_pos hl, List.mem_singleton]
        exact .inr hn.symm
      · cases hn
  | clearing | sending =>
      rw [hl] at hs
      cases hs
      exact .inl (engaged_loopTo hn id id (by simp))
  | activated | compared =>
      rw [hl] at hs
      dsimp only at hs
      obtain ⟨h1, h2⟩ := sendReset_epochs env t.controller
      split at hs <;> cases hs
      · exact .inl (engaged_loopTo hn (fun h => h1 ▸ h) (fun h => h2 ▸ h) (by simp))
      · exact .inl (engaged_loopTo hn id id (by simp))
  | checked =>
      rw [hl] at hs
      cases hs
      rcases hn with hn | hn | ⟨n, hn⟩
      · exact .inl (.inl hn)
      · exact .inl (.inr (.inl hn))
      · cases hn; exact .inl (.inr (.inl rfl))
  | loaded x n =>
      rw [hl] at hs
      cases hs
      rcases hn with hn | hn | ⟨m, hn⟩
      · exact .inl (.inr (.inr ⟨n, by rw [hl, show x = e from hn]⟩))
      · exact .inl (.inr (.inl hn))
      · cases hn
  | assigned n =>
      rw [hl] at hs
      cases hs
      exact .inl (engaged_loopTo hn id (fun h => absurd h.symm he) (by simp))
  | requesting n =>
      rw [hl] at hs
      dsimp only at hs
      split at hs <;> cases hs
      exact .inl (engaged_loopTo hn id id (by simp))
  | matching event =>
      rw [hl] at hs
      cases hs
      refine .inl (engaged_loopTo hn (fun h => ?_) (fun h => ?_) (by simp)) <;> split at h <;> exact h
  | stopping closing point =>
      rw [hl] at hs
      dsimp only at hs
      split at hs <;> cases hs
      refine .inl (engaged_loopTo hn (fun h => ?_) (fun h => ?_) (fun n => ?_))
      · cases point with
        | epoch => exact absurd h.symm he
        | queue => cases closing <;> exact h
        | _ => exact h
      · cases point with
        | pending => exact absurd h.symm he
        | queue => cases closing <;> exact h
        | _ => exact h
      · cases (t.stop closing point).2 <;> simp

theorem begin_engaged {task : LoopTask} (hs : t.begin env task = some t') (hn : t'.Engaged e) : t.Engaged e := by
  unfold ControllerThreads.begin at hs
  cases task with
  | activated | stop | close => cases hs; exact engaged_loopTo hn id id (by simp)
  | ack op epoch seq stamp =>
      cases hs
      dsimp only [Controller.readAck] at hn
      split at hn <;> exact hn
  | challenge nonce =>
      cases hs
      dsimp only [Controller.readChallenge] at hn
      split at hn <;> exact hn
  | callback =>
      dsimp only at hs
      split at hs <;> cases hs
      · exact engaged_loopTo hn id id (by simp)
      · dsimp only [Controller.sendReset] at hn
        split at hn <;> exact hn
  | sender =>
      dsimp only at hs
      split at hs <;> cases hs
      · exact engaged_loopTo hn id id (by simp)
      · exact hn
      · exact engaged_loopTo hn id id (by simp)
  | probe =>
      cases hs
      dsimp only [Controller.probe] at hn
      split at hn <;> exact hn
  | connect => cases hs; exact hn

theorem step_engaged (hs : t.step action = some t') (he : e ≠ 0) (hn : t'.Engaged e) : t.Engaged e ∨ e ∈ t.draws action := by
  cases action with
  | call call =>
      unfold ControllerThreads.step at hs
      dsimp only at hs
      split at hs <;> cases hs
      cases call <;> exact .inl hn
  | hook env => exact .inl (hookStep_engaged hs he hn)
  | begin env task =>
      unfold ControllerThreads.step at hs
      dsimp only at hs
      split at hs
      · exact .inl (begin_engaged hs hn)
      · cases hs
  | loop env => exact loopStep_engaged hs he hn

/-! ## While there is no connection -/

/-- What the `finally` of a connection has done before a statement. -/
def Shut (c : Controller) : StopPoint → Prop
  | .capture | .connection => True
  | .epoch => c.connected = false
  | .pending => c.connected = false ∧ c.epoch = 0
  | .queue _ => c.connected = false ∧ c.epoch = 0 ∧ c.pendingEpoch = 0
  | .schedule _ => False

/-- The invariant. `online` says that there is a connection. -/
structure Wired (online : Prop) (t : ControllerThreads) : Prop where
  closing : ∀ p, t.loop = .stopping true p → ¬ online
  lost : ¬ online → t.controller.outbox.isSome = true → ∃ p, t.loop = .stopping true p
  busy : t.loop.busy = true → t.controller.outbox.isSome = true
  connected : t.controller.connected = true → t.controller.outbox.isSome = true
  quiet : t.controller.outbox.isSome = false → t.controller.epoch = 0 ∧ t.controller.pendingEpoch = 0
  shut : ∀ p, t.loop = .stopping true p → Shut t.controller p

theorem Wired.restart (log : List Deed) : Wired online { controller := { log := log } } :=
  ⟨by simp, by simp, by simp [LoopPoint.busy], by simp, fun _ => ⟨rfl, rfl⟩, by simp⟩

/-- A controller without a connection and with an idle loop has left all epochs. -/
theorem Wired.idle (h : t.Wired False) (hl : t.loop = .idle) : t.controller.outbox = none ∧ ¬ t.Engaged e ∨ e = 0 := by
  have ho : t.controller.outbox.isSome = false := by
    cases ho : t.controller.outbox.isSome with
    | false => rfl
    | true =>
        obtain ⟨p, hp⟩ := h.lost id ho
        rw [hl] at hp
        cases hp
  obtain ⟨h1, h2⟩ := h.quiet ho
  refine or_iff_not_imp_right.mpr fun he => ⟨by simpa using ho, ?_⟩
  rintro (hn | hn | ⟨n, hn⟩)
  · exact he (hn.symm.trans h1)
  · exact he (hn.symm.trans h2)
  · rw [hl] at hn; cases hn

theorem Wired.dial (h : t.Wired False) (hl : t.loop = .idle) : t.Wired True :=
  ⟨by simp [hl], by simp, h.busy, h.connected, h.quiet, by simp [hl]⟩

/-- The writer takes a frame. -/
theorem Wired.write (h : t.Wired online) {outbox : Outbox Event} (ho : t.controller.outbox.isSome = true) :
    Wired online { t with controller := { t.controller with outbox := some outbox } } :=
  ⟨h.closing, fun hn _ => h.lost hn ho, fun _ => rfl, fun _ => rfl, by simp, h.shut⟩

/-- The loop goes on, not in the `finally` of a connection. -/
theorem Wired.onward (h : t.Wired online) (hl : ∀ p, t.loop ≠ .stopping true p) (hl' : ∀ p, t'.loop ≠ .stopping true p)
    (ho : t'.controller.outbox.isSome = t.controller.outbox.isSome)
    (hbusy : t'.loop.busy = true → t.controller.outbox.isSome = true)
    (hc : t'.controller.connected = true → t.controller.connected = true)
    (hz : t.controller.outbox.isSome = false →
      t.controller.epoch = 0 ∧ t.controller.pendingEpoch = 0 → t'.controller.epoch = 0 ∧ t'.controller.pendingEpoch = 0) :
    t'.Wired online := by
  refine ⟨fun p hp => absurd hp (hl' p), fun hn hs => ?_, fun hb => ?_, fun hcon => ?_, fun hs => ?_,
    fun p hp => absurd hp (hl' p)⟩
  · obtain ⟨p, hp⟩ := h.lost hn (ho ▸ hs)
    exact absurd hp (hl p)
  · rw [ho]; exact hbusy hb
  · rw [ho]; exact h.connected (hc hcon)
  · rw [ho] at hs; exact hz hs (h.quiet hs)

/-- The hook thread goes on. -/
theorem Wired.hooked (h : t.Wired online) (hl : t'.loop = t.loop) (ho : t'.controller.outbox = t.controller.outbox)
    (hc : t'.controller.connected = false ∨ t'.controller.connected = t.controller.connected)
    (he : t'.controller.epoch = 0 ∨ t'.controller.epoch = t.controller.epoch)
    (hp : t'.controller.pendingEpoch = 0 ∨ t'.controller.pendingEpoch = t.controller.pendingEpoch) : t'.Wired online := by
  have hepoch : t.controller.epoch = 0 → t'.controller.epoch = 0 := fun h0 => he.elim id fun he => he.trans h0
  have hpending : t.controller.pendingEpoch = 0 → t'.controller.pendingEpoch = 0 :=
    fun h0 => hp.elim id fun hp => hp.trans h0
  have hconnected : t.controller.connected = false → t'.controller.connected = false :=
    fun h0 => hc.elim id fun hc => hc.trans h0
  refine ⟨hl ▸ h.closing, ?_, ?_, fun hcon => ?_, fun hs => ?_, fun p hstop => ?_⟩
  · rw [hl, ho]; exact h.lost
  · rw [hl, ho]; exact h.busy
  · rw [ho]
    refine h.connected (Bool.eq_true_of_not_eq_false fun h0 => ?_)
    rw [hconnected h0] at hcon
    cases hcon
  · rw [ho] at hs
    exact ⟨hepoch (h.quiet hs).1, hpending (h.quiet hs).2⟩
  · have hshut := h.shut p (hl ▸ hstop)
    cases p with
    | capture | connection => trivial
    | epoch => exact hconnected hshut
    | pending => exact ⟨hconnected hshut.1, hepoch hshut.2⟩
    | queue mark => exact ⟨hconnected hshut.1, hepoch hshut.2.1, hpending hshut.2.2⟩
    | schedule mark => exact hshut

theorem Wired.hookStep (h : t.Wired online) (hs : t.hookStep env = some t') : t'.Wired online := by
  unfold ControllerThreads.hookStep at hs
  cases hh : t.hook with
  | idle => rw [hh] at hs; cases hs
  | toggle | enqueue | enqueuing | putting =>
      rw [hh] at hs; cases hs; exact h.hooked rfl rfl (.inr rfl) (.inr rfl) (.inr rfl)
  | toggling =>
      rw [hh] at hs
      dsimp only at hs
      split at hs <;> cases hs <;> exact h.hooked rfl rfl (.inr rfl) (.inr rfl) (.inr rfl)
  | stopping point =>
      rw [hh] at hs
      cases hs
      cases point with
      | capture | queue | schedule => exact h.hooked rfl rfl (.inr rfl) (.inr rfl) (.inr rfl)
      | connection => exact h.hooked rfl rfl (.inl rfl) (.inr rfl) (.inr rfl)
      | epoch => exact h.hooked rfl rfl (.inr rfl) (.inl rfl) (.inr rfl)
      | pending => exact h.hooked rfl rfl (.inr rfl) (.inr rfl) (.inl rfl)

/-- One statement of the `finally`, when what the invariant says of the epochs and of the next statement is shown. -/
theorem Wired.closingTo (h : t.Wired online) {point next : StopPoint} {u : ControllerThreads}
    (hl : t.loop = .stopping true point) (hu : u.loop = .stopping true next)
    (hc : u.controller.connected = true → u.controller.outbox.isSome = true)
    (hq : u.controller.outbox.isSome = false → u.controller.epoch = 0 ∧ u.controller.pendingEpoch = 0)
    (hshut : Shut u.controller next) : u.Wired online where
  closing := fun _ _ => h.closing point hl
  lost := fun _ _ => ⟨next, hu⟩
  busy := by rw [hu]; exact fun hb => nomatch hb
  connected := hc
  quiet := hq
  shut := by
    intro p hp
    rw [hu] at hp
    cases hp
    exact hshut

/-- The `finally` of a connection goes on. -/
theorem Wired.finally (h : t.Wired online) {point : StopPoint} (hl : t.loop = .stopping true point) :
    Wired online ((t.stop true point).1.loopTo ((t.stop true point).2.elim .idle (.stopping true))) := by
  have hshut := h.shut point hl
  cases point with
  | capture => exact h.closingTo hl rfl h.connected h.quiet trivial
  | connection => exact h.closingTo hl rfl (fun hcon => nomatch hcon) h.quiet rfl
  | epoch =>
      have hquiet := fun ho => (h.quiet ho).2
      exact h.closingTo hl rfl h.connected (fun ho => ⟨rfl, hquiet ho⟩) ⟨hshut, rfl⟩
  | pending =>
      obtain ⟨hcon, hepoch⟩ := hshut
      exact h.closingTo hl rfl h.connected (fun _ => ⟨hepoch, rfl⟩) ⟨hcon, hepoch, rfl⟩
  | queue mark =>
      -- the last statement takes the outbox away, and the loop is idle again
      obtain ⟨hcon, hepoch, hpending⟩ := hshut
      exact {
        closing := fun p hp => nomatch hp
        lost := fun _ ho => nomatch ho
        busy := fun hb => nomatch hb
        connected := fun hc => absurd (hcon.symm.trans hc) Bool.false_ne_true
        quiet := fun _ => ⟨hepoch, hpending⟩
        shut := fun p hp => nomatch hp }
  | schedule mark => exact hshut.elim

theorem Wired.loopStep (h : t.Wired online) (hs : t.loopStep env = some t') : t'.Wired online := by
  have hto : ∀ {u : ControllerThreads} {point : LoopPoint}, (∀ p, t.loop ≠ .stopping true p) →
      (∀ p, point ≠ .stopping true p) →
      u.controller.outbox.isSome = t.controller.outbox.isSome → (point.busy = true → t.controller.outbox.isSome = true) →
      (u.controller.connected = true → t.controller.connected = true) →
      (t.controller.outbox.isSome = false → t.controller.epoch = 0 ∧ t.controller.pendingEpoch = 0 →
        u.controller.epoch = 0 ∧ u.controller.pendingEpoch = 0) → (u.loopTo point).Wired online := fun h1 h2 h3 h4 h5 h6 =>
    h.onward h1 h2 h3 h4 h5 h6
  have hbusy := h.busy
  unfold ControllerThreads.loopStep at hs
  cases hl : t.loop with
  | idle => rw [hl] at hs; cases hs
  | activate =>
      rw [hl] at hs
      cases hs
      refine hto (by simp [hl]) ?_ rfl ?_ id (fun _ => id) <;> split <;> simp [LoopPoint.busy]
  | activating =>
      rw [hl] at hs
      cases hs
      refine hto (by simp [hl]) ?_ rfl ?_ id (fun _ => id)
      · split <;> simp
      · split
        · simp [LoopPoint.busy]
        · rename_i hn
          push Not at hn
          exact fun _ => h.connected (by simpa using hn.2.1)
  | drawing | loaded | assigned =>
      rw [hl] at hs
      have ho := hbusy (by rw [hl]; rfl)
      cases hs
      exact hto (by simp [hl]) (by simp) rfl (fun _ => ho) id fun hn => by rw [ho] at hn; cases hn
  | clearing | checked =>
      rw [hl] at hs
      have ho := hbusy (by rw [hl]; rfl)
      cases hs
      exact hto (by simp [hl]) (by simp) rfl (fun _ => ho) id (fun _ => id)
  | sending =>
      rw [hl] at hs
      cases hs
      exact hto (by simp [hl]) (by simp) (by simp [Controller.send]) (by simp [LoopPoint.busy]) id (fun _ => id)
  | activated | compared =>
      rw [hl] at hs
      have ho := hbusy (by rw [hl]; rfl)
      dsimp only at hs
      split at hs <;> cases hs
      · refine hto (by simp [hl]) (by simp) ?_ (by simp [LoopPoint.busy]) ?_ ?_ <;> unfold Controller.sendReset <;> split <;>
          simp [Controller.send]
      · exact hto (by simp [hl]) (by simp) rfl (fun _ => ho) id (fun _ => id)
  | requesting =>
      rw [hl] at hs
      dsimp only at hs
      split at hs <;> cases hs
      exact hto (by simp [hl]) (by simp) rfl (by simp [LoopPoint.busy]) id (fun _ => id)
  | popped event =>
      rw [hl] at hs
      have ho := hbusy (by rw [hl]; rfl)
      cases hs
      exact hto (by simp [hl]) (by split <;> simp) rfl (fun _ => ho) id (fun _ => id)
  | matching event =>
      rw [hl] at hs
      cases hs
      refine hto (by simp [hl]) (by simp) ?_ (by simp [LoopPoint.busy]) ?_ ?_ <;> dsimp only <;> split <;>
        simp [Controller.send]
  | stopping closing point =>
      rw [hl] at hs
      dsimp only at hs
      split at hs <;> cases hs
      cases closing with
      | true => exact h.finally hl
      | false =>
          have hidle : ∀ p, ((t.stop false point).2.elim LoopPoint.idle (.stopping false)) ≠ .stopping true p := by
            intro p
            cases (t.stop false point).2 <;> simp
          have hcalm : ((t.stop false point).2.elim LoopPoint.idle (.stopping false)).busy = false := by
            cases (t.stop false point).2 <;> rfl
          refine hto (by simp [hl]) hidle ?_ (by simp [hcalm]) ?_ ?_
          · cases point <;> rfl
          · cases point with
            | connection => exact fun hc => by cases hc
            | _ => exact id
          · intro _ hz
            cases point with
            | epoch => exact ⟨rfl, hz.2⟩
            | pending => exact ⟨hz.1, rfl⟩
            | _ => exact hz

/-- An idle loop turns to a task, other than the `finally` of a connection. -/
theorem Wired.begin (h : t.Wired online) (hl : t.loop = .idle) {task : LoopTask} (hclose : task ≠ .close)
    (hconnect : task = .connect → online) (htask : task.ofConnection = true → t.controller.outbox.isSome = true)
    (hs : t.begin env task = some t') : t'.Wired online := by
  have hto : ∀ {u : ControllerThreads}, (∀ p, u.loop ≠ .stopping true p) →
      u.controller.outbox.isSome = t.controller.outbox.isSome → (u.loop.busy = true → t.controller.outbox.isSome = true) →
      u.controller.connected = t.controller.connected → u.controller.epoch = t.controller.epoch →
      u.controller.pendingEpoch = t.controller.pendingEpoch → u.Wired online := fun h1 h2 h3 h4 h5 h6 =>
    h.onward (by simp [hl]) h1 h2 h3 (fun hc => h4 ▸ hc) fun _ hz => ⟨h5.trans hz.1, h6.trans hz.2⟩
  unfold ControllerThreads.begin at hs
  cases task with
  | activated => cases hs; exact hto (by simp [ControllerThreads.loopTo]) rfl (fun _ => htask rfl) rfl rfl rfl
  | stop =>
      cases hs
      exact hto (by simp [ControllerThreads.loopTo]) rfl (by simp [ControllerThreads.loopTo, LoopPoint.busy]) rfl rfl rfl
  | ack op epoch seq stamp =>
      cases hs
      refine hto (by simp [hl]) ?_ (by simp [hl, LoopPoint.busy]) ?_ ?_ ?_ <;> dsimp only [Controller.readAck] <;>
        split <;> rfl
  | challenge nonce =>
      cases hs
      refine hto (by simp [hl]) ?_ (by simp [hl, LoopPoint.busy]) ?_ ?_ ?_ <;>
        dsimp only [Controller.readChallenge] <;> split <;> simp [Controller.send]
  | callback =>
      dsimp only at hs
      split at hs <;> cases hs
      · exact hto (by simp [ControllerThreads.loopTo]) rfl (by simp [ControllerThreads.loopTo, LoopPoint.busy]) rfl rfl rfl
      · refine hto (by simp [hl]) ?_ (by simp [hl, LoopPoint.busy]) ?_ ?_ ?_ <;>
          dsimp only [Controller.sendReset] <;> split <;> simp [Controller.send]
  | sender =>
      dsimp only at hs
      split at hs <;> cases hs
      · exact hto (by simp [ControllerThreads.loopTo]) rfl (by simp [ControllerThreads.loopTo, LoopPoint.busy]) rfl rfl rfl
      · exact hto (by simp [hl]) rfl (by simp [hl, LoopPoint.busy]) rfl rfl rfl
      · exact hto (by simp [ControllerThreads.loopTo]) rfl (fun _ => htask rfl) rfl rfl rfl
  | probe =>
      cases hs
      refine hto (by simp [hl]) ?_ (by simp [hl, LoopPoint.busy]) ?_ ?_ ?_ <;> dsimp only [Controller.probe] <;> split <;>
        simp [Controller.send]
  | connect =>
      cases hs
      have hon := hconnect rfl
      exact ⟨by simp [hl], fun hn => absurd hon hn, fun _ => rfl, fun _ => rfl, by simp [Controller.connect], by simp [hl]⟩
  | close => exact absurd rfl hclose

/-- The connection ends. -/
theorem Wired.close (h : t.Wired online) (hs : t.step (.begin env .close) = some t') : t'.Wired False := by
  unfold ControllerThreads.step at hs
  dsimp only at hs
  split at hs <;> cases hs
  exact ⟨fun _ _ => id, fun _ _ => ⟨_, rfl⟩, by simp [ControllerThreads.loopTo, LoopPoint.busy], h.connected, h.quiet,
    fun p hp => (by cases hp; trivial)⟩

theorem Wired.step (h : t.Wired online) (hclose : ∀ env, action ≠ .begin env .close)
    (hconnect : ∀ env, action = .begin env .connect → online)
    (htask : ∀ env task, action = .begin env task → task.ofConnection = true → t.controller.outbox.isSome = true)
    (hs : t.step action = some t') : t'.Wired online := by
  cases action with
  | call call =>
      unfold ControllerThreads.step at hs
      dsimp only at hs
      split at hs <;> cases hs
      cases call <;> exact h.hooked rfl rfl (.inr rfl) (.inr rfl) (.inr rfl)
  | hook env => exact h.hookStep hs
  | begin env task =>
      unfold ControllerThreads.step at hs
      dsimp only at hs
      split at hs
      · rename_i hl
        refine h.begin hl ?_ ?_ (htask env task rfl) hs
        · rintro rfl; exact hclose env rfl
        · rintro rfl; exact hconnect env rfl
      · cases hs
  | loop env => exact h.loopStep hs

end ControllerThreads

end RemoteInput
