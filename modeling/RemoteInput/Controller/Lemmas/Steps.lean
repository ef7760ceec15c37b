import RemoteInput.Controller.Lemmas.Course
import RemoteInput.Controller.Lemmas.Captured

/-!
# One step of the controller's threads, for one epoch
-/

namespace RemoteInput

/-- The loop is at no statement that is about an epoch to come or has an event in hand. -/
def LoopPoint.plain : LoopPoint → Bool
  | .idle | .activate | .activating | .drawing | .requesting _ | .stopping .. => true
  | _ => false

theorem LoopPoint.handed_plain {point : LoopPoint} (h : point.plain = true) (e : Nat) : point.handed e = [] := by
  cases point <;> simp [LoopPoint.plain] at h <;> rfl

namespace ControllerThreads

variable {t t' : ControllerThreads} {e : Nat} {drawn : List Nat} {emitted : List Input} {heard : Prop} {env : ControllerEnv}
  {event frame : Event}

/-! ## Frames -/

/-- From `t` to `t'` the loop sends a frame, and is idle then. -/
structure Pushed (frame : Event) (t t' : ControllerThreads) : Prop where
  epoch : t'.controller.epoch = t.controller.epoch
  pending : t'.controller.pendingEpoch = t.controller.pendingEpoch
  queue : t'.controller.queue = t.controller.queue
  hook : t'.hook = t.hook
  loop : t'.loop = .idle
  frames : sentFrames t'.controller.log = sentFrames t.controller.log ++ [frame]
  next : t'.controller.seq = t.controller.seq + 1
  seq : frame.seq = t.controller.seq + 1

theorem Pushed.sentIn (hp : Pushed frame t t') (e : Nat) : t'.sentIn e = t.sentIn e ++ ofEpoch e [frame] := by
  rw [ControllerThreads.sentIn, ControllerThreads.sentIn, hp.frames, ofEpoch_append]

theorem Pushed.engaged (hp : Pushed frame t t') (h : t'.Engaged e) : t.Engaged e := by
  rw [Engaged, hp.epoch, hp.pending, hp.loop] at h
  rcases h with h | h | ⟨n, h⟩
  · exact .inl h
  · exact .inr (.inl h)
  · cases h

/-- A frame that may be sent in the epoch: it belongs to it only while it may be active, begins it at most once, and carries
what the loop had in hand. -/
structure Sendable (e : Nat) (frame : Event) (t : ControllerThreads) : Prop where
  loop : t.Coming e ∨ t.controller.pendingEpoch ≠ e
  own : frame.epoch = e → t.Engaged e
  one : frame.epoch = e → frame.op = .activate → t.sentIn e = []
  hand : frame.epoch = e ∨ t.controller.epoch = e → inputs (t.loop.handed e) = inputs (ofEpoch e [frame])
  live : frame.epoch = e → frame.input ≠ none → t.controller.epoch = e

theorem Sendable.input (hf : Sendable e frame t) (hn : t.controller.epoch ≠ e ∨ t.loop.handed e = []) :
    inputs (ofEpoch e [frame]) = [] := by
  by_cases he : frame.epoch = e
  · rcases hn with hn | hn
    · rw [ofEpoch_self he]
      by_contra hi
      refine hn (hf.live he fun hnone => hi (inputs_none hnone))
    · rw [← hf.hand (.inl he), hn, inputs_nil]
  · rw [ofEpoch_other he, inputs_nil]

theorem Course.pushed (h : t.Course e drawn emitted heard) (hp : Pushed frame t t') (hf : Sendable e frame t) :
    Course e drawn emitted heard t' := by
  have hsent := hp.sentIn e
  have hidle : t'.loop.handed e = [] := by rw [hp.loop]; rfl
  have hinputs : inputs (t'.sentIn e) = inputs (t.sentIn e) ++ inputs (ofEpoch e [frame]) := by rw [hsent, inputs_append]
  have hcoming : t'.Coming e → t.Coming e := by
    rintro (⟨hc, -⟩ | ⟨n, hn⟩)
    · exact hf.loop.resolve_right fun hne => hne (hp.pending ▸ hc)
    · rw [hp.loop] at hn; cases hn
  have hbare : t.Bare e emitted → t'.Bare e emitted := fun hb =>
    ⟨hb.emitted, by rw [hinputs, hb.sent, hf.input (.inr hb.loop)]; rfl, hidle, by rw [hp.queue]; exact hb.queue,
      by rw [hp.hook]; exact hb.hook⟩
  constructor
  · intro hn
    obtain ⟨hne, hnone, hb⟩ := h.unborn hn
    have hother : frame.epoch ≠ e := fun he => hne (hf.own he)
    exact ⟨fun he => hne (hp.engaged he), by rw [hsent, hnone, ofEpoch_other hother]; rfl, hbare hb⟩
  · exact fun hc => hbare (h.coming (hcoming hc))
  · exact fun hc => hp.epoch.symm ▸ h.apart (hcoming hc)
  · rintro ⟨-, ho | ho⟩ <;> rw [hp.loop] at ho <;> cases ho
  · intro hl
    rw [hp.epoch] at hl
    obtain ⟨before, after, hsplit, hbefore, hafter⟩ := h.live hl
    refine ⟨before, after, hsplit, ?_, by rw [hp.queue, hp.hook]; exact hafter⟩
    rw [hidle, List.append_nil, hinputs, ← hf.hand (.inr hl), ← inputs_append]
    exact hbefore
  · by_cases hl : t.controller.epoch = e
    · obtain ⟨before, after, hsplit, hbefore, -⟩ := h.live hl
      refine ⟨before, hsplit ▸ List.prefix_append _ _, ?_⟩
      rw [hinputs, ← hf.hand (.inr hl), ← inputs_append]
      exact hbefore
    · rw [hinputs, hf.input (.inl hl), List.append_nil]
      exact h.past
  · rw [hsent, List.countP_append]
    by_cases he : frame.epoch = e ∧ frame.op = .activate
    · rw [hf.one he.1 he.2, ofEpoch_self he.1]
      simp [he.2]
    · have hzero : (ofEpoch e [frame]).countP (fun f => f.op = .activate) = 0 := by
        rw [List.countP_eq_zero]
        intro f hfr
        obtain ⟨hfr, hep⟩ := mem_ofEpoch.mp hfr
        rw [List.mem_singleton.mp hfr] at hep ⊢
        simpa using fun hop => he ⟨hep, hop⟩
      rw [hzero]
      exact h.single
  · rw [hsent, List.pairwise_append]
    refine ⟨h.sorted, (List.pairwise_singleton _ frame).sublist List.filter_sublist, fun x hx y hy => ?_⟩
    obtain ⟨hy, hep⟩ := mem_ofEpoch.mp hy
    rw [List.mem_singleton.mp hy] at hep ⊢
    have := h.bound (hf.own hep) x hx
    have := hp.seq
    omega
  · intro hn f hfr
    rw [hsent] at hfr
    rw [hp.next]
    rcases List.mem_append.mp hfr with hfr | hfr
    · exact (h.bound (hp.engaged hn) f hfr).trans (Nat.le_succ _)
    · rw [List.mem_singleton.mp (mem_ofEpoch.mp hfr).1, hp.seq]
  · rintro (ha | hi)
    · rw [Answered, hp.epoch, hp.loop] at ha
      rcases ha with ha | ⟨n, ha⟩ | ha | ⟨ha | ha, -⟩
      · exact h.answered (.inl (.inl ha))
      all_goals cases ha
    · by_cases hold : inputs (t.sentIn e) = []
      · rw [hinputs, hold, List.nil_append] at hi
        have hl : t.controller.epoch = e := by
          by_contra hl
          exact hi (hf.input (.inl hl))
        exact h.answered (.inl (.inl hl))
      · exact h.answered (.inr hold)
  · rw [hp.hook, hp.epoch]; exact h.hooked
  · intro hpaused
    rw [hp.loop] at hpaused
    cases hpaused

/-! ## Steps that leave the queue alone -/

theorem Course.still (h : t.Course e drawn emitted heard) (hhook : t'.hook = t.hook) (hloop : t'.loop = t.loop)
    (hepoch : t'.controller.epoch = t.controller.epoch) (hpending : t'.controller.pendingEpoch = t.controller.pendingEpoch)
    (hqueue : t'.controller.queue = t.controller.queue) (hlog : t'.controller.log = t.controller.log)
    (hseq : t'.controller.seq = t.controller.seq) : Course e drawn emitted heard t' := by
  refine h.aside ⟨fun he => hepoch ▸ he, ?_, ?_, ?_, ?_, fun hp _ => .inl (hhook ▸ hp), fun hp _ => hloop ▸ hp⟩
    hlog hseq hqueue
    (by rw [hloop]) (by rw [hhook])
  · simp [Coming, hpending, hloop]
  · simp [Engaged, hepoch, hpending, hloop]
  · simp [Opening, hpending, hloop]
  · simp only [Answered, hepoch, hpending, hloop]
    exact .inl

theorem Course.hookTo (h : t.Course e drawn emitted heard) {point : HookPoint} (hhand : point.handed e = t.hook.handed e)
    (hending : point.ending = true → t.controller.epoch = e → t.hook.ending = true ∨ emitted = []) :
    Course e drawn emitted heard (t.hookTo point) :=
  h.aside ⟨id, id, id, id, .inl, hending, fun hp _ => hp⟩ rfl rfl rfl rfl hhand

theorem Course.loopTo (h : t.Course e drawn emitted heard) {point : LoopPoint}
    (ha : Aside e emitted heard t (t.loopTo point))
    (hhand : point.handed e = t.loop.handed e) : Course e drawn emitted heard (t.loopTo point) :=
  h.aside ha rfl rfl rfl hhand rfl

/-! ## Statements of a stop -/

theorem Course.zeroEpoch (h : t.Course e drawn emitted heard) (he : e ≠ 0) :
    Course e drawn emitted heard { t with controller := { t.controller with epoch := 0 } } := by
  refine h.aside ⟨fun hl => absurd hl.symm he, id, ?_, id, ?_, fun _ hl => absurd hl.symm he, fun _ hl => absurd hl.symm he⟩
    rfl rfl rfl rfl rfl
  · rintro (hl | hl)
    · exact absurd hl.symm he
    · exact .inr hl
  · rintro (hl | hl)
    · exact absurd hl.symm he
    · exact .inl (.inr hl)

theorem Course.zeroPending (h : t.Course e drawn emitted heard) (he : e ≠ 0) :
    Course e drawn emitted heard { t with controller := { t.controller with pendingEpoch := 0 } } := by
  refine h.aside ⟨id, ?_, ?_, fun ho => absurd ho.1.symm he, ?_, fun hp _ => .inl hp, fun hp _ => hp⟩ rfl rfl rfl rfl rfl
  · rintro (⟨hp, -⟩ | hl)
    · exact absurd hp.symm he
    · exact .inr hl
  · rintro (hl | hp | hl)
    · exact .inl hl
    · exact absurd hp.symm he
    · exact .inr (.inr hl)
  · rintro (hl | hl | hl | ⟨-, hp⟩)
    · exact .inl (.inl hl)
    · exact .inl (.inr (.inl hl))
    · exact .inl (.inr (.inr (.inl hl)))
    · exact absurd hp.symm he

/-- The queue is cleared when nothing of the epoch can be in it. -/
theorem Course.clear (h : t.Course e drawn emitted heard)
    (hnone : t.controller.epoch = e → emitted = [] ∧ t.hook.handed e = []) :
    Course e drawn emitted heard { t with controller := { t.controller with queue := t.controller.queue.clear } } := by
  have hbare : t.Bare e emitted →
    Bare e emitted { t with controller := { t.controller with queue := t.controller.queue.clear } } :=
    fun hb => ⟨hb.emitted, hb.sent, hb.loop, rfl, hb.hook⟩
  refine ⟨fun hn => ⟨(h.unborn hn).1, (h.unborn hn).2.1, hbare (h.unborn hn).2.2⟩, fun hc => hbare (h.coming hc), h.apart,
    h.opening, fun hl => ?_, h.past, h.single, h.sorted, h.bound, h.answered, h.hooked, h.looped⟩
  obtain ⟨before, after, hsplit, hbefore, -⟩ := h.live hl
  obtain ⟨hemitted, hhook⟩ := hnone hl
  obtain ⟨rfl, rfl⟩ := List.append_eq_nil_iff.mp (hsplit.symm.trans hemitted)
  refine ⟨[], [], hsplit, hbefore, fun _ => ?_⟩
  dsimp only
  rw [hhook]
  exact .nil

/-! ## The hook thread -/

/-- The input that the capture emits in a step while the controller is in `e`. -/
def emits (e : Nat) (t : ControllerThreads) : ControllerAction → List Input
  | .hook _ =>
      match t.hook with
      | .enqueuing input => if t.controller.epoch = e then [input] else []
      | _ => []
  | _ => []

theorem Course.emit (h : t.Course e drawn emitted heard) {input : Input} (hh : t.hook = .enqueuing input)
    (env : ControllerEnv) :
    Course e drawn (emitted ++ t.emits e (.hook env)) heard
      (t.hookTo (.putting { input.event with epoch := t.controller.epoch })) := by
  have hhand : t.hook.handed e = [] := by rw [hh]; rfl
  by_cases hl : t.controller.epoch = e
  · have hemits : t.emits e (.hook env) = [input] := by simp [emits, hh, hl]
    have hengaged : t.Engaged e := .inl hl
    rw [hemits]
    refine ⟨fun hn => absurd hengaged (h.unborn hn).1, fun hc => absurd hl (h.apart hc), h.apart, h.opening, fun _ => ?_, ?_,
      h.single, h.sorted, h.bound, h.answered, (by rintro ⟨⟩), h.looped⟩
    · obtain ⟨before, after, hsplit, hbefore, hafter⟩ := h.live hl
      refine ⟨before, after ++ [input], by rw [hsplit, List.append_assoc], hbefore, fun hf => ?_⟩
      have hevent : inputs (HookPoint.handed e (.putting { input.event with epoch := t.controller.epoch })) = [input] := by
        rw [HookPoint.handed, ofEpoch_self hl]
        exact inputs_one (Input.input_event input)
      have hold := hafter hf
      rw [hhand, List.append_nil] at hold
      rw [ControllerThreads.hookTo]
      dsimp only
      rw [inputs_append, hevent]
      exact hold.append (Segments.fuse_refl _ _)
    · obtain ⟨taken, htaken, hsegments⟩ := h.past
      exact ⟨taken, htaken.trans (List.prefix_append _ _), hsegments⟩
  · have hemits : t.emits e (.hook env) = [] := by simp [emits, hh, hl]
    rw [hemits, List.append_nil]
    refine h.hookTo ?_ (fun hp => by cases hp)
    rw [hhand]
    exact ofEpoch_other hl

theorem Course.put (h : t.Course e drawn emitted heard) (hh : t.hook = .putting event) (env : ControllerEnv)
    {point : HookPoint} (hpoint : point = .idle ∨ point = .stopping .capture) :
    Course e drawn emitted heard
      ({ t with controller := { t.controller with queue := (t.controller.queue.put env.now event).queue } }.hookTo
        point) := by
  have hhand : point.handed e = [] := by rcases hpoint with rfl | rfl <;> rfl
  have hold : t.hook.handed e = ofEpoch e [event] := by rw [hh]; rfl
  have hbare : t.Bare e emitted → Bare e emitted
      ({ t with controller := { t.controller with queue := (t.controller.queue.put env.now event).queue } }.hookTo point) :=
    fun hb => ⟨hb.emitted, hb.sent, hb.loop, InputQueue.put_other hb.queue (hold ▸ hb.hook), hhand⟩
  refine ⟨fun hn => ⟨(h.unborn hn).1, (h.unborn hn).2.1, hbare (h.unborn hn).2.2⟩, fun hc => hbare (h.coming hc), h.apart,
    h.opening, fun hl => ?_, h.past, h.single, h.sorted, h.bound, h.answered, ?_, h.looped⟩
  · obtain ⟨before, after, hsplit, hbefore, hafter⟩ := h.live hl
    refine ⟨before, after, hsplit, hbefore, fun hf => ?_⟩
    rw [ControllerThreads.hookTo] at hf ⊢
    dsimp only at hf ⊢
    obtain ⟨hok, hqueue⟩ := InputQueue.put_ok hf
    have hqueued := hafter hqueue
    rw [hold, inputs_append] at hqueued
    have hput :
        Segments (Fuses Input.join) after
        (inputs ([] ++ ofEpoch e (t.controller.queue.put env.now event).queue.events)) :=
      Segments.put (by simpa using hqueued) hok
    rw [hhand, List.append_nil]
    exact hput
  · intro hp
    rcases hpoint with rfl | rfl <;> cases hp

theorem Course.hookStop (h : t.Course e drawn emitted heard) (he : e ≠ 0) {point : StopPoint}
    (hh : t.hook = .stopping point) :
    Course e drawn emitted heard ((t.stop false point).1.hookTo ((t.stop false point).2.elim .idle .stopping)) := by
  have hhand : [] = t.hook.handed e := by rw [hh]; rfl
  have hending : point.ending = true → t.hook.ending = true := by rw [hh]; exact id
  cases point with
  | capture =>
      refine Course.hookTo ?_ hhand (by rintro ⟨⟩)
      exact h.still rfl rfl rfl rfl rfl rfl rfl
  | connection =>
      refine Course.hookTo ?_ hhand (by rintro ⟨⟩)
      exact h.still rfl rfl rfl rfl rfl rfl rfl
  | epoch => exact Course.hookTo (h.zeroEpoch he) hhand (fun _ hl => absurd hl.symm he)
  | pending => exact Course.hookTo (h.zeroPending he) hhand (fun _ _ => .inl (hending rfl))
  | queue mark =>
      exact Course.hookTo (h.clear fun hl => ⟨h.hooked (hending rfl) hl, hhand.symm⟩) hhand (fun _ _ => .inl (hending rfl))
  | schedule mark =>
      refine Course.hookTo ?_ hhand (by rintro ⟨⟩)
      exact h.still rfl rfl rfl rfl rfl rfl rfl

theorem Course.hookStep (h : t.Course e drawn emitted heard) (he : e ≠ 0) (hs : t.hookStep env = some t') :
    Course e drawn (emitted ++ t.emits e (.hook env)) heard t' := by
  have hquiet : (∀ input, t.hook ≠ .enqueuing input) → emitted ++ t.emits e (.hook env) = emitted := by
    intro hne
    have hnone : t.emits e (.hook env) = [] := by
      unfold emits
      dsimp only
      split
      · rename_i input hh
        exact absurd hh (hne input)
      · rfl
    rw [hnone, List.append_nil]
  unfold ControllerThreads.hookStep at hs
  cases hh : t.hook with
  | idle => rw [hh] at hs; cases hs
  | toggle =>
      rw [hquiet (by simp [hh])]
      rw [hh] at hs
      cases hs
      refine h.hookTo ?_ ?_
      · rw [hh]; split <;> rfl
      · split <;> exact fun hp => by cases hp
  | toggling =>
      rw [hquiet (by simp [hh])]
      rw [hh] at hs
      dsimp only at hs
      split at hs <;> cases hs
      · exact h.hookTo (by rw [hh]; rfl) (fun hp => by cases hp)
      · refine Course.hookTo ?_ ?_ (by rintro ⟨⟩)
        · exact h.still hh.symm rfl rfl rfl rfl rfl rfl
        · rfl
  | enqueue input =>
      rw [hquiet (by simp [hh])]
      rw [hh] at hs
      cases hs
      refine h.hookTo ?_ ?_
      · rw [hh]; split <;> rfl
      · split <;> exact fun hp => by cases hp
  | enqueuing input =>
      rw [hh] at hs
      cases hs
      exact h.emit hh env
  | putting event =>
      rw [hquiet (by simp [hh])]
      rw [hh] at hs
      cases hs
      exact h.put hh env (by split <;> simp)
  | stopping point =>
      rw [hquiet (by simp [hh])]
      rw [hh] at hs
      cases hs
      exact h.hookStop he hh

/-! ## The event loop -/

variable {point : LoopPoint} {x n : Nat}

theorem Course.plain (h : t.Course e drawn emitted heard) (ht : t.loop.plain = true) (hp : point.plain = true)
    (hpaused : point.paused = true → t.controller.epoch = e → t.loop.paused = true) :
    Course e drawn emitted heard (t.loopTo point) := by
  refine h.loopTo ⟨id, ?_, ?_, ?_, ?_, fun hp _ => .inl hp, hpaused⟩ ?_
  · rintro (⟨hc, -⟩ | ⟨n, hn⟩)
    · refine .inl ⟨hc, fun n hn => ?_⟩
      rw [hn] at ht
      cases ht
    · rw [ControllerThreads.loopTo] at hn
      dsimp only at hn
      rw [hn] at hp
      cases hp
  · rintro (hl | hl | ⟨n, hn⟩)
    · exact .inl hl
    · exact .inr (.inl hl)
    · rw [ControllerThreads.loopTo] at hn
      dsimp only at hn
      rw [hn] at hp
      cases hp
  · rintro ⟨-, ho⟩
    rw [ControllerThreads.loopTo] at ho
    rcases ho with ho | ho <;> dsimp only at ho <;> rw [ho] at hp <;> cases hp
  · rw [Answered, ControllerThreads.loopTo]
    dsimp only
    rintro (hl | ⟨n, hn⟩ | hn | ⟨hn | hn, -⟩)
    · exact .inl (.inl hl)
    all_goals rw [hn] at hp; cases hp
  · rw [LoopPoint.handed_plain hp, LoopPoint.handed_plain ht]

theorem Course.loopStop (h : t.Course e drawn emitted heard) (he : e ≠ 0) {closing : Bool} {point : StopPoint}
    (hl : t.loop = .stopping closing point) :
    Course e drawn emitted heard
      ((t.stop closing point).1.loopTo ((t.stop closing point).2.elim .idle (.stopping closing))) := by
  have hplain : t.loop.plain = true := by rw [hl]; rfl
  have hpaused : point.ending = true → t.loop.paused = true := by rw [hl]; exact id
  have hclear : point.ending = true →
      Course e drawn emitted heard { t with controller := { t.controller with queue := t.controller.queue.clear } } :=
    fun hp => h.clear fun hepoch => absurd hepoch (h.looped (hpaused hp))
  cases point with
  | capture =>
      cases closing with
      | true => exact Course.plain (h.still rfl rfl rfl rfl rfl rfl rfl) hplain rfl (by rintro ⟨⟩)
      | false => exact Course.plain (h.still rfl rfl rfl rfl rfl rfl rfl) hplain rfl (by rintro ⟨⟩)
  | connection => exact Course.plain (h.still rfl rfl rfl rfl rfl rfl rfl) hplain rfl (by rintro ⟨⟩)
  | epoch => exact Course.plain (h.zeroEpoch he) hplain rfl (fun _ hl => absurd hl.symm he)
  | pending => exact Course.plain (h.zeroPending he) hplain rfl (fun _ _ => hpaused rfl)
  | queue mark =>
      cases closing with
      | true => exact Course.plain ((hclear rfl).still rfl rfl rfl rfl rfl rfl rfl) hplain rfl (by rintro ⟨⟩)
      | false => exact Course.plain (hclear rfl) hplain rfl (fun _ _ => hpaused rfl)
  | schedule mark => exact Course.plain (h.still rfl rfl rfl rfl rfl rfl rfl) hplain rfl (by rintro ⟨⟩)

/-- The epoch that a step draws. -/
def draws (t : ControllerThreads) : ControllerAction → List Nat
  | .loop env => if t.loop = .drawing then [orOne env.bits] else []
  | _ => []

theorem Course.later (h : t.Course e drawn emitted heard) (more : List Nat) : Course e (drawn ++ more) emitted heard t :=
  ⟨fun hn => h.unborn fun hd => hn (List.mem_append_left _ hd), h.coming, h.apart, h.opening, h.live, h.past, h.single,
    h.sorted, h.bound, h.answered, h.hooked, h.looped⟩

theorem Course.draw (h : t.Course e drawn emitted heard) (hl : t.loop = .drawing) {c : Controller} {begun : Nat}
    (hnew : c.pendingEpoch ∉ drawn) (hepoch : c.epoch = t.controller.epoch) (hqueue : c.queue = t.controller.queue)
    (hlog : c.log = t.controller.log) (hseq : c.seq = t.controller.seq) :
    Course e (drawn ++ [c.pendingEpoch]) emitted heard ({ t with controller := c, begun := begun }.loopTo .clearing) := by
  have hhand : t.loop.handed e = [] := by rw [hl]; rfl
  by_cases hd : c.pendingEpoch = e
  · obtain ⟨hengaged, hnone, hb⟩ := h.unborn (hd ▸ hnew)
    have hne : c.epoch ≠ e := fun hep => hengaged (.inl (hepoch ▸ hep))
    have hsent : sentIn e ({ t with controller := c, begun := begun }.loopTo .clearing) = [] := by
      rw [sentIn, ControllerThreads.loopTo, hlog]
      exact hnone
    have hbare : Bare e emitted ({ t with controller := c, begun := begun }.loopTo .clearing) :=
      ⟨hb.emitted, by rw [hsent]; rfl, rfl, by rw [ControllerThreads.loopTo, hqueue]; exact hb.queue, hb.hook⟩
    refine ⟨fun hn => absurd (by simp [hd]) hn, fun _ => hbare, fun _ => hne, fun _ => hsent, fun hep => absurd hep hne,
      ⟨[], List.nil_prefix, by rw [hsent]; exact .nil⟩, by simp [hsent], by simp [hsent], by simp [hsent], ?_,
      fun _ hep => absurd hep hne, fun _ => hne⟩
    rw [hsent]
    rintro ((hep | ⟨n, hn⟩ | hn | ⟨hn | hn, -⟩) | hn)
    · exact absurd hep hne
    · cases hn
    · cases hn
    · cases hn
    · cases hn
    · exact absurd rfl hn
  · refine Course.later ?_ _
    refine h.aside ⟨fun hep => hepoch ▸ hep, ?_, ?_, fun ho => absurd ho.1 hd, ?_, fun hp _ => .inl hp, ?_⟩ hlog hseq hqueue
      hhand.symm rfl
    · rintro (⟨hc, -⟩ | ⟨n, hn⟩)
      · exact absurd hc hd
      · cases hn
    · rintro (hep | hp | ⟨n, hn⟩)
      · exact .inl (hepoch ▸ hep)
      · exact absurd hp hd
      · cases hn
    · rintro (hep | ⟨n, hn⟩ | hn | ⟨hn | hn, -⟩)
      · exact .inl (.inl (hepoch ▸ hep))
      all_goals cases hn
    · exact fun _ _ => by rw [hl]; rfl

/-- The epoch becomes active. -/
theorem Course.assign (h : t.Course e drawn emitted heard) (hl : t.loop = .loaded x n) :
    Course e drawn emitted heard ({ t with controller := { t.controller with epoch := x } }.loopTo (.assigned n)) := by
  have hhand : t.loop.handed e = [] := by rw [hl]; rfl
  by_cases hx : x = e
  · subst hx
    have hcoming : t.Coming x := .inr ⟨n, hl⟩
    have hengaged : t.Engaged x := .inr (.inr ⟨n, hl⟩)
    have hb := h.coming hcoming
    have hanswered : heard := h.answered (.inl (.inr (.inl ⟨n, hl⟩)))
    refine ⟨fun hn => absurd hengaged (h.unborn hn).1, ?_, ?_, ?_, fun _ => ?_, h.past, h.single, h.sorted,
      fun _ => h.bound hengaged, fun _ => hanswered, fun _ _ => hb.emitted, by rintro ⟨⟩⟩
    · rintro (⟨-, hn⟩ | ⟨m, hn⟩)
      · exact absurd rfl (hn n)
      · cases hn
    · rintro (⟨-, hn⟩ | ⟨m, hn⟩)
      · exact absurd rfl (hn n)
      · cases hn
    · rintro ⟨-, ho | ho⟩ <;> cases ho
    · refine ⟨[], [], hb.emitted, ?_, fun _ => ?_⟩
      · change Segments _ [] (inputs (t.sentIn x ++ []))
        rw [List.append_nil, hb.sent]
        exact .nil
      · change Segments _ [] (inputs (ofEpoch x t.controller.queue.events ++ t.hook.handed x))
        rw [hb.queue, hb.hook]
        exact .nil
  · refine h.aside ⟨fun hep => absurd hep hx, ?_, ?_, ?_, ?_, fun _ hep => absurd hep hx, fun _ hep => absurd hep hx⟩
      rfl rfl rfl hhand.symm rfl
    · rintro (⟨-, hn⟩ | ⟨m, hn⟩)
      · exact absurd rfl (hn n)
      · cases hn
    · rintro (hep | hp | ⟨m, hn⟩)
      · exact absurd hep hx
      · exact .inr (.inl hp)
      · cases hn
    · rintro ⟨-, ho | ho⟩ <;> cases ho
    · rintro (hep | ⟨m, hn⟩ | hn | ⟨hn | hn, -⟩)
      · exact absurd hep hx
      all_goals cases hn

/-! ## The frames of each statement -/

theorem pushed_send (env : ControllerEnv) (event : Event) (hl : t'.loop = .idle) (hh : t'.hook = t.hook)
    (hc : t'.controller = t.controller.send env event) : Pushed (t.controller.frame env event) t t' :=
  ⟨by rw [hc]; rfl, by rw [hc]; rfl, by rw [hc]; rfl, hh, hl, by rw [hc]; simp [Controller.send, sentFrames],
    by rw [hc]; rfl, rfl⟩

/-- A frame that is neither input nor an activation, of no epoch or of one that may be active. -/
theorem Course.control (h : t.Course e drawn emitted heard) (he : e ≠ 0) (hhand : t.loop.handed e = [])
    (hassigned : ∀ n, t.loop ≠ .assigned n) (hop : event.op.isInput = false) (hactivate : event.op ≠ .activate)
    (hepoch : event.epoch = 0 ∨ event.epoch = t.controller.epoch ∨ event.epoch = t.controller.pendingEpoch)
    (hl : t'.loop = .idle) (hh : t'.hook = t.hook) (hc : t'.controller = t.controller.send env event) :
    Course e drawn emitted heard t' := by
  have hinput : (t.controller.frame env event).input = none := Event.input_eq_none.mpr hop
  have hnone : inputs (ofEpoch e [t.controller.frame env event]) = [] := by
    by_cases hf : (t.controller.frame env event).epoch = e
    · rw [ofEpoch_self hf, inputs_none hinput]
    · rw [ofEpoch_other hf, inputs_nil]
  refine h.pushed (pushed_send env event hl hh hc) ⟨?_, fun hf => ?_, fun _ ha => absurd ha hactivate, fun _ => ?_,
    fun _ hi => absurd hinput hi⟩
  · by_cases hp : t.controller.pendingEpoch = e
    · exact .inl (.inl ⟨hp, hassigned⟩)
    · exact .inr hp
  · rcases hepoch with h0 | hep | hep
    · exact absurd (hf.symm.trans h0) he
    · exact .inl (hep.symm.trans hf)
    · exact .inr (.inl (hep.symm.trans hf))
  · rw [hhand, hnone, inputs_nil]

/-- `send_reset`, whether there is an outbox or not. -/
theorem Course.reset (h : t.Course e drawn emitted heard) (he : e ≠ 0) (hhand : t.loop.handed e = [])
    (hassigned : ∀ n, t.loop ≠ .assigned n) (hidle : Course e drawn emitted heard (t.loopTo .idle)) :
    Course e drawn emitted heard ({ t with controller := t.controller.sendReset env }.loopTo .idle) := by
  unfold Controller.sendReset
  split
  · exact h.control he hhand hassigned rfl (by simp) (.inl rfl) rfl rfl rfl
  · exact hidle

theorem Course.activateFrame (h : t.Course e drawn emitted heard) (hl : t.loop = .sending) {event : Event}
    (hevent : event = { op := .activate, epoch := t.controller.pendingEpoch }) :
    Course e drawn emitted heard ({ t with controller := t.controller.send env event }.loopTo .idle) := by
  subst hevent
  have hne : t.controller.epoch ≠ e := h.looped (by rw [hl]; rfl)
  have hinput : (t.controller.frame env { op := .activate, epoch := t.controller.pendingEpoch }).input = none := rfl
  refine h.pushed (pushed_send env _ rfl rfl rfl) ⟨?_, fun hf => .inr (.inl hf), fun hf _ => h.opening ⟨hf, .inr hl⟩,
    fun hf => ?_, fun _ hi => absurd hinput hi⟩
  · by_cases hp : t.controller.pendingEpoch = e
    · exact .inl (.inl ⟨hp, by simp [hl]⟩)
    · exact .inr hp
  · rw [hl, ofEpoch_self (hf.resolve_right hne), inputs_none hinput]
    rfl

/-- An event that the loop has in hand is dropped. -/
theorem Course.drop (h : t.Course e drawn emitted heard) (hl : t.loop = .popped event ∨ t.loop = .matching event)
    (hnone : t.controller.epoch = e → t.loop.handed e = []) : Course e drawn emitted heard (t.loopTo .idle) := by
  have hcoming : Coming e (t.loopTo .idle) → t.Coming e := by
    rintro (⟨hp, -⟩ | ⟨n, hn⟩)
    · exact .inl ⟨hp, by rcases hl with hl | hl <;> simp [hl]⟩
    · cases hn
  have hengaged : Engaged e (t.loopTo .idle) → t.Engaged e := by
    rintro (hep | hp | ⟨n, hn⟩)
    · exact .inl hep
    · exact .inr (.inl hp)
    · cases hn
  have hbare : t.Bare e emitted → Bare e emitted (t.loopTo .idle) := fun hb => ⟨hb.emitted, hb.sent, rfl, hb.queue, hb.hook⟩
  refine ⟨fun hn => ⟨fun he => (h.unborn hn).1 (hengaged he), (h.unborn hn).2.1, hbare (h.unborn hn).2.2⟩,
    fun hc => hbare (h.coming (hcoming hc)), fun hc => h.apart (hcoming hc), ?_, fun hep => ?_, h.past, h.single, h.sorted,
    fun he => h.bound (hengaged he), ?_, h.hooked, by rintro ⟨⟩⟩
  · rintro ⟨-, ho | ho⟩ <;> cases ho
  · have hold := h.live hep
    rw [hnone hep] at hold
    exact hold
  · rintro ((hep | ⟨n, hn⟩ | hn | ⟨hn | hn, -⟩) | hn)
    · exact h.answered (.inl (.inl hep))
    · cases hn
    · cases hn
    · cases hn
    · cases hn
    · exact h.answered (.inr hn)

/-- The loop sends the event that it has in hand, if it is of the active epoch. -/
theorem Course.matched (h : t.Course e drawn emitted heard) (hl : t.loop = .matching event) (hop : event.op ≠ .activate)
    {c : Controller} (hc : c = if event.epoch ≠ t.controller.epoch then t.controller else t.controller.send env event) :
    Course e drawn emitted heard ({ t with controller := c }.loopTo .idle) := by
  subst hc
  split
  · rename_i hne
    exact h.drop (.inr hl) fun hep => by rw [hl]; exact ofEpoch_other (hep ▸ hne)
  · rename_i heq
    have heq : event.epoch = t.controller.epoch := not_not.mp heq
    refine h.pushed (pushed_send env event rfl rfl rfl) ⟨?_, fun hf => .inl (heq.symm.trans hf), fun _ ha => absurd ha hop,
      fun hf => ?_, fun hf _ => heq.symm.trans hf⟩
    · by_cases hp : t.controller.pendingEpoch = e
      · exact .inl (.inl ⟨hp, by simp [hl]⟩)
      · exact .inr hp
    · have he : event.epoch = e := hf.elim id heq.trans
      have hframe : (t.controller.frame env event).epoch = e := he
      rw [hl, ofEpoch_self hframe, LoopPoint.handed, ofEpoch_self he]
      rfl

/-! ## The sender takes from the queue -/

/-- The queue fails, or fails again. -/
theorem Course.fail (h : t.Course e drawn emitted heard) {q : InputQueue} (hfailed : q.failed = true)
    (hq : q.items = [] ∨ q = t.controller.queue) (hl : t.loop = .idle) :
    Course e drawn emitted heard
      ({ t with controller := { t.controller with queue := q } }.loopTo (.stopping false .capture)) := by
  have hbare : t.Bare e emitted → Bare e emitted { t with controller := { t.controller with queue := q } } := by
    refine fun hb => ⟨hb.emitted, hb.sent, hb.loop, ?_, hb.hook⟩
    rcases hq with hq | rfl
    · simp [InputQueue.events, hq]
    · exact hb.queue
  refine Course.plain ?_ (by rw [hl]; rfl) rfl (by rintro ⟨⟩)
  refine ⟨fun hn => ⟨(h.unborn hn).1, (h.unborn hn).2.1, hbare (h.unborn hn).2.2⟩, fun hc => hbare (h.coming hc), h.apart,
    h.opening, fun hep => ?_, h.past, h.single, h.sorted, h.bound, h.answered, h.hooked, h.looped⟩
  obtain ⟨before, after, hsplit, hbefore, -⟩ := h.live hep
  refine ⟨before, after, hsplit, hbefore, fun hf => ?_⟩
  rw [show q.failed = false from hf] at hfailed
  cases hfailed

/-- The loop takes the oldest event from the queue. -/
theorem Course.pop (h : t.Course e drawn emitted heard) {q : InputQueue} {events : List Event}
    (hf : t.controller.queue.failed = false) (hq : t.controller.queue.events = event :: events) (hq' : q.events = events)
    (hl : t.loop = .idle) :
    Course e drawn emitted heard ({ t with controller := { t.controller with queue := q } }.loopTo (.popped event)) := by
  have hhand : t.loop.handed e = [] := by rw [hl]; rfl
  have hsplit : ofEpoch e t.controller.queue.events = ofEpoch e [event] ++ ofEpoch e q.events := by
    rw [hq, hq', ← ofEpoch_append, List.singleton_append]
  have hcoming : Coming e ({ t with controller := { t.controller with queue := q } }.loopTo (.popped event)) →
    t.Coming e := by
    rintro (⟨hp, -⟩ | ⟨n, hn⟩)
    · exact .inl ⟨hp, by simp [hl]⟩
    · cases hn
  have hengaged : Engaged e ({ t with controller := { t.controller with queue := q } }.loopTo (.popped event)) →
    t.Engaged e := by
    rintro (hep | hp | ⟨n, hn⟩)
    · exact .inl hep
    · exact .inr (.inl hp)
    · cases hn
  have hbare : t.Bare e emitted →
      Bare e emitted ({ t with controller := { t.controller with queue := q } }.loopTo (.popped event)) := by
    intro hb
    have hnone := hb.queue
    rw [hsplit, List.append_eq_nil_iff] at hnone
    exact ⟨hb.emitted, hb.sent, hnone.1, hnone.2, hb.hook⟩
  refine ⟨fun hn => ⟨fun he => (h.unborn hn).1 (hengaged he), (h.unborn hn).2.1, hbare (h.unborn hn).2.2⟩,
    fun hc => hbare (h.coming (hcoming hc)), fun hc => h.apart (hcoming hc), ?_, fun hep => ?_, h.past, h.single, h.sorted,
    fun he => h.bound (hengaged he), ?_, h.hooked, by rintro ⟨⟩⟩
  · rintro ⟨-, ho | ho⟩ <;> cases ho
  · obtain ⟨before, after, hlog, hbefore, hafter⟩ := h.live hep
    have hall := hafter hf
    rw [hsplit, List.append_assoc, inputs_append] at hall
    obtain ⟨taken, rest, rfl, htaken, hrest⟩ := hall.of_append
    refine ⟨before ++ taken, rest, by rw [hlog, List.append_assoc], ?_, fun _ => hrest⟩
    rw [hhand, List.append_nil] at hbefore
    change Segments _ _ (inputs (t.sentIn e ++ ofEpoch e [event]))
    rw [inputs_append]
    exact hbefore.append htaken
  · rintro ((hep | ⟨n, hn⟩ | hn | ⟨hn | hn, -⟩) | hn)
    · exact h.answered (.inl (.inl hep))
    · cases hn
    · cases hn
    · cases hn
    · cases hn
    · exact h.answered (.inr hn)

/-! ## One step -/

/-- The loop goes on to another statement, and the epoch does not come closer. -/
theorem Course.onward (h : t.Course e drawn emitted heard) {point : LoopPoint} (hhand : point.handed e = t.loop.handed e)
    (hcoming : Coming e (t.loopTo point) → t.Coming e) (hopening : Opening e (t.loopTo point) → t.Opening e)
    (hloaded : ∀ n, point = .loaded e n → t.Engaged e) (hanswered : Answered e (t.loopTo point) → t.Answered e)
    (hpaused : point.paused = true → t.controller.epoch = e → t.loop.paused = true) :
    Course e drawn emitted heard (t.loopTo point) := by
  refine h.loopTo ⟨id, hcoming, ?_, hopening, fun ha => .inl (hanswered ha), fun hp _ => .inl hp, hpaused⟩ hhand
  rintro (hep | hp | ⟨n, hn⟩)
  · exact .inl hep
  · exact .inr (.inl hp)
  · exact hloaded n hn

theorem Course.loopStep (h : t.Course e drawn emitted heard) (he : e ≠ 0) (hc : t.Captured)
    (hnew : t.loop = .drawing → orOne env.bits ∉ drawn) (hs : t.loopStep env = some t') :
    Course e (drawn ++ t.draws (.loop env)) emitted heard t' := by
  have hquiet : t.loop ≠ .drawing → drawn ++ t.draws (.loop env) = drawn := by
    intro hne
    rw [draws, if_neg hne, List.append_nil]
  unfold ControllerThreads.loopStep at hs
  cases hl : t.loop with
  | idle => rw [hl] at hs; cases hs
  | activate =>
      rw [hquiet (by simp [hl])]
      rw [hl] at hs
      cases hs
      refine h.plain (by rw [hl]; rfl) (by split <;> rfl) fun hp hep => ?_
      rw [if_pos (hep ▸ he)] at hp
      cases hp
  | activating =>
      rw [hquiet (by simp [hl])]
      rw [hl] at hs
      cases hs
      exact h.plain (by rw [hl]; rfl) (by split <;> rfl) (fun _ _ => by rw [hl]; rfl)
  | drawing =>
      rw [hl] at hs
      cases hs
      rw [draws, if_pos hl]
      exact h.draw hl (c := { t.controller with pendingEpoch := orOne env.bits,
                                                activateDeadline := env.now + t.controller.network.inputTimeout })
        (hnew hl) rfl rfl rfl rfl
  | clearing =>
      rw [hquiet (by simp [hl])]
      rw [hl] at hs
      cases hs
      have hne : t.controller.epoch ≠ e := h.looped (by rw [hl]; rfl)
      refine Course.onward (h.clear fun hep => absurd hep hne) ?_ ?_ ?_ ?_ ?_ ?_
      · rw [hl]; rfl
      all_goals simp [Coming, Opening, Answered, LoopPoint.paused, ControllerThreads.loopTo, hl]
  | sending =>
      rw [hquiet (by simp [hl])]
      rw [hl] at hs
      cases hs
      exact h.activateFrame hl rfl
  | activated x =>
      rw [hquiet (by simp [hl])]
      rw [hl] at hs
      dsimp only at hs
      split at hs <;> cases hs
      · refine h.reset he (by rw [hl]; rfl) (by simp [hl]) (h.onward ?_ ?_ ?_ ?_ ?_ ?_)
        · rw [hl]; rfl
        all_goals simp [Coming, Opening, Answered, LoopPoint.paused, ControllerThreads.loopTo, hl]
        exact .inl
      · rename_i hx
        have hx : x = t.controller.pendingEpoch := not_not.mp hx
        subst hx
        refine h.onward ?_ ?_ ?_ ?_ ?_ ?_
        · rw [hl]; rfl
        all_goals simp [Coming, Opening, Answered, LoopPoint.paused, ControllerThreads.loopTo, hl]
  | compared =>
      rw [hquiet (by simp [hl])]
      rw [hl] at hs
      dsimp only at hs
      split at hs <;> cases hs
      · refine h.reset he (by rw [hl]; rfl) (by simp [hl]) (h.onward ?_ ?_ ?_ ?_ ?_ ?_)
        · rw [hl]; rfl
        all_goals simp [Coming, Opening, Answered, LoopPoint.paused, ControllerThreads.loopTo, hl]
        exact .inl
      · refine h.onward ?_ ?_ ?_ ?_ ?_ ?_
        · rw [hl]; rfl
        all_goals simp [Coming, Opening, Answered, LoopPoint.paused, ControllerThreads.loopTo, hl]
  | checked =>
      rw [hquiet (by simp [hl])]
      rw [hl] at hs
      cases hs
      refine h.onward ?_ ?_ ?_ ?_ ?_ ?_
      · rw [hl]; rfl
      all_goals simp [Coming, Opening, Answered, Engaged, LoopPoint.paused, ControllerThreads.loopTo, hl]
      · exact fun hp => .inr hp
  | loaded x n =>
      rw [hquiet (by simp [hl])]
      rw [hl] at hs
      cases hs
      exact h.assign hl
  | assigned n =>
      rw [hquiet (by simp [hl])]
      rw [hl] at hs
      cases hs
      refine Course.onward (h.zeroPending he) ?_ ?_ ?_ ?_ ?_ ?_
      · rw [hl]; rfl
      all_goals simp [Coming, Opening, Answered, LoopPoint.paused, ControllerThreads.loopTo, hl, he.symm]
  | requesting n =>
      rw [hquiet (by simp [hl])]
      rw [hl] at hs
      dsimp only at hs
      split at hs <;> cases hs
      exact Course.plain (h.still rfl hl.symm rfl rfl rfl rfl rfl) rfl rfl (by rintro ⟨⟩)
  | popped event =>
      rw [hquiet (by simp [hl])]
      rw [hl] at hs
      cases hs
      split
      · rename_i h0
        exact h.drop (.inl hl) fun hep => absurd (hep.symm.trans h0) he
      · refine h.onward ?_ ?_ ?_ ?_ ?_ ?_
        · rw [hl]; rfl
        all_goals simp [Coming, Opening, Answered, LoopPoint.paused, ControllerThreads.loopTo, hl]
  | matching event =>
      rw [hquiet (by simp [hl])]
      rw [hl] at hs
      cases hs
      refine h.matched hl (fun ha => ?_) rfl
      have hin := hc.loop event (.inr hl)
      rw [ha] at hin
      cases hin
  | stopping closing point =>
      rw [hquiet (by simp [hl])]
      rw [hl] at hs
      dsimp only at hs
      split at hs <;> cases hs
      exact h.loopStop he hl

/-- An idle loop sends a frame that is neither input nor an activation, of no epoch or of one that may be active. -/
theorem Course.controlIdle (h : t.Course e drawn emitted heard) (he : e ≠ 0) (hl : t.loop = .idle)
    (hop : event.op.isInput = false) (hactivate : event.op ≠ .activate)
    (hepoch : event.epoch = 0 ∨ event.epoch = t.controller.epoch ∨ event.epoch = t.controller.pendingEpoch) :
    Course e drawn emitted heard { t with controller := t.controller.send env event } :=
  h.control he (by rw [hl]; rfl) (by simp [hl]) hop hactivate hepoch hl rfl rfl

theorem Course.readAck (h : t.Course e drawn emitted heard) (op epoch seq stamp : Nat) :
    Course e drawn emitted heard { t with controller := t.controller.readAck env op epoch seq stamp } := by
  unfold Controller.readAck
  dsimp only
  split
  · exact h.still rfl rfl rfl rfl rfl rfl rfl
  · exact h

theorem Course.readChallenge (h : t.Course e drawn emitted heard) (he : e ≠ 0) (hl : t.loop = .idle) (nonce : Nat) :
    Course e drawn emitted heard { t with controller := t.controller.readChallenge env nonce } := by
  have hlease : Course e drawn emitted heard
      { t with controller := { t.controller with lease := nonce, leaseReceived := env.now } } :=
    h.still rfl rfl rfl rfl rfl rfl rfl
  unfold Controller.readChallenge
  dsimp only
  split
  · refine hlease.controlIdle he hl rfl (by simp) (.inr ?_)
    dsimp only
    split
    · exact .inl rfl
    · exact .inr rfl
  · exact hlease

theorem Course.probe (h : t.Course e drawn emitted heard) (he : e ≠ 0) (hl : t.loop = .idle) :
    Course e drawn emitted heard { t with controller := t.controller.probe env } := by
  unfold Controller.probe
  split
  · have hsent : Course e drawn emitted heard
        { t with controller := t.controller.send env { op := .probe, epoch := t.controller.epoch } } :=
      h.controlIdle he hl rfl (by simp) (.inr (.inl rfl))
    exact hsent.still rfl rfl rfl rfl rfl rfl rfl
  · exact h

theorem Course.begin (h : t.Course e drawn emitted heard) (he : e ≠ 0) (hl : t.loop = .idle) {task : LoopTask}
    (hheard : task = .activated e → heard) (hs : t.begin env task = some t') : Course e drawn emitted heard t' := by
  have hplain : ∀ {u : ControllerThreads} {point : LoopPoint}, u.Course e drawn emitted heard → u.loop = .idle →
      point.plain = true → point.paused = false → Course e drawn emitted heard (u.loopTo point) := fun hu hidle hp hn =>
    hu.plain (by rw [hidle]; rfl) hp fun hpaused => by rw [hn] at hpaused; cases hpaused
  unfold ControllerThreads.begin at hs
  cases task with
  | activated x =>
      cases hs
      refine h.loopTo ⟨id, ?_, ?_, ?_, ?_, fun hp _ => .inl hp, by rintro ⟨⟩⟩ (by rw [hl]; rfl)
      · simp [Coming, ControllerThreads.loopTo, hl]
      · simp [Engaged, ControllerThreads.loopTo, hl]
      · simp [Opening, ControllerThreads.loopTo]
      · rintro (hep | ⟨n, hn⟩ | hn | ⟨hn | hn, -⟩)
        · exact .inl (.inl hep)
        · cases hn
        · cases hn; exact .inr (hheard rfl)
        · cases hn
        · cases hn
  | ack op epoch seq stamp => cases hs; exact h.readAck op epoch seq stamp
  | challenge nonce => cases hs; exact h.readChallenge he hl nonce
  | callback =>
      dsimp only at hs
      split at hs <;> cases hs
      · refine hplain ?_ hl rfl rfl
        exact h.still rfl rfl rfl rfl rfl rfl rfl
      · rename_i rest _
        have hrest : Course e drawn emitted heard { t with controller := { t.controller with scheduled := rest } } :=
          h.still rfl rfl rfl rfl rfl rfl rfl
        unfold Controller.sendReset
        split
        · exact hrest.controlIdle he hl rfl (by simp) (.inl rfl)
        · exact hrest
  | sender =>
      have hcase := t.controller.queue.pop_cases env.now
      dsimp only at hs
      generalize t.controller.queue.pop env.now = r at hs hcase
      cases hcase with
      | failed hf => cases hs; exact h.fail hf (.inr rfl) hl
      | empty => cases hs; exact h
      | expired => cases hs; exact h.fail rfl (.inl rfl) hl
      | item item rest hf hq => cases hs; exact h.pop hf (by rw [InputQueue.events, hq]; rfl) rfl hl
  | probe => cases hs; exact h.probe he hl
  | stop => cases hs; exact hplain h hl rfl rfl
  | connect => cases hs; exact h.still rfl rfl rfl rfl rfl rfl rfl
  | close => cases hs; exact hplain h hl rfl rfl

theorem Course.call (h : t.Course e drawn emitted heard) (hh : t.hook = .idle) (call : HookCall) :
    Course e drawn emitted heard (t.call call) := by
  have hhook : ∀ {point : HookPoint} (locked : Bool), point.ending = false → point.handed e = [] →
      Course e drawn emitted heard { t with hook := point, locked := locked } := by
    intro point locked hending hhand
    refine Course.still (t := t.hookTo point) (h.hookTo (by rw [hhand, hh]; rfl) fun hp => ?_) rfl rfl rfl rfl rfl rfl rfl
    rw [hending] at hp
    cases hp
  cases call with
  | toggle => exact hhook true rfl rfl
  | enqueue input => exact hhook true rfl rfl
  | stop locked => exact hhook locked rfl rfl

theorem draws_other {action : ControllerAction} (h : ∀ env, action ≠ .loop env) : t.draws action = [] := by
  cases action with
  | loop env => exact absurd rfl (h env)
  | _ => rfl

theorem emits_other {action : ControllerAction} (h : ∀ env, action ≠ .hook env) : t.emits e action = [] := by
  cases action with
  | hook env => exact absurd rfl (h env)
  | _ => rfl

/-- The course goes on with every step: the loop draws new epochs only, and takes up an answer only when the target has
activated the epoch. -/
theorem Course.step (h : t.Course e drawn emitted heard) (he : e ≠ 0) (hc : t.Captured) {action : ControllerAction}
    (hnew : ∀ env, action = .loop env → t.loop = .drawing → orOne env.bits ∉ drawn)
    (hheard : ∀ env, action = .begin env (.activated e) → heard) (hs : t.step action = some t') :
    Course e (drawn ++ t.draws action) (emitted ++ t.emits e action) heard t' := by
  cases action with
  | call call =>
      rw [draws_other (by simp), emits_other (by simp), List.append_nil, List.append_nil]
      unfold ControllerThreads.step at hs
      dsimp only at hs
      split at hs <;> cases hs
      rename_i hh
      exact h.call hh call
  | hook env =>
      rw [draws_other (by simp), List.append_nil]
      exact h.hookStep he hs
  | begin env task =>
      rw [draws_other (by simp), emits_other (by simp), List.append_nil, List.append_nil]
      unfold ControllerThreads.step at hs
      dsimp only at hs
      split at hs
      · rename_i hl
        exact h.begin he hl (fun ht => hheard env (by rw [ht])) hs
      · cases hs
  | loop env =>
      rw [emits_other (by simp), List.append_nil]
      exact h.loopStep he hc (hnew env rfl) hs

end ControllerThreads

end RemoteInput
