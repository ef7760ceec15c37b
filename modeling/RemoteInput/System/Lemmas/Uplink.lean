import RemoteInput.System.Lemmas.Links

/-!
# From the controller's outbox to the relay

What the controller has put on the outbox of a connection is what was written on the link and what waits, as long as the
outbox has not failed. What was written, the relay has taken or will take.
-/

namespace RemoteInput

open ControllerThreads

namespace Site

variable {crypto : Crypto} {s s' : Site} {action : SiteAction}

/-- The frames that were written on a connection. -/
def written (s : Site) (c : Nat) : List Event := s.received c ++ framesOf (s.up c)

theorem written_step (h : s.Honest) (hs : s.step crypto action = some s') (c : Nat) : s'.written c = s.written c := by
  cases step_cases hs with
  | wrote now d message outbox outbox' hc ho ht =>
      obtain ⟨-, -, hw⟩ := Outbox.take_eq ht
      have hplain : message.isFrame = false := by
        refine h.speaks.plain message ?_
        rw [Target.waiting, ho]
        show message ∈ outbox.waiting
        rw [hw]
        exact List.mem_cons_self
      have hnone : framesOf [message] = [] := by cases message <;> first | rfl | cases hplain
      unfold written sendUp
      dsimp only
      by_cases hcd : c = d
      · subst hcd
        rw [Function.update_self, framesOf_append, hnone, List.append_nil]
      · rw [Function.update_of_ne hcd]
  | received d message rest relay hu hr =>
      unfold written
      dsimp only
      by_cases hcd : c = d
      · subst hcd
        rw [Function.update_self, Function.update_self, List.append_assoc, ← framesOf_append, hu]
        rfl
      · rw [Function.update_of_ne hcd, Function.update_of_ne hcd]
  | _ => rfl

/-- A connection of the controller stays one. -/
theorem greeting_step (hs : s.step crypto action = some s') {c : Nat} (hg : (s.greeting c).isSome = true)
    (hc : s.targetConn ≠ some c) : (s'.greeting c).isSome = true ∧ s'.targetConn ≠ some c := by
  cases step_cases hs with
  | dialed d hd hu =>
      have hcd : c ≠ d := by
        rintro rfl
        rw [hu.1] at hg
        cases hg
      exact ⟨by simpa [hcd] using hg, by simpa using hcd.symm⟩
  | lost | restarted => exact ⟨hg, by simp⟩
  | _ => exact ⟨hg, hc⟩

theorem greeting_stays (hs : s.step crypto action = some s') {c : Nat} (hg : s'.greeting c = none) :
    s.greeting c = none := by
  cases step_cases hs with
  | dialed d hd hu =>
      by_cases hcd : c = d
      · subst hcd; simp at hg
      · simpa [hcd] using hg
  | _ => exact hg

end Site

namespace System

variable {crypto : Crypto} {s s' : System} {ctl : ControllerThreads}

/-! ## The invariant -/

structure Linked (s : System) : Prop where
  sound : s.site.Sound
  flows : s.site.Flows
  honest : s.site.Honest
  wired : s.ctl.Wired (s.ctlConn.isSome = true)
  captured : s.ctl.Captured
  greeted : ∀ c, s.ctlConn = some c → (s.site.greeting c).isSome = true ∧ s.site.targetConn ≠ some c
  unused : ∀ c, s.site.greeting c = none → s.framed c = []
  sofar : ∀ c, s.site.written c <+: s.framed c
  all : ∀ c, s.ctlConn = some c → s.ctl.controller.Lossless → s.site.written c ++ s.ctl.controller.waiting = s.framed c

theorem Linked.start (owner password : String) : (start owner password).Linked where
  sound := .start owner password
  flows := .start owner password
  honest := .start owner password
  wired := .restart []
  captured := .start
  greeted := by simp [System.start]
  unused := fun _ _ => rfl
  sofar := fun _ => List.nil_prefix
  all := by simp [System.start]

/-- The relay or the target acts. -/
theorem Linked.site (h : s.Linked) {action : SiteAction} (ha : ∀ a, action ≠ .stranger a) {site : Site}
    (hs : s.site.step crypto action = some site) : Linked { s with site := site } := by
  have hwritten := Site.written_step h.honest hs
  refine ⟨h.sound.step hs, h.flows.step h.sound ha hs, h.honest.step h.sound ha hs, h.wired, h.captured, fun c hc => ?_,
    fun c hg => h.unused c (Site.greeting_stays hs hg), fun c => ?_, fun c hc hl => ?_⟩
  · obtain ⟨h1, h2⟩ := h.greeted c hc
    exact Site.greeting_step hs h1 h2
  · exact (hwritten c) ▸ h.sofar c
  · exact (hwritten c) ▸ h.all c hc hl

/-- The controller dials. -/
theorem Linked.dial (h : s.Linked) {c : Nat} {hello : Hello} (hc : s.ctlConn = none) (hl : s.ctl.loop = .idle)
    (hu : s.site.Unused c) :
    Linked { s with ctlConn := some c,
                    site := { s.site with greeting := Function.update s.site.greeting c (some hello) } } := by
  have hoff : s.ctl.Wired False := by
    have hw := h.wired
    rw [hc] at hw
    simpa using hw
  have hgreeting : ∀ d, Function.update s.site.greeting c (some hello) d = none → s.site.greeting d = none := by
    intro d hg
    by_cases hdc : d = c
    · subst hdc; simp at hg
    · simpa [hdc] using hg
  have hkept :
      ∀ d, (s.site.greeting d).isSome = true → (Function.update s.site.greeting c (some hello) d).isSome = true := by
    intro d hg
    by_cases hdc : d = c
    · subst hdc; simp
    · simpa [hdc] using hg
  obtain ⟨h1, h2, h3, h4, h5, h6, h7, h8, h9⟩ := h.sound
  obtain ⟨f1, f2, f3, f4, f5, f6, f7, f8⟩ := h.flows
  obtain ⟨o1, o2, o3, o4⟩ := h.honest
  have hframed := h.unused c hu.1
  have hnone : s.site.written c = [] := by
    have hle := h.sofar c
    rw [hframed] at hle
    exact List.prefix_nil.mp hle
  refine ⟨⟨h1, h2, h3, h4, h5, h6, fun d hd => hkept d (h7 d hd), h8, h9⟩,
    ⟨f1, f2, f3, fun d hg => f4 d (hgreeting d hg), f5, f6, f7, f8⟩,
    ⟨o1, o2, o3, o4⟩, by simpa using hoff.dial hl, h.captured, ?_, fun d hg => h.unused d (hgreeting d hg), h.sofar, ?_⟩
  · intro d hd
    cases hd
    refine ⟨by simp, fun ht => ?_⟩
    have hsome := h7 c ht
    rw [hu.1] at hsome
    cases hsome
  · intro d hd _
    cases hd
    have hwait : s.ctl.controller.waiting = [] := by
      rcases hoff.idle (e := 1) hl with ⟨ho, -⟩ | h1
      · rw [Controller.waiting, ho]; rfl
      · cases h1
    show s.site.written c ++ s.ctl.controller.waiting = s.framed c
    rw [hnone, hwait, hframed]
    rfl

/-- The controller takes a packet. -/
theorem Linked.pop (h : s.Linked) {c : Nat} {packet : Packet} {rest : List Packet} (hc : s.ctlConn = some c)
    (hd : s.site.down c = packet :: rest) : (s.popped c rest).Linked := by
  obtain ⟨h1, h2, h3, h4, h5, h6, h7, h8, h9⟩ := h.sound
  obtain ⟨f1, f2, f3, f4, f5, f6, f7, f8⟩ := h.flows
  obtain ⟨o1, o2, o3, o4⟩ := h.honest
  have hsub := Site.pop_subset hd
  refine ⟨⟨h1, h2, h3, h4, h5, h6, h7, fun d x hx => h8 d x (hsub d hx), h9⟩, ⟨f1, fun t ht => ?_, f3, f4, f5, f6, f7, f8⟩,
    ⟨o1, o2, o3, fun d x hx => o4 d x (hsub d hx)⟩, h.wired, h.captured, h.greeted, h.unused, h.sofar, h.all⟩
  have htc : t ≠ c := by
    rintro rfl
    exact (h.greeted t hc).2 ht
  show s.site.taken t ++ entriesOf (Function.update s.site.down c rest t) = _
  rw [Function.update_of_ne htc]
  exact f2 t ht

/-- A thread of the controller goes on. -/
theorem Linked.act (h : s.Linked) {action : ControllerAction} (hp : s.Permits action) (hs : s.ctl.step action = some ctl) :
    ((s.record action).setCtl ctl).Linked := by
  have hwired : ctl.Wired (s.ctlConn.isSome = true) :=
    h.wired.step hp.close (fun env he => (hp.connect env he).1) hp.task hs
  have hcaptured := h.captured.step hs
  -- the same frames are on the way, and one more perhaps
  suffices hframed : ∀ c, s.framed c <+: ((s.record action).setCtl ctl).framed c ∧
      (s.site.greeting c = none → ((s.record action).setCtl ctl).framed c = s.framed c) ∧
      (s.ctlConn = some c → ctl.controller.Lossless →
        s.site.written c ++ ctl.controller.waiting = ((s.record action).setCtl ctl).framed c) by
    refine ⟨?_, ?_, ?_, ?_, ?_, ?_, ?_, ?_, ?_⟩ <;>
      simp only [setCtl_site, setCtl_ctl, setCtl_ctlConn, record_site, record_ctlConn]
    · exact h.sound
    · exact h.flows
    · exact h.honest
    · exact hwired
    · exact hcaptured
    · exact h.greeted
    · exact fun c hg => ((hframed c).2.1 hg).trans (h.unused c hg)
    · exact fun c => (h.sofar c).trans (hframed c).1
    · exact fun c => (hframed c).2.2
  intro c
  have hsame : sentFrames ctl.controller.log = sentFrames s.ctl.controller.log →
      ((s.record action).setCtl ctl).framed c = s.framed c := by
    intro hf
    rw [setCtl_framed (by rw [record_ctl, hf, List.append_nil])]
    simp
  cases step_carries hs with
  | same ho hf =>
      rw [hsame hf]
      refine ⟨List.prefix_refl _, fun _ => rfl, fun hc hl => ?_⟩
      rw [← h.all c hc fun outbox hout => hl outbox (ho.trans hout), Controller.waiting, Controller.waiting, ho]
  | opened env ha ho hf =>
      rw [hsame hf]
      refine ⟨List.prefix_refl _, fun _ => rfl, fun hc _ => ?_⟩
      have hnone := (hp.connect env ha).2
      rw [← h.all c hc fun outbox hout => (by rw [hnone] at hout; cases hout), Controller.waiting,
        Controller.waiting, ho, hnone]
      rfl
  | closed mark hl ho hf =>
      rw [hsame hf]
      refine ⟨List.prefix_refl _, fun _ => rfl, fun hc _ => ?_⟩
      exact absurd (by rw [hc]; rfl) (h.wired.closing _ hl)
  | pushed frame now ho hf hepoch hl hon =>
      rw [setCtl_framed (by rw [record_ctl, hf]), record_framed, record_ctlConn, record_ctl]
      have hsome : s.ctl.controller.outbox.isSome = true := by
        rcases hon with hon | hb | ⟨env, task, ha, ht⟩
        · exact hon
        · exact h.wired.busy hb
        · exact hp.task env task ha ht
      refine ⟨List.prefix_append _ _, fun hg => ?_, fun hc hlossless => ?_⟩
      · rw [if_neg, List.append_nil]
        rintro ⟨hc, -⟩
        have hgreeted := (h.greeted c hc).1
        rw [hg] at hgreeted
        cases hgreeted
      · obtain ⟨outbox, hout⟩ := Option.isSome_iff_exists.mp hsome
        rw [hout, Option.map_some] at ho
        rw [if_pos ⟨hc, hsome⟩]
        rcases outbox.put_cases now frame with hfailed | ⟨hold, -, hw⟩
        · rw [hlossless _ ho] at hfailed
          cases hfailed
        · rw [← h.all c hc fun x hx => (by rw [hout] at hx; cases hx; exact hold), Controller.waiting,
            Controller.waiting, ho, hout, List.append_assoc]
          exact congrArg _ hw

/-- The writer sends a frame. -/
theorem Linked.write (h : s.Linked) {now : Time} {c : Nat} {frame : Event} {outbox outbox' : Outbox Event}
    (hc : s.ctlConn = some c)
    (ho : s.ctl.controller.outbox = some outbox) (ht : outbox.take now = some (frame, outbox')) :
    Linked { s with ctl := { s.ctl with controller := { s.ctl.controller with outbox := some outbox' } },
                    site := s.site.sendUp c (.frame frame) } := by
  obtain ⟨hf, -, hw⟩ := Outbox.take_eq ht
  obtain ⟨h1, h2, h3, h4, h5, h6, h7, h8, h9⟩ := h.sound
  obtain ⟨f1, f2, f3, f4, f5, f6, f7, f8⟩ := h.flows
  obtain ⟨o1, o2, o3, o4⟩ := h.honest
  have hall : s.site.written c ++ [frame] ++ outbox'.waiting = s.framed c := by
    rw [← h.all c hc fun x hx => (by rw [ho] at hx; cases hx; exact hf), Controller.waiting, ho, List.append_assoc]
    exact congrArg _ hw.symm
  have hwritten : ∀ d, (s.site.sendUp c (.frame frame)).written d = s.site.written d ++ if d = c then [frame] else [] := by
    intro d
    unfold Site.written Site.sendUp
    dsimp only
    by_cases hdc : d = c
    · subst hdc
      rw [Function.update_self, framesOf_append, if_pos rfl, List.append_assoc]
      rfl
    · rw [Function.update_of_ne hdc, if_neg hdc, List.append_nil]
  refine ⟨⟨h1, h2, h3, h4, h5, h6, h7, h8, h9⟩, ⟨f1, f2, f3, f4, f5, f6, f7, f8⟩, ⟨o1, fun d e he => ?_, o3, o4⟩,
    h.wired.write (by rw [ho]; rfl), ⟨h.captured.queue, h.captured.hook, h.captured.loop⟩, h.greeted, h.unused,
    fun d => ?_, fun d hd _ => ?_⟩
  · simp only [Site.sendUp, Function.update_apply] at he
    split at he
    · rcases List.mem_append.mp he with he | he
      · exact o2 c e he
      · cases List.mem_singleton.mp he
    · exact o2 d e he
  · rw [hwritten]
    by_cases hdc : d = c
    · subst hdc
      rw [if_pos rfl, ← hall]
      exact List.prefix_append _ _
    · rw [if_neg hdc, List.append_nil]
      exact h.sofar d
  · cases hc.symm.trans hd
    rw [hwritten, if_pos rfl]
    exact hall

/-- The controller has no connection any more. -/
theorem Linked.offline (h : s.Linked) (hw : ctl.Wired False) (hc : ctl.Captured) :
    Linked { s with ctl := ctl, ctlConn := none } :=
  ⟨h.sound, h.flows, h.honest, by simpa using hw, hc, by simp, h.unused, h.sofar, by simp⟩

end System

end RemoteInput
