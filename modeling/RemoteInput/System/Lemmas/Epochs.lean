import RemoteInput.System.Lemmas.Uplink

/-!
# One epoch on its way

All frames of an epoch go to one connection of the controller, so what the engine gets of the epoch is the first of them.
-/

namespace RemoteInput

open ControllerThreads

theorem mem_eventsOf {event : Event} {entries : List Entry} :
    event ∈ eventsOf entries ↔ ∃ x ∈ entries, x.message = .frame event := by
  unfold eventsOf framesOf
  simp only [List.mem_filterMap, List.mem_map]
  constructor
  · rintro ⟨m, ⟨x, hx, rfl⟩, he⟩
    refine ⟨x, hx, ?_⟩
    split at he
    · cases he; assumption
    · cases he
  · rintro ⟨x, hx, he⟩
    exact ⟨_, ⟨x, hx, rfl⟩, by rw [he]⟩

/-- When the frames of an epoch are of one author, the others do not matter. -/
theorem ofEpoch_framesBy {e c : Nat} {entries : List Entry}
    (h : ∀ x ∈ entries, ∃ event d, x = ⟨.frame event, some d⟩ ∧ (event.epoch = e → d = c)) :
    ofEpoch e (eventsOf entries) = ofEpoch e (eventsOf (Relay.framesBy c entries)) := by
  induction entries with
  | nil => rfl
  | cons x entries ih =>
      have ih := ih fun y hy => h y (List.mem_cons_of_mem _ hy)
      obtain ⟨event, d, rfl, hd⟩ := h x List.mem_cons_self
      rw [← List.singleton_append, Relay.framesBy_append, eventsOf_append, eventsOf_append, ofEpoch_append,
        ofEpoch_append, ih]
      congr 1
      by_cases hdc : d = c
      · rw [hdc, Relay.framesBy_frame]
      · rw [Relay.framesBy_other (.inr (by simpa using hdc))]
        exact ofEpoch_other fun he => hdc (hd he)

theorem ControllerThreads.Course.mono {t : ControllerThreads} {e : Nat} {drawn : List Nat} {emitted : List Input}
    {heard heard' : Prop}
    (h : t.Course e drawn emitted heard) (hh : heard → heard') : t.Course e drawn emitted heard' :=
  ⟨h.unborn, h.coming, h.apart, h.opening, h.live, h.past, h.single, h.sorted, h.bound,
    fun ha => hh (h.answered ha), h.hooked, h.looped⟩

namespace System

variable {crypto : Crypto} {s s' : System} {ctl : ControllerThreads} {e c : Nat}

/-- All frames of the epoch are of the connection `c`. -/
structure Home (e : Nat) (s : System) (c : Nat) : Prop where
  own : ofEpoch e (s.framed c) = s.ctl.sentIn e
  others : ∀ d, d ≠ c → ofEpoch e (s.framed d) = []

/-- The engine gets the first frames of the epoch. -/
theorem Home.got (h : Home e s c) (hlinked : s.Linked) : s.site.target.got e <+: s.ctl.sentIn e := by
  have hreceived : ∀ d, s.site.received d <+: s.framed d := fun d => (List.prefix_append _ _).trans (hlinked.sofar d)
  have hauthors : ∀ x ∈ s.site.target.passed, ∃ event d, x = ⟨.frame event, some d⟩ ∧ (event.epoch = e → d = c) := by
    intro x hx
    obtain ⟨event, d, rfl⟩ := hlinked.flows.authors x hx
    refine ⟨event, d, rfl, fun he => by_contra fun hdc => ?_⟩
    have hby : ⟨.frame event, some d⟩ ∈ Relay.framesBy d s.site.target.passed := by
      simp [Relay.framesBy, hx, Message.isFrame]
    have hmem : event ∈ s.framed d :=
      (hreceived d).subset ((hlinked.flows.mine d).subset (mem_eventsOf.mpr ⟨_, hby, rfl⟩))
    have hnone : event ∈ ofEpoch e (s.framed d) := mem_ofEpoch.mpr ⟨hmem, he⟩
    rw [h.others d hdc] at hnone
    cases hnone
  rw [Target.got, ofEpoch_framesBy hauthors, ← h.own]
  exact ((hlinked.flows.mine c).trans (hreceived c)).filter _

/-! ## The invariant -/

structure Tracks (e : Nat) (s : System) : Prop where
  course : s.ctl.Course e s.drawn (s.emittedIn e) (Heard e s.site.target.done)
  share : s.site.target.Shares e
  home : ∃ c, Home e s c ∧ (s.ctl.Engaged e → ∀ d, s.ctlConn = some d → d = c)

theorem Tracks.start (he : e ≠ 0) (owner password : String) : Tracks e (start owner password) where
  course := .start he
  share := .start he _
  home := ⟨0, ⟨rfl, fun _ _ => rfl⟩, fun _ _ hd => by cases hd⟩

/-- What the engine gets is a part of what was sent. -/
theorem Tracks.proper {got : List Event} (h : s.Tracks e) (hgot : got <+: s.ctl.sentIn e) :
    Proper got (Heard e s.site.target.done) :=
  ⟨(hgot.sublist.countP_le).trans h.course.single, h.course.sorted.sublist hgot.sublist,
    fun hn => h.course.answered (.inr (EngineThreads.inputs_sublist hgot.sublist hn))⟩

theorem Tracks.site (h : s.Tracks e) (he : e ≠ 0) (hlinked : s.Linked) {action : SiteAction} (ha : ∀ a, action ≠ .stranger a)
    {site : Site} (hs : s.site.step crypto action = some site) : Tracks e { s with site := site } := by
  obtain ⟨c, hhome, hengaged⟩ := h.home
  have hnext := hlinked.site ha hs
  have hhome' : Home e { s with site := site } c := ⟨hhome.own, hhome.others⟩
  have hproper : Proper (s.site.target.got e) (Heard e s.site.target.done) := h.proper (hhome.got hlinked)
  -- the target works, gets a frame, is started again, or does nothing
  suffices hshare : site.target.Shares e ∧ s.site.target.done <+: site.target.done from
    ⟨h.course.mono fun hh => hh.mono hshare.2, hshare.1, c, hhome', hengaged⟩
  have hworks :
      ∀ {target : Target}, Target.Works s.site.target target → target.Shares e ∧ s.site.target.done <+: target.done :=
    fun hw => ⟨h.share.works he hproper hw, hw.done⟩
  have hrests : ∀ {target : Target}, target = s.site.target → target.Shares e ∧ s.site.target.done <+: target.done := by
    rintro target rfl
    exact ⟨h.share, List.prefix_refl _⟩
  cases Site.step_cases hs with
  | registered env drawn d name rest target hc hd ho ht => exact hworks (Target.registered_works ht)
  | took env drawn d entry rest target hc hd ho ht =>
      rcases Target.read_works ht with ⟨event, hm, -, hop⟩ | ⟨-, hw⟩
      · refine ⟨h.share.receives he hm hop (h.proper (hhome'.got hnext)), ?_⟩
        dsimp only
        rw [hop.done]
        exact List.prefix_append _ _
      · exact hworks hw
  | commanded env drawn target ho ht => exact hworks (Target.rotate_works ht)
  | offline env drawn ho hc => exact hworks (Target.rotateOffline_works drawn s.site.target)
  | worked op target hop ht => exact hworks (Target.thread_works hop ht)
  | lost env target hc ht => exact hworks (Target.disconnect_works ht)
  | restarted => exact ⟨h.share.restart he, List.prefix_refl _⟩
  | wrote now d message outbox outbox' hc ho ht => exact ⟨h.share, List.prefix_refl _⟩
  | dialed | greeted | received | replied | sent | own | foreign => exact hrests rfl

theorem Tracks.dial (h : s.Tracks e) (he : e ≠ 0) (hlinked : s.Linked) (hc : s.ctlConn = none) (hl : s.ctl.loop = .idle)
    (conn : Nat)
    (greeting : Nat → Option Hello) :
    Tracks e { s with ctlConn := some conn, site := { s.site with greeting := greeting } } := by
  obtain ⟨c, hhome, -⟩ := h.home
  have hoff : s.ctl.Wired False := by
    have hw := hlinked.wired
    rw [hc] at hw
    simpa using hw
  have hnot : ¬ s.ctl.Engaged e := ((hoff.idle hl).resolve_right he).2
  exact ⟨h.course, h.share, c, ⟨hhome.own, hhome.others⟩, fun hn => absurd hn hnot⟩

theorem Tracks.pop (h : s.Tracks e) (conn : Nat) (rest : List Packet) : (s.popped conn rest).Tracks e := by
  obtain ⟨c, hhome, hengaged⟩ := h.home
  exact ⟨h.course, h.share, c, ⟨hhome.own, hhome.others⟩, hengaged⟩

/-- The epoch that is drawn gets the connection of this moment. -/
theorem Tracks.settle (h : s.Tracks e) (he : e ≠ 0) {action : ControllerAction} (hp : s.Permits action)
    (hs : s.ctl.step action = some ctl) :
    ∃ c, Home e s c ∧ (s.ctl.Engaged e ∨ ctl.Engaged e → ∀ d, s.ctlConn = some d → d = c) := by
  obtain ⟨c, hhome, hengaged⟩ := h.home
  by_cases hdraw : e ∈ s.ctl.draws action
  · have hnew : e ∉ s.drawn := by
      unfold draws at hdraw
      split at hdraw
      · rename_i env
        split at hdraw
        · rename_i hl
          rw [List.mem_singleton.mp hdraw]
          exact hp.new env rfl hl
        · cases hdraw
      · cases hdraw
    have hnone := (h.course.unborn hnew).2.1
    have hempty : ∀ d, ofEpoch e (s.framed d) = [] := by
      intro d
      by_cases hdc : d = c
      · rw [hdc, hhome.own, hnone]
      · exact hhome.others d hdc
    refine ⟨s.ctlConn.getD 0, ⟨(hempty _).trans hnone.symm, fun d _ => hempty d⟩, fun _ d hd => by rw [hd]; rfl⟩
  · refine ⟨c, hhome, ?_⟩
    rintro (hn | hn)
    · exact hengaged hn
    · exact hengaged ((step_engaged hs he hn).resolve_right hdraw)

theorem Tracks.act (h : s.Tracks e) (he : e ≠ 0) (hlinked : s.Linked) {action : ControllerAction} (hp : s.Permits action)
    (hs : s.ctl.step action = some ctl) : ((s.record action).setCtl ctl).Tracks e := by
  obtain ⟨c, hhome, hengaged⟩ := h.settle he hp hs
  have hemitted : ((s.record action).setCtl ctl).emittedIn e = s.emittedIn e ++ s.ctl.emits e action := by
    rw [← record_emitted, emittedIn, setCtl_emitted, emittedIn]
  have hcourse := h.course.step he hlinked.captured (fun env ha hl => hp.new env ha hl) (fun env ha => hp.heard env e ha) hs
  refine ⟨?_, ?_, c, ?_, ?_⟩
  · rw [setCtl_ctl, setCtl_drawn, record_drawn, hemitted, setCtl_site, record_site]
    exact hcourse
  · rw [setCtl_site, record_site]
    exact h.share
  · have hsame :
        sentFrames ctl.controller.log = sentFrames s.ctl.controller.log → Home e ((s.record action).setCtl ctl) c := by
      intro hf
      have hframed : ((s.record action).setCtl ctl).framed = s.framed := by
        funext d
        rw [setCtl_framed (by rw [record_ctl, hf, List.append_nil])]
        simp
      refine ⟨?_, ?_⟩ <;> rw [hframed]
      · rw [hhome.own, setCtl_ctl, sentIn, sentIn, hf]
      · exact hhome.others
    cases step_carries hs with
    | same ho hf => exact hsame hf
    | opened env ha ho hf => exact hsame hf
    | closed mark hl ho hf => exact hsame hf
    | pushed frame now ho hf hepoch hl hon =>
        have hsome : s.ctl.controller.outbox.isSome = true := by
          rcases hon with hon | hb | ⟨env, task, ha, ht⟩
          · exact hon
          · exact hlinked.wired.busy hb
          · exact hp.task env task ha ht
        obtain ⟨conn, hconn⟩ : ∃ conn, s.ctlConn = some conn := by
          refine Option.isSome_iff_exists.mp (by_contra fun hoff => ?_)
          obtain ⟨p, hstop⟩ := hlinked.wired.lost hoff hsome
          rw [hstop] at hl
          rcases hl with hl | hl <;> cases hl
        have hframed : ∀ d, ofEpoch e (((s.record action).setCtl ctl).framed d) =
            ofEpoch e (s.framed d) ++ if conn = d then ofEpoch e [frame] else [] := by
          intro d
          rw [setCtl_framed (by rw [record_ctl, hf]), record_framed, record_ctlConn, record_ctl, hconn, ofEpoch_append]
          by_cases hd : conn = d <;> simp [hd, hsome]
        -- a frame of the epoch is of its connection
        have hmine : ofEpoch e [frame] ≠ [] → conn = c := by
          intro hne
          have hep : frame.epoch = e := by_contra fun hep => hne (ofEpoch_other hep)
          refine hengaged (.inl ?_) conn hconn
          rw [hep] at hepoch
          exact hepoch.resolve_left he
        have hsent : ctl.sentIn e = s.ctl.sentIn e ++ ofEpoch e [frame] := by rw [sentIn, sentIn, hf, ofEpoch_append]
        refine ⟨?_, fun d hd => ?_⟩
        · rw [hframed, setCtl_ctl, hsent, hhome.own]
          by_cases hnil : ofEpoch e [frame] = []
          · simp [hnil]
          · rw [if_pos (hmine hnil)]
        · rw [hframed, hhome.others d hd, List.nil_append]
          by_cases hnil : ofEpoch e [frame] = []
          · simp [hnil]
          · rw [if_neg fun hcd => hd (hcd.symm.trans (hmine hnil))]
  · rw [setCtl_ctl, setCtl_ctlConn, record_ctlConn]
    exact fun hn => hengaged (.inr hn)

theorem Tracks.write (h : s.Tracks e) (outbox : Outbox Event) (conn : Nat) (message : Message) :
    Tracks e { s with ctl := { s.ctl with controller := { s.ctl.controller with outbox := some outbox } },
                      site := s.site.sendUp conn message } := by
  obtain ⟨c, hhome, hengaged⟩ := h.home
  exact ⟨h.course.still rfl rfl rfl rfl rfl rfl rfl, h.share, c, ⟨hhome.own, hhome.others⟩, hengaged⟩

/-- The controller has no connection any more. -/
theorem Tracks.offline (h : s.Tracks e) (hlog : ctl.controller.log = s.ctl.controller.log)
    (hc : ctl.Course e s.drawn (s.emittedIn e) (Heard e s.site.target.done)) :
    Tracks e { s with ctl := ctl, ctlConn := none } := by
  obtain ⟨c, hhome, -⟩ := h.home
  refine ⟨hc, h.share, c, ⟨?_, hhome.others⟩, fun _ _ hd => by cases hd⟩
  show ofEpoch e (s.framed c) = ctl.sentIn e
  rw [hhome.own, sentIn, sentIn, hlog]

/-! ## Every step -/

theorem lose_eq {env : ControllerEnv} (hs : s.ctl.step (.begin env .close) = some ctl) :
    ctl = s.ctl.loopTo (.stopping true .capture) := by
  unfold ControllerThreads.step at hs
  dsimp only at hs
  split at hs <;> cases hs
  rfl

/-- Both invariants are kept by every step. -/
theorem Tracks.step (h : s.Tracks e) (he : e ≠ 0) (hlinked : s.Linked) {action : SystemAction}
    (hstep : s.step crypto action = some s') : s'.Linked ∧ s'.Tracks e := by
  cases step_cases hstep with
  | site action site ha hs => exact ⟨hlinked.site ha hs, h.site he hlinked ha hs⟩
  | dialed c id password hc hl hu => exact ⟨hlinked.dial hc hl hu, h.dial he hlinked hc hl c _⟩
  | connected env c rest ctl hc hd ho hs =>
      have hp : (s.popped c rest).Permits (.begin env .connect) := by
        refine ⟨by simp, fun _ _ => ⟨?_, ho⟩, fun _ _ hb ht => ?_, by simp, by simp⟩
        · show s.ctlConn.isSome = true
          rw [hc]; rfl
        · cases hb; cases ht
      have hpopped := hlinked.pop hc hd
      exact ⟨hpopped.act hp hs, (h.pop c rest).act he hpopped hp hs⟩
  | heard env c entry rest task ctl hc hd ho htask hactivated hs =>
      have hp : (s.popped c rest).Permits (.begin env task) := by
        refine ⟨?_, ?_, fun _ _ _ _ => ho, by simp, ?_⟩
        · rintro env' hb; cases hb; cases htask
        · rintro env' hb; cases hb; cases htask
        · rintro env' x hb
          cases hb
          exact hlinked.honest.down c entry (by rw [hd]; exact List.mem_cons_self) x (hactivated x rfl)
      have hpopped := hlinked.pop hc hd
      exact ⟨hpopped.act hp hs, (h.pop c rest).act he hpopped hp hs⟩
  | ignored env c entry rest hc hd => exact ⟨hlinked.pop hc hd, h.pop c rest⟩
  | acted action ctl ha hs => exact ⟨hlinked.act ha.permits hs, h.act he hlinked ha.permits hs⟩
  | wrote now c frame outbox outbox' hc ho ht => exact ⟨hlinked.write hc ho ht, h.write outbox' c _⟩
  | lost env ctl hs =>
      refine ⟨hlinked.offline (hlinked.wired.close hs) (hlinked.captured.step hs), h.offline (by rw [lose_eq hs]; rfl) ?_⟩
      have hcourse := h.course.step he hlinked.captured (by simp) (by simp) hs
      simpa [draws, emits] using hcourse
  | restarted =>
      exact ⟨hlinked.offline (.restart s.ctl.controller.log) (.restart s.ctl.controller.log),
        h.offline rfl (h.course.restart he)⟩

end System

end RemoteInput
