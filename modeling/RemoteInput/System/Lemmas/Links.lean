import RemoteInput.Controller.Lemmas.Wire
import RemoteInput.System.Lemmas.Answers
import RemoteInput.System.Semantics

/-!
# The links of the controller

What the controller has put on the outbox of a connection is what the relay took from it, what is on the link and what waits,
as long as the outbox has not failed.
-/

namespace RemoteInput

namespace System

open ControllerThreads

variable {crypto : Crypto} {s s' : System} {ctl : ControllerThreads} {action : ControllerAction} {e : Nat}

/-! ## What one action can do -/

/-- The controller takes a packet from the link. -/
def popped (s : System) (c : Nat) (rest : List Packet) : System :=
  { s with site := { s.site with down := Function.update s.site.down c rest } }

inductive StepCase (crypto : Crypto) (s : System) : SystemAction → System → Prop where
  | site (action : SiteAction) (site : Site) (ha : ∀ a, action ≠ .stranger a) (hs : s.site.step crypto action = some site) :
      StepCase crypto s (.site action) { s with site := site }
  | dialed (c : Nat) (id password : String) (hc : s.ctlConn = none) (hl : s.ctl.loop = .idle) (hu : s.site.Unused c) :
      StepCase crypto s (.ctlDial c id password)
        { s with ctlConn := some c,
                 site := { s.site with greeting := Function.update s.site.greeting c (some (.controller id password)) } }
  | connected (env : ControllerEnv) (c : Nat) (rest : List Packet) (ctl : ControllerThreads) (hc : s.ctlConn = some c)
      (hd : s.site.down c = .connected :: rest) (ho : s.ctl.controller.outbox = none)
      (hs : s.ctl.step (.begin env .connect) = some ctl) :
      StepCase crypto s (.ctlRead env) ((s.popped c rest).setCtl ctl)
  | heard (env : ControllerEnv) (c : Nat) (entry : Entry) (rest : List Packet) (task : LoopTask) (ctl : ControllerThreads)
      (hc : s.ctlConn = some c) (hd : s.site.down c = .message entry :: rest) (ho : s.ctl.controller.outbox.isSome = true)
      (htask : task.ofConnection = true) (hactivated : ∀ e, task = .activated e → entry.message = .activated e)
      (hs : s.ctl.step (.begin env task) = some ctl) : StepCase crypto s (.ctlRead env) ((s.popped c rest).setCtl ctl)
  | ignored (env : ControllerEnv) (c : Nat) (entry : Entry) (rest : List Packet) (hc : s.ctlConn = some c)
      (hd : s.site.down c = .message entry :: rest) : StepCase crypto s (.ctlRead env) (s.popped c rest)
  | acted (action : ControllerAction) (ctl : ControllerThreads) (ha : s.Allows action) (hs : s.ctl.step action = some ctl) :
      StepCase crypto s (.ctl action) ((s.record action).setCtl ctl)
  | wrote (now : Time) (c : Nat) (frame : Event) (outbox outbox' : Outbox Event) (hc : s.ctlConn = some c)
      (ho : s.ctl.controller.outbox = some outbox) (ht : outbox.take now = some (frame, outbox')) :
      StepCase crypto s (.ctlWrite now)
        { s with ctl := { s.ctl with controller := { s.ctl.controller with outbox := some outbox' } },
                 site := s.site.sendUp c (.frame frame) }
  | lost (env : ControllerEnv) (ctl : ControllerThreads) (hs : s.ctl.step (.begin env .close) = some ctl) :
      StepCase crypto s (.ctlLose env) { s with ctl := ctl, ctlConn := none }
  | restarted : StepCase crypto s .ctlRestart s.ctlRestart

theorem popped_setCtl (s : System) (c : Nat) (rest : List Packet) (ctl : ControllerThreads) :
    { s.setCtl ctl with site := { s.site with down := Function.update s.site.down c rest } } =
    (s.popped c rest).setCtl ctl := by
  unfold setCtl popped
  dsimp only
  split <;> rfl

/-- A controller that stays as it was sends nothing. -/
theorem setCtl_self (s : System) : s.setCtl s.ctl = s := by
  unfold setCtl
  rw [List.drop_length]
  dsimp only
  split
  · rw [List.append_nil, Function.update_eq_self]
  · rfl

theorem take_cases {env : ControllerEnv} {entry : Entry} (h : s.ctl.take env entry.message = some ctl) :
    (∃ task, task.ofConnection = true ∧ (∀ e, task = .activated e → entry.message = .activated e) ∧
      s.ctl.step (.begin env task) = some ctl) ∨ ctl = s.ctl := by
  unfold take at h
  split at h
  · rename_i op epoch seq stamp _ _ _
    exact .inl ⟨.ack op epoch seq stamp, rfl, by simp, h⟩
  · rename_i nonce _
    exact .inl ⟨.challenge nonce, rfl, by simp, h⟩
  · rename_i epoch he
    refine .inl ⟨.activated epoch, rfl, fun x hx => ?_, h⟩
    cases hx
    exact he
  · split at h
    · cases h
    split at h
    · exact .inl ⟨.stop, rfl, by simp, h⟩
    · cases h; exact .inr rfl
  · cases h

theorem ctlRead_cases {env : ControllerEnv} (h : s.ctlRead env = some s') : StepCase crypto s (.ctlRead env) s' := by
  unfold ctlRead at h
  split at h
  · cases h
  rename_i c hc
  split at h
  · rename_i rest hd ho
    obtain ⟨ctl, hs, rfl⟩ := Option.map_eq_some_iff.mp h
    rw [popped_setCtl]
    exact .connected env c rest ctl hc hd ho hs
  · rename_i entry rest outbox hd ho
    obtain ⟨ctl, hs, rfl⟩ := Option.map_eq_some_iff.mp h
    rcases take_cases hs with ⟨task, htask, hactivated, hs⟩ | rfl
    · rw [popped_setCtl]
      exact .heard env c entry rest task ctl hc hd (by rw [ho]; rfl) htask hactivated hs
    · rw [setCtl_self]
      exact .ignored env c entry rest hc hd
  · cases h

theorem step_cases {action : SystemAction} (h : s.step crypto action = some s') : StepCase crypto s action s' := by
  unfold step at h
  cases action with
  | site action =>
      have hown : ∀ {a : SiteAction}, (∀ b, a ≠ .stranger b) →
          (s.site.step crypto a).map (fun site => { s with site := site }) =
          some s' → StepCase crypto s (.site a) s' := by
        intro a ha h
        obtain ⟨site, hs, rfl⟩ := Option.map_eq_some_iff.mp h
        exact .site a site ha hs
      cases action with
      | stranger a => cases h
      | _ => exact hown (by simp) h
  | ctlDial c id password =>
      dsimp only [ctlDial] at h
      split at h <;> cases h
      rename_i hc
      exact .dialed c id password hc.1 hc.2.1 hc.2.2
  | ctlRead env => exact ctlRead_cases h
  | ctl action =>
      dsimp only [ctlStep] at h
      split at h
      · rename_i ha
        obtain ⟨ctl, hs, rfl⟩ := Option.map_eq_some_iff.mp h
        exact .acted action ctl ha hs
      · cases h
  | ctlWrite now =>
      dsimp only [ctlWrite] at h
      split at h
      · rename_i c frame outbox' hc ht
        cases h
        obtain ⟨outbox, ho, ht⟩ := Option.bind_eq_some_iff.mp ht
        exact .wrote now c frame outbox outbox' hc ho ht
      · cases h
  | ctlLose env =>
      dsimp only [ctlLose] at h
      split at h
      · obtain ⟨ctl, hs, rfl⟩ := Option.map_eq_some_iff.mp h
        exact .lost env ctl hs
      · cases h
  | ctlRestart => cases h; exact .restarted

/-! ## A step of the controller -/

@[simp] theorem setCtl_site (s : System) (ctl : ControllerThreads) : (s.setCtl ctl).site = s.site := by
  unfold setCtl; dsimp only; split <;> rfl

@[simp] theorem setCtl_ctl (s : System) (ctl : ControllerThreads) : (s.setCtl ctl).ctl = ctl := by
  unfold setCtl; dsimp only; split <;> rfl

@[simp] theorem setCtl_ctlConn (s : System) (ctl : ControllerThreads) : (s.setCtl ctl).ctlConn = s.ctlConn := by
  unfold setCtl; dsimp only; split <;> rfl

@[simp] theorem setCtl_drawn (s : System) (ctl : ControllerThreads) : (s.setCtl ctl).drawn = s.drawn := by
  unfold setCtl; dsimp only; split <;> rfl

@[simp] theorem setCtl_emitted (s : System) (ctl : ControllerThreads) : (s.setCtl ctl).emitted = s.emitted := by
  unfold setCtl; dsimp only; split <;> rfl

/-- The frames that a step sends are noted for the connection. -/
theorem setCtl_framed {new : List Event} (hf : sentFrames ctl.controller.log = sentFrames s.ctl.controller.log ++ new)
    (c : Nat) : (s.setCtl ctl).framed c =
      s.framed c ++ if s.ctlConn = some c ∧ s.ctl.controller.outbox.isSome = true then new else [] := by
  unfold setCtl
  rw [hf, List.drop_left]
  dsimp only
  split
  · rename_i d outbox hd ho
    rw [hd, ho]
    by_cases hdc : c = d
    · subst hdc; simp
    · simp [hdc, Ne.symm hdc]
  · rename_i hnone
    rw [if_neg, List.append_nil]
    rintro ⟨hc, ho⟩
    obtain ⟨outbox, ho⟩ := Option.isSome_iff_exists.mp ho
    exact hnone c outbox hc ho

@[simp] theorem record_site (s : System) (action : ControllerAction) : (s.record action).site = s.site := by
  unfold record; split <;> (try split) <;> rfl

@[simp] theorem record_ctl (s : System) (action : ControllerAction) : (s.record action).ctl = s.ctl := by
  unfold record; split <;> (try split) <;> rfl

@[simp] theorem record_ctlConn (s : System) (action : ControllerAction) : (s.record action).ctlConn = s.ctlConn := by
  unfold record; split <;> (try split) <;> rfl

@[simp] theorem record_framed (s : System) (action : ControllerAction) : (s.record action).framed = s.framed := by
  unfold record; split <;> (try split) <;> rfl

theorem record_drawn (s : System) (action : ControllerAction) : (s.record action).drawn = s.drawn ++ s.ctl.draws action := by
  unfold record draws
  cases action with
  | loop env => dsimp only; split <;> simp
  | hook env => dsimp only; split <;> simp
  | _ => simp

theorem record_emitted (s : System) (action : ControllerAction) (e : Nat) :
    (s.record action).emittedIn e = s.emittedIn e ++ s.ctl.emits e action := by
  unfold record emits emittedIn
  cases action with
  | hook env =>
      dsimp only
      cases s.ctl.hook with
      | enqueuing input =>
          dsimp only
          rw [List.filter_append, List.map_append]
          congr 1
          by_cases he : s.ctl.controller.epoch = e <;> simp [he]
      | _ => simp
  | loop env => dsimp only; split <;> simp
  | _ => simp

/-- What has to hold when a thread of the controller goes on. -/
structure Permits (s : System) (action : ControllerAction) : Prop where
  close : ∀ env, action ≠ .begin env .close
  connect : ∀ env, action = .begin env .connect → s.ctlConn.isSome = true ∧ s.ctl.controller.outbox = none
  task : ∀ env task, action = .begin env task → task.ofConnection = true → s.ctl.controller.outbox.isSome = true
  new : ∀ env, action = .loop env → s.ctl.loop = .drawing → orOne env.bits ∉ s.drawn
  heard : ∀ env e, action = .begin env (.activated e) → Heard e s.site.target.done

theorem Allows.permits (h : s.Allows action) : s.Permits action := by
  cases action with
  | call | hook => constructor <;> simp
  | loop env => exact ⟨by simp, by simp, by simp, fun _ he hl => (by cases he; exact h hl), by simp⟩
  | begin env task =>
      cases task with
      | callback => exact ⟨by simp, by simp, fun _ _ he ht => (by cases he; cases ht), by simp, by simp⟩
      | sender | probe | stop => exact ⟨by simp, by simp, fun _ _ _ _ => h, by simp, by simp⟩
      | _ => exact h.elim

end System

end RemoteInput
