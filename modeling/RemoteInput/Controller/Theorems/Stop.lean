import RemoteInput.Controller.Threads
import RemoteInput.Lib.History

/-!
# Stops of the controller
-/

namespace RemoteInput

/-- A stop has called `set_active(False)` and has not cleared `pending_epoch` yet. -/
def StopPoint.midway : StopPoint → Bool
  | .connection | .epoch | .pending => true
  | _ => false

/-- The activations that a stop has cleared. -/
def StopPoint.mark : StopPoint → Option Nat
  | .queue mark | .schedule mark => some mark
  | _ => none

def HookPoint.midway : HookPoint → Bool
  | .stopping point => point.midway
  | _ => false

def HookPoint.mark : HookPoint → Option Nat
  | .stopping point => point.mark
  | _ => none

/-- The loop has passed the checks of the branch for `activated`. -/
def LoopPoint.activates : LoopPoint → Bool
  | .checked | .loaded _ _ | .assigned _ | .requesting _ => true
  | _ => false

def LoopPoint.mark : LoopPoint → Option Nat
  | .stopping _ point => point.mark
  | _ => none

/-- A stop is done only with activations that began before. -/
def StopRule (before : List StopDeed) : StopDeed → Prop
  | .requested n => ∀ m, .stopped m ∈ before → m < n
  | .stopped _ => True

namespace ControllerThreads

variable {t t' : ControllerThreads} {action : ControllerAction}

/-- Between two handlers of each thread the capture is requested active only with an epoch, and no `set_active(True)` for an
activation comes after a stop that is done with it. -/
def Stops (t : ControllerThreads) : Prop :=
  (t.hook = .idle → t.loop = .idle → t.controller.active = true → t.controller.epoch ≠ 0) ∧ Lawful StopRule t.deeds

/-- The step does not bring a stop, between `set_active(False)` and the write of `pending_epoch`, together with the branch
for `activated`. -/
def Apart (t : ControllerThreads) : ControllerAction → Prop
  | .hook _ => t.hook = .stopping .capture → t.loop.activates = false
  | .loop _ => t.loop = .compared → t.controller.pendingEpoch ≠ 0 → t.hook.midway = false
  | _ => True

instance (t : ControllerThreads) : (action : ControllerAction) → Decidable (t.Apart action)
  | .hook _ => inferInstanceAs (Decidable (_ → _))
  | .loop _ => inferInstanceAs (Decidable (_ → _ → _))
  | .call _ | .begin _ _ => inferInstanceAs (Decidable True)

/-- `n` activations are over: a stop has cleared them. -/
def Over (t : ControllerThreads) (n : Nat) : Prop :=
  .stopped n ∈ t.deeds ∨ t.hook.mark = some n ∨ t.loop.mark = some n

/-- The invariant. -/
structure Sound (t : ControllerThreads) : Prop where
  active : t.controller.active = true → t.controller.epoch ≠ 0
  apart : t.loop.activates = true → t.hook.midway = false
  hooked : t.hook.midway = true → t.controller.active = false
  looped : ∀ closing point, t.loop = .stopping closing point → point.midway = true → t.controller.active = false
  checked : t.loop = .checked → t.controller.pendingEpoch ≠ 0
  loaded : ∀ epoch n, t.loop = .loaded epoch n → epoch ≠ 0 ∧ n = t.begun
  assigned : ∀ n, t.loop = .assigned n ∨ t.loop = .requesting n → t.controller.epoch ≠ 0 ∧ n = t.begun
  bounded : ∀ n, t.Over n → n ≤ t.begun
  fresh : t.controller.pendingEpoch ≠ 0 ∨ t.loop.activates = true → ∀ n, t.Over n → n < t.begun
  lawful : Lawful StopRule t.deeds

theorem Sound.start : Sound {} := by
  constructor <;> simp [LoopPoint.activates, HookPoint.midway, Over, HookPoint.mark, LoopPoint.mark, lawful_nil]

/-! ## Steps that do not activate -/

/-- What the steps outside of activations do. -/
structure Calm (t t' : ControllerThreads) : Prop where
  active : t'.controller.active = true → t.controller.active = true
  epoch : t'.controller.epoch = t.controller.epoch ∨ t'.controller.active = false ∧ t'.loop.activates = false
  pending : t'.controller.pendingEpoch = t.controller.pendingEpoch ∨
    t'.controller.pendingEpoch = 0 ∧ t'.loop.activates = false
  begun : t'.begun = t.begun
  ended : ∀ n, t'.Over n → t.Over n ∨ n = t.begun ∧ t'.controller.pendingEpoch = 0 ∧ t'.loop.activates = false
  hook : t'.hook.midway = true → t.hook.midway = true ∨ t'.controller.active = false ∧ t'.loop.activates = false
  loop : t'.loop.activates = true → t'.loop = t.loop
  looped : ∀ closing point, t'.loop = .stopping closing point → point.midway = true → t'.controller.active = false
  deeds : t'.deeds = t.deeds ∨ ∃ n, t'.deeds = t.deeds ++ [.stopped n]

theorem Sound.calm (h : t.Sound) (hc : t.Calm t') : t'.Sound := by
  have hold : ∀ {point : LoopPoint}, t'.loop = point → point.activates = true →
      t.loop = point ∧ t'.controller.epoch = t.controller.epoch ∧
        t'.controller.pendingEpoch = t.controller.pendingEpoch := by
    rintro _ rfl ha
    exact ⟨(hc.loop ha).symm, hc.epoch.resolve_right fun hn => absurd (hn.2.symm.trans ha) (by simp),
      hc.pending.resolve_right fun hn => absurd (hn.2.symm.trans ha) (by simp)⟩
  refine ⟨fun ha => ?_, fun ha => ?_, fun hm => ?_, hc.looped, fun hl => ?_, fun epoch n hl => ?_, fun n hl => ?_,
    fun n hn => ?_, fun hp n hn => ?_, ?_⟩
  · rcases hc.epoch with he | ⟨hn, _⟩
    · rw [he]; exact h.active (hc.active ha)
    · exact absurd (hn.symm.trans ha) (by simp)
  · cases hm : t'.hook.midway with
    | false => rfl
    | true =>
        rcases hc.hook hm with hm | ⟨_, hn⟩
        · exact absurd ((h.apart ((hold rfl ha).1 ▸ ha)).symm.trans hm) (by simp)
        · exact absurd (hn.symm.trans ha) (by simp)
  · rcases hc.hook hm with hm | ⟨hn, _⟩
    · have := h.hooked hm
      cases ha : t'.controller.active with
      | false => rfl
      | true => exact absurd (this.symm.trans (hc.active ha)) (by simp)
    · exact hn
  · obtain ⟨hl, _, hp⟩ := hold hl rfl
    rw [hp]; exact h.checked hl
  · rw [hc.begun]; exact h.loaded epoch n (hold hl rfl).1
  · rw [hc.begun]
    rcases hl with hl | hl
    · obtain ⟨hl, he, _⟩ := hold hl rfl
      rw [he]; exact h.assigned n (.inl hl)
    · obtain ⟨hl, he, _⟩ := hold hl rfl
      rw [he]; exact h.assigned n (.inr hl)
  · rw [hc.begun]
    rcases hc.ended n hn with hn | ⟨rfl, _⟩
    · exact h.bounded n hn
    · exact le_rfl
  · rw [hc.begun]
    rcases hc.ended n hn with hn | ⟨_, hz, ha⟩
    · refine h.fresh ?_ n hn
      rcases hp with hp | hp
      · exact .inl (hc.pending.elim (fun he => he ▸ hp) fun hz => absurd hz.1 hp)
      · exact .inr ((hold rfl hp).1 ▸ hp)
    · rcases hp with hp | hp
      · exact absurd hz hp
      · exact absurd (ha.symm.trans hp) (by simp)
  · rcases hc.deeds with he | ⟨n, he⟩
    · rw [he]; exact h.lawful
    · rw [he]; exact h.lawful.concat trivial

/-- A step that leaves both threads outside of stops and activations, or where they are. -/
theorem Sound.still (h : t.Sound) {c : Controller} {hook : HookPoint} {locked : Bool} {loop : LoopPoint}
    (hc : c.active = t.controller.active ∧ c.epoch = t.controller.epoch ∧ c.pendingEpoch = t.controller.pendingEpoch)
    (hh : hook = t.hook ∨ hook.midway = false ∧ hook.mark = none)
    (hl : loop = t.loop ∨ loop.activates = false ∧ loop.mark = none ∧
      ∀ closing point, loop = .stopping closing point → point.midway = false) :
    Sound { t with controller := c, hook := hook, locked := locked, loop := loop } := by
  obtain ⟨ha, he, hp⟩ := hc
  refine h.calm ⟨fun hact => ha ▸ hact, .inl he, .inl hp, rfl, fun n hn => .inl ?_, fun hm => .inl ?_, fun hact => ?_,
    fun closing point hs hm => ?_, .inl rfl⟩
  · rcases hn with hn | hn | hn
    · exact .inl hn
    · rcases hh with rfl | ⟨_, hh⟩
      · exact .inr (.inl hn)
      · exact absurd (hh.symm.trans hn) (by simp)
    · rcases hl with rfl | ⟨_, hl, _⟩
      · exact .inr (.inr hn)
      · exact absurd (hl.symm.trans hn) (by simp)
  · rcases hh with rfl | ⟨hh, _⟩
    · exact hm
    · exact absurd (hh.symm.trans hm) (by simp)
  · rcases hl with rfl | ⟨hl, _⟩
    · rfl
    · exact absurd (hl.symm.trans hact) (by simp)
  · rcases hl with rfl | ⟨_, _, hl⟩
    · exact ha.trans (h.looped closing point hs hm)
    · exact absurd ((hl closing point hs).symm.trans hm) (by simp)

/-! ## Stops -/

/-- The statements of a stop write neither thread's place. -/
theorem stop_frame (t : ControllerThreads) (closing : Bool) (point : StopPoint) :
    (t.stop closing point).1.hook = t.hook ∧ (t.stop closing point).1.loop = t.loop ∧
      (t.stop closing point).1.begun = t.begun := by
  cases point with
  | queue mark => cases closing <;> exact ⟨rfl, rfl, rfl⟩
  | _ => exact ⟨rfl, rfl, rfl⟩

/-- A stop gets midway only from its first statement on. -/
theorem stop_midway {closing : Bool} {point next : StopPoint} (hn : (t.stop closing point).2 = some next)
    (hm : next.midway = true) : point = .capture ∨ point.midway = true := by
  cases point with
  | capture => exact .inl rfl
  | connection | epoch => exact .inr rfl
  | pending => cases hn; cases hm
  | queue mark => cases closing <;> cases hn; cases hm
  | schedule mark => cases hn

/-- The next statement is done with the activations that this one is done with, or with those begun so far. -/
theorem stop_mark {closing : Bool} {point next : StopPoint} {n : Nat} (hn : (t.stop closing point).2 = some next)
    (hm : next.mark = some n) : point.mark = some n ∨ point = .pending ∧ n = t.begun := by
  cases point with
  | capture => cases closing <;> cases hn <;> cases hm
  | connection | epoch => cases hn; cases hm
  | pending => cases hn; cases hm; exact .inr ⟨rfl, rfl⟩
  | queue mark => cases closing <;> cases hn; exact .inl hm
  | schedule mark => cases hn

/-- From its first statement on a stop leaves the capture requested inactive. -/
theorem stop_inactive {closing : Bool} {point : StopPoint} (hp : point = .capture ∨ point.midway = true)
    (hoff : point.midway = true → t.controller.active = false) : (t.stop closing point).1.controller.active = false := by
  cases point with
  | capture => rfl
  | connection | epoch | pending => exact hoff rfl
  | queue mark | schedule mark => rcases hp with hp | hp <;> cases hp

/-- A thread is done with an activation after a statement of its stop. -/
theorem stop_deeds (t : ControllerThreads) (closing : Bool) (point : StopPoint) :
    (t.stop closing point).1.deeds = t.deeds ∨
      ∃ n, point.mark = some n ∧ (t.stop closing point).1.deeds = t.deeds ++ [.stopped n] := by
  cases point with
  | queue mark =>
      cases closing with
      | false => exact .inl rfl
      | true => exact .inr ⟨mark, rfl, rfl⟩
  | schedule mark => exact .inr ⟨mark, rfl, rfl⟩
  | _ => exact .inl rfl

/-- One statement of a stop, whichever thread makes it and wherever the thread goes. While the stop is midway, and at its
first statement, the loop is outside of the branch for `activated`. -/
theorem Sound.stopped (h : t.Sound) (closing : Bool) (point : StopPoint) {u : ControllerThreads}
    (hu : u.controller = (t.stop closing point).1.controller ∧ u.begun = t.begun ∧
      u.deeds = (t.stop closing point).1.deeds)
    (hoff : point.midway = true → t.controller.active = false)
    (hact : point = .capture ∨ point.midway = true → u.loop.activates = false)
    (hmark : ∀ n, point.mark = some n → t.Over n)
    (hnext : ∀ n, u.hook.mark = some n ∨ u.loop.mark = some n →
      t.Over n ∨ ∃ next, (t.stop closing point).2 = some next ∧ next.mark = some n)
    (hhook : u.hook.midway = true → t.hook.midway = true ∨ point = .capture ∨ point.midway = true)
    (hloop : u.loop.activates = true → u.loop = t.loop)
    (hlooped : ∀ closing' point', u.loop = .stopping closing' point' → point'.midway = true →
      t.controller.active = false ∨ point = .capture ∨ point.midway = true) : u.Sound := by
  obtain ⟨hc, hb, hd⟩ := hu
  have hactive : u.controller.active = true → t.controller.active = true := by
    rw [hc]
    cases point with
    | capture => exact fun ha => nomatch ha
    | queue mark => cases closing <;> exact id
    | _ => exact id
  have hinactive : point = .capture ∨ point.midway = true → u.controller.active = false :=
    fun hp => hc ▸ stop_inactive hp hoff
  refine h.calm ⟨hactive, ?_, ?_, hb, fun n hn => ?_, fun hm => ?_, hloop, fun closing' point' hs hm => ?_, ?_⟩
  · rw [hc]
    cases point with
    | epoch => exact .inr ⟨hoff rfl, hact (.inr rfl)⟩
    | queue mark => cases closing <;> exact .inl rfl
    | _ => exact .inl rfl
  · rw [hc]
    cases point with
    | pending => exact .inr ⟨rfl, hact (.inr rfl)⟩
    | queue mark => cases closing <;> exact .inl rfl
    | _ => exact .inl rfl
  · have hthread : u.hook.mark = some n ∨ u.loop.mark = some n → t.Over n ∨
        n = t.begun ∧ u.controller.pendingEpoch = 0 ∧ u.loop.activates = false := by
      intro hn
      rcases hnext n hn with hn | ⟨next, hn, hm⟩
      · exact .inl hn
      · rcases stop_mark hn hm with hn | ⟨rfl, rfl⟩
        · exact .inl (hmark n hn)
        · exact .inr ⟨rfl, hc ▸ rfl, hact (.inr rfl)⟩
    rcases hn with hn | hn | hn
    · rw [hd] at hn
      rcases t.stop_deeds closing point with he | ⟨m, hm, he⟩
      · exact .inl (.inl (he ▸ hn))
      · rw [he, List.mem_append, List.mem_singleton] at hn
        rcases hn with hn | hn
        · exact .inl (.inl hn)
        · cases hn; exact .inl (hmark n hm)
    · exact hthread (.inl hn)
    · exact hthread (.inr hn)
  · exact (hhook hm).imp_right fun hp => ⟨hinactive hp, hact hp⟩
  · rcases hlooped closing' point' hs hm with ha | hp
    · exact Bool.eq_false_of_not_eq_true fun hu => absurd (ha.symm.trans (hactive hu)) Bool.false_ne_true
    · exact hinactive hp
  · rw [hd]
    exact (t.stop_deeds closing point).imp_right fun ⟨n, _, he⟩ => ⟨n, he⟩

/-- One statement of a stop of the hook thread. -/
theorem Sound.hookStop (h : t.Sound) {point : StopPoint} (hh : t.hook = .stopping point)
    (ha : point = .capture → t.loop.activates = false) :
    ((t.stop false point).1.hookTo ((t.stop false point).2.elim .idle .stopping)).Sound := by
  have hmid : point.midway = true → t.hook.midway = true := fun hm => by rw [hh]; exact hm
  obtain ⟨-, hloop, hbegun⟩ := t.stop_frame false point
  refine h.stopped false point ⟨rfl, hbegun, rfl⟩ (fun hm => h.hooked (hmid hm)) ?_
    (fun n hn => .inr (.inl (by rw [hh]; exact hn))) ?_ ?_ (fun _ => hloop) ?_
  · intro hp
    show (t.stop false point).1.loop.activates = false
    rw [hloop]
    rcases hp with hp | hm
    · exact ha hp
    · exact Bool.eq_false_of_not_eq_true fun hact => absurd ((h.apart hact).symm.trans (hmid hm)) Bool.false_ne_true
  · rintro n (hn | hn)
    · change ((t.stop false point).2.elim HookPoint.idle .stopping).mark = some n at hn
      cases hnext : (t.stop false point).2 with
      | none => rw [hnext] at hn; cases hn
      | some next => rw [hnext] at hn; exact .inr ⟨next, rfl, hn⟩
    · exact .inl (.inr (.inr (hloop ▸ hn)))
  · intro hm
    change ((t.stop false point).2.elim HookPoint.idle .stopping).midway = true at hm
    cases hnext : (t.stop false point).2 with
    | none => rw [hnext] at hm; cases hm
    | some next => rw [hnext] at hm; exact .inr (stop_midway hnext hm)
  · intro closing' point' hs hm
    exact .inl (h.looped closing' point' (hloop.symm.trans hs) hm)

/-- One statement of a stop of the event loop. -/
theorem Sound.loopStop (h : t.Sound) {closing : Bool} {point : StopPoint} (hl : t.loop = .stopping closing point) :
    ((t.stop closing point).1.loopTo ((t.stop closing point).2.elim .idle (.stopping closing))).Sound := by
  obtain ⟨hhook, -, hbegun⟩ := t.stop_frame closing point
  have hout : ((t.stop closing point).2.elim LoopPoint.idle (.stopping closing)).activates = false := by
    cases (t.stop closing point).2 <;> rfl
  refine h.stopped closing point ⟨rfl, hbegun, rfl⟩ (h.looped closing point hl) (fun _ => hout)
    (fun n hn => .inr (.inr (by rw [hl]; exact hn))) ?_ (fun hm => .inl (hhook ▸ hm))
    (fun hact => absurd (hout.symm.trans hact) Bool.false_ne_true) ?_
  · rintro n (hn | hn)
    · exact .inl (.inr (.inl (hhook ▸ hn)))
    · change ((t.stop closing point).2.elim LoopPoint.idle (.stopping closing)).mark = some n at hn
      cases hnext : (t.stop closing point).2 with
      | none => rw [hnext] at hn; cases hn
      | some next => rw [hnext] at hn; exact .inr ⟨next, rfl, hn⟩
  · intro closing' point' hs hm
    change (t.stop closing point).2.elim LoopPoint.idle (.stopping closing) = .stopping closing' point' at hs
    cases hnext : (t.stop closing point).2 with
    | none => rw [hnext] at hs; cases hs
    | some next => rw [hnext] at hs; cases hs; exact .inr (stop_midway hnext hm)

/-! ## Activations -/

/-- A new activation begins: everything that is over began before. -/
theorem Sound.drawing (h : t.Sound) {c : Controller} (ha : c.active = t.controller.active)
    (he : c.epoch = t.controller.epoch) :
    Sound { t with controller := c, begun := t.begun + 1, loop := .clearing } := by
  have hover : ∀ n, Over { t with controller := c, begun := t.begun + 1, loop := .clearing } n → t.Over n := by
    rintro n (hn | hn | hn)
    · exact .inl hn
    · exact .inr (.inl hn)
    · cases hn
  refine ⟨fun hact => ?_, fun hact => ?_, fun hm => ha.trans (h.hooked hm), fun _ _ hs => ?_, fun hs => ?_, fun _ _ hs => ?_,
    fun _ hs => ?_, fun n hn => Nat.le_succ_of_le (h.bounded n (hover n hn)),
    fun _ n hn => Nat.lt_succ_of_le (h.bounded n (hover n hn)), h.lawful⟩
  · rw [he]; exact h.active (ha ▸ hact)
  · cases hact
  · cases hs
  · cases hs
  · cases hs
  · rcases hs with hs | hs <;> cases hs

/-- The loop is at an inner point of the branch for `activated`, and the hook thread is not midway through a stop. -/
theorem Sound.activating (h : t.Sound) (hf : t.controller.pendingEpoch ≠ 0 ∨ t.loop.activates = true)
    (hm : t.hook.midway = false) {c : Controller} {loop : LoopPoint}
    (hc : c.active = t.controller.active) (hact : loop.activates = true)
    (hactive : t.controller.active = true → c.epoch ≠ 0)
    (hchecked : loop = .checked → c.pendingEpoch ≠ 0)
    (hloaded : ∀ epoch n, loop = .loaded epoch n → epoch ≠ 0 ∧ n = t.begun)
    (hassigned : ∀ n, loop = .assigned n ∨ loop = .requesting n → c.epoch ≠ 0 ∧ n = t.begun) :
    Sound { t with controller := c, loop := loop } := by
  have hmark : loop.mark = none := by cases loop <;> first | rfl | cases hact
  have hover : ∀ n, Over { t with controller := c, loop := loop } n → t.Over n := by
    rintro n (hn | hn | hn)
    · exact .inl hn
    · exact .inr (.inl hn)
    · exact absurd (hmark.symm.trans hn) (by simp)
  refine ⟨fun ha => hactive (hc ▸ ha), fun _ => hm, fun hm' => absurd (hm.symm.trans hm') (by simp),
    fun closing point hs => ?_, hchecked, hloaded, hassigned, fun n hn => h.bounded n (hover n hn),
    fun _ n hn => h.fresh hf n (hover n hn), h.lawful⟩
  rw [show loop = _ from hs] at hact
  cases hact

theorem Sound.requesting (h : t.Sound) {n : Nat} (hl : t.loop = .requesting n) :
    Sound { t with controller := { t.controller with active := true },
                   deeds := t.deeds ++ [StopDeed.requested n], loop := .idle } := by
  have hact : t.loop.activates = true := by rw [hl]; rfl
  obtain ⟨he, rfl⟩ := h.assigned n (.inr hl)
  have hm := h.apart hact
  have hover : ∀ n, Over { t with controller := { t.controller with active := true },
                                  deeds := t.deeds ++ [StopDeed.requested t.begun], loop := .idle } n → t.Over n := by
    rintro n (hn | hn | hn)
    · rcases List.mem_append.mp hn with hn | hn
      · exact .inl hn
      · cases List.mem_singleton.mp hn
    · exact .inr (.inl hn)
    · cases hn
  refine ⟨fun _ => he, fun ha => ?_, fun hm' => absurd (hm.symm.trans hm') (by simp), fun _ _ hs => ?_, fun hs => ?_,
    fun _ _ hs => ?_, fun _ hs => ?_, fun n hn => h.bounded n (hover n hn),
    fun _ n hn => h.fresh (.inr hact) n (hover n hn), h.lawful.concat fun m hs => h.fresh (.inr hact) m (.inl hs)⟩
  · cases ha
  · cases hs
  · cases hs
  · cases hs
  · rcases hs with hs | hs <;> cases hs

/-! ## Steps -/

theorem Sound.hookStep (h : t.Sound) {env : ControllerEnv} (ha : t.Apart (.hook env)) (hs : t.hookStep env = some t') :
    t'.Sound := by
  unfold ControllerThreads.hookStep at hs
  dsimp only at hs
  split at hs
  · cases hs
  · cases hs
    refine h.still ⟨rfl, rfl, rfl⟩ (.inr ?_) (.inl rfl)
    split <;> exact ⟨rfl, rfl⟩
  · split at hs <;> cases hs <;> exact h.still ⟨rfl, rfl, rfl⟩ (.inr ⟨rfl, rfl⟩) (.inl rfl)
  · cases hs
    refine h.still ⟨rfl, rfl, rfl⟩ (.inr ?_) (.inl rfl)
    split <;> exact ⟨rfl, rfl⟩
  · cases hs; exact h.still ⟨rfl, rfl, rfl⟩ (.inr ⟨rfl, rfl⟩) (.inl rfl)
  · cases hs
    refine h.still ⟨rfl, rfl, rfl⟩ (.inr ?_) (.inl rfl)
    split <;> exact ⟨rfl, rfl⟩
  · rename_i point hh
    cases hs
    exact h.hookStop hh fun hp => ha (hp ▸ hh)

theorem send_still (env : ControllerEnv) (event : Event) (c : Controller) : (c.send env event).active = c.active ∧
    (c.send env event).epoch = c.epoch ∧ (c.send env event).pendingEpoch = c.pendingEpoch := ⟨rfl, rfl, rfl⟩

theorem sendReset_still (env : ControllerEnv) (c : Controller) : (c.sendReset env).active = c.active ∧
    (c.sendReset env).epoch = c.epoch ∧ (c.sendReset env).pendingEpoch = c.pendingEpoch := by
  unfold Controller.sendReset
  split <;> exact ⟨rfl, rfl, rfl⟩

theorem Sound.loopStep (h : t.Sound) {env : ControllerEnv} (ha : t.Apart (.loop env)) (hs : t.loopStep env = some t') :
    t'.Sound := by
  have hin : ∀ {point : LoopPoint}, t.loop = point → point.activates = true → t.hook.midway = false :=
    fun hl hp => h.apart (hl ▸ hp)
  have hbranch : ∀ {point : LoopPoint}, t.loop = point → point.activates = true →
      t.controller.pendingEpoch ≠ 0 ∨ t.loop.activates = true := fun hl hp => .inr (hl ▸ hp)
  have hgo : ∀ (c : Controller) (loop : LoopPoint), c.active = t.controller.active ∧ c.epoch = t.controller.epoch ∧
      c.pendingEpoch = t.controller.pendingEpoch → (loop.activates = false ∧ loop.mark = none ∧
        ∀ closing point, loop = .stopping closing point → point.midway = false) →
      Sound ({ t with controller := c }.loopTo loop) := fun c loop hc hl => h.still hc (.inl rfl) (.inr hl)
  unfold ControllerThreads.loopStep at hs
  dsimp only at hs
  split at hs
  · cases hs
  · cases hs
    refine hgo t.controller _ ⟨rfl, rfl, rfl⟩ ?_
    split <;> exact ⟨rfl, rfl, by simp⟩
  · cases hs
    refine hgo t.controller _ ⟨rfl, rfl, rfl⟩ ?_
    split <;> exact ⟨rfl, rfl, by simp⟩
  · cases hs; exact h.drawing rfl rfl
  · cases hs; exact hgo _ _ ⟨rfl, rfl, rfl⟩ ⟨rfl, rfl, by simp⟩
  · cases hs; exact hgo _ _ (send_still env _ t.controller) ⟨rfl, rfl, by simp⟩
  · split at hs
    · cases hs; exact hgo _ _ (sendReset_still env t.controller) ⟨rfl, rfl, by simp⟩
    · cases hs; exact hgo t.controller _ ⟨rfl, rfl, rfl⟩ ⟨rfl, rfl, by simp⟩
  · rename_i hl
    split at hs
    · cases hs; exact hgo _ _ (sendReset_still env t.controller) ⟨rfl, rfl, by simp⟩
    · rename_i hp
      cases hs
      exact h.activating (.inl hp) (ha hl hp) rfl rfl h.active (fun _ => hp) (by simp) (by simp)
  · rename_i hl
    cases hs
    refine h.activating (hbranch hl rfl) (hin hl rfl) rfl rfl h.active (by simp) ?_ (by simp)
    rintro epoch n ⟨⟩
    exact ⟨h.checked hl, rfl⟩
  · rename_i epoch n hl
    cases hs
    obtain ⟨he, hn⟩ := h.loaded epoch n hl
    refine h.activating (hbranch hl rfl) (hin hl rfl) rfl rfl (fun _ => he) (by simp) (by simp) ?_
    rintro m (hm | hm) <;> cases hm
    exact ⟨he, hn⟩
  · rename_i n hl
    cases hs
    obtain ⟨he, hn⟩ := h.assigned n (.inl hl)
    refine h.activating (hbranch hl rfl) (hin hl rfl) rfl rfl (fun _ => he) (by simp) (by simp) ?_
    rintro m (hm | hm) <;> cases hm
    exact ⟨he, hn⟩
  · rename_i n hl
    split at hs
    · cases hs
    · cases hs; exact h.requesting hl
  · cases hs
    refine hgo t.controller _ ⟨rfl, rfl, rfl⟩ ?_
    split <;> exact ⟨rfl, rfl, by simp⟩
  · cases hs
    refine hgo _ _ ?_ ⟨rfl, rfl, by simp⟩
    split
    · exact ⟨rfl, rfl, rfl⟩
    · exact send_still env _ t.controller
  · rename_i closing point hl
    split at hs
    · cases hs
    · cases hs; exact h.loopStop hl

theorem readAck_still (env : ControllerEnv) (op epoch seq stamp : Nat) (c : Controller) :
    (c.readAck env op epoch seq stamp).active = c.active ∧ (c.readAck env op epoch seq stamp).epoch = c.epoch ∧
      (c.readAck env op epoch seq stamp).pendingEpoch = c.pendingEpoch := by
  unfold Controller.readAck
  dsimp only
  split <;> exact ⟨rfl, rfl, rfl⟩

theorem readChallenge_still (env : ControllerEnv) (nonce : Nat) (c : Controller) :
    (c.readChallenge env nonce).active = c.active ∧ (c.readChallenge env nonce).epoch = c.epoch ∧
      (c.readChallenge env nonce).pendingEpoch = c.pendingEpoch := by
  unfold Controller.readChallenge
  dsimp only
  split <;> exact ⟨rfl, rfl, rfl⟩

theorem probe_still (env : ControllerEnv) (c : Controller) : (c.probe env).active = c.active ∧
    (c.probe env).epoch = c.epoch ∧ (c.probe env).pendingEpoch = c.pendingEpoch := by
  unfold Controller.probe
  split <;> exact ⟨rfl, rfl, rfl⟩

theorem Sound.begin (h : t.Sound) {env : ControllerEnv} {task : LoopTask}
    (hs : t.begin env task = some t') : t'.Sound := by
  have hstay : ∀ c : Controller, c.active = t.controller.active ∧ c.epoch = t.controller.epoch ∧
      c.pendingEpoch = t.controller.pendingEpoch → Sound { t with controller := c } :=
    fun c hc => h.still hc (.inl rfl) (.inl rfl)
  have hgo : ∀ (c : Controller) (loop : LoopPoint), c.active = t.controller.active ∧ c.epoch = t.controller.epoch ∧
      c.pendingEpoch = t.controller.pendingEpoch → (loop.activates = false ∧ loop.mark = none ∧
        ∀ closing point, loop = .stopping closing point → point.midway = false) →
      Sound ({ t with controller := c }.loopTo loop) := fun c loop hc hl => h.still hc (.inl rfl) (.inr hl)
  have hstop : ∀ closing, (LoopPoint.stopping closing .capture).activates = false ∧
      (LoopPoint.stopping closing .capture).mark = none ∧ ∀ closing' point,
        LoopPoint.stopping closing .capture = .stopping closing' point → point.midway = false :=
    fun closing => ⟨rfl, rfl, by rintro _ _ ⟨⟩; rfl⟩
  cases task with
  | activated epoch => cases hs; exact hgo t.controller _ ⟨rfl, rfl, rfl⟩ ⟨rfl, rfl, by simp⟩
  | ack op epoch seq stamp => cases hs; exact hstay _ (readAck_still env op epoch seq stamp t.controller)
  | challenge nonce => cases hs; exact hstay _ (readChallenge_still env nonce t.controller)
  | callback =>
      unfold ControllerThreads.begin at hs
      dsimp only at hs
      split at hs
      · cases hs
      · cases hs; exact hgo _ _ ⟨rfl, rfl, rfl⟩ ⟨rfl, rfl, by simp⟩
      · rename_i rest _
        cases hs; exact hstay _ (sendReset_still env { t.controller with scheduled := rest })
  | sender =>
      unfold ControllerThreads.begin at hs
      dsimp only at hs
      split at hs
      · cases hs; exact hgo _ _ ⟨rfl, rfl, rfl⟩ (hstop false)
      · cases hs; exact hstay _ ⟨rfl, rfl, rfl⟩
      · cases hs; exact hgo _ _ ⟨rfl, rfl, rfl⟩ ⟨rfl, rfl, by simp⟩
  | probe => cases hs; exact hstay _ (probe_still env t.controller)
  | stop => cases hs; exact hgo t.controller _ ⟨rfl, rfl, rfl⟩ (hstop false)
  | connect => cases hs; exact hstay _ ⟨rfl, rfl, rfl⟩
  | close => cases hs; exact hgo t.controller _ ⟨rfl, rfl, rfl⟩ (hstop true)

theorem Sound.step (h : t.Sound) (ha : t.Apart action) (hs : t.step action = some t') : t'.Sound := by
  cases action with
  | call call =>
      simp only [ControllerThreads.step] at hs
      split at hs
      · cases hs
        cases call <;> exact Sound.still h ⟨rfl, rfl, rfl⟩ (.inr ⟨rfl, rfl⟩) (.inl rfl)
      · cases hs
  | hook env => exact h.hookStep ha hs
  | begin env task =>
      simp only [ControllerThreads.step] at hs
      split at hs
      · exact h.begin hs
      · cases hs
  | loop env => exact h.loopStep ha hs

/-! ## Runs -/

/-- In every run that keeps stops and the branch for `activated` apart, a stop is final for the activations before it. -/
theorem stop_is_final {actions : List ControllerAction} (ha : Runs.Before step {} Apart actions)
    (hs : run {} actions = some t) : t.Stops := by
  have h : t.Sound := ha.invariant Sound.start (fun _ _ _ h ha hs => h.step ha hs) hs
  exact ⟨fun _ _ => h.active, h.lawful⟩

def sample : ControllerEnv := { now := 1, bits := 7 }

/-- The controller connects, `toggle` schedules `activate`, and the target answers; the reader has taken all but the last
step of its branch. -/
def activated : List ControllerAction :=
  [.begin sample .connect, .begin sample (.challenge 3), .call .toggle, .hook sample, .hook sample,
    .begin sample .callback, .loop sample, .loop sample, .loop sample, .loop sample, .loop sample,
    .begin sample (.activated 7), .loop sample, .loop sample, .loop sample, .loop sample, .loop sample]

/-- `stop_control` of the hook thread from its first statement to its last. -/
def stopped : List ControllerAction :=
  [.call (.stop true), .hook sample, .hook sample, .hook sample, .hook sample, .hook sample]

theorem stop_is_final_after_activation : ∃ t, run {} (activated ++ [.loop sample] ++ stopped) = some t ∧
    Runs.Before step {} Apart (activated ++ [.loop sample] ++ stopped) ∧ t.Stops := by
  obtain ⟨t, ht⟩ : ∃ t, run {} (activated ++ [.loop sample] ++ stopped) = some t :=
    Option.isSome_iff_exists.mp (by decide +kernel)
  have ha : Runs.Before step {} Apart (activated ++ [.loop sample] ++ stopped) := by decide +kernel
  exact ⟨t, ht, ha, stop_is_final ha ht⟩

/-- A stop between the writes of the epochs and `set_active(True)`: the capture stays requested with epoch 0. -/
theorem stop_is_undone : ∃ t, run {} (activated ++ stopped ++ [.loop sample]) = some t ∧ t.hook = .idle ∧ t.loop = .idle ∧
    t.controller.active = true ∧ t.controller.epoch = 0 ∧ ¬ t.Stops := by
  obtain ⟨t, ht⟩ : ∃ t, run {} (activated ++ stopped ++ [.loop sample]) = some t :=
    Option.isSome_iff_exists.mp (by decide +kernel)
  have hv : (run {} (activated ++ stopped ++ [.loop sample])).map (fun (t : ControllerThreads) =>
      (t.hook, t.loop, t.controller.active, t.controller.epoch)) = some (.idle, .idle, true, 0) := by decide +kernel
  rw [ht, Option.map_some, Option.some.injEq] at hv
  simp only [Prod.mk.injEq] at hv
  obtain ⟨hh, hl, ha, he⟩ := hv
  exact ⟨t, ht, hh, hl, ha, he, fun hs => hs.1 hh hl ha he⟩

end ControllerThreads

end RemoteInput
