import RemoteInput.Controller.Lemmas.Captured
import RemoteInput.Controller.Lemmas.Log
import RemoteInput.Controller.Theorems.Stop

/-!
# Control is asked for by the local user only

Each press of the hotkey is good for one activation, and each activation for one `ACTIVATE` and one `set_active(True)`,
however the two threads interleave and whatever the target says.
-/

namespace RemoteInput

/-! ## What a thread still has to give -/

/-- The hook thread may still schedule `activate`. -/
def HookPoint.asks : HookPoint → Nat
  | .toggle | .toggling => 1
  | _ => 0

/-- The loop may still begin an activation. -/
def LoopPoint.asks : LoopPoint → Nat
  | .activate | .activating | .drawing => 1
  | _ => 0

/-- The loop has still to send `ACTIVATE`. -/
def LoopPoint.announces : LoopPoint → Nat
  | .clearing | .sending => 1
  | _ => 0

def StopDeed.isRequest : StopDeed → Bool
  | .requested _ => true
  | .stopped _ => false

/-- How many `ACTIVATE` frames were put on the outbox. -/
def Controller.announced (c : Controller) : Nat := (sentFrames c.log).countP (·.op = .activate)

/-- The local user presses the hotkey. -/
def ControllerAction.isToggle : ControllerAction → Bool
  | .call .toggle => true
  | _ => false

namespace ControllerThreads

variable {t t' : ControllerThreads} {env : ControllerEnv} {n : Nat} {action : ControllerAction}

def asks (t : ControllerThreads) : Nat := t.hook.asks + t.controller.scheduled.count .activate + t.loop.asks

/-- An activation that may still become a request. -/
def credit (t : ControllerThreads) : Nat := if t.controller.pendingEpoch ≠ 0 ∨ t.loop.activates = true then 1 else 0

def requests (t : ControllerThreads) : Nat := t.deeds.countP (·.isRequest)

/-- With `n` presses of the hotkey. -/
structure Counted (n : Nat) (t : ControllerThreads) : Prop where
  begun : t.begun + t.asks ≤ n
  requests : t.requests + t.credit ≤ t.begun
  announced : t.controller.announced + t.loop.announces ≤ t.begun
  drawing : t.loop = .drawing → t.controller.pendingEpoch = 0
  requesting : ∀ k, t.loop = .requesting k → t.controller.pendingEpoch = 0

theorem Counted.start : Counted 0 {} := ⟨le_rfl, le_rfl, le_rfl, fun _ => rfl, fun _ _ => rfl⟩

/-! ## Steps that give nothing -/

/-- A step that begins no activation and makes no request. -/
theorem Counted.calm (h : Counted n t) (hasks : t'.asks ≤ t.asks) (hbegun : t'.begun = t.begun)
    (hrequests : t'.requests = t.requests)
    (hpending : t'.controller.pendingEpoch = t.controller.pendingEpoch ∨ t'.controller.pendingEpoch = 0)
    (hactivates : t'.loop.activates = true → t.controller.pendingEpoch ≠ 0 ∨ t.loop.activates = true)
    (hsent : t'.controller.announced + t'.loop.announces ≤ t.controller.announced + t.loop.announces)
    (hdrawing : t'.loop = .drawing → t.loop = .drawing ∨ t'.controller.pendingEpoch = 0)
    (hrequesting : ∀ k, t'.loop = .requesting k → t.loop = .requesting k ∨ t'.controller.pendingEpoch = 0) :
    Counted n t' := by
  have hcredit : t'.credit ≤ t.credit := by
    unfold credit
    split_ifs with h1 h2 h2
    · exact le_rfl
    · refine absurd ?_ h2
      rcases h1 with hp | hl
      · exact .inl fun h0 => hp (hpending.elim (fun he => he.trans h0) id)
      · exact hactivates hl
    · exact Nat.zero_le _
    · exact le_rfl
  have hzero : t.controller.pendingEpoch = 0 → t'.controller.pendingEpoch = 0 :=
    fun h0 => hpending.elim (fun he => he.trans h0) id
  refine ⟨?_, ?_, ?_, fun hl => ?_, fun k hl => ?_⟩
  · have := h.begun
    omega
  · have := h.requests
    omega
  · have := h.announced
    omega
  · exact (hdrawing hl).elim (fun hl => hzero (h.drawing hl)) id
  · exact (hrequesting k hl).elim (fun hl => hzero (h.requesting k hl)) id

theorem announced_send (env : ControllerEnv) (event : Event) (c : Controller) :
    (c.send env event).announced = c.announced + if event.op = .activate then 1 else 0 := by
  have hop : (c.frame env event).op = event.op := rfl
  rw [Controller.announced, Controller.announced, Controller.send, sentFrames_append, sentFrames_sent, List.countP_append,
    List.countP_singleton]
  simp only [hop, decide_eq_true_eq]

theorem announced_sendReset (env : ControllerEnv) (c : Controller) : (c.sendReset env).announced = c.announced := by
  unfold Controller.sendReset
  split
  · rw [announced_send]
    rfl
  · rfl

/-- What `stop` leaves of all this. -/
theorem stop_gives (closing : Bool) (t : ControllerThreads) (point : StopPoint) :
    (t.stop closing point).1.controller.scheduled.count .activate = t.controller.scheduled.count .activate ∧
    (t.stop closing point).1.begun = t.begun ∧ (t.stop closing point).1.requests = t.requests ∧
    ((t.stop closing point).1.controller.pendingEpoch = t.controller.pendingEpoch ∨
      (t.stop closing point).1.controller.pendingEpoch = 0) ∧
    (t.stop closing point).1.controller.announced = t.controller.announced ∧
    (t.stop closing point).1.hook = t.hook ∧ (t.stop closing point).1.loop = t.loop := by
  have hstopped : ∀ mark, (t.deeds ++ [StopDeed.stopped mark]).countP (·.isRequest) = t.requests := fun mark => by
    rw [List.countP_append, requests]
    rfl
  cases point with
  | capture | connection | epoch => exact ⟨rfl, rfl, rfl, .inl rfl, rfl, rfl, rfl⟩
  | pending => exact ⟨rfl, rfl, rfl, .inr rfl, rfl, rfl, rfl⟩
  | queue mark =>
      cases closing with
      | false => exact ⟨rfl, rfl, rfl, .inl rfl, rfl, rfl, rfl⟩
      | true => exact ⟨rfl, rfl, hstopped mark, .inl rfl, rfl, rfl, rfl⟩
  | schedule mark =>
      refine ⟨?_, rfl, hstopped mark, .inl rfl, rfl, rfl, rfl⟩
      show (t.controller.scheduled ++ [Callback.sendReset]).count .activate = _
      rw [List.count_append]
      rfl

/-! ## The hook thread -/

theorem Counted.hookStep (h : Counted n t) (hs : t.hookStep env = some t') : Counted n t' := by
  have hto : ∀ {u : ControllerThreads} {point : HookPoint},
      point.asks + u.controller.scheduled.count .activate ≤ t.hook.asks + t.controller.scheduled.count .activate →
      u.begun = t.begun → u.requests = t.requests →
      (u.controller.pendingEpoch = t.controller.pendingEpoch ∨ u.controller.pendingEpoch = 0) →
      u.controller.announced = t.controller.announced → u.loop = t.loop → Counted n (u.hookTo point) := by
    intro u point hasks hbegun hrequests hpending hannounced hl
    refine h.calm ?_ hbegun hrequests hpending (fun ht => .inr (hl ▸ ht)) ?_ (fun hd => .inl (hl ▸ hd)) fun k hd =>
      .inl (hl ▸ hd)
    · show point.asks + u.controller.scheduled.count .activate + u.loop.asks ≤ _
      rw [hl]
      exact Nat.add_le_add_right hasks _
    · show u.controller.announced + u.loop.announces ≤ _
      rw [hannounced, hl]
  unfold ControllerThreads.hookStep at hs
  cases hh : t.hook with
  | idle => rw [hh] at hs; cases hs
  | toggle =>
      rw [hh] at hs
      cases hs
      refine hto (Nat.add_le_add_right ?_ _) rfl rfl (.inl rfl) rfl rfl
      rw [hh]
      split <;> decide
  | toggling =>
      rw [hh] at hs
      dsimp only at hs
      split at hs <;> cases hs
      · refine hto (Nat.add_le_add_right ?_ _) rfl rfl (.inl rfl) rfl rfl
        rw [hh]
        decide
      · refine hto ?_ rfl rfl (.inl rfl) rfl rfl
        show 0 + (t.controller.scheduled ++ [Callback.activate]).count .activate ≤ _
        rw [hh, List.count_append]
        simp [HookPoint.asks, Nat.add_comm]
  | enqueue input =>
      rw [hh] at hs
      cases hs
      refine hto (Nat.add_le_add_right ?_ _) rfl rfl (.inl rfl) rfl rfl
      rw [hh]
      split <;> exact le_rfl
  | enqueuing input =>
      rw [hh] at hs
      cases hs
      exact hto (Nat.add_le_add_right (Nat.zero_le _) _) rfl rfl (.inl rfl) rfl rfl
  | putting event =>
      rw [hh] at hs
      cases hs
      refine hto (Nat.add_le_add_right ?_ _) rfl rfl (.inl rfl) rfl rfl
      rw [hh]
      split <;> exact le_rfl
  | stopping point =>
      rw [hh] at hs
      cases hs
      obtain ⟨h1, h2, h3, h4, h5, -, h7⟩ := stop_gives false t point
      have hzero : ∀ next : Option StopPoint, (next.elim HookPoint.idle HookPoint.stopping).asks = 0 := by
        rintro (_ | _) <;> rfl
      exact hto (Nat.add_le_add ((hzero _).trans_le (Nat.zero_le _)) h1.le) h2 h3 h4 h5 h7

/-! ## The event loop -/

/-- The loop goes on. -/
theorem Counted.loopTo (h : Counted n t) {u : ControllerThreads} {point : LoopPoint}
    (hasks : point.asks + u.controller.scheduled.count .activate ≤ t.loop.asks + t.controller.scheduled.count .activate)
    (hhook : u.hook = t.hook) (hbegun : u.begun = t.begun) (hrequests : u.requests = t.requests)
    (hpending : u.controller.pendingEpoch = t.controller.pendingEpoch ∨ u.controller.pendingEpoch = 0)
    (hactivates : point.activates = true → t.controller.pendingEpoch ≠ 0 ∨ t.loop.activates = true)
    (hsent : u.controller.announced + point.announces ≤ t.controller.announced + t.loop.announces)
    (hdrawing : point = .drawing → u.controller.pendingEpoch = 0)
    (hrequesting : ∀ k, point = .requesting k → u.controller.pendingEpoch = 0) : Counted n (u.loopTo point) := by
  refine h.calm ?_ hbegun hrequests hpending hactivates hsent (fun hd => .inr (hdrawing hd)) fun k hd =>
    .inr (hrequesting k hd)
  show u.hook.asks + u.controller.scheduled.count .activate + point.asks ≤ t.hook.asks +
      t.controller.scheduled.count .activate + t.loop.asks
  rw [hhook]
  omega

/-- An activation begins. -/
theorem Counted.draw (h : Counted n t) (hl : t.loop = .drawing) {c : Controller}
    (hlog : c.announced = t.controller.announced)
    (hscheduled : c.scheduled = t.controller.scheduled) :
    Counted n ({ t with controller := c, begun := t.begun + 1 }.loopTo .clearing) := by
  have hasks : t.hook.asks + t.controller.scheduled.count .activate + 1 = t.asks := by rw [asks, hl]; rfl
  have h1 := h.begun
  have h2 := h.requests
  have h3 := h.announced
  refine ⟨?_, ?_, ?_, by rintro ⟨⟩, by rintro _ ⟨⟩⟩
  · show t.begun + 1 + (t.hook.asks + c.scheduled.count .activate + 0) ≤ n
    rw [hscheduled]
    omega
  · have hone : ∀ u : ControllerThreads, u.credit ≤ 1 := fun u => by
      unfold credit
      split <;> omega
    exact Nat.add_le_add (Nat.le_of_add_right_le h2) (hone _)
  · show c.announced + 1 ≤ t.begun + 1
    rw [hlog]
    omega

/-- `set_active(True)` is called. -/
theorem Counted.request (h : Counted n t) {k : Nat} (hl : t.loop = .requesting k) {c : Controller}
    (hc : c.announced = t.controller.announced ∧ c.scheduled = t.controller.scheduled ∧
      c.pendingEpoch = t.controller.pendingEpoch) :
    Counted n ({ t with controller := c, deeds := t.deeds ++ [StopDeed.requested k] }.loopTo .idle) := by
  obtain ⟨hlog, hscheduled, hpending⟩ := hc
  have hzero := h.requesting k hl
  have h1 := h.begun
  have h2 := h.requests
  have h3 := h.announced
  rw [asks, hl] at h1
  rw [credit, if_pos (by rw [hl]; exact .inr rfl)] at h2
  rw [hl] at h3
  refine ⟨?_, ?_, ?_, by rintro ⟨⟩, by rintro _ ⟨⟩⟩
  · show t.begun + (t.hook.asks + c.scheduled.count .activate + 0) ≤ n
    rw [hscheduled]
    exact h1
  · rw [ControllerThreads.requests, credit, if_neg]
    · show (t.deeds ++ [StopDeed.requested k]).countP (·.isRequest) + 0 ≤ t.begun
      rw [List.countP_append]
      exact h2
    · rintro (hp | hp)
      · exact hp (hpending.trans hzero)
      · cases hp
  · show c.announced + 0 ≤ t.begun
    rw [hlog]
    exact h3

theorem Counted.loopStep (h : Counted n t) (hc : t.Captured) (hs : t.loopStep env = some t') : Counted n t' := by
  have hidle : ∀ {u : ControllerThreads}, u.controller.scheduled = t.controller.scheduled → u.hook = t.hook →
      u.begun = t.begun →
      u.requests = t.requests → (u.controller.pendingEpoch = t.controller.pendingEpoch ∨ u.controller.pendingEpoch = 0) →
      u.controller.announced ≤ t.controller.announced + t.loop.announces → Counted n (u.loopTo .idle) := by
    intro u hscheduled hhook hbegun hrequests hpending hsent
    refine h.loopTo ?_ hhook hbegun hrequests hpending (by rintro ⟨⟩) hsent (by rintro ⟨⟩) (by rintro _ ⟨⟩)
    rw [hscheduled]
    exact Nat.add_le_add_right (Nat.zero_le _) _
  have hplain : ∀ {point : LoopPoint}, point.asks ≤ t.loop.asks → point.activates = false → point.announces = 0 →
      (point = .drawing → t.controller.pendingEpoch = 0) → (∀ k, point ≠ .requesting k) → Counted n (t.loopTo point) := by
    intro point hasks hactivates hannounces hdrawing hrequesting
    refine h.loopTo (Nat.add_le_add_right hasks _) rfl rfl rfl (.inl rfl)
      (fun hp => absurd (hactivates.symm.trans hp) (by simp)) ?_
      hdrawing fun k hp => absurd hp (hrequesting k)
    rw [hannounces]
    omega
  have hreset : ∀ {u : Controller}, u = t.controller.sendReset env → u.scheduled = t.controller.scheduled ∧
      u.pendingEpoch = t.controller.pendingEpoch ∧ u.announced = t.controller.announced := by
    rintro u rfl
    refine ⟨?_, (sendReset_still env t.controller).2.2, announced_sendReset env t.controller⟩
    unfold Controller.sendReset
    split <;> rfl
  unfold ControllerThreads.loopStep at hs
  cases hl : t.loop with
  | idle => rw [hl] at hs; cases hs
  | activate =>
      rw [hl] at hs
      cases hs
      split
      · exact hplain (by rw [hl]; decide) rfl rfl (by rintro ⟨⟩) (by rintro _ ⟨⟩)
      · exact hplain (by rw [hl]; decide) rfl rfl (by rintro ⟨⟩) (by rintro _ ⟨⟩)
  | activating =>
      rw [hl] at hs
      cases hs
      split
      · exact hplain (by rw [hl]; decide) rfl rfl (by rintro ⟨⟩) (by rintro _ ⟨⟩)
      · rename_i hguard
        refine hplain (by rw [hl]; decide) rfl rfl (fun _ => ?_) (by rintro _ ⟨⟩)
        by_contra hp
        exact hguard (.inl hp)
  | drawing =>
      rw [hl] at hs
      cases hs
      exact h.draw hl rfl rfl
  | clearing =>
      rw [hl] at hs
      cases hs
      exact h.loopTo (by rw [hl]; exact le_rfl) rfl rfl rfl (.inl rfl) (by rintro ⟨⟩) (by rw [hl]; exact le_rfl)
        (by rintro ⟨⟩) (by rintro _ ⟨⟩)
  | sending =>
      rw [hl] at hs
      cases hs
      refine hidle rfl rfl rfl rfl (.inl rfl) ?_
      rw [hl]
      exact (announced_send env _ t.controller).le
  | activated epoch =>
      rw [hl] at hs
      dsimp only at hs
      split at hs <;> cases hs
      · obtain ⟨h1, h2, h3⟩ := hreset rfl
        exact hidle h1 rfl rfl rfl (.inl h2) (h3.le.trans (Nat.le_add_right _ _))
      · exact hplain (by rw [hl]; exact le_rfl) rfl rfl (by rintro ⟨⟩) (by rintro _ ⟨⟩)
  | compared =>
      rw [hl] at hs
      dsimp only at hs
      split at hs <;> cases hs
      · obtain ⟨h1, h2, h3⟩ := hreset rfl
        exact hidle h1 rfl rfl rfl (.inl h2) (h3.le.trans (Nat.le_add_right _ _))
      · rename_i hp
        exact h.loopTo (by rw [hl]; exact le_rfl) rfl rfl rfl (.inl rfl) (fun _ => .inl hp) (by rw [hl]; exact le_rfl)
          (by rintro ⟨⟩) (by rintro _ ⟨⟩)
  | checked | loaded epoch k =>
      rw [hl] at hs
      cases hs
      exact h.loopTo (by rw [hl]; exact le_rfl) rfl rfl rfl (.inl rfl) (fun _ => .inr (by rw [hl]; rfl))
        (by rw [hl]; exact le_rfl) (by rintro ⟨⟩) (by rintro _ ⟨⟩)
  | assigned k =>
      rw [hl] at hs
      cases hs
      exact h.loopTo (by rw [hl]; exact le_rfl) rfl rfl rfl (.inr rfl) (fun _ => .inr (by rw [hl]; rfl))
        (by rw [hl]; exact le_rfl) (fun _ => rfl) (fun _ _ => rfl)
  | requesting k =>
      rw [hl] at hs
      dsimp only at hs
      split at hs <;> cases hs
      exact h.request hl ⟨rfl, rfl, rfl⟩
  | popped event =>
      rw [hl] at hs
      cases hs
      split
      · exact hplain (Nat.zero_le _) rfl rfl (by rintro ⟨⟩) (by rintro _ ⟨⟩)
      · exact hplain (Nat.zero_le _) rfl rfl (by rintro ⟨⟩) (by rintro _ ⟨⟩)
  | matching event =>
      rw [hl] at hs
      cases hs
      have hop : event.op ≠ .activate := by
        intro hop
        have hinput := hc.loop event (.inr hl)
        rw [hop] at hinput
        cases hinput
      split
      · exact hidle rfl rfl rfl rfl (.inl rfl) (Nat.le_add_right _ _)
      · refine hidle rfl rfl rfl rfl (.inl rfl) ?_
        show (t.controller.send env event).announced ≤ _
        rw [announced_send, if_neg hop]
        exact Nat.add_le_add_left (Nat.zero_le _) _
  | stopping closing point =>
      rw [hl] at hs
      dsimp only at hs
      split at hs <;> cases hs
      obtain ⟨h1, h2, h3, h4, h5, h6, -⟩ := stop_gives closing t point
      have hnext : ∀ next : Option StopPoint, (next.elim LoopPoint.idle (LoopPoint.stopping closing)).asks = 0 ∧
          (next.elim LoopPoint.idle (LoopPoint.stopping closing)).activates = false ∧
          (next.elim LoopPoint.idle (LoopPoint.stopping closing)).announces = 0 ∧
          next.elim LoopPoint.idle (LoopPoint.stopping closing) ≠ .drawing ∧
          ∀ k, next.elim LoopPoint.idle (LoopPoint.stopping closing) ≠ .requesting k := by
        rintro (_ | _) <;> simp [LoopPoint.asks, LoopPoint.activates, LoopPoint.announces]
      obtain ⟨n1, n2, n3, n4, n5⟩ := hnext (t.stop closing point).2
      refine h.loopTo (Nat.add_le_add (n1.trans_le (Nat.zero_le _)) h1.le) h6 h2 h3 h4
        (fun ha => absurd (n2.symm.trans ha) (by simp)) ?_ (fun hd => absurd hd n4) fun k hd => absurd hd (n5 k)
      rw [n3, h5]
      omega

theorem Counted.begin (h : Counted n t) {task : LoopTask} (hs : t.begin env task = some t') : Counted n t' := by
  have hstay : ∀ {c : Controller}, c.scheduled.count .activate ≤ t.controller.scheduled.count .activate →
      c.pendingEpoch = t.controller.pendingEpoch → c.announced = t.controller.announced →
      Counted n { t with controller := c } := by
    intro c hscheduled hpending hlog
    refine h.calm ?_ rfl rfl (.inl hpending) .inr ?_ .inl fun _ => .inl
    · exact Nat.add_le_add_right (Nat.add_le_add_left hscheduled _) _
    · exact (congrArg (· + t.loop.announces) hlog).le
  have hgo : ∀ {c : Controller} {point : LoopPoint}, point.asks + c.scheduled.count .activate ≤
      t.controller.scheduled.count .activate →
      c.pendingEpoch = t.controller.pendingEpoch → c.announced = t.controller.announced → point.activates = false →
      point.announces = 0 → point ≠ .drawing → (∀ k, point ≠ .requesting k) →
      Counted n ({ t with controller := c }.loopTo point) := by
    intro c point hasks hpending hlog hactivates hannounces hdrawing hrequesting
    refine h.loopTo (hasks.trans (Nat.le_add_left _ _)) rfl rfl rfl (.inl hpending)
      (fun hp => absurd (hactivates.symm.trans hp) (by simp)) ?_ (absurd · hdrawing) fun k => (absurd · (hrequesting k))
    rw [hannounces]
    exact hlog.le.trans (Nat.le_add_right _ _)
  have hsend : ∀ (c : Controller) (event : Event), event.op ≠ .activate → (c.send env event).announced = c.announced :=
    fun c event hop => by rw [announced_send, if_neg hop, Nat.add_zero]
  unfold ControllerThreads.begin at hs
  cases task with
  | activated epoch =>
      cases hs
      exact hgo (c := t.controller) (Nat.zero_add _).le rfl rfl rfl rfl (by simp) (by simp)
  | ack op epoch seq stamp =>
      cases hs
      have hsame : (t.controller.readAck env op epoch seq stamp).scheduled = t.controller.scheduled ∧
          (t.controller.readAck env op epoch seq stamp).log = t.controller.log := by
        unfold Controller.readAck
        dsimp only
        split <;> exact ⟨rfl, rfl⟩
      exact hstay (by rw [hsame.1]) (readAck_still env op epoch seq stamp t.controller).2.2
        (by rw [Controller.announced, hsame.2]; rfl)
  | challenge nonce =>
      cases hs
      refine hstay ?_ (readChallenge_still env nonce t.controller).2.2 ?_
      · unfold Controller.readChallenge
        dsimp only
        split <;> exact le_rfl
      · unfold Controller.readChallenge
        dsimp only
        split
        · exact hsend _ _ (by simp)
        · rfl
  | callback =>
      dsimp only at hs
      split at hs
      · cases hs
      · rename_i rest hr
        cases hs
        refine hgo ?_ rfl rfl rfl rfl (by simp) (by simp)
        rw [hr, List.count_cons_self]
        exact (Nat.add_comm _ _).le
      · rename_i rest hr
        cases hs
        refine hstay ?_ (sendReset_still env { t.controller with scheduled := rest }).2.2 (announced_sendReset env _)
        rw [hr, List.count_cons_of_ne (by simp)]
        unfold Controller.sendReset
        split <;> exact le_rfl
  | sender =>
      dsimp only at hs
      split at hs <;> cases hs
      · exact hgo (Nat.zero_add _).le rfl rfl rfl rfl (by simp) (by simp)
      · exact hstay le_rfl rfl rfl
      · exact hgo (Nat.zero_add _).le rfl rfl rfl rfl (by simp) (by simp)
  | probe =>
      cases hs
      refine hstay ?_ (probe_still env t.controller).2.2 ?_
      · unfold Controller.probe
        split <;> exact le_rfl
      · unfold Controller.probe
        split
        · exact hsend _ _ (by simp)
        · rfl
  | stop =>
      cases hs
      exact hgo (c := t.controller) (Nat.zero_add _).le rfl rfl rfl rfl (by simp) (by simp)
  | connect =>
      cases hs
      exact hstay le_rfl rfl rfl
  | close =>
      cases hs
      exact hgo (c := t.controller) (Nat.zero_add _).le rfl rfl rfl rfl (by simp) (by simp)

/-! ## Runs -/

theorem Counted.call (h : Counted n t) (hh : t.hook = .idle) (call : HookCall) :
    Counted (n + if (ControllerAction.call call).isToggle then 1 else 0) (t.call call) := by
  have hmore : Counted (n + if (ControllerAction.call call).isToggle then 1 else 0) t :=
    ⟨h.begun.trans (Nat.le_add_right _ _), h.requests, h.announced, h.drawing, h.requesting⟩
  cases call with
  | toggle =>
      refine ⟨?_, h.requests, h.announced, h.drawing, h.requesting⟩
      have hbegun := h.begun
      rw [asks, hh] at hbegun
      show t.begun + (1 + t.controller.scheduled.count .activate + t.loop.asks) ≤ n + 1
      change t.begun + (0 + t.controller.scheduled.count .activate + t.loop.asks) ≤ n at hbegun
      omega
  | enqueue input | stop locked =>
      refine hmore.calm ?_ rfl rfl (.inl rfl) .inr le_rfl .inl fun _ => .inl
      exact Nat.add_le_add_right (Nat.add_le_add_right (Nat.zero_le _) _) _

theorem Counted.step (h : Counted n t) (hc : t.Captured) (hs : t.step action = some t') :
    Counted (n + if action.isToggle then 1 else 0) t' := by
  cases action with
  | call call =>
      simp only [ControllerThreads.step] at hs
      split at hs
      · cases hs
        exact h.call ‹_› call
      · cases hs
  | hook env => exact h.hookStep hs
  | begin env task =>
      simp only [ControllerThreads.step] at hs
      split at hs
      · exact h.begin hs
      · cases hs
  | loop env => exact h.loopStep hc hs

/-- In every interleaving of the two threads, the capture has been asked to suppress local input at most as often as the
hotkey was pressed, and so has the target been asked for control, whatever it says. -/
theorem control_needs_toggle {actions : List ControllerAction} (hs : run {} actions = some t) :
    t.deeds.countP (·.isRequest) ≤ actions.countP (·.isToggle) ∧
      (sentFrames t.controller.log).countP (·.op = .activate) ≤ actions.countP (·.isToggle) := by
  have h : t.Captured ∧ Counted (actions.countP (·.isToggle)) t := by
    induction actions using List.reverseRecOn generalizing t with
    | nil =>
        cases hs
        exact ⟨.start, .start⟩
    | append_singleton actions action ih =>
        obtain ⟨s, hs, hstep⟩ := Runs.exec_concat.mp hs
        obtain ⟨hcaptured, hcounted⟩ := ih hs
        refine ⟨hcaptured.step hstep, ?_⟩
        rw [List.countP_append, List.countP_singleton]
        exact hcounted.step hcaptured hstep
  have h1 := h.2.begun
  have h2 := h.2.requests
  have h3 := h.2.announced
  exact ⟨by unfold ControllerThreads.requests at h2; omega, by unfold Controller.announced at h3; omega⟩

/-- The target's answer comes twice. -/
def repeated : List ControllerAction :=
  activated ++ [.loop sample, .begin sample (.activated 7), .loop sample]

theorem control_needs_toggle_repeated :
    ∃ t, run {} repeated = some t ∧ t.controller.active = true ∧ t.deeds.countP (·.isRequest) ≤ 1 ∧
      (sentFrames t.controller.log).countP (·.op = .activate) ≤ 1 := by
  obtain ⟨t, ht⟩ := Option.isSome_iff_exists.mp (show (run {} repeated).isSome = true by decide +kernel)
  have hactive : (run {} repeated).map (fun t => t.controller.active) = some true := by decide +kernel
  rw [ht, Option.map_some, Option.some.injEq] at hactive
  have hcount : repeated.countP (·.isToggle) = 1 := by decide
  have h := control_needs_toggle ht
  rw [hcount] at h
  exact ⟨t, ht, hactive, h.1, h.2⟩

end ControllerThreads

end RemoteInput
