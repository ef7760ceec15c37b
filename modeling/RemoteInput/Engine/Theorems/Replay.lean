import RemoteInput.Engine.Lemmas.Replay

/-!
# Frames that come again
-/

namespace RemoteInput

namespace TargetEngine

/-! ## Old and duplicate frames -/

/-- The session of `s` goes on in `t` as if nothing had happened. -/
def Undisturbed (s t : TargetEngine) : Prop :=
  t.epoch = s.epoch ∧ t.keys = s.keys ∧ t.buttons = s.buttons ∧ t.seq = s.seq ∧ t.lastHeartbeat = s.lastHeartbeat ∧
    .emit (.paused s.epoch) ∉ t.out

/-- The frames that cannot disturb the session of `s`. An `ACTIVATE` is one only if its token is still usable and it is
neither the session's own nor able to start another one. -/
def Harmless (env : Env) (event : Event) (s : TargetEngine) : Prop :=
  s.blocked = true ∨ s.connected = false ∨
  (event.op ≠ .activate ∧ (event.epoch ≠ s.epoch ∨ event.seq ≤ s.seq)) ∨
  (event.op = .activate ∧ s.validLease event.lease env.now s.network.inputTimeout ∧ event.epoch ≠ s.epoch ∧
    (event.epoch = 0 ∨ env.permitted = some false))

/-- An operation of the run accepted `event` for the epoch `e`: it is the `ACTIVATE` that started it or a later frame of
it. -/
def acceptedUnder (ops : List EngineOp) (e : Nat) (event : Event) : Prop :=
  ∃ before env after item, ops = before ++ .processOne env :: after ∧
    (initial.exec before).popped env = some item ∧ item.event = event ∧ event.epoch = e ∧
    ((initial.exec before).activates env event ∨
      (initial.exec before).fresh event ∧
        (initial.exec before).validLease event.lease env.now ((initial.exec before).tokenLimit event))

/-- `e` is 0 or was active at some point of the run. -/
def wasActive (ops : List EngineOp) (e : Nat) : Prop := e = 0 ∨ ∃ before, before <+: ops ∧ (initial.exec before).epoch = e

variable {env : Env} {item : Item} {age : Time} {s : TargetEngine}

theorem Harmless.of_ignores (h : s.blocked = true ∨ s.connected = false ∨ s.ignores item.event) (he : s.epoch ≠ 0) :
    s.Harmless env item.event := by
  rcases h with h | h | ⟨hop, h⟩
  · exact .inl h
  · exact .inr (.inl h)
  refine .inr (.inr (.inl ⟨hop, ?_⟩))
  split at h
  · rename_i h0; exact .inl (fun heq => he (heq.symm.trans h0.2))
  · rcases h with h | h | h
    · exact .inl h
    · exact absurd h he
    · exact .inr h

theorem not_harmless_of_stale (hb : s.blocked = false) (hc : s.connected = true) (hi : ¬ s.ignores item.event)
    (hv : ¬ s.validLease item.event.lease env.now (s.tokenLimit item.event)) (he : s.epoch ≠ 0) :
    ¬ s.Harmless env item.event := by
  rintro (h | h | ⟨hop, h⟩ | ⟨hop, hv', _⟩)
  · rw [hb] at h; cases h
  · rw [hc] at h; cases h
  · refine hi ⟨hop, ?_⟩
    split
    · exact he
    · exact h.imp_right .inr
  · rw [tokenLimit_activate hop] at hv; exact hv hv'

theorem not_harmless_of_fresh (h : s.fresh item.event) : ¬ s.Harmless env item.event := by
  obtain ⟨hop, hb, hc, _, hep, hseq⟩ := h
  rintro (h | h | ⟨_, h | h⟩ | ⟨hop', _⟩)
  · rw [hb] at h; cases h
  · rw [hc] at h; cases h
  · exact h hep
  · omega
  · exact hop hop'

/-- An `ACTIVATE` with a usable token leaves the session alone exactly when it is refused under another epoch. -/
theorem activate_undisturbed (hop : item.event.op = .activate) (hb : s.blocked = false) (hc : s.connected = true)
    (hv : s.validLease item.event.lease env.now s.network.inputTimeout) (hl : s.lastEpoch = s.epoch)
    (hout : s.out = []) :
    s.Harmless env item.event ↔
      (s.activate env item.event).2 = false ∧ s.Undisturbed (s.activate env item.event).1 := by
  have hiff : s.Harmless env item.event ↔
      item.event.epoch ≠ s.epoch ∧ (item.event.epoch = 0 ∨ env.permitted = some false) := by
    simp [Harmless, hb, hc, hop, hv]
  rw [hiff]
  unfold activate
  rw [hl]
  split
  · rename_i h
    simp only [Undisturbed, emit, hout, true_and, List.nil_append, List.mem_singleton, Out.emit.injEq,
      Message.paused.injEq]
    constructor
    · exact fun h' heq => h'.1 heq.symm
    · intro hne
      have hne : item.event.epoch ≠ s.epoch := fun heq => hne heq.symm
      exact ⟨hne, h.imp_right (fun h => h.resolve_left hne)⟩
  rename_i h
  push Not at h
  constructor
  · rintro ⟨hne, h0 | hp⟩
    · exact absurd h0 h.1
    · exact absurd hp h.2.2
  split
  · rintro ⟨hf, _⟩; cases hf
  · rintro ⟨_, hu⟩
    -- the new session has another epoch
    exact absurd hu.1 h.2.1

theorem BodyCase.undisturbed_iff {r : TargetEngine × Bool} (hc : BodyCase env item age s r) (hp : item.parts ≠ [])
    (he : s.epoch ≠ 0) (hl : s.lastEpoch = s.epoch) (hout : s.out = []) :
    s.Harmless env item.event ↔ r.2 = false ∧ s.Undisturbed r.1 := by
  have hframe := hc.frame hp
  cases hc with
  | idle h =>
      refine iff_of_true (.of_ignores h he) ⟨rfl, rfl, rfl, rfl, rfl, rfl, ?_⟩
      simp [hout]
  | stale hb hcon hi hv =>
      refine iff_of_false (not_harmless_of_stale hb hcon hi hv he) ?_
      rintro ⟨_, hu⟩
      exact he (hu.1.symm.trans (rejectStale_frame ..).1)
  | activate hb hcon hop hv => exact activate_undisturbed hop hb hcon hv hl hout
  | probe _ h0 => exact absurd h0 he
  | calibrate _ h0 => exact absurd h0 he
  | input hb hcon hop _ hep hseq =>
      have hfresh : s.fresh item.event := ⟨hop, hb, hcon, he, hep, hseq⟩
      refine iff_of_false (not_harmless_of_fresh hfresh) ?_
      rintro ⟨hr, hu⟩
      cases hframe.1 hr with
      | ignored hold => exact hold hfresh
      | ended h0 => exact he (hu.1.symm.trans h0)
      | activated h => exact hop h.1
      | accepted _ _ _ h =>
          rcases h with h0 | ⟨_, hs, _⟩
          · exact he (hu.1.symm.trans h0)
          · have := hu.2.2.2.1
            omega

/-- Processing a frame leaves the session undisturbed exactly when the frame is harmless. -/
theorem undisturbed_iff_harmless (ops : List EngineOp) (env : Env) (item : Item)
    (hactive : (initial.exec ops).epoch ≠ 0) (hpopped : (initial.exec ops).popped env = some item) :
    (initial.exec ops).Undisturbed ((initial.exec ops).step (.processOne env)) ↔
      (initial.exec ops).Harmless env item.event := by
  obtain ⟨age, rest, hq, hstep⟩ := step_processOne hpopped
  have hp : item.parts ≠ [] := parts_ne_nil ops item (by simp [hq])
  have hl := lastEpoch_eq ops hactive
  rw [hstep]
  rcases processItem_cases env item age
      { initial.exec ops with out := [], queue := { (initial.exec ops).queue with items := rest } } with
    ⟨t, ht, he⟩ | ⟨t, ht, he⟩
  · rw [he]
    exact ((ht.undisturbed_iff hp hactive hl rfl).trans (and_iff_right rfl)).symm
  · rw [he]
    have hnot := (ht.undisturbed_iff hp hactive hl rfl).not.mpr (by simp)
    refine iff_of_false ?_ hnot
    rintro ⟨h0, _⟩
    exact hactive (h0.symm.trans (reset_epoch _ _ _))

/-- A session that holds a key down and has just been renewed. -/
def holdingRun : List EngineOp :=
  [.setConnected { now := 0 } true, .tick { now := 1 } 7,
   .receive { now := 1 } { op := .activate, epoch := 5, seq := 1, lease := 7 }, .processOne { now := 1 },
   .receive { now := 1 } { op := .key, epoch := 5, seq := 2, lease := 7, a := 65, b := 1 }, .processOne { now := 1 },
   .tick { now := 5 / 2 } 8,
   .receive { now := 5 / 2 } { op := .heartbeat, epoch := 5, seq := 3, lease := 8 }, .processOne { now := 5 / 2 }]

/-- `holdingRun` and one of its frames again, when the token of that frame has expired. -/
def repeatRun (event : Event) : List EngineOp := holdingRun ++ [.receive { now := 4 } event]

/-- The frame that pressed the key comes again: nothing happens. -/
theorem undisturbed_iff_harmless_key :
    (initial.exec (repeatRun { op := .key, epoch := 5, seq := 2, lease := 7, a := 65, b := 1 })).Undisturbed
      ((initial.exec (repeatRun { op := .key, epoch := 5, seq := 2, lease := 7, a := 65, b := 1 })).step
        (.processOne { now := 4 })) :=
  (undisturbed_iff_harmless _ { now := 4 }
    ⟨{ op := .key, epoch := 5, seq := 2, lease := 7, a := 65, b := 1 }, 4,
      [{ op := .key, epoch := 5, seq := 2, lease := 7, a := 65, b := 1 }]⟩
    (by decide +kernel) (by decide +kernel)).mpr
    (.inr (.inr (.inl ⟨by decide, .inr (by decide +kernel)⟩)))

/-- The `ACTIVATE` that started the session comes again: the session ends. -/
theorem duplicate_activate_disturbs :
    ¬ ∀ ops env item, (initial.exec ops).epoch ≠ 0 → (initial.exec ops).popped env = some item →
      item.event.op ≠ .reset →
      (acceptedUnder ops (initial.exec ops).epoch item.event ∨
        item.event.epoch ≠ (initial.exec ops).epoch ∧ wasActive ops item.event.epoch) →
      (initial.exec ops).Undisturbed ((initial.exec ops).step (.processOne env)) := by
  intro h
  have hactive : (initial.exec (repeatRun { op := .activate, epoch := 5, seq := 1, lease := 7 })).epoch = 5 := by
    decide +kernel
  have hends : ((initial.exec (repeatRun { op := .activate, epoch := 5, seq := 1, lease := 7 })).step
      (.processOne { now := 4 })).epoch = 0 := by decide +kernel
  have := (h (repeatRun { op := .activate, epoch := 5, seq := 1, lease := 7 }) { now := 4 }
    ⟨{ op := .activate, epoch := 5, seq := 1, lease := 7 }, 4, [{ op := .activate, epoch := 5, seq := 1, lease := 7 }]⟩
    (by rw [hactive]; decide) (by decide +kernel) (by decide) (.inl ?_)).1
  · rw [hends, hactive] at this
    exact absurd this (by decide)
  · refine ⟨holdingRun.take 3, { now := 1 }, _, ⟨{ op := .activate, epoch := 5, seq := 1, lease := 7 }, 1,
      [{ op := .activate, epoch := 5, seq := 1, lease := 7 }]⟩, rfl, by decide +kernel, rfl, ?_, .inl ?_⟩
    · rw [hactive]
    · decide +kernel

/-! ## Every frame is injected at most once -/

/-- The frames that a run delivers, in order. -/
def receivedFrames (ops : List EngineOp) : List Event :=
  ops.filterMap fun
    | .receive _ event => if event.op = .reset then none else some event
    | _ => none

/-- The frames that a run injects, one for each contribution to an injector call. -/
def injectedFrames (s : TargetEngine) (ops : List EngineOp) : List Event :=
  (injected (s.history ops)).flatMap Prod.snd

/-- After `before`, the next operation starts no session whose epoch was active before, and merges no move that repeats
something or is merged into a repetition. -/
def RepeatsNothing (s : TargetEngine) (before : List EngineOp) : EngineOp → Prop
  | .processOne env => ∀ item ∈ (s.exec before).popped env, (s.exec before).activates env item.event →
      ∀ ops ∈ before.inits, (s.exec ops).epoch ≠ item.event.epoch
  | .receive env event =>
      (s.exec before).queue.merges env.now event → Mergeable (receivedFrames before) event
  | _ => True

instance (s : TargetEngine) (before : List EngineOp) : DecidablePred (s.RepeatsNothing before)
  | .processOne _ => inferInstanceAs (Decidable (∀ item ∈ _, _ → ∀ ops ∈ _, _))
  | .receive _ _ => inferInstanceAs (Decidable (_ → _))
  | .tick _ _ | .reset _ _ | .peerChanged _ | .setConnected _ _ => instDecidableTrue

/-- Every operation of a run from `s` repeats nothing. -/
def RepeatFree (s : TargetEngine) (ops : List EngineOp) : Prop :=
  ∀ i, (h : i < ops.length) → s.RepeatsNothing (ops.take i) ops[i]

instance (s : TargetEngine) (ops : List EngineOp) : Decidable (s.RepeatFree ops) :=
  inferInstanceAs (Decidable (∀ i, (h : i < ops.length) → _))

theorem receivedFrames_concat (ops : List EngineOp) (op : EngineOp) :
    receivedFrames (ops ++ [op]) = receivedFrames ops ++ receivedFrames [op] := List.filterMap_append

theorem injectedFrames_concat (s : TargetEngine) (ops : List EngineOp) (op : EngineOp) :
    s.injectedFrames (ops ++ [op]) =
      s.injectedFrames ops ++ (injected ((s.exec ops).step op).out).flatMap Prod.snd := by
  simp [injectedFrames, history_concat]

/-- What the injected frames have to do with the state after a run. -/
structure InjectedOnce (s : TargetEngine) (ops : List EngineOp) : Prop where
  queued : Queued (s.injectedFrames ops) (receivedFrames ops) (s.exec ops).queue
  active : ∀ x ∈ s.injectedFrames ops, ∃ before, before <+: ops ∧ (s.exec before).epoch = x.epoch
  seq : (s.exec ops).epoch ≠ 0 → ∀ x ∈ s.injectedFrames ops, x.epoch = (s.exec ops).epoch → x.seq ≤ (s.exec ops).seq
  once : ((s.injectedFrames ops).map (fun x => (x.epoch, x.seq))).Nodup

theorem prefix_concat_of {s : TargetEngine} {ops : List EngineOp} {op : EngineOp} {e : Nat}
    (h : ∃ before, before <+: ops ∧ (s.exec before).epoch = e) :
    ∃ before, before <+: ops ++ [op] ∧ (s.exec before).epoch = e := by
  obtain ⟨before, hb, he⟩ := h
  exact ⟨before, hb.trans (List.prefix_append _ _), he⟩

/-- An operation that injects nothing keeps the invariant if the session ends, stays or starts anew. -/
theorem InjectedOnce.uninjected {s : TargetEngine} {ops : List EngineOp} {op : EngineOp} (h : s.InjectedOnce ops)
    (hin : injected ((s.exec ops).step op).out = [])
    (hqueued : Queued (s.injectedFrames ops) (receivedFrames (ops ++ [op])) ((s.exec ops).step op).queue)
    (hsession : ((s.exec ops).step op).epoch = 0 ∨
      ((s.exec ops).step op).epoch = (s.exec ops).epoch ∧ ((s.exec ops).step op).seq = (s.exec ops).seq ∨
      ∀ before, before <+: ops → (s.exec before).epoch ≠ ((s.exec ops).step op).epoch) :
    s.InjectedOnce (ops ++ [op]) := by
  have hframes : s.injectedFrames (ops ++ [op]) = s.injectedFrames ops := by simp [injectedFrames_concat, hin]
  have hexec : s.exec (ops ++ [op]) = (s.exec ops).step op := by simp [exec_append]
  constructor
  · rw [hframes, hexec]; exact hqueued
  · rw [hframes]; exact fun x hx => prefix_concat_of (h.active x hx)
  · rw [hframes, hexec]
    intro he x hx hep
    rcases hsession with h0 | ⟨he', hseq⟩ | hnew
    · exact absurd h0 he
    · rw [hseq]
      exact h.seq (he' ▸ he) x hx (hep.trans he')
    · obtain ⟨before, hb, hbe⟩ := h.active x hx
      exact absurd (hbe.trans hep) (hnew before hb)
  · rw [hframes]; exact h.once

theorem InjectedOnce.noFrame {s : TargetEngine} {ops : List EngineOp} {op : EngineOp} (h : s.InjectedOnce ops)
    (hn : { s.exec ops with out := [] }.NoFrame ((s.exec ops).step op))
    (hr : ∀ env event, op = .receive env event → ((s.exec ops).step op).queue.items = []) :
    s.InjectedOnce (ops ++ [op]) := by
  refine h.uninjected hn.calls ?_ (hn.session.imp_right fun hs => .inl ⟨hs.1, hs.2.1⟩)
  have hsub : ∀ x ∈ s.injectedFrames ops, x ∈ receivedFrames (ops ++ [op]) := by
    intro x hx
    rw [receivedFrames_concat]
    exact List.mem_append_left _ (h.queued.subset x hx)
  rcases hn.queue with hq | hq
  · exact .of_nil hsub hq
  · cases op with
    | receive env event => exact .of_nil hsub (hr env event rfl)
    | _ =>
        rw [receivedFrames_concat, hq]
        simpa [receivedFrames] using h.queued

theorem InjectedOnce.received {s : TargetEngine} {ops : List EngineOp} {env : Env} {event : Event}
    (h : s.InjectedOnce ops) (hop : s.RepeatsNothing ops (.receive env event)) (hr : event.op ≠ .reset)
    (hok : ((s.exec ops).queue.put env.now event).ok = true)
    (hq : ((s.exec ops).step (.receive env event)).queue = ((s.exec ops).queue.put env.now event).queue)
    (he : ((s.exec ops).step (.receive env event)).epoch = (s.exec ops).epoch)
    (hseq : ((s.exec ops).step (.receive env event)).seq = (s.exec ops).seq)
    (hin : injected ((s.exec ops).step (.receive env event)).out = []) :
    s.InjectedOnce (ops ++ [.receive env event]) := by
  refine h.uninjected hin ?_ (.inr (.inl ⟨he, hseq⟩))
  have hrec : receivedFrames (ops ++ [.receive env event]) = receivedFrames ops ++ [event] := by
    rw [receivedFrames_concat]; simp [receivedFrames, hr]
  rw [hrec, hq]
  exact h.queued.put env.now hop hok

/-- The frames of an item that the active session accepts have not been injected before. -/
theorem InjectedOnce.extend {s : TargetEngine} {ops : List EngineOp} {op : EngineOp} {item : Item}
    {before : List Event} (h : s.InjectedOnce ops)
    (hqueued : ∀ done : List Event, (∀ x ∈ done, x ∈ before ++ item.parts) →
      Queued done (receivedFrames (ops ++ [op])) ((s.exec ops).step op).queue)
    (hdone : ∀ x ∈ s.injectedFrames ops, x ∈ before) (hsound : item.sound)
    (hrun : item.parts = [item.event] ∨ NewerRun before item.parts) (hepoch : (s.exec ops).epoch ≠ 0)
    (hitem : item.event.epoch = (s.exec ops).epoch) (hlt : (s.exec ops).seq < item.event.seq)
    (hnew : s.injectedFrames (ops ++ [op]) = s.injectedFrames ops ∨
      s.injectedFrames (ops ++ [op]) = s.injectedFrames ops ++ item.parts)
    (hsession : ((s.exec ops).step op).epoch = 0 ∨
      ((s.exec ops).step op).epoch = (s.exec ops).epoch ∧ ((s.exec ops).step op).seq = item.event.seq) :
    s.InjectedOnce (ops ++ [op]) := by
  have hexec : s.exec (ops ++ [op]) = (s.exec ops).step op := by simp [exec_append]
  have hsub : ∀ x ∈ s.injectedFrames (ops ++ [op]), x ∈ s.injectedFrames ops ∨ x ∈ item.parts := by
    intro x hx
    rcases hnew with hn | hn <;> rw [hn] at hx
    · exact .inl hx
    · exact List.mem_append.mp hx
  constructor
  · rw [hexec]
    refine hqueued _ (fun x hx => ?_)
    rcases hsub x hx with hx | hx
    · exact List.mem_append_left _ (hdone x hx)
    · exact List.mem_append_right _ hx
  · intro x hx
    rcases hsub x hx with hx | hx
    · exact prefix_concat_of (h.active x hx)
    · exact ⟨ops, List.prefix_append _ _, by rw [hsound.1 x hx, hitem]⟩
  · rw [hexec]
    intro he x hx hep
    rcases hsession with h0 | ⟨he', hseq⟩
    · exact absurd h0 he
    rw [hseq]
    rcases hsub x hx with hx | hx
    · have := h.seq hepoch x hx (hep.trans he')
      omega
    · exact hsound.le_seq hrun hx
  · rcases hnew with hn | hn
    · rw [hn]; exact h.once
    rw [hn, List.map_append, List.nodup_append]
    refine ⟨h.once, Item.nodup_parts hrun, ?_⟩
    -- an injected frame of this epoch is no newer than the session, and so older than each frame of the item
    rintro _ ha _ hb rfl
    obtain ⟨x, hx, rfl⟩ := List.mem_map.mp ha
    obtain ⟨y, hy, he⟩ := List.mem_map.mp hb
    simp only [Prod.mk.injEq] at he
    have hxe : x.epoch = y.epoch := he.1.symm
    rcases hrun with hone | hrun
    · rw [hone, List.mem_singleton] at hy
      subst hy
      have := h.seq hepoch x hx (hxe.trans hitem)
      omega
    · have := hrun.newer hy x (hdone x hx) hxe
      omega

theorem InjectedOnce.processed {s : TargetEngine} {ops : List EngineOp} {env : Env} {item : Item} {rest : List Item}
    (h : s.InjectedOnce ops) (hop : s.RepeatsNothing ops (.processOne env)) (hp : (s.exec ops).popped env = some item)
    (hq : (s.exec ops).queue.items = item :: rest)
    (hrest : ((s.exec ops).step (.processOne env)).queue.items = rest ∨
      ((s.exec ops).step (.processOne env)).queue.items = [])
    (hf : item.parts ≠ [] → FrameCase env item
      { s.exec ops with out := [], queue := { (s.exec ops).queue with items := rest } }
      ((s.exec ops).step (.processOne env))) : s.InjectedOnce (ops ++ [.processOne env]) := by
  obtain ⟨before, hrec, hw, hdone⟩ := h.queued
  rw [hq] at hrec hw
  obtain ⟨hsound, hrun, hwrest⟩ := hw
  have hrec' : receivedFrames (ops ++ [.processOne env]) = (before ++ item.parts) ++ rest.flatMap Item.parts := by
    rw [receivedFrames_concat, hrec]; simp [receivedFrames]
  have hqueued : ∀ done : List Event, (∀ x ∈ done, x ∈ before ++ item.parts) →
      Queued done (receivedFrames (ops ++ [.processOne env])) ((s.exec ops).step (.processOne env)).queue := by
    intro done hd
    rcases hrest with hr | hr
    · exact ⟨before ++ item.parts, by rw [hrec', hr], by rw [hr]; exact hwrest, hd⟩
    · refine .of_nil (fun x hx => ?_) hr
      rw [hrec']
      exact List.mem_append_left _ (hd x hx)
  have hold := hqueued _ (fun x hx => List.mem_append_left _ (hdone x hx))
  cases hf hsound.parts_ne_nil with
  | ignored _ he _ hseq _ hin => exact h.uninjected hin hold (.inr (.inl ⟨he, hseq⟩))
  | ended he _ hin => exact h.uninjected hin hold (.inl he)
  | activated hact he _ _ _ hin =>
      refine h.uninjected hin hold (.inr (.inr fun pre hpre => ?_))
      rw [he]; exact hop item hp hact pre ((List.mem_inits pre ops).mpr hpre)
  | accepted hfresh _ hin he =>
      have hnew : s.injectedFrames (ops ++ [.processOne env]) = s.injectedFrames ops ∨
          s.injectedFrames (ops ++ [.processOne env]) = s.injectedFrames ops ++ item.parts := by
        rw [injectedFrames_concat, hin]
        cases (held _).inject item.event with
        | mk c held => cases c <;> simp
      have hepoch : (s.exec ops).epoch ≠ 0 := hfresh.2.2.2.1
      have hitem : item.event.epoch = (s.exec ops).epoch := hfresh.2.2.2.2.1
      have hlt : (s.exec ops).seq < item.event.seq := hfresh.2.2.2.2.2
      exact h.extend hqueued hdone hsound hrun hepoch hitem hlt hnew (he.imp_right fun h => ⟨h.1, h.2.1⟩)

theorem InjectedOnce.concat {s : TargetEngine} {ops : List EngineOp} {op : EngineOp} (h : s.InjectedOnce ops)
    (hop : s.RepeatsNothing ops op) : s.InjectedOnce (ops ++ [op]) := by
  cases step_opCase (s.exec ops) op with
  | received env event ho hr hok hq he hseq hin => subst ho; exact h.received hop hr hok hq he hseq hin
  | none hn hr => exact h.noFrame hn hr
  | processed env item rest ho hp hq hrest hf => subst ho; exact h.processed hop hp hq hrest hf

/-- Within one connection, a run that starts no earlier session again and merges no repetition injects each frame at
most once. -/
theorem frames_injected_once (earlier : List EngineOp) (env : Env) (ops : List EngineOp)
    (h : ((initial.exec earlier).step (.setConnected env true)).RepeatFree ops) :
    ((((initial.exec earlier).step (.setConnected env true)).injectedFrames ops).map
      (fun x => (x.epoch, x.seq))).Nodup := by
  generalize hs : (initial.exec earlier).step (.setConnected env true) = s at h
  suffices s.InjectedOnce ops from this.once
  induction ops using List.reverseRecOn with
  | nil =>
      have hempty : s.injectedFrames [] = [] := rfl
      refine ⟨.of_nil (by simp [hempty]) ?_, by simp [hempty], by simp [hempty], by simp [hempty]⟩
      simp [← hs, step, setConnected, InputQueue.clear]
  | append_singleton ops op ih =>
      have hlast := h ops.length (by simp)
      rw [List.take_left', List.getElem_concat_length] at hlast <;> try rfl
      refine (ih fun i hi => ?_).concat hlast
      have := h i (by simp; omega)
      rw [List.take_append_of_le_length hi.le, List.getElem_append_left hi] at this
      exact this

/-- A session that is activated and moves, with frames of its own. -/
def movingRun : List EngineOp :=
  [.tick { now := 1 } 7,
   .receive { now := 1 } { op := .activate, epoch := 5, seq := 1, lease := 7 }, .processOne { now := 1 },
   .receive { now := 1 } { op := .move, epoch := 5, seq := 2, lease := 7, a := 3 },
   .receive { now := 1 } { op := .move, epoch := 5, seq := 3, lease := 7, a := 4 }, .processOne { now := 1 }]

theorem frames_injected_once_moving :
    ((((initial.exec []).step (.setConnected { now := 0 } true)).injectedFrames movingRun).map
      (fun x => (x.epoch, x.seq))).Nodup :=
  frames_injected_once [] { now := 0 } movingRun (by decide +kernel)

/-- The first move comes a second time, right before a new one. -/
def mergedReplay : List EngineOp :=
  [.tick { now := 1 } 7,
   .receive { now := 1 } { op := .activate, epoch := 5, seq := 1, lease := 7 }, .processOne { now := 1 },
   .receive { now := 1 } { op := .move, epoch := 5, seq := 2, lease := 7, a := 3 }, .processOne { now := 1 },
   .receive { now := 1 } { op := .move, epoch := 5, seq := 2, lease := 7, a := 3 },
   .receive { now := 1 } { op := .move, epoch := 5, seq := 3, lease := 7, a := 4 }, .processOne { now := 1 }]

/-- Epoch 5 is activated again, after epoch 6. -/
def sessionReplay : List EngineOp :=
  [.tick { now := 1 } 7,
   .receive { now := 1 } { op := .activate, epoch := 5, seq := 1, lease := 7 }, .processOne { now := 1 },
   .receive { now := 1 } { op := .key, epoch := 5, seq := 2, lease := 7, a := 65, b := 1 }, .processOne { now := 1 },
   .receive { now := 1 } { op := .activate, epoch := 6, seq := 3, lease := 7 }, .processOne { now := 1 },
   .receive { now := 1 } { op := .activate, epoch := 5, seq := 1, lease := 7 }, .processOne { now := 1 },
   .receive { now := 1 } { op := .key, epoch := 5, seq := 2, lease := 7, a := 65, b := 1 }, .processOne { now := 1 }]

/-- Either replay injects the frame `(5, 2)` twice. -/
theorem frames_injected_twice :
    (∃ earlier env, ¬ ((((initial.exec earlier).step (.setConnected env true)).injectedFrames mergedReplay).map
      (fun x => (x.epoch, x.seq))).Nodup) ∧
    (∃ earlier env, ¬ ((((initial.exec earlier).step (.setConnected env true)).injectedFrames sessionReplay).map
      (fun x => (x.epoch, x.seq))).Nodup) :=
  ⟨⟨[], { now := 0 }, by decide +kernel⟩, ⟨[], { now := 0 }, by decide +kernel⟩⟩

end TargetEngine

end RemoteInput
