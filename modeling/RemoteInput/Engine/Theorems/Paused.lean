import RemoteInput.Engine.Lemmas.Frames
import RemoteInput.Engine.Lemmas.Runs

/-!
# Frames that wait behind paused ones
-/

namespace RemoteInput

namespace TargetEngine

variable {env : Env} {head item : Item} {rest : List Item} {age : Time} {s t : TargetEngine} {envs : List Env}

/-- No session, and frames are processed. -/
structure Paused (s : TargetEngine) : Prop where
  epoch : s.epoch = 0
  connected : s.connected = true
  blocked : s.blocked = false

/-- A heartbeat or a probe of the paused mode, or a frame other than `ACTIVATE` of an epoch. -/
def PausedFrame (event : Event) : Prop :=
  event.op ≠ .activate ∧ (event.epoch = 0 → event.op = .heartbeat ∨ event.op = .probe)

instance (event : Event) : Decidable (PausedFrame event) := inferInstanceAs (Decidable (_ ∧ _))

/-- The head of the queue is popped in time, and a frame of the paused mode carries a token within its limit. -/
def Passes (env : Env) (head : Item) (s : TargetEngine) : Prop :=
  s.queue.failed = false ∧ env.popNow - head.entered ≤ s.queue.maxAge ∧
    (head.event.epoch = 0 → s.validLease head.event.lease env.now (s.tokenLimit head.event))

instance (env : Env) (head : Item) (s : TargetEngine) : Decidable (s.Passes env head) :=
  inferInstanceAs (Decidable (_ ∧ _ ∧ (_ → _)))

/-- `process_one` for each of the environments. -/
def processAll (s : TargetEngine) (envs : List Env) : TargetEngine := envs.foldl (fun s env => (s.processOne env).1) s

/-- Paused frames that pass, one after the other. -/
def PassAll : TargetEngine → List Env → List Item → Prop
  | _, [], [] => True
  | s, env :: envs, item :: items => PausedFrame item.event ∧ s.Passes env item ∧ PassAll (s.processOne env).1 envs items
  | _, _, _ => False

/-- Processing the head changes nothing for the frames behind it, and an `ACTIVATE` of a new epoch with a valid token is
processed when its turn comes. -/
structure Spares (env : Env) (rest : List Item) (s : TargetEngine) : Prop where
  items : (s.processOne env).1.queue.items = rest
  epoch : (s.processOne env).1.epoch = s.epoch
  lastEpoch : (s.processOne env).1.lastEpoch = s.lastEpoch
  lastHeartbeat : (s.processOne env).1.lastHeartbeat = s.lastHeartbeat
  keys : (s.processOne env).1.keys = s.keys
  buttons : (s.processOne env).1.buttons = s.buttons
  activates : ∀ frames activation more envs env', rest = frames ++ activation :: more →
    PassAll (s.processOne env).1 envs frames → activation.event.op = .activate → activation.event.epoch ≠ 0 →
    activation.event.epoch ≠ s.lastEpoch → env'.popNow - activation.entered ≤ s.queue.maxAge →
    ((s.processOne env).1.processAll envs).validLease activation.event.lease env'.now
      ((s.processOne env).1.processAll envs).network.inputTimeout → env'.permitted = some true →
    (((s.processOne env).1.processAll envs).processOne env').1.epoch = activation.event.epoch

/-! ## One frame -/

/-- What goes on as before. -/
structure Waits (rest : List Item) (s t : TargetEngine) : Prop where
  paused : t.Paused
  queue : t.queue = { s.queue with items := rest }
  lastEpoch : t.lastEpoch = s.lastEpoch
  lastHeartbeat : t.lastHeartbeat = s.lastHeartbeat
  keys : t.keys = s.keys
  buttons : t.buttons = s.buttons

theorem observeHeartbeat_paused (event : Event) (now : Time) (h : s.Paused) :
    Waits s.queue.items s (s.observeHeartbeat event now) := by
  have hsame : Waits s.queue.items s s := ⟨h, rfl, rfl, rfl, rfl, rfl⟩
  unfold observeHeartbeat
  split
  · exact hsame
  split
  · exact hsame
  · exact ⟨⟨h.epoch, h.connected, h.blocked⟩, rfl, rfl, if_neg (not_not.mpr h.epoch), rfl, rfl⟩

/-- The stages that a paused frame can reach. -/
theorem BodyCase.waits {r : TargetEngine × Bool} (hc : BodyCase env item age s r) (h : s.Paused)
    (hf : PausedFrame item.event)
    (hv : item.event.epoch = 0 → s.validLease item.event.lease env.now (s.tokenLimit item.event)) :
    r.2 = false ∧ Waits s.queue.items s r.1 := by
  have hsame : Waits s.queue.items s s := ⟨h, rfl, rfl, rfl, rfl, rfl⟩
  cases hc with
  | idle => exact ⟨rfl, hsame⟩
  | stale _ _ hi hn =>
      refine absurd (hv ?_) hn
      -- a frame of an epoch is ignored
      by_contra he
      refine hi ⟨hf.1, ?_⟩
      rw [if_neg fun h0 => he h0.2]
      exact .inr (.inl h.epoch)
  | activate _ _ hop => exact absurd hop hf.1
  | probe => exact ⟨rfl, ⟨h.epoch, h.connected, h.blocked⟩, rfl, rfl, rfl, rfl, rfl⟩
  | calibrate => exact ⟨rfl, observeHeartbeat_paused item.event env.now h⟩
  | input _ _ _ he => exact absurd h.epoch he

theorem Paused.popped (h : s.Paused) (rest : List Item) : Paused { s with queue := { s.queue with items := rest } } :=
  ⟨h.epoch, h.connected, h.blocked⟩

theorem processOne_waits (h : s.Paused) (hq : s.queue.items = head :: rest) (hf : PausedFrame head.event)
    (hp : s.Passes env head) : Waits rest s (s.processOne env).1 := by
  obtain ⟨hfail, hage, hv⟩ := hp
  rw [processOne_item hfail hq hage]
  rcases processItem_cases env head (env.popNow - head.entered) { s with queue := { s.queue with items := rest } } with
    ⟨t, hc, he⟩ | ⟨t, hc, _⟩
  · rw [he]
    obtain ⟨_, hw⟩ := hc.waits (h.popped rest) hf hv
    exact ⟨hw.paused, hw.queue, hw.lastEpoch, hw.lastHeartbeat, hw.keys, hw.buttons⟩
  · exact absurd (hc.waits (h.popped rest) hf hv).1 (by simp)

/-! ## Frames one after the other -/

theorem processAll_waits {frames more : List Item} (h : s.Paused) (hq : s.queue.items = frames ++ more)
    (hp : PassAll s envs frames) : Waits more s (s.processAll envs) := by
  induction envs generalizing s frames with
  | nil =>
      cases frames with
      | nil => exact ⟨h, by rw [← show s.queue.items = more from hq]; rfl, rfl, rfl, rfl, rfl⟩
      | cons => exact hp.elim
  | cons env envs ih =>
      cases frames with
      | nil => exact hp.elim
      | cons item frames =>
          obtain ⟨hf, hpass, hrest⟩ := hp
          have hone := processOne_waits h hq hf hpass
          have hall := ih hone.paused (by rw [hone.queue]; rfl) hrest
          exact ⟨hall.paused, by rw [show s.processAll (env :: envs) = (s.processOne env).1.processAll envs from rfl,
            hall.queue, hone.queue], hall.lastEpoch.trans hone.lastEpoch, hall.lastHeartbeat.trans hone.lastHeartbeat,
            hall.keys.trans hone.keys, hall.buttons.trans hone.buttons⟩

/-- An `ACTIVATE` whose turn has come. -/
theorem processOne_activates {activation : Item} {more : List Item} (h : s.Paused) (hq : s.queue.items = activation :: more)
    (hfail : s.queue.failed = false) (hop : activation.event.op = .activate) (h0 : activation.event.epoch ≠ 0)
    (hlast : activation.event.epoch ≠ s.lastEpoch) (hage : env.popNow - activation.entered ≤ s.queue.maxAge)
    (hv : s.validLease activation.event.lease env.now s.network.inputTimeout) (hperm : env.permitted = some true) :
    (s.processOne env).1.epoch = activation.event.epoch := by
  rw [processOne_item hfail hq hage]
  have hactivates : activates env activation.event { s with queue := { s.queue with items := more } } :=
    ⟨hop, h.blocked, h.connected, hv, h0, hlast, hperm⟩
  exact (processItem_activates _ hactivates).1

/-! ## The exact condition -/

/-- A failed queue or a late head is an overload. -/
theorem processOne_overload (hq : s.queue.items = head :: rest)
    (h : s.queue.failed = true ∨ env.popNow - head.entered > s.queue.maxAge) :
    (s.processOne env).1.queue.items = [] := by
  have hpop : (s.queue.pop env.popNow).2 = .overload := by
    unfold InputQueue.pop
    split
    · rfl
    rename_i hfail
    rw [hq]
    dsimp only
    rw [if_pos (h.resolve_left hfail)]
  unfold processOne
  generalize s.queue.pop env.popNow = r at hpop
  obtain ⟨queue, popped⟩ := r
  cases hpop
  show (reset env "Paused: input processing failed" { s with queue := queue }).queue.items = []
  rw [reset_queue]
  rfl

/-- A stale token ends in a reset. -/
theorem processItem_stale (h : s.Paused) (hf : PausedFrame item.event) (he : item.event.epoch = 0)
    (hv : ¬ s.validLease item.event.lease env.now (s.tokenLimit item.event)) :
    (s.processItem env item age).1.queue.items = [] := by
  have hlooked : ¬ s.ignores item.event := by
    intro hi
    have hi := hi.2
    rw [if_pos ⟨hf.2 he, he⟩] at hi
    exact hi h.epoch
  have hbody : s.lockedBody env item age = (s.rejectStale env item.event (s.tokenLimit item.event), false) := by
    unfold lockedBody
    dsimp only
    rw [if_neg (by simp [h.blocked, h.connected]), if_neg hlooked, if_pos hv]
  unfold processItem
  rw [hbody]
  show (s.rejectStale env item.event (s.tokenLimit item.event)).queue.items = []
  unfold rejectStale
  dsimp only
  rw [if_neg hf.1, reset_queue]
  rfl

/-- A head that does not pass clears the queue. -/
theorem processOne_clears (h : s.Paused) (hq : s.queue.items = head :: rest) (hf : PausedFrame head.event)
    (hp : ¬ s.Passes env head) : (s.processOne env).1.queue.items = [] := by
  by_cases hover : s.queue.failed = true ∨ env.popNow - head.entered > s.queue.maxAge
  · exact processOne_overload hq hover
  push Not at hover
  have hfail : s.queue.failed = false := by simpa using hover.1
  -- in time, so it is the token
  have htoken : ¬ (head.event.epoch = 0 → s.validLease head.event.lease env.now (s.tokenLimit head.event)) :=
    fun hv => hp ⟨hfail, hover.2, hv⟩
  rw [Classical.not_imp] at htoken
  rw [processOne_item hfail hq hover.2]
  exact processItem_stale (h.popped rest) hf htoken.1 htoken.2

theorem spares_iff (env : Env) (s : TargetEngine) (head : Item) (rest : List Item) (h : s.Paused)
    (hq : s.queue.items = head :: rest) (hrest : rest ≠ []) (hf : PausedFrame head.event) :
    s.Spares env rest ↔ s.Passes env head := by
  constructor
  · intro hs
    by_contra hp
    exact hrest (hs.items.symm.trans (processOne_clears h hq hf hp))
  · intro hp
    have hone := processOne_waits h hq hf hp
    refine ⟨by rw [hone.queue], hone.paused.epoch.trans h.epoch.symm, hone.lastEpoch, hone.lastHeartbeat, hone.keys,
      hone.buttons, ?_⟩
    intro frames activation more envs env' he hpass hop h0 hlast hage hv hperm
    have hall := processAll_waits hone.paused (by rw [hone.queue]; exact he) hpass
    have hlastEpoch := hall.lastEpoch.trans hone.lastEpoch
    have hitems : ((s.processOne env).1.processAll envs).queue.items = activation :: more := by rw [hall.queue]
    refine processOne_activates hall.paused hitems ?_ hop h0 (hlastEpoch ▸ hlast) ?_ hv hperm
    · rw [hall.queue, hone.queue]; exact hp.1
    · rw [hall.queue, hone.queue]; exact hage

/-- A paused engine has issued the challenge 7; a heartbeat with the token `lease` and an `ACTIVATE` have arrived. -/
def waiting (lease : Nat) : List EngineOp :=
  [.setConnected { now := 0 } true, .tick { now := 0 } 7,
   .receive { now := 1 / 100 } { op := .heartbeat, seq := 1, lease := lease },
   .receive { now := 1 / 100 } { op := .activate, epoch := 5, seq := 2, lease := 7 }]

def waitingHead (lease : Nat) : Item :=
  ⟨{ op := .heartbeat, seq := 1, lease := lease }, 1 / 100, [{ op := .heartbeat, seq := 1, lease := lease }]⟩

def waitingRest : List Item :=
  [⟨{ op := .activate, epoch := 5, seq := 2, lease := 7 }, 1 / 100, [{ op := .activate, epoch := 5, seq := 2, lease := 7 }]⟩]

/-- The heartbeat echoes the challenge. -/
theorem heartbeat_spares : (initial.exec (waiting 7)).Spares { now := 1 / 50 } waitingRest :=
  (spares_iff { now := 1 / 50 } (initial.exec (waiting 7)) (waitingHead 7) waitingRest
    ⟨by decide +kernel, by decide +kernel, by decide +kernel⟩ (by decide +kernel) (by simp [waitingRest]) (by decide)).mpr
    (by decide +kernel)

/-- The heartbeat carries a token of the connection before: its reset drops the `ACTIVATE` behind it. -/
theorem stale_heartbeat_drops_activation :
    (initial.exec (waiting 9)).Paused ∧ (initial.exec (waiting 9)).queue.items = waitingHead 9 :: waitingRest ∧
      PausedFrame (waitingHead 9).event ∧ ¬ (initial.exec (waiting 9)).Spares { now := 1 / 50 } waitingRest := by
  refine ⟨⟨by decide +kernel, by decide +kernel, by decide +kernel⟩, by decide +kernel, by decide, fun h => ?_⟩
  have hdropped : ((initial.exec (waiting 9)).processOne { now := 1 / 50 }).1.queue.items = [] := by decide +kernel
  exact absurd (h.items.symm.trans hdropped) (by simp [waitingRest])

end TargetEngine

end RemoteInput
