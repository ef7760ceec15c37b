import RemoteInput.Engine.Lemmas.Frames

/-!
# Old, duplicate and replayed frames

What one queued item can repeat depends on the frames received before it. The queue's items are the last frames received,
in order, and a merged item is harmless when each of its frames was newer than all of its epoch before it.
-/

namespace RemoteInput

/-! ## Newer frames -/

/-- `event` is newer than every frame of its epoch in `before`. -/
def Newer (before : List Event) (event : Event) : Prop := ∀ x ∈ before, x.epoch = event.epoch → x.seq < event.seq

/-- Each frame of a run is newer than everything before it. -/
def NewerRun : List Event → List Event → Prop
  | _, [] => True
  | before, x :: run => Newer before x ∧ NewerRun (before ++ [x]) run

theorem NewerRun.concat {before run : List Event} {x : Event} (h : NewerRun before run) (hx : Newer (before ++ run) x) :
    NewerRun before (run ++ [x]) := by
  induction run generalizing before with
  | nil => exact ⟨by simpa using hx, trivial⟩
  | cons y run ih => exact ⟨h.1, ih h.2 (by simpa using hx)⟩

theorem NewerRun.newer {before run : List Event} (h : NewerRun before run) {x : Event} (hx : x ∈ run) :
    Newer before x := by
  induction run generalizing before with
  | nil => cases hx
  | cons y run ih =>
      cases hx with
      | head => exact h.1
      | tail _ hx => exact fun z hz => ih h.2 hx z (List.mem_append_left _ hz)

theorem NewerRun.pairwise {before run : List Event} (h : NewerRun before run) :
    run.Pairwise (fun x y => x.epoch = y.epoch → x.seq < y.seq) := by
  induction run generalizing before with
  | nil => exact .nil
  | cons y run ih => exact .cons (fun z hz => h.2.newer hz y (by simp)) (ih h.2)

/-! ## The queue holds the last frames received -/

/-- The item stands for its frames: one epoch, the sequence number of the last one. -/
def Item.sound (it : Item) : Prop :=
  (∀ p ∈ it.parts, p.epoch = it.event.epoch) ∧ ∃ init last, it.parts = init ++ [last] ∧ last.seq = it.event.seq

/-- Each item is a single frame or a merged run of frames that were newer than everything received before them. -/
def WellQueued : List Event → List Item → Prop
  | _, [] => True
  | before, it :: rest =>
      it.sound ∧ (it.parts = [it.event] ∨ NewerRun before it.parts) ∧ WellQueued (before ++ it.parts) rest

/-- Within an item the sequence numbers end at the item's own. -/
theorem Item.sound.le_seq {it : Item} (h : it.sound) {before : List Event}
    (hrun : it.parts = [it.event] ∨ NewerRun before it.parts) {x : Event} (hx : x ∈ it.parts) :
    x.seq ≤ it.event.seq := by
  rcases hrun with hone | hrun
  · rw [hone, List.mem_singleton] at hx
    rw [hx]
  · obtain ⟨hep, init, last, hparts, hlast⟩ := h
    have hpw := hrun.pairwise
    rw [hparts, List.pairwise_append] at hpw
    rw [hparts, List.mem_append, List.mem_singleton] at hx
    rcases hx with hx | rfl
    · have he : x.epoch = last.epoch := (hep x (by simp [hparts, hx])).trans (hep last (by simp [hparts])).symm
      have := hpw.2.2 x hx last (by simp) he
      omega
    · omega

/-- The frames of one item carry different sequence numbers. -/
theorem Item.nodup_parts {it : Item} {before : List Event}
    (hrun : it.parts = [it.event] ∨ NewerRun before it.parts) :
    (it.parts.map (fun x => (x.epoch, x.seq))).Nodup := by
  rcases hrun with hone | hrun
  · simp [hone]
  · rw [List.Nodup, List.pairwise_map]
    refine hrun.pairwise.imp ?_
    intro x y hxy heq
    obtain ⟨he, hs⟩ := Prod.mk.injEq _ _ _ _ ▸ heq
    exact absurd hs (hxy he).ne

theorem wellQueued_concat {before : List Event} {items : List Item} {it : Item} :
    WellQueued before (items ++ [it]) ↔ WellQueued before items ∧ it.sound ∧
      (it.parts = [it.event] ∨ NewerRun (before ++ items.flatMap Item.parts) it.parts) := by
  induction items generalizing before with
  | nil => simp [WellQueued]
  | cons x items ih => simp [WellQueued, ih, and_assoc]

theorem Item.sound.parts_ne_nil {it : Item} (h : it.sound) : it.parts ≠ [] := by
  obtain ⟨init, last, he, _⟩ := h.2
  simp [he]

theorem Item.sound.absorb {it : Item} (h : it.sound) {event : Event} (hc : it.event.coalesces event) :
    (it.absorb event).sound := by
  refine ⟨?_, it.parts, event, rfl, rfl⟩
  intro p hp
  rcases List.mem_append.mp hp with hp | hp
  · exact (h.1 p hp).trans hc.2.2
  · rw [List.mem_singleton.mp hp]; rfl

/-- The queue holds the last frames of `received`; those of `done` have left it. -/
def Queued (done received : List Event) (q : InputQueue) : Prop :=
  ∃ before, received = before ++ q.items.flatMap Item.parts ∧ WellQueued before q.items ∧ ∀ x ∈ done, x ∈ before

theorem Queued.of_nil {done received : List Event} {q : InputQueue} (hd : ∀ x ∈ done, x ∈ received)
    (h : q.items = []) : Queued done received q :=
  ⟨received, by simp [h], by simp [h, WellQueued], hd⟩

theorem Queued.subset {done received : List Event} {q : InputQueue} (h : Queued done received q) :
    ∀ x ∈ done, x ∈ received := by
  obtain ⟨before, rfl, _, hd⟩ := h
  exact fun x hx => List.mem_append_left _ (hd x hx)

/-- A move may be merged when it and the frame before it repeat nothing. -/
def Mergeable (received : List Event) (event : Event) : Prop :=
  Newer received event ∧ ∀ last ∈ received.getLast?, Newer received.dropLast last

instance (before : List Event) (event : Event) : Decidable (Newer before event) :=
  inferInstanceAs (Decidable (∀ x ∈ before, x.epoch = event.epoch → x.seq < event.seq))

instance (received : List Event) (event : Event) : Decidable (Mergeable received event) :=
  inferInstanceAs (Decidable (_ ∧ _))

theorem Queued.put {done received : List Event} {q : InputQueue} (h : Queued done received q) (now : Time)
    {event : Event} (hm : q.merges now event → Mergeable received event) (hok : (q.put now event).ok = true) :
    Queued done (received ++ [event]) (q.put now event).queue := by
  obtain ⟨before, hr, hw, hd⟩ := h
  have hc := q.put_cases now event
  rw [hok] at hc
  generalize (q.put now event).queue = q' at hc
  cases hc with
  | merged init last hmerge hq hco =>
      obtain ⟨hnew, hlast⟩ := hm hmerge
      rw [hq, wellQueued_concat] at hw
      obtain ⟨hinit, hsound, hrun⟩ := hw
      have hr' : received = (before ++ init.flatMap Item.parts) ++ last.parts := by simp [hr, hq]
      refine ⟨before, by simp [hr', Item.absorb], ?_, hd⟩
      rw [wellQueued_concat]
      refine ⟨hinit, hsound.absorb hco, .inr ?_⟩
      -- a single frame at the tail was the last one received
      have hlastRun : NewerRun (before ++ init.flatMap Item.parts) last.parts := by
        rcases hrun with hone | hrun
        · rw [hone] at hr' ⊢
          rw [hr'] at hlast
          exact ⟨by simpa using hlast, trivial⟩
        · exact hrun
      exact hlastRun.concat (hr' ▸ hnew)
  | appended _ _ _ =>
      refine ⟨before, by simp [hr], ?_, hd⟩
      rw [wellQueued_concat]
      exact ⟨hw, ⟨by simp, [], event, rfl, rfl⟩, .inl rfl⟩

namespace TargetEngine

variable {env : Env} {item : Item} {s t : TargetEngine}

/-! ## Operations that process no frame -/

/-- From `s` to `t` no frame was processed; the session ended or stayed as it was. -/
structure NoFrame (s t : TargetEngine) : Prop where
  calls : injected t.out = injected s.out
  session : t.epoch = 0 ∨ t.epoch = s.epoch ∧ t.seq = s.seq ∧ t.held = s.held
  queue : t.queue.items = [] ∨ t.queue = s.queue

theorem NoFrame.reset (h : s.NoFrame t) (env : Env) (reason : String) : s.NoFrame (t.reset env reason) :=
  ⟨by simpa using h.calls, .inl (by simp), .inl (by simp [InputQueue.clear])⟩

theorem noFrame_tick (env : Env) (bits : Nat) (s : TargetEngine) : s.NoFrame (s.tick env bits).1 := by
  simp only [tick]
  refine checkPermission_induction (P := s.NoFrame) (fun _ reason h => h.reset env reason) ?_
  refine heartbeatExpired_induction (P := s.NoFrame) (fun _ reason h => h.reset env reason) ?_
  unfold issueChallenge
  split
  · exact ⟨by simp [pruneLeases], .inr ⟨rfl, rfl, rfl⟩, .inr rfl⟩
  · exact ⟨rfl, .inr ⟨rfl, rfl, rfl⟩, .inr rfl⟩

/-- What one operation does with frames, from `s` to `t`. -/
inductive OpCase (s : TargetEngine) (op : EngineOp) (t : TargetEngine) : Prop where
  | received (env : Env) (event : Event) (hop : op = .receive env event) (hr : event.op ≠ .reset)
      (hok : (s.queue.put env.now event).ok = true) (hq : t.queue = (s.queue.put env.now event).queue)
      (he : t.epoch = s.epoch) (hseq : t.seq = s.seq) (hin : injected t.out = []) (hheld : t.held = s.held)
  | processed (env : Env) (item : Item) (rest : List Item) (hop : op = .processOne env)
      (hp : s.popped env = some item) (hq : s.queue.items = item :: rest)
      (hrest : t.queue.items = rest ∨ t.queue.items = [])
      (h : item.parts ≠ [] → FrameCase env item { s with out := [], queue := { s.queue with items := rest } } t)
  | none (h : { s with out := [] }.NoFrame t) (hr : ∀ env event, op = .receive env event → t.queue.items = [])

theorem popped_cases (h : s.popped env = some item) :
    ∃ queue age rest, s.queue.pop env.popNow = (queue, .item item age) ∧ s.queue.items = item :: rest ∧
      queue = { s.queue with items := rest } := by
  unfold popped at h
  have hc := s.queue.pop_cases env.popNow
  generalize s.queue.pop env.popNow = r at hc h
  cases hc with
  | failed => cases h
  | empty => cases h
  | expired => cases h
  | item it rest _ hq => cases h; exact ⟨_, _, rest, rfl, hq, rfl⟩

theorem step_opCase (s : TargetEngine) (op : EngineOp) : OpCase s op (s.step op) := by
  have h0 : ({ s with out := [] } : TargetEngine).NoFrame { s with out := [] } := ⟨rfl, .inr ⟨rfl, rfl, rfl⟩, .inr rfl⟩
  cases op with
  | receive env event =>
      simp only [step, receive]
      split
      · exact .none (h0.reset _ _) (fun _ _ _ => by simp [InputQueue.clear])
      rename_i hr
      split
      · rename_i hok; exact .received env event rfl hr hok rfl rfl rfl rfl rfl
      · exact .none ⟨by simp, .inl (by simp), .inl (by simp [InputQueue.clear])⟩
          (fun _ _ _ => by simp [InputQueue.clear])
  | processOne env =>
      simp only [step]
      have hc := processOne_cases env { s with out := [] }
      generalize ({ s with out := [] } : TargetEngine).processOne env = r at hc
      cases hc with
      | overload => exact .none ⟨by simp, .inl (by simp), .inl (by simp [InputQueue.clear])⟩ (by simp)
      | empty => exact .none h0 (by simp)
      | item queue item age h =>
          obtain ⟨queue', age', rest, hpop, hq, hqueue⟩ := popped_cases (popped_eq (s := s) h)
          obtain rfl : queue = _ := (congrArg Prod.fst (h.symm.trans hpop)).trans hqueue
          refine .processed env item rest rfl (popped_eq h) hq ?_ (fun hp => ?_)
          · rcases (keeps_processItem ..).queue with hk | hk
            · exact .inl (by rw [hk])
            · exact .inr (by rw [hk]; rfl)
          · exact processItem_frame env item age _ hp
  | tick env bits => exact .none (noFrame_tick env bits _) (by simp)
  | reset env reason => exact .none (h0.reset _ _) (by simp)
  | peerChanged env =>
      exact .none ⟨by simp [step, peerChanged], .inl (by simp [step, peerChanged]),
        .inl (by simp [step, peerChanged, InputQueue.clear])⟩ (by simp)
  | setConnected env value =>
      exact .none ⟨by simp [step, setConnected], .inl (by simp [step, setConnected]),
        .inl (by simp [step, setConnected, InputQueue.clear])⟩ (by simp)

/-- Every queued item stands for a received frame. -/
theorem parts_ne_nil (ops : List EngineOp) : ∀ it ∈ (initial.exec ops).queue.items, it.parts ≠ [] := by
  refine exec_induction (P := fun s => ∀ it ∈ s.queue.items, it.parts ≠ []) ?_ (by simp [initial]) ops
  intro s op h
  cases step_opCase s op with
  | received env event _ _ hok hq =>
      rw [hq]
      have hc := s.queue.put_cases env.now event
      rw [hok] at hc
      generalize (s.queue.put env.now event).queue = q at hc
      cases hc with
      | merged init last _ hitems _ =>
          intro it hit
          rcases List.mem_append.mp hit with hit | hit
          · exact h it (by rw [hitems]; exact List.mem_append_left _ hit)
          · rw [List.mem_singleton.mp hit]; simp [Item.absorb]
      | appended =>
          intro it hit
          rcases List.mem_append.mp hit with hit | hit
          · exact h it hit
          · rw [List.mem_singleton.mp hit]; simp
  | processed env item rest _ _ hq hrest =>
      rcases hrest with hr | hr
      · rw [hr]; exact fun it hit => h it (by rw [hq]; exact List.mem_cons_of_mem _ hit)
      · rw [hr]; simp
  | none hn _ =>
      rcases hn.queue with hq | hq
      · rw [hq]; simp
      · rw [hq]; exact h

theorem step_processOne {env : Env} {item : Item} (h : s.popped env = some item) :
    ∃ age rest, s.queue.items = item :: rest ∧ s.step (.processOne env) =
      ({ s with out := [], queue := { s.queue with items := rest } }.processItem env item age).1 := by
  obtain ⟨queue, age, rest, hpop, hq, rfl⟩ := popped_cases h
  exact ⟨age, rest, hq, by simp only [step, processOne]; rw [hpop]⟩

end TargetEngine

end RemoteInput
