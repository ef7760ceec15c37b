import RemoteInput.Engine.Lemmas.Blind
import RemoteInput.Engine.Lemmas.Runs
import RemoteInput.Engine.Plain

/-!
# What becomes of moves
-/

namespace RemoteInput

/-! ## Traces -/

namespace Trace

variable {t : Trace} {l l' : List Out}

@[simp] theorem adds_nil (t : Trace) : t.adds [] = t := rfl

@[simp] theorem adds_append (t : Trace) (l l' : List Out) : t.adds (l ++ l') = (t.adds l).adds l' := List.foldl_append

@[simp] theorem adds_cons (t : Trace) (x : Out) (l : List Out) : t.adds (x :: l) = (t.add x).adds l := rfl

@[simp] theorem add_emit (t : Trace) (m : Message) : t.add (.emit m) = t := rfl

@[simp] theorem add_status (t : Trace) (reason : String) : t.add (.status reason) = t := rfl

def move (d : Int × Int) (t : Trace) : Trace := { t with moved := t.moved + d }

@[simp] theorem add_move (t : Trace) (dx dy : Int) (o : Outcome) (parts : List Event) :
    t.add (.call (.move dx dy) o parts) = t.move (dx, dy) := rfl

theorem move_zero (t : Trace) : t.move 0 = t := by rw [move, add_zero]

theorem move_move (t : Trace) (d e : Int × Int) : (t.move d).move e = t.move (d + e) := by
  simp only [move, add_assoc]

end Trace

namespace TargetEngine

variable {env : Env} {item : Item} {age : Time} {s : TargetEngine} {q : InputQueue}

/-- The engine without its queue and its effects. -/
def core (s : TargetEngine) : TargetEngine := { s with queue := {}, out := [] }

theorem reset_core (reason reason' : String) (q : InputQueue) :
    ((s.withQueue q).reset env reason).core = (s.reset env reason').core := by
  rw [reset_withQueue]
  unfold reset
  split <;> rfl

theorem reset_adds (reason reason' : String) (q : InputQueue) (t : Trace) :
    t.adds ((s.withQueue q).reset env reason).out = t.adds (s.reset env reason').out := by
  rw [reset_withQueue]
  unfold reset
  split
  · simp [withQueue, emit, status]
  · rfl

/-! ## One move -/

/-- The frame belongs to the session. -/
structure Joins (s : TargetEngine) (event : Event) : Prop where
  blocked : s.blocked = false
  connected : s.connected = true
  active : s.epoch ≠ 0
  epoch : event.epoch = s.epoch

/-- The token of an input frame is valid. -/
def ValidInput (env : Env) (s : TargetEngine) (event : Event) : Prop :=
  s.validLease event.lease env.now s.network.inputTimeout

instance (env : Env) (s : TargetEngine) (event : Event) : Decidable (s.ValidInput env event) :=
  inferInstanceAs (Decidable (s.validLease _ _ _))

theorem ignores_move (hop : item.event.op = .move) :
    s.ignores item.event ↔ item.event.epoch ≠ s.epoch ∨ s.epoch = 0 ∨ item.event.seq ≤ s.seq := by
  simp [ignores, hop]

theorem tokenLimit_move (hop : item.event.op = .move) : s.tokenLimit item.event = s.network.inputTimeout := by
  simp [tokenLimit, hop]

/-- A move that is old, or of another session, is ignored. -/
theorem processItem_ignored (hop : item.event.op = .move) (h : ¬ s.Joins item.event ∨ item.event.seq ≤ s.seq) :
    s.processItem env item age = (s, true) := by
  have hbody : s.lockedBody env item age = (s, false) := by
    unfold lockedBody
    by_cases hb : s.blocked = true ∨ ¬ s.connected = true
    · exact if_pos hb
    · refine (if_neg hb).trans (if_pos ((ignores_move hop).mpr ?_))
      push Not at hb
      rcases h with h | h
      · by_contra hno
        push Not at hno
        exact h ⟨by simpa using hb.1, hb.2, hno.2.1, hno.1⟩
      · exact .inr (.inr h)
  rw [processItem, hbody]

theorem lockedBody_move (hop : item.event.op = .move) (hj : s.Joins item.event) (hseq : s.seq < item.event.seq) :
    s.lockedBody env item age =
      if ¬ s.ValidInput env item.event then (s.rejectStale env item.event s.network.inputTimeout, false)
      else s.inputFrame env item age := by
  have hpass : ¬ (item.event.epoch ≠ s.epoch ∨ s.epoch = 0 ∨ item.event.seq ≤ s.seq) := by
    push Not
    exact ⟨hj.epoch, hj.active, hseq⟩
  unfold lockedBody
  simp only [hj.blocked, hj.connected, ignores_move hop, hpass, tokenLimit_move hop, hop, ValidInput, not_true_eq_false,
    Bool.false_eq_true, or_self, if_false, reduceCtorEq, false_and]
  rfl

/-- A new move with a token that is not valid ends the session. -/
theorem processItem_rejected (hop : item.event.op = .move) (hj : s.Joins item.event) (hseq : s.seq < item.event.seq)
    (hv : ¬ s.ValidInput env item.event) :
    s.processItem env item age = (s.reset env (s.staleReason item.event env.now s.network.inputTimeout), true) := by
  rw [processItem, lockedBody_move hop hj hseq, if_pos hv]
  simp [rejectStale, hop]

/-- A new move ends a session that has been silent. -/
theorem processItem_silent (age : Time) (hop : item.event.op = .move) (hj : s.Joins item.event)
    (hseq : s.seq < item.event.seq) (hv : s.ValidInput env item.event) (hs : s.silent env.now) :
    ∃ reason, s.processItem env item age = ((s.withSeq item.event.seq).reset env reason, true) := by
  have hs' : (s.withSeq item.event.seq).silent env.now := hs
  rw [processItem, lockedBody_move hop hj hseq, if_neg (not_not.mpr hv), inputFrame, if_pos hs',
    heartbeatExpired, if_pos hs']
  exact ⟨_, rfl⟩

/-- Any other new move is injected. -/
theorem processItem_moved (age : Time) (hop : item.event.op = .move) (hj : s.Joins item.event)
    (hseq : s.seq < item.event.seq)
    (hv : s.ValidInput env item.event) (hs : ¬ s.silent env.now) (hdur : env.durationUs = 0)
    (hdone : env.perform s.out (.move item.event.a item.event.b) = .done) :
    ∃ acks : List Out, (∀ t : Trace, t.adds acks = t) ∧ s.processItem env item age =
      ({ s with seq := item.event.seq,
                out := s.out ++ [.call (.move item.event.a item.event.b) .done item.parts] ++ acks }, true) := by
  have hs' : ¬ (s.withSeq item.event.seq).silent env.now := hs
  have hinject : (s.withSeq item.event.seq).injectEvent env item =
      .ok ((s.withSeq item.event.seq).called (.move item.event.a item.event.b) .done item) := by
    have hcall : (s.withSeq item.event.seq).inject env (.move item.event.a item.event.b) item =
        ((s.withSeq item.event.seq).called (.move item.event.a item.event.b) .done item, .done) := by
      unfold inject
      dsimp only [withSeq]
      rw [hdone]
      rfl
    unfold injectEvent
    dsimp only
    rw [hop]
    dsimp only
    rw [injectRelative, hcall]
    rfl
  have hstall : ¬ (0 : ℚ) > 100000 := by norm_num
  rw [processItem, lockedBody_move hop hj hseq, if_neg (not_not.mpr hv), inputFrame, if_neg hs',
    if_neg (by rw [hop]; decide), hinject]
  dsimp only
  unfold acknowledge
  rw [hdur, if_neg hstall]
  dsimp only
  split
  · exact ⟨[.emit _], fun _ => rfl, rfl⟩
  · exact ⟨[], fun _ => rfl, by rw [List.append_nil]; rfl⟩

/-! ## Moves one after the other -/

/-- The frames that are newer than `n` and than every frame before them. -/
def records : Nat → List Event → List Event
  | _, [] => []
  | n, event :: events => (if n < event.seq then [event] else []) ++ records (max n event.seq) events

/-- The newest of `n` and the frames. -/
def newest (n : Nat) (events : List Event) : Nat := events.foldl (fun n event => max n event.seq) n

def total (events : List Event) : Int × Int := ((events.map Event.a).sum, (events.map Event.b).sum)

theorem records_nil {n : Nat} {events : List Event} (h : records n events = []) : ∀ event ∈ events, event.seq ≤ n := by
  induction events generalizing n with
  | nil => simp
  | cons e events ih =>
      obtain ⟨hhead, htail⟩ := List.append_eq_nil_iff.mp h
      have hle : e.seq ≤ n := by
        by_contra hlt
        rw [if_pos (not_le.mp hlt)] at hhead
        cases hhead
      rw [max_eq_left hle] at htail
      intro event hmem
      rcases List.mem_cons.mp hmem with rfl | hmem
      · exact hle
      · exact ih htail event hmem

theorem records_cons {n : Nat} {events : List Event} {first : Event} {more : List Event}
    (h : records n events = first :: more) :
    ∃ before after, events = before ++ first :: after ∧ (∀ event ∈ before, event.seq ≤ n) ∧ n < first.seq := by
  induction events generalizing n with
  | nil => cases h
  | cons e events ih =>
      by_cases hlt : n < e.seq
      · rw [records, if_pos hlt] at h
        cases h
        exact ⟨[], events, rfl, by simp, hlt⟩
      · have hle : e.seq ≤ n := not_lt.mp hlt
        rw [records, if_neg hlt, List.nil_append, max_eq_left hle] at h
        obtain ⟨before, after, rfl, hbefore, hfirst⟩ := ih h
        refine ⟨e :: before, after, rfl, fun event hmem => ?_, hfirst⟩
        rcases List.mem_cons.mp hmem with rfl | hmem
        · exact hle
        · exact hbefore event hmem

theorem le_newest (n : Nat) (events : List Event) : n ≤ newest n events := by
  induction events generalizing n with
  | nil => exact le_rfl
  | cons e events ih => exact (le_max_left _ _).trans (ih _)

theorem seq_le_newest {n : Nat} {events : List Event} {event : Event} (h : event ∈ events) :
    event.seq ≤ newest n events := by
  induction events generalizing n with
  | nil => cases h
  | cons e events ih =>
      rcases List.mem_cons.mp h with rfl | h
      · exact (le_max_right _ _).trans (le_newest _ events)
      · exact ih h

theorem newest_le {n top : Nat} {events : List Event} (hn : n ≤ top) (h : ∀ event ∈ events, event.seq ≤ top) :
    newest n events ≤ top := by
  induction events generalizing n with
  | nil => exact hn
  | cons e events ih =>
      exact ih (max_le hn (h e List.mem_cons_self)) fun event he => h event (List.mem_cons_of_mem _ he)

/-- What a run leaves, and what it adds to a trace. -/
structure Leaves (s : TargetEngine) (ops : List EngineOp) (c : TargetEngine) (q : InputQueue) (change : Trace → Trace) :
    Prop where
  core : (s.exec ops).core = c
  queue : (s.exec ops).queue = q
  trace : ∀ t : Trace, t.adds (s.history ops) = change t

theorem Leaves.append {ops ops' : List EngineOp} {c c' : TargetEngine} {q' : InputQueue} {f g change : Trace → Trace}
    (h : Leaves s ops c q f) (h' : ∀ t, t.core = c → t.queue = q → Leaves t ops' c' q' g)
    (hchange : ∀ t, g (f t) = change t) :
    Leaves s (ops ++ ops') c' q' change := by
  have hrun := h' (s.exec ops) h.core h.queue
  constructor
  · rw [exec_append]; exact hrun.core
  · rw [exec_append]; exact hrun.queue
  · intro t
    rw [history_append, Trace.adds_append, h.trace, hrun.trace, hchange]

theorem Leaves.one {op : EngineOp} {t : TargetEngine} (h : s.step op = t) : Leaves s [op] t.core t.queue (·.adds t.out) := by
  subst h
  exact ⟨rfl, rfl, fun t => by rw [history, history, List.append_nil]⟩

/-- The head is popped in time and processed. -/
theorem step_popped {more : List Item} (hf : s.queue.failed = false) (hq : s.queue.items = item :: more)
    (hage : env.popNow - item.entered ≤ s.queue.maxAge) :
    s.step (.processOne env) =
      (processItem env item (env.popNow - item.entered) (s.core.withQueue { s.queue with items := more })).1 :=
  congrArg Prod.fst (processOne_item (s := { s with out := [] }) hf hq hage)

theorem leaves_empty (env : Env) (hf : s.queue.failed = false) (hq : s.queue.items = []) (n : Nat) :
    Leaves s (List.replicate n (.processOne env)) s.core s.queue id := by
  induction n generalizing s with
  | zero => exact ⟨rfl, rfl, fun _ => rfl⟩
  | succ n ih =>
      have hstep : s.step (.processOne env) = s.core.withQueue s.queue := by
        have hpop : s.queue.pop env.popNow = (s.queue, .empty) := by
          unfold InputQueue.pop
          rw [if_neg (by simp [hf]), hq]
        unfold step
        dsimp only
        unfold processOne
        rw [hpop]
        rfl
      refine (Leaves.one hstep).append (fun t hc ht => ?_) fun _ => rfl
      have hrun := ih (s := t) (by rw [ht]; exact hf) (by rw [ht]; exact hq)
      rw [hc, ht] at hrun
      exact hrun

/-- Engines that differ in the queue, the effects and the sequence number have the same session. -/
theorem joins_of_core {t : TargetEngine} {n : Nat} (h : t.core = s.core.withSeq n) (event : Event) :
    t.Joins event ↔ s.Joins event := by
  have hiff : ∀ u : TargetEngine, u.Joins event ↔
      u.core.blocked = false ∧ u.core.connected = true ∧ u.core.epoch ≠ 0 ∧ event.epoch = u.core.epoch :=
    fun u => ⟨fun hj => ⟨hj.blocked, hj.connected, hj.active, hj.epoch⟩, fun hj => ⟨hj.1, hj.2.1, hj.2.2.1, hj.2.2.2⟩⟩
  rw [hiff t, hiff s, h]
  rfl

theorem validInput_of_core {t : TargetEngine} {n : Nat} (h : t.core = s.core.withSeq n) (event : Event) :
    t.ValidInput env event ↔ s.ValidInput env event := by
  change t.core.ValidInput env event ↔ _
  rw [h]
  rfl

theorem silent_of_core {t : TargetEngine} {n : Nat} (h : t.core = s.core.withSeq n) (now : Time) :
    t.silent now ↔ s.silent now := by
  change t.core.silent now ↔ _
  rw [h]
  rfl

theorem seq_of_core {t : TargetEngine} {n : Nat} (h : t.core = s.core.withSeq n) : t.seq = n := by
  change t.core.seq = n
  rw [h]
  rfl

/-- The queue begins with moves that are popped in time. -/
structure Heads (env : Env) (s : TargetEngine) (items more : List Item) : Prop where
  failed : s.queue.failed = false
  queue : s.queue.items = items ++ more
  age : ∀ item ∈ items, env.popNow - item.entered ≤ s.queue.maxAge
  moves : ∀ item ∈ items, item.event.op = .move

theorem Heads.tail {items more : List Item} {t : TargetEngine} (h : Heads env s (item :: items) more)
    (ht : t.queue = { s.queue with items := items ++ more }) : Heads env t items more := by
  constructor
  · rw [ht]; exact h.failed
  · rw [ht]
  · rw [ht]; exact fun x hx => h.age x (List.mem_cons_of_mem _ hx)
  · exact fun x hx => h.moves x (List.mem_cons_of_mem _ hx)

theorem Heads.step {items more : List Item} (h : Heads env s (item :: items) more) :
    s.step (.processOne env) =
      (processItem env item (env.popNow - item.entered) (s.core.withQueue { s.queue with items := items ++ more })).1 :=
  step_popped h.failed h.queue (h.age item List.mem_cons_self)

/-- Moves that are old, or of another session, come to nothing. -/
theorem leaves_ignored {items more : List Item} (h : Heads env s items more)
    (hold : ∀ x ∈ items, ¬ s.Joins x.event ∨ x.event.seq ≤ s.seq) :
    Leaves s (List.replicate items.length (.processOne env)) s.core { s.queue with items := more } id := by
  induction items generalizing s with
  | nil =>
      have hmore : s.queue.items = more := h.queue
      refine ⟨rfl, ?_, fun _ => rfl⟩
      rw [← hmore]
      rfl
  | cons x items ih =>
      have hx : ¬ (s.core.withQueue { s.queue with items := items ++ more }).Joins x.event ∨ x.event.seq ≤ s.seq :=
        (hold x List.mem_cons_self).imp_left fun hno hj => hno ⟨hj.blocked, hj.connected, hj.active, hj.epoch⟩
      have hstep := h.step
      rw [processItem_ignored (h.moves x List.mem_cons_self) hx] at hstep
      refine (Leaves.one hstep).append (fun t hc hq => ?_) fun _ => rfl
      have hcore : t.core = s.core.withSeq s.seq := hc
      have hrun := ih (h.tail hq) fun y hy => by
        rw [joins_of_core hcore, seq_of_core hcore]
        exact hold y (List.mem_cons_of_mem _ hy)
      rw [hc, hq] at hrun
      exact hrun

/-- In a session that goes on, the new moves are injected. -/
theorem leaves_moved {items more : List Item} (h : Heads env s items more) (hj : ∀ x ∈ items, s.Joins x.event)
    (hs : ¬ s.silent env.now) (hdur : env.durationUs = 0)
    (hnew : ∀ event ∈ records s.seq (items.map Item.event),
      s.ValidInput env event ∧ env.perform [] (.move event.a event.b) = .done) :
    Leaves s (List.replicate items.length (.processOne env)) (s.core.withSeq (newest s.seq (items.map Item.event)))
      { s.queue with items := more }
      (Trace.move (total (records s.seq (items.map Item.event)))) := by
  induction items generalizing s with
  | nil =>
      have hmore : s.queue.items = more := h.queue
      refine ⟨rfl, ?_, fun t => ?_⟩
      · rw [← hmore]
        rfl
      · exact (Trace.move_zero t).symm
  | cons x items ih =>
      have hjoin := hj x List.mem_cons_self
      have hstep := h.step
      rw [List.map_cons] at hnew ⊢
      by_cases hlt : s.seq < x.event.seq
      · obtain ⟨hv, hdone⟩ := hnew x.event (by simp [records, hlt])
        obtain ⟨acks, hacks, hmoved⟩ := processItem_moved (s := s.core.withQueue { s.queue with items := items ++ more })
          (env.popNow - x.entered) (h.moves x List.mem_cons_self)
          ⟨hjoin.blocked, hjoin.connected, hjoin.active, hjoin.epoch⟩ hlt hv hs hdur hdone
        rw [hmoved] at hstep
        have hone : Leaves s [.processOne env] (s.core.withSeq x.event.seq) { s.queue with items := items ++ more }
            (Trace.move (x.event.a, x.event.b)) := by
          refine ⟨?_, ?_, fun t => ?_⟩
          · rw [exec_cons, hstep]; rfl
          · rw [exec_cons, hstep]; rfl
          · rw [history, hstep]
            simp [history, core, withQueue, hacks]
        have hmax : max s.seq x.event.seq = x.event.seq := max_eq_right hlt.le
        have hrecords : records s.seq (x.event :: items.map Item.event) =
            x.event :: records x.event.seq (items.map Item.event) := by
          rw [records, if_pos hlt, hmax]
          rfl
        rw [hrecords] at hnew
        refine hone.append (g := Trace.move (total (records x.event.seq (items.map Item.event))))
          (fun t hc hq => ?_) fun t => ?_
        · have hrun := ih (s := t) (h.tail hq) (fun y hy => (joins_of_core hc _).mpr (hj y (List.mem_cons_of_mem _ hy)))
            (mt (silent_of_core hc _).mp hs) fun event he => by
              rw [seq_of_core hc] at he
              exact (hnew event (List.mem_cons_of_mem _ he)).imp_left (validInput_of_core hc _).mpr
          rw [hc, hq, seq_of_core hc] at hrun
          rw [newest, List.foldl_cons, hmax]
          exact hrun
        · rw [hrecords]
          exact Trace.move_move ..
      · have hle : x.event.seq ≤ s.seq := not_lt.mp hlt
        have hmax : max s.seq x.event.seq = s.seq := max_eq_left hle
        have hrecords : records s.seq (x.event :: items.map Item.event) = records s.seq (items.map Item.event) := by
          rw [records, if_neg hlt, hmax]
          rfl
        rw [hrecords] at hnew
        have hold : ¬ (s.core.withQueue { s.queue with items := items ++ more }).Joins x.event ∨ x.event.seq ≤ s.seq :=
          .inr hle
        rw [processItem_ignored (h.moves x List.mem_cons_self) hold] at hstep
        refine (Leaves.one hstep).append (g := Trace.move (total (records s.seq (items.map Item.event)))) (fun t hc hq => ?_)
          fun t => ?_
        · have hcore : t.core = s.core.withSeq s.seq := hc
          have hrun := ih (s := t) (h.tail hq) (fun y hy => (joins_of_core hcore _).mpr (hj y (List.mem_cons_of_mem _ hy)))
            (mt (silent_of_core hcore _).mp hs) fun event he => by
              rw [seq_of_core hcore] at he
              exact (hnew event he).imp_left (validInput_of_core hcore _).mpr
          rw [hcore, hq, seq_of_core hcore] at hrun
          rw [newest, List.foldl_cons, hmax]
          exact hrun
        · rw [hrecords]
          rfl

/-- A move that ends the session drops the rest of the queue. -/
theorem leaves_ended {before after more : List Item} (h : Heads env s (before ++ item :: after) more)
    (hold : ∀ x ∈ before, x.event.seq ≤ s.seq) {d : TargetEngine}
    (hitem : ∀ q, ∃ reason, processItem env item (env.popNow - item.entered) (s.core.withQueue q) =
      ((d.withQueue q).reset env reason, true)) (reason : String) :
    Leaves s (List.replicate (before ++ item :: after).length (.processOne env)) (d.reset env reason).core s.queue.clear
      (·.adds (d.reset env reason).out) := by
  have hbefore : Heads env s before (item :: after ++ more) :=
    ⟨h.failed, by rw [h.queue, List.append_assoc], fun x hx => h.age x (List.mem_append_left _ hx),
      fun x hx => h.moves x (List.mem_append_left _ hx)⟩
  have hops : List.replicate (before ++ item :: after).length (EngineOp.processOne env) =
      List.replicate before.length (.processOne env) ++
      (.processOne env :: List.replicate after.length (.processOne env)) := by
    rw [List.length_append, List.length_cons, List.replicate_add, List.replicate_succ]
  rw [hops]
  refine (leaves_ignored hbefore fun x hx => .inr (hold x hx)).append (g := (·.adds (d.reset env reason).out))
    (fun t hc hq => ?_) fun _ => rfl
  have hstep : t.step (.processOne env) =
      (processItem env item (env.popNow - item.entered) (t.core.withQueue { t.queue with items := after ++ more })).1 := by
    refine step_popped ?_ ?_ ?_
    · rw [hq]; exact h.failed
    · rw [hq]; rfl
    · rw [hq]; exact h.age item (by simp)
  rw [hc, hq] at hstep
  obtain ⟨reason', hreset⟩ := hitem { s.queue with items := after ++ more }
  rw [hreset] at hstep
  have hone := Leaves.one hstep
  rw [reset_core reason' reason, reset_queue] at hone
  refine hone.append (g := id) (fun u hcu hqu => ?_) fun t => (reset_adds reason' reason _ t)
  · have hempty := leaves_empty (s := u) env (by rw [hqu]; rfl) (by rw [hqu]; rfl) after.length
    rw [hcu, hqu] at hempty
    exact hempty

end TargetEngine

end RemoteInput
