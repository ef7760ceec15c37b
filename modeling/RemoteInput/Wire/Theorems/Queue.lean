import RemoteInput.Lib.Segments
import RemoteInput.Wire.Lemmas.Queue
import RemoteInput.Wire.Runs

/-!
# What the queue makes of the events it accepts
-/

namespace RemoteInput

variable {parts : List Event} {event last : Event} {r : QueueRun} {q : InputQueue} {ops : List QueueOp} {op : QueueOp}

/-- `event` is one accepted event, or the merge of several moves of its epoch. -/
def MergeOf (parts : List Event) (event : Event) : Prop :=
  parts = [event] ∨
  2 ≤ parts.length ∧ event.op = .move ∧ (∀ e ∈ parts, e.op = .move ∧ e.epoch = event.epoch) ∧
    event.a = (parts.map Event.a).sum ∧ event.b = (parts.map Event.b).sum ∧ |event.a| ≤ 1000000 ∧ |event.b| ≤ 1000000 ∧
    ∃ last ∈ parts.getLast?, event.seq = last.seq ∧ event.stamp = last.stamp ∧ event.lease = last.lease

theorem MergeOf.more (h : MergeOf parts last) (hc : last.coalesces event) (hr : ¬ (last.merge event).outOfRange) :
    MergeOf (parts ++ [event]) (last.merge event) := by
  obtain ⟨hop, hlast, hepoch⟩ := hc
  have hrange : |(last.merge event).a| ≤ 1000000 ∧ |(last.merge event).b| ≤ 1000000 := max_le_iff.mp (not_lt.mp hr)
  refine .inr ?_
  rcases h with rfl | ⟨hlen, _, hparts, ha, hb, _⟩
  · refine ⟨by simp, hop, fun e he => ?_, by simp [Event.merge], by simp [Event.merge], hrange.1, hrange.2,
      event, by simp, rfl, rfl, rfl⟩
    rcases List.mem_append.mp he with he | he
    · cases List.mem_singleton.mp he; exact ⟨hlast, hepoch⟩
    · cases List.mem_singleton.mp he; exact ⟨hop, rfl⟩
  · refine ⟨by simp; omega, hop, fun e he => ?_, by simp [Event.merge, ha], by simp [Event.merge, hb], hrange.1, hrange.2,
      event, by simp, rfl, rfl, rfl⟩
    rcases List.mem_append.mp he with he | he
    · obtain ⟨hmove, he⟩ := hparts e he
      exact ⟨hmove, he.trans hepoch⟩
    · cases List.mem_singleton.mp he; exact ⟨hop, rfl⟩

namespace QueueRun

/-! ## The account of a run -/

/-- A queued item stands for accepted events, and has waited as long as the first of them. -/
structure Stands (segment : List (Time × Event)) (item : Item) : Prop where
  merge : MergeOf (segment.map Prod.snd) item.event
  first : ∃ x ∈ segment.head?, x.1 = item.entered

/-- A returned event stands for accepted events, and its age is that of the first of them. -/
structure Returned (maxAge : Time) (segment : List (Time × Event)) (p : Popped) : Prop where
  merge : MergeOf (segment.map Prod.snd) p.event
  first : ∃ x ∈ segment.head?, p.age = p.now - x.1
  age : p.age ≤ maxAge

/-- What has been popped and, unless the queue has failed, what is queued account for the accepted events. -/
structure Accounts (q : InputQueue) (r : QueueRun) : Prop where
  limit : r.queue.limit = q.limit
  maxAge : r.queue.maxAge = q.maxAge
  length : r.queue.items.length ≤ q.limit
  failed : r.queue.failed = true → r.queue.items = []
  account : ∃ before after, r.accepted = before ++ after ∧ Segments (Returned q.maxAge) before r.popped ∧
    (r.queue.failed = false → Segments Stands after r.queue.items)

theorem Accounts.put (h : Accounts q r) (now : Time) (event : Event) : Accounts q (r.step (.put now event)) := by
  have hc := r.queue.put_cases now event
  obtain ⟨hlimit, hage, hlen, hfailed, before, after, hacc, hpop, hqueue⟩ := h
  unfold step
  dsimp only
  generalize (r.queue.put now event).queue = queue, (r.queue.put now event).ok = ok at hc ⊢
  cases hc with
  | refused => exact ⟨hlimit, hage, hlen, hfailed, before, after, hacc, hpop, hqueue⟩
  | failed => exact ⟨hlimit, hage, Nat.zero_le _, fun _ => rfl, before, after, hacc, hpop, fun hf => by cases hf⟩
  | merged init last hm hq hco =>
      rw [hq] at hlen
      refine ⟨hlimit, hage, by simpa using hlen, fun hf => ?_, before, after ++ [(now, event)], ?_, hpop, fun _ => ?_⟩
      · exact absurd (hm.1.symm.trans hf) (by simp)
      · rw [if_pos rfl, hacc, List.append_assoc]
      · refine Segments.extend (hq ▸ hqueue hm.1) fun segment hs => ⟨?_, ?_⟩
        · rw [List.map_append]
          exact hs.merge.more hco (InputQueue.merges_concat hm hq)
        · obtain ⟨x, hx, he⟩ := hs.first
          exact ⟨x, by rw [List.head?_append_of_ne_nil _ (by rintro rfl; cases hx)]; exact hx, he⟩
  | appended hf hm hlen' =>
      refine ⟨hlimit, hage, ?_, fun hf' => ?_, before, after ++ [(now, event)], ?_, hpop, fun _ => ?_⟩
      · rw [List.length_append, List.length_singleton, ← hlimit]; exact hlen'
      · exact absurd (hf.symm.trans hf') (by simp)
      · rw [if_pos rfl, hacc, List.append_assoc]
      · exact (hqueue hf).concat ⟨.inl rfl, (now, event), rfl, rfl⟩

theorem Accounts.pop (h : Accounts q r) (now : Time) : Accounts q (r.step (.pop now)) := by
  have hc := r.queue.pop_cases now
  obtain ⟨hlimit, hage, hlen, hfailed, before, after, hacc, hpop, hqueue⟩ := h
  unfold step
  dsimp only
  generalize r.queue.pop now = popped at hc ⊢
  cases hc with
  | failed | empty => exact ⟨hlimit, hage, hlen, hfailed, before, after, hacc, hpop, hqueue⟩
  | expired => exact ⟨hlimit, hage, Nat.zero_le _, fun _ => rfl, before, after, hacc, hpop, fun hf => by cases hf⟩
  | item it rest hf hq ha =>
      rw [hq] at hlen hqueue
      obtain ⟨segment, after, rfl, hs, hrest⟩ := Segments.of_cons (hqueue hf)
      refine ⟨hlimit, hage, ?_, fun hf' => ?_, before ++ segment, after, ?_, ?_, fun _ => hrest⟩
      · exact Nat.le_of_succ_le hlen
      · exact absurd (hf.symm.trans hf') (by simp)
      · rw [hacc, List.append_assoc]
      · refine hpop.concat ⟨hs.merge, ?_, hage ▸ ha⟩
        obtain ⟨x, hx, he⟩ := hs.first
        exact ⟨x, hx, by rw [he]⟩

theorem accounts_clear (q : InputQueue) : Accounts q { queue := q.clear } :=
  ⟨rfl, rfl, Nat.zero_le _, fun _ => rfl, [], [], rfl, .nil, fun _ => .nil⟩

theorem Accounts.step (h : Accounts q r) (op : QueueOp) : Accounts q (r.step op) := by
  cases op with
  | put now event => exact h.put now event
  | pop now => exact h.pop now
  | clear => exact ⟨h.limit, h.maxAge, Nat.zero_le _, fun _ => rfl, [], [], rfl, .nil, fun _ => .nil⟩

theorem exec_accounts (q : InputQueue) (ops : List QueueOp) : Accounts q (exec q ops) := by
  induction ops using List.reverseRecOn with
  | nil => exact accounts_clear q
  | append_singleton ops op ih => rw [exec_concat]; exact ih.step op

/-- Nothing is lost, duplicated or reordered while the queue has not failed. -/
theorem nothing_lost (q : InputQueue) (ops : List QueueOp) :
    ((exec q ops).queue.failed = false →
      Segments MergeOf ((exec q ops).accepted.map Prod.snd)
        ((exec q ops).popped.map Popped.event ++ (exec q ops).queue.items.map Item.event)) ∧
    (exec q ops).queue.items.length ≤ q.limit := by
  obtain ⟨_, _, hlen, _, before, after, hacc, hpop, hqueue⟩ := exec_accounts q ops
  refine ⟨fun hf => ?_, hlen⟩
  rw [hacc, List.map_append]
  refine Segments.append ?_ ?_
  · exact (hpop.map Prod.snd (T := fun parts p => MergeOf parts p.event) fun _ _ h => h.merge).map_items Popped.event
      fun _ _ h => h
  · exact ((hqueue hf).map Prod.snd (T := fun parts it => MergeOf parts it.event) fun _ _ h => h.merge).map_items Item.event
      fun _ _ h => h

/-! ## Ages -/

/-- Every constituent was put at most `maxAge` before the event was popped, and the age is that of the oldest. -/
structure Timely (maxAge : Time) (segment : List (Time × Event)) (p : Popped) : Prop where
  merge : MergeOf (segment.map Prod.snd) p.event
  within : ∀ x ∈ segment, p.now - x.1 ≤ maxAge
  oldest : ∃ x ∈ segment, p.age = p.now - x.1 ∧ ∀ y ∈ segment, x.1 ≤ y.1

/-- In the order of time the first constituent is the oldest. -/
theorem Returned.timely {maxAge : Time} {segment : List (Time × Event)} {p : Popped} (h : Returned maxAge segment p)
    (hs : (segment.map Prod.fst).Pairwise (· ≤ ·)) : Timely maxAge segment p := by
  obtain ⟨x, hx, hage⟩ := h.first
  cases segment with
  | nil => cases hx
  | cons y segment =>
      cases hx
      have hfirst : ∀ y ∈ x :: segment, x.1 ≤ y.1 := by
        intro y hy
        rcases List.mem_cons.mp hy with rfl | hy
        · exact le_rfl
        · exact (List.pairwise_cons.mp hs).1 y.1 (List.mem_map_of_mem hy)
      refine ⟨h.merge, fun y hy => ?_, x, List.mem_cons_self, hage, hfirst⟩
      calc p.now - y.1 ≤ p.now - x.1 := sub_le_sub_left (hfirst y hy) p.now
        _ = p.age := hage.symm
        _ ≤ maxAge := h.age

/-- The events were accepted at readings of the clock. -/
theorem accepted_readings (q : InputQueue) (ops : List QueueOp) :
    ((exec q ops).accepted.map Prod.fst).Sublist (ops.flatMap QueueOp.readings) := by
  induction ops using List.reverseRecOn with
  | nil => exact .slnil
  | append_singleton ops op ih =>
      rw [exec_concat, List.flatMap_append, List.flatMap_singleton]
      cases op with
      | clear => exact List.nil_sublist _
      | pop now =>
          have hsame : ((exec q ops).step (.pop now)).accepted = (exec q ops).accepted := by
            simp only [step]
            split <;> rfl
          rw [hsame]
          exact ih.trans (List.sublist_append_left ..)
      | put now event =>
          unfold step
          dsimp only
          split
          · rw [List.map_append]
            exact ih.append (.refl _)
          · exact ih.trans (List.sublist_append_left ..)

/-! ## Failure -/

theorem Fails.failed (h : r.Fails op) : (r.step op).queue.failed = true := by
  cases op with
  | clear => exact h.elim
  | put now event =>
      have hc := r.queue.put_cases now event
      unfold step
      dsimp only
      rw [show (r.queue.put now event).ok = false from h] at hc
      generalize (r.queue.put now event).queue = queue at hc ⊢
      cases hc with
      | refused hf => exact hf
      | failed => rfl
  | pop now =>
      have hc := r.queue.pop_cases now
      have h : (r.queue.pop now).2 = .overload := h
      unfold step
      dsimp only
      generalize r.queue.pop now = popped at hc h ⊢
      cases hc with
      | failed hf => exact hf
      | empty | item => cases h
      | expired => rfl

theorem failed_step (h : r.queue.failed = true) (hop : op ≠ .clear) : (r.step op).queue.failed = true := by
  refine Fails.failed ?_
  cases op with
  | clear => exact absurd rfl hop
  | put now event => show (r.queue.put now event).ok = false; unfold InputQueue.put; rw [if_pos h]
  | pop now => show (r.queue.pop now).2 = .overload; unfold InputQueue.pop; rw [if_pos h]

theorem failed_exec {before after : List QueueOp} (h : (exec q before).queue.failed = true) (hafter : .clear ∉ after) :
    (exec q (before ++ after)).queue.failed = true := by
  induction after using List.reverseRecOn with
  | nil => rw [List.append_nil]; exact h
  | append_singleton after op ih =>
      rw [← List.append_assoc, exec_concat]
      refine failed_step (ih fun hm => hafter (List.mem_append_left _ hm)) ?_
      rintro rfl
      exact hafter (by simp)

/-- A queue that has failed is empty and refuses everything. -/
def Latched (queue : InputQueue) : Prop :=
  queue.items = [] ∧ (∀ now event, (queue.put now event).ok = false) ∧ ∀ now, (queue.pop now).2 = .overload

theorem Accounts.latched (h : Accounts q r) (hf : r.queue.failed = true) : Latched r.queue := by
  refine ⟨h.failed hf, fun now event => ?_, fun now => ?_⟩
  · unfold InputQueue.put; rw [if_pos hf]
  · unfold InputQueue.pop; rw [if_pos hf]

/-- With a clock that does not go back nothing stale is returned, and a failure lasts until `clear`. -/
theorem nothing_stale (q : InputQueue) (ops : List QueueOp) (h : (ops.flatMap QueueOp.readings).Pairwise (· ≤ ·)) :
    (∃ before after, (exec q ops).accepted = before ++ after ∧ Segments (Timely q.maxAge) before (exec q ops).popped) ∧
    ∀ before op after, ops = before ++ op :: after → (exec q before).Fails op → .clear ∉ after →
      Latched (exec q ops).queue := by
  have haccounts := exec_accounts q ops
  constructor
  · obtain ⟨before, after, hacc, hpop, _⟩ := haccounts.account
    have hsorted : ((exec q ops).accepted.map Prod.fst).Pairwise (· ≤ ·) := h.sublist (accepted_readings q ops)
    rw [hacc, List.map_append] at hsorted
    have hbefore := (List.pairwise_append.mp hsorted).1
    exact ⟨before, after, hacc, hpop.imp fun segment p hs hr => hr.timely (hbefore.sublist (hs.map _))⟩
  · rintro before op after rfl hfails hafter
    have hfailed : (exec q (before ++ [op])).queue.failed = true := by rw [exec_concat]; exact hfails.failed
    refine haccounts.latched ?_
    rw [show before ++ op :: after = (before ++ [op]) ++ after by simp]
    exact failed_exec hfailed hafter

/-- Two moves are put and popped in time. -/
def mergedMoves : List QueueOp :=
  [.put 0 { op := .move, a := 1 }, .put (1 / 20) { op := .move, a := 2 }, .pop (1 / 10)]

/-- They come out as one move by 3, as old as the first of them. -/
theorem nothing_stale_merged :
    ∃ before after, (exec {} mergedMoves).accepted = before ++ after ∧
      Segments (Timely maxQueueAge) before [{ now := 1 / 10, event := { op := .move, a := 3 }, age := 1 / 10 }] := by
  obtain ⟨before, after, haccepted, hpopped⟩ :=
    (nothing_stale {} mergedMoves (by norm_num [mergedMoves, QueueOp.readings])).1
  have hv : (exec {} mergedMoves).popped = [{ now := 1 / 10, event := { op := .move, a := 3 }, age := 1 / 10 }] := by
    decide +kernel
  exact ⟨before, after, haccepted, hv ▸ hpopped⟩

end QueueRun

end RemoteInput
