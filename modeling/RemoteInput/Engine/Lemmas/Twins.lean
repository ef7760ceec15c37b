import RemoteInput.Engine.Lemmas.Moves
import RemoteInput.Wire.Theorems.Queue

/-!
# Targets that stay alike
-/

namespace RemoteInput

variable {now : Time} {segment : List Item} {item last : Item} {event : Event} {p m : InputQueue}

/-! ## Queues -/

/-- The items of the plain queue for an item of the other: one for each of its frames. -/
structure Splits (now : Time) (segment : List Item) (item : Item) : Prop where
  merge : MergeOf item.parts item.event
  events : segment.map Item.event = item.parts
  alone : ∀ x ∈ segment, x.parts = [x.event]
  first : ∃ x more, segment = x :: more ∧ x.entered = item.entered ∧ ∀ y ∈ more, y.entered = now

theorem splits_one (h : item.parts = [item.event]) : Splits now [item] item := by
  refine ⟨.inl h, h.symm, fun x hx => ?_, item, [], rfl, rfl, by simp⟩
  rw [List.mem_singleton.mp hx]
  exact h

theorem Splits.absorb (h : Splits now segment last) (hc : last.event.coalesces event)
    (hr : ¬ (last.event.merge event).outOfRange) :
    Splits now (segment ++ [⟨event, now, [event]⟩]) (last.absorb event) := by
  refine ⟨h.merge.more hc hr, ?_, fun x hx => ?_, ?_⟩
  · rw [List.map_append, h.events]
    rfl
  · rcases List.mem_append.mp hx with hx | hx
    · exact h.alone x hx
    · rw [List.mem_singleton.mp hx]
  · obtain ⟨x, more, rfl, hentered, hmore⟩ := h.first
    refine ⟨x, more ++ [⟨event, now, [event]⟩], rfl, hentered, fun y hy => ?_⟩
    rcases List.mem_append.mp hy with hy | hy
    · exact hmore y hy
    · rw [List.mem_singleton.mp hy]

/-- An item of one frame is its own only item. -/
theorem Splits.single (h : Splits now segment item) (hp : item.parts.length ≤ 1) : segment = [item] := by
  have hparts : item.parts = [item.event] := h.merge.resolve_right fun hm => absurd hm.1 (by omega)
  obtain ⟨x, more, rfl, hentered, -⟩ := h.first
  have hevents := h.events
  rw [hparts, List.map_cons, List.cons.injEq, List.map_eq_nil_iff] at hevents
  obtain ⟨hevent, rfl⟩ := hevents
  have halone := h.alone x List.mem_cons_self
  rw [hevent, ← hparts] at halone
  cases x
  cases item
  simp_all

/-- The plain queue and the other. -/
structure QueueTwins (now : Time) (p m : InputQueue) : Prop where
  limit : p.limit = m.limit
  maxAge : p.maxAge = m.maxAge
  failed : p.failed = m.failed
  segments : Segments (Splits now) p.items m.items

theorem QueueTwins.clear (h : QueueTwins now p m) : QueueTwins now p.clear m.clear := ⟨h.limit, h.maxAge, rfl, .nil⟩

theorem QueueTwins.rest (h : QueueTwins now p m) (clears : Bool) :
    QueueTwins now (TargetEngine.rest clears p) (TargetEngine.rest clears m) := by
  cases clears with
  | false => exact h
  | true => exact h.clear

/-- A frame is appended to the one queue when the other takes it. -/
theorem QueueTwins.put (h : QueueTwins now p m) (hok : (m.put now event).ok = true) :
    QueueTwins now { p with items := p.items ++ [⟨event, now, [event]⟩] } (m.put now event).queue := by
  have hc := m.put_cases now event
  rw [hok] at hc
  generalize (m.put now event).queue = m' at hc
  cases hc with
  | merged init last hm hq hco =>
      refine ⟨h.limit, h.maxAge, h.failed, ?_⟩
      have hsegments := h.segments
      rw [hq] at hsegments
      exact Segments.extend hsegments fun segment hs => hs.absorb hco (InputQueue.merges_concat hm hq)
  | appended => exact ⟨h.limit, h.maxAge, h.failed, h.segments.concat (splits_one rfl)⟩

/-! ## Targets -/

namespace Twins

variable {t : Twins} {env : Env}

/-- The targets differ in what their queues have merged and in what they emit. -/
structure Alike (t : Twins) : Prop where
  core : t.plain.core = t.merged.core
  queue : QueueTwins t.now t.plain.queue t.merged.queue
  age : 0 ≤ t.merged.queue.maxAge
  injected : ({} : Trace).adds t.mergedOut = ({} : Trace).adds t.plainOut

theorem Alike.agree (h : t.Alike) : t.Agree := by
  have hfield : ∀ {β : Type} (f : TargetEngine → β), f t.merged.core = f t.plain.core := fun f => congrArg f h.core.symm
  exact ⟨hfield TargetEngine.epoch, hfield TargetEngine.seq, hfield TargetEngine.keys, hfield TargetEngine.buttons,
    hfield TargetEngine.blocked, h.injected⟩

theorem alike_start (s : TargetEngine) (hage : 0 ≤ s.queue.maxAge) : (start now s).Alike := by
  refine ⟨rfl, ⟨rfl, rfl, rfl, ?_⟩, hage, rfl⟩
  change Segments (Splits now) (s.queue.items.map Item.alone) (s.queue.items.map Item.alone)
  induction s.queue.items with
  | nil => exact .nil
  | cons item items ih => exact Segments.cons ih (splits_one rfl : Splits now [item.alone] item.alone)

/-- Both targets clear or keep their queues alike when the one processes the head for the other. -/
theorem Alike.of_same (h : t.Alike) {r : TargetEngine} (clears : Bool) {p m : InputQueue} (hq : QueueTwins t.now p m)
    (hage : m.maxAge = t.merged.queue.maxAge) :
    Alike { t with merged := r.withQueue (TargetEngine.rest clears m), plain := r.withQueue (TargetEngine.rest clears p),
                   mergedOut := t.mergedOut ++ r.out, plainOut := t.plainOut ++ r.out } := by
  refine ⟨rfl, hq.rest clears, ?_, ?_⟩
  · have hrest : (TargetEngine.rest clears m).maxAge = m.maxAge := by cases clears <;> rfl
    change 0 ≤ (TargetEngine.rest clears m).maxAge
    rw [hrest, hage]
    exact h.age
  · simp only [Trace.adds_append, h.injected]

theorem Alike.receive (h : t.Alike) {event : Event} (hc : t.Calm (.receive env event)) :
    (t.act (.receive env event)).Alike := by
  obtain ⟨hnow, -, -, hok⟩ := hc
  have hplain : { t.plain with out := [] } = t.merged.core.withQueue t.plain.queue := by
    rw [← h.core]
    rfl
  unfold act
  dsimp only
  rw [hplain]
  by_cases hop : event.op = .reset
  · have hm : t.merged.step (.receive env event) =
        (t.merged.core.reset env "Paused").withQueue (TargetEngine.rest true t.merged.queue) := by
      unfold TargetEngine.step TargetEngine.receive
      dsimp only
      rw [if_pos hop]
      exact TargetEngine.reset_withQueue env "Paused" t.merged.core t.merged.queue
    have hp : TargetEngine.receivePlain env event (t.merged.core.withQueue t.plain.queue) =
        (t.merged.core.reset env "Paused").withQueue (TargetEngine.rest true t.plain.queue) := by
      unfold TargetEngine.receivePlain
      rw [if_pos hop]
      exact TargetEngine.reset_withQueue env "Paused" t.merged.core t.plain.queue
    rw [hm, hp]
    exact h.of_same true h.queue rfl
  · have hok : (t.merged.queue.put env.now event).ok = true := hok.resolve_left hop
    have hm : t.merged.step (.receive env event) =
        t.merged.core.withQueue (TargetEngine.rest false (t.merged.queue.put env.now event).queue) := by
      unfold TargetEngine.step TargetEngine.receive
      dsimp only
      rw [if_neg hop, if_pos hok]
      rfl
    have hp : TargetEngine.receivePlain env event (t.merged.core.withQueue t.plain.queue) =
        t.merged.core.withQueue (TargetEngine.rest false
          { t.plain.queue with items := t.plain.queue.items ++ [⟨event, env.now, [event]⟩] }) := by
      unfold TargetEngine.receivePlain
      rw [if_neg hop]
      rfl
    rw [hm, hp]
    have hage : (t.merged.queue.put env.now event).queue.maxAge = t.merged.queue.maxAge := by
      have hc := t.merged.queue.put_cases env.now event
      generalize (t.merged.queue.put env.now event).queue = m, (t.merged.queue.put env.now event).ok = ok at hc
      cases hc <;> rfl
    change env.now = t.now at hnow
    exact h.of_same false (hnow ▸ QueueTwins.put (hnow ▸ h.queue) hok) hage

/-- The targets process what they have to process and stay alike when they leave the same. -/
theorem Alike.of_leaves (h : t.Alike) {c : TargetEngine} {p m : InputQueue} {change : Trace → Trace}
    (hm : t.merged.Leaves [.processOne env] c m change)
    (hp : t.plain.Leaves (List.replicate t.merged.headParts.length (.processOne env)) c p change) (hq : QueueTwins t.now p m)
    (hage : m.maxAge = t.merged.queue.maxAge) : (t.act (.process env)).Alike := by
  refine ⟨hp.core.trans hm.core.symm, ?_, ?_, ?_⟩
  · change QueueTwins t.now (t.plain.exec _).queue (t.merged.exec [.processOne env]).queue
    rw [hp.queue, hm.queue]
    exact hq
  · change 0 ≤ (t.merged.exec [.processOne env]).queue.maxAge
    rw [hm.queue, hage]
    exact h.age
  · have hout : (t.merged.step (.processOne env)).out = t.merged.history [.processOne env] := (List.append_nil _).symm
    change ({} : Trace).adds (t.mergedOut ++ (t.merged.step (.processOne env)).out) = ({} : Trace).adds (t.plainOut ++ _)
    rw [hout, Trace.adds_append, Trace.adds_append, hm.trace, hp.trace, h.injected]

/-- The head stands for one frame. -/
theorem Alike.process_single (h : t.Alike) {item : Item} {more : List Item} (hf : t.merged.queue.failed = false)
    (hq : t.merged.queue.items = item :: more) (hage : env.popNow - item.entered ≤ t.merged.queue.maxAge)
    (hone : item.parts.length ≤ 1) : (t.act (.process env)).Alike := by
  have hsegments := h.queue.segments
  rw [hq] at hsegments
  obtain ⟨segment, rest, hplain, hsplits, hrest⟩ := Segments.of_cons hsegments
  rw [hsplits.single hone, List.singleton_append] at hplain
  have hparts : item.parts.length = 1 := by
    rw [← hsplits.events, hsplits.single hone]
    rfl
  have hm := TargetEngine.step_popped hf hq hage
  have hp := TargetEngine.step_popped (h.queue.failed.trans hf) hplain (by rw [h.queue.maxAge]; exact hage)
  rw [h.core] at hp
  obtain ⟨clears, hblind⟩ := TargetEngine.blind_processItem env item (env.popNow - item.entered) t.merged.core
  rw [hblind] at hm hp
  unfold act
  dsimp only
  have hops : t.merged.headParts.length = 1 := by
    rw [TargetEngine.headParts, hq]
    exact hparts
  rw [hops, hm]
  change Alike { t with merged := _, plain := t.plain.step (.processOne env), mergedOut := _,
                        plainOut := t.plainOut ++ ((t.plain.step (.processOne env)).out ++ []) }
  rw [hp, List.append_nil]
  exact h.of_same clears ⟨h.queue.limit, h.queue.maxAge, h.queue.failed, hrest⟩ rfl

end Twins

end RemoteInput
