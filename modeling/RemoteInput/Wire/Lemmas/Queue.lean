import RemoteInput.Wire.Queueing

/-!
# What `put` and `pop` can do
-/

namespace RemoteInput

/-- The merged tail that `put` leaves. -/
def Item.absorb (last : Item) (event : Event) : Item :=
  ⟨last.event.merge event, last.entered, last.parts ++ [event]⟩

namespace InputQueue

/-- How `pop` ends. -/
inductive PopCase (q : InputQueue) (now : Time) : InputQueue × Pop → Prop where
  | failed (h : q.failed = true) : PopCase q now (q, .overload)
  | empty (hf : q.failed = false) (h : q.items = []) : PopCase q now (q, .empty)
  | expired (it : Item) (rest : List Item) (hf : q.failed = false) (h : q.items = it :: rest)
      (ha : now - it.entered > q.maxAge) : PopCase q now (q.fail, .overload)
  | item (it : Item) (rest : List Item) (hf : q.failed = false) (h : q.items = it :: rest)
      (ha : now - it.entered ≤ q.maxAge) :
      PopCase q now ({ q with items := rest }, .item it (now - it.entered))

theorem pop_cases (q : InputQueue) (now : Time) : PopCase q now (q.pop now) := by
  unfold pop
  split
  · rename_i h; exact .failed h
  rename_i hf
  have hf : q.failed = false := by simpa using hf
  split
  · rename_i h; exact .empty hf h
  · rename_i it rest h
    split
    · rename_i ha; exact .expired it rest hf h ha
    · rename_i ha; exact .item it rest hf h (not_lt.mp ha)

/-- `put` merges `event` into the tail. -/
def merges (q : InputQueue) (now : Time) (event : Event) : Prop :=
  q.failed = false ∧ ¬ q.headExpired now ∧ ∃ last ∈ q.mergeTail event, ¬ (last.event.merge event).outOfRange

instance (q : InputQueue) (now : Time) (event : Event) : Decidable (q.merges now event) :=
  inferInstanceAs (Decidable (_ ∧ _ ∧ _))

/-- How `put` ends: the new queue and the returned value. -/
inductive PutCase (q : InputQueue) (now : Time) (event : Event) : InputQueue → Bool → Prop where
  | refused (h : q.failed = true) : PutCase q now event q false
  | failed (hf : q.failed = false) : PutCase q now event q.fail false
  | merged (init : List Item) (last : Item) (h : q.merges now event) (hq : q.items = init ++ [last])
      (hc : last.event.coalesces event) : PutCase q now event { q with items := init ++ [last.absorb event] } true
  | appended (hf : q.failed = false) (hm : q.mergeTail event = none) (hlen : q.items.length < q.limit) :
      PutCase q now event { q with items := q.items ++ [⟨event, now, [event]⟩] } true

theorem put_cases (q : InputQueue) (now : Time) (event : Event) :
    PutCase q now event (q.put now event).queue (q.put now event).ok := by
  unfold put
  split
  · rename_i h; exact .refused h
  rename_i hf
  have hf : q.failed = false := by simpa using hf
  dsimp only
  unfold accept
  split
  · exact .failed hf
  rename_i hexp
  split
  · rename_i last hlast
    obtain ⟨hmem, hc⟩ := Option.filter_eq_some_iff.mp hlast
    split
    · exact .failed hf
    rename_i hrange
    obtain ⟨init, hq⟩ := List.getLast?_eq_some_iff.mp hmem
    have hok : (!q.failed) = true := by simp [hf]
    rw [show q.items.dropLast = init by simp [hq], hok]
    exact .merged init last ⟨hf, hexp, last, hlast, hrange⟩ hq (by simpa using hc)
  · rename_i hm
    split
    · exact .failed hf
    · rename_i hlen
      have hok : (!q.failed) = true := by simp [hf]
      rw [hok]
      exact .appended hf hm (by omega)

/-! ## What the items stand for -/

/-- What the merged tail was. -/
theorem merges_concat {q : InputQueue} {now : Time} {event : Event} {init : List Item} {last : Item}
    (h : q.merges now event) (hq : q.items = init ++ [last]) : ¬ (last.event.merge event).outOfRange := by
  obtain ⟨_, _, tail, ht, hr⟩ := h
  have htail : q.items.getLast? = some tail := (Option.filter_eq_some_iff.mp ht).1
  rw [hq, List.getLast?_concat, Option.some.injEq] at htail
  rw [htail]
  exact hr

/-- What holds of the new item, or of the merged tail, and of the items before, holds of every item. -/
theorem put_forall {P : Item → Prop} {q : InputQueue} {now : Time} {event : Event} (h : ∀ it ∈ q.items, P it)
    (hnew : P ⟨event, now, [event]⟩)
    (hmerge : ∀ last, P last → last.event.coalesces event → ¬ (last.event.merge event).outOfRange → P (last.absorb event)) :
    ∀ it ∈ (q.put now event).queue.items, P it := by
  have hc := q.put_cases now event
  generalize (q.put now event).queue = q', (q.put now event).ok = ok at hc
  cases hc with
  | refused => exact h
  | failed => simp [fail]
  | merged init last hm hq hco =>
      have hlast : P last := h last (by simp [hq])
      intro it hit
      rcases List.mem_append.mp hit with hit | hit
      · exact h it (by simp [hq, hit])
      · rw [List.mem_singleton.mp hit]; exact hmerge last hlast hco (merges_concat hm hq)
  | appended =>
      intro it hit
      rcases List.mem_append.mp hit with hit | hit
      · exact h it hit
      · rw [List.mem_singleton.mp hit]; exact hnew

/-- An accepted event is the last that the items stand for. -/
theorem put_parts {q : InputQueue} {now : Time} {event : Event} (hok : (q.put now event).ok = true) :
    (q.put now event).queue.items.flatMap Item.parts = q.items.flatMap Item.parts ++ [event] := by
  have hc := q.put_cases now event
  rw [hok] at hc
  generalize (q.put now event).queue = q' at hc
  cases hc with
  | merged init last _ hq => simp [hq, Item.absorb]
  | appended => simp

end InputQueue

/-- The event that a queue makes of events that it merges. -/
inductive Coalesced : List Event → Event → Prop where
  | one (event : Event) : Coalesced [event] event
  | more {parts : List Event} {last event : Event} (h : Coalesced parts last) (hc : last.coalesces event) :
      Coalesced (parts ++ [event]) (last.merge event)

end RemoteInput
