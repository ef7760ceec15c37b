import RemoteInput.Engine.Lemmas.Twins

/-!
# Coalescing and the plain queue
-/

namespace RemoteInput

namespace TargetEngine

variable {env : Env} {item : Item} {s : TargetEngine}

/-- The oldest item fares as the frames that it stands for. With several, they are of another session; or none is new; or
the first new one and the last both end the session, in the same way; or the new ones are all injected, the last is the
newest, and those that are not new move nothing in total. -/
inductive Coherent (env : Env) (s : TargetEngine) (item : Item) : Prop where
  | single (h : item.parts.length ≤ 1)
  | elsewhere (h : ¬ s.Joins item.event)
  | old (h : records s.seq item.parts = [])
  | stale (first : Event) (more : List Event) (h : records s.seq item.parts = first :: more)
      (hfirst : ¬ s.ValidInput env first) (hseq : s.seq < item.event.seq) (hlast : ¬ s.ValidInput env item.event)
  | silent (first : Event) (more : List Event) (h : records s.seq item.parts = first :: more) (hs : s.silent env.now)
      (hfirst : s.ValidInput env first) (hlast : s.ValidInput env item.event) (hseq : item.event.seq = first.seq)
  | moved (hs : ¬ s.silent env.now)
      (hnew : ∀ event ∈ records s.seq item.parts,
        s.ValidInput env event ∧ env.perform [] (.move event.a event.b) = .done)
      (hlast : s.ValidInput env item.event) (hdone : env.perform [] (.move item.event.a item.event.b) = .done)
      (hseq : s.seq < item.event.seq) (hnewest : ∀ event ∈ item.parts, event.seq ≤ item.event.seq)
      (htotal : total (records s.seq item.parts) = total item.parts)

end TargetEngine

namespace Twins

variable {t : Twins} {env : Env} {op : TwinOp} {ops : List TwinOp} {now : Time}

/-- The item that is processed next fares as its frames. -/
def Coherent (t : Twins) : TwinOp → Prop
  | .receive .. => True
  | .process env => ∀ item ∈ t.merged.queue.items.head?, t.merged.Coherent env item

/-- The head stands for several frames. -/
structure Merged (t : Twins) (env : Env) (item : Item) (segment rest more : List Item) : Prop where
  alike : t.Alike
  merged : t.merged.Heads env [item] more
  plain : t.plain.Heads env segment rest
  splits : Splits t.now segment item
  parts : 2 ≤ item.parts.length
  rests : Segments (Splits t.now) rest more

section Merged

variable {item : Item} {segment rest more : List Item}

theorem Merged.queues (h : t.Merged env item segment rest more) :
    QueueTwins t.now { t.plain.queue with items := rest } { t.merged.queue with items := more } :=
  ⟨h.alike.queue.limit, h.alike.queue.maxAge, h.alike.queue.failed, h.rests⟩

theorem Merged.length (h : t.Merged env item segment rest more) : t.merged.headParts.length = segment.length := by
  rw [TargetEngine.headParts, h.merged.queue]
  change item.parts.length = segment.length
  rw [← h.splits.events, List.length_map]

theorem Merged.epoch (h : t.Merged env item segment rest more) : ∀ x ∈ segment, x.event.epoch = item.event.epoch := by
  intro x hx
  have hmem : x.event ∈ item.parts := by
    rw [← h.splits.events]
    exact List.mem_map_of_mem hx
  rcases h.splits.merge with hparts | ⟨-, -, hall, -⟩
  · exact absurd h.parts (by rw [hparts]; simp)
  · exact (hall _ hmem).2

theorem Merged.core (h : t.Merged env item segment rest more) : t.plain.core = t.merged.core.withSeq t.merged.seq :=
  h.alike.core

/-- Both ignore what they have. -/
theorem Merged.ignored (h : t.Merged env item segment rest more)
    (hm : ¬ t.merged.Joins item.event ∨ item.event.seq ≤ t.merged.seq)
    (hp : ∀ x ∈ segment, ¬ t.merged.Joins x.event ∨ x.event.seq ≤ t.merged.seq) : (t.act (.process env)).Alike := by
  have hleaves := TargetEngine.leaves_ignored h.merged fun x hx => by
    rw [List.mem_singleton.mp hx]
    exact hm
  have hleaves' := TargetEngine.leaves_ignored h.plain fun x hx => by
    rw [TargetEngine.joins_of_core h.core, TargetEngine.seq_of_core h.core]
    exact hp x hx
  rw [h.alike.core] at hleaves'
  rw [← h.length] at hleaves'
  exact h.alike.of_leaves hleaves hleaves' h.queues rfl

/-- Both end the session, the one with the item and the other with the first new frame. -/
theorem Merged.ended (h : t.Merged env item segment rest more) {first : Event} {events : List Event}
    (hrecords : TargetEngine.records t.merged.seq item.parts = first :: events) {d : TargetEngine}
    (hd : ∀ x : Item, x.event = item.event ∨ x.event = first → ∀ age q, ∃ reason,
      (t.merged.core.withQueue q).processItem env x age = ((d.withQueue q).reset env reason, true)) :
    (t.act (.process env)).Alike := by
  obtain ⟨before, after, hparts, hbefore, -⟩ := TargetEngine.records_cons hrecords
  rw [← h.splits.events] at hparts
  obtain ⟨items, tail, hsegment, rfl, htail⟩ := List.map_eq_append_iff.mp hparts
  obtain ⟨x, items', rfl, hx, rfl⟩ := List.map_eq_cons_iff.mp htail
  subst hsegment
  have hhead : t.merged.Heads env ([] ++ item :: []) more := h.merged
  have hm := TargetEngine.leaves_ended hhead (by simp)
    (hd item (.inl rfl) (env.popNow - item.entered)) ""
  have hp := TargetEngine.leaves_ended h.plain (fun y hy => by
    rw [TargetEngine.seq_of_core h.core]
    exact hbefore y.event (List.mem_map_of_mem hy)) (by
      rw [h.alike.core]
      exact hd x (.inr hx) (env.popNow - x.entered)) ""
  rw [← h.length] at hp
  exact h.alike.of_leaves hm hp h.alike.queue.clear rfl

/-- The item is injected, and so are the new frames. -/
theorem Merged.moved (h : t.Merged env item segment rest more) (hj : t.merged.Joins item.event) (hdur : env.durationUs = 0)
    (hs : ¬ t.merged.silent env.now)
    (hnew : ∀ event ∈ TargetEngine.records t.merged.seq item.parts,
      t.merged.ValidInput env event ∧ env.perform [] (.move event.a event.b) = .done)
    (hlast : t.merged.ValidInput env item.event) (hdone : env.perform [] (.move item.event.a item.event.b) = .done)
    (hseq : t.merged.seq < item.event.seq) (hnewest : ∀ event ∈ item.parts, event.seq ≤ item.event.seq)
    (htotal : TargetEngine.total (TargetEngine.records t.merged.seq item.parts) = TargetEngine.total item.parts) :
    (t.act (.process env)).Alike := by
  obtain ⟨-, -, hparts, ha, hb, -, -, last, hlast', hlastSeq, -⟩ := h.splits.merge.resolve_left fun hone =>
    absurd h.parts (by rw [hone]; simp)
  have hmem : last ∈ item.parts := List.mem_of_getLast? hlast'
  have hnewest' : TargetEngine.newest t.merged.seq item.parts = item.event.seq :=
    le_antisymm (TargetEngine.newest_le hseq.le hnewest) (hlastSeq ▸ TargetEngine.seq_le_newest hmem)
  have hrecords : TargetEngine.records t.merged.seq ([item].map Item.event) = [item.event] := by
    simp [TargetEngine.records, hseq]
  have htotal' : TargetEngine.total [item.event] = TargetEngine.total item.parts := by
    simp [TargetEngine.total, ha, hb]
  have hm :=
    TargetEngine.leaves_moved h.merged (fun x hx => by rw [List.mem_singleton.mp hx]; exact hj) hs hdur
      fun event he => by
    rw [hrecords] at he
    rw [List.mem_singleton.mp he]
    exact ⟨hlast, hdone⟩
  have hp := TargetEngine.leaves_moved h.plain
    (fun x hx => (TargetEngine.joins_of_core h.core _).mpr
      ⟨hj.blocked, hj.connected, hj.active, (h.epoch x hx).trans hj.epoch⟩)
    (mt (TargetEngine.silent_of_core h.core _).mp hs) hdur fun event he => by
      rw [TargetEngine.seq_of_core h.core, h.splits.events] at he
      exact (hnew event he).imp_left (TargetEngine.validInput_of_core h.core _).mpr
  have hone : TargetEngine.newest t.merged.seq ([item].map Item.event) = item.event.seq := max_eq_right hseq.le
  rw [hrecords, hone, htotal'] at hm
  rw [TargetEngine.seq_of_core h.core, h.splits.events, hnewest', htotal, h.alike.core, ← h.length] at hp
  exact h.alike.of_leaves hm hp h.queues rfl

/-- Whatever becomes of the item becomes of its frames. -/
theorem Merged.process (h : t.Merged env item segment rest more) (hdur : env.durationUs = 0)
    (hcoherent : t.merged.Coherent env item) : (t.act (.process env)).Alike := by
  obtain ⟨-, hop, hall, -, -, -, -, last, hlast, hlastSeq, -⟩ := h.splits.merge.resolve_left fun hone =>
    absurd h.parts (by rw [hone]; simp)
  by_cases hj : t.merged.Joins item.event
  · -- what ends the session by the item's lights, ends it by those of a part
    have hjoins : ∀ x : Item, x.event ∈ item.event :: item.parts → ∀ q,
        x.event.op = .move ∧ (t.merged.core.withQueue q).Joins x.event := by
      intro x hx q
      rcases List.mem_cons.mp hx with hx | hx
      · rw [hx]
        exact ⟨hop, hj.blocked, hj.connected, hj.active, hj.epoch⟩
      · exact ⟨(hall _ hx).1, hj.blocked, hj.connected, hj.active, (hall _ hx).2.trans hj.epoch⟩
    have hfirst : ∀ {first events}, TargetEngine.records t.merged.seq item.parts = first :: events →
        first ∈ item.parts ∧ t.merged.seq < first.seq := by
      intro first events hrecords
      obtain ⟨before, after, hparts, -, hlt⟩ := TargetEngine.records_cons hrecords
      rw [hparts]
      exact ⟨by simp, hlt⟩
    cases hcoherent with
    | single hone => exact absurd h.parts (by omega)
    | elsewhere hno => exact absurd hj hno
    | old hrecords =>
        have hold := TargetEngine.records_nil hrecords
        refine h.ignored (.inr ?_) fun x hx => .inr (hold _ ?_)
        · rw [hlastSeq]
          exact hold last (List.mem_of_getLast? hlast)
        · rw [← h.splits.events]
          exact List.mem_map_of_mem hx
    | stale first events hrecords hstale hseq hlast =>
        obtain ⟨hmem, hlt⟩ := hfirst hrecords
        refine h.ended hrecords (d := t.merged.core) fun x hx age q => ?_
        have hx' : x.event ∈ item.event :: item.parts ∧ t.merged.seq < x.event.seq ∧ ¬ t.merged.ValidInput env x.event := by
          rcases hx with hx | hx
          · rw [hx]; exact ⟨List.mem_cons_self, hseq, hlast⟩
          · rw [hx]; exact ⟨List.mem_cons_of_mem _ hmem, hlt, hstale⟩
        obtain ⟨hmove, hjoin⟩ := hjoins x hx'.1 q
        exact ⟨_, TargetEngine.processItem_rejected hmove hjoin hx'.2.1 hx'.2.2⟩
    | silent first events hrecords hs hvalid hlast hseq =>
        obtain ⟨hmem, hlt⟩ := hfirst hrecords
        refine h.ended hrecords (d := t.merged.core.withSeq item.event.seq) fun x hx age q => ?_
        have hx' : x.event ∈ item.event :: item.parts ∧ x.event.seq = item.event.seq ∧ t.merged.ValidInput env x.event := by
          rcases hx with hx | hx
          · rw [hx]; exact ⟨List.mem_cons_self, rfl, hlast⟩
          · rw [hx]; exact ⟨List.mem_cons_of_mem _ hmem, hseq.symm, hvalid⟩
        obtain ⟨hmove, hjoin⟩ := hjoins x hx'.1 q
        have hnew : t.merged.seq < x.event.seq := by
          rw [hx'.2.1, hseq]
          exact hlt
        have hend := TargetEngine.processItem_silent age hmove hjoin hnew hx'.2.2 hs
        rw [hx'.2.1] at hend
        exact hend
    | moved hs hnew hlast hdone hseq hnewest htotal => exact h.moved hj hdur hs hnew hlast hdone hseq hnewest htotal
  · refine h.ignored (.inl hj) fun x hx => .inl fun hx' => hj ?_
    exact ⟨hx'.blocked, hx'.connected, hx'.active, (h.epoch x hx).symm.trans hx'.epoch⟩

end Merged

/-! ## Runs -/

theorem Alike.process (h : t.Alike) (hc : t.Calm (.process env)) (hcoherent : t.Coherent (.process env)) :
    (t.act (.process env)).Alike := by
  obtain ⟨hnow, hpop, hdur, hcalm⟩ := hc
  change env.popNow = t.now at hpop
  change (t.merged.queue.pop env.popNow).2 ≠ .overload at hcalm
  have hcase := t.merged.queue.pop_cases env.popNow
  generalize hresult : t.merged.queue.pop env.popNow = result at hcalm hcase
  cases hcase with
  | failed | expired => exact absurd rfl hcalm
  | empty hf hq =>
      have hm := TargetEngine.leaves_empty env hf hq 1
      have hplain : t.plain.queue.items = [] := by
        obtain ⟨segments, hflat, hall⟩ := h.queue.segments
        rw [hq] at hall
        cases hall
        exact hflat.symm
      have hp := TargetEngine.leaves_empty env (h.queue.failed.trans hf) hplain t.merged.headParts.length
      rw [h.core] at hp
      exact h.of_leaves hm hp h.queue rfl
  | item item more hf hq hage =>
      by_cases hone : item.parts.length ≤ 1
      · exact h.process_single hf hq hage hone
      · have hsegments := h.queue.segments
        rw [hq] at hsegments
        obtain ⟨segment, rest, hplain, hsplits, hrest⟩ := Segments.of_cons hsegments
        have hparts : 2 ≤ item.parts.length := by omega
        obtain ⟨-, hop, hall, -⟩ := hsplits.merge.resolve_left fun hone => absurd hparts (by rw [hone]; simp)
        refine Merged.process ⟨h, ⟨hf, hq, ?_, ?_⟩, ⟨h.queue.failed.trans hf, hplain, ?_, ?_⟩, hsplits, hparts, hrest⟩ hdur
          (hcoherent item (by rw [hq]; rfl))
        · intro x hx
          rw [List.mem_singleton.mp hx]
          exact hage
        · intro x hx
          rw [List.mem_singleton.mp hx]
          exact hop
        · obtain ⟨x, tail, rfl, hentered, htail⟩ := hsplits.first
          intro y hy
          rw [h.queue.maxAge]
          rcases List.mem_cons.mp hy with rfl | hy
          · rw [hentered]; exact hage
          · rw [htail y hy, hpop, sub_self]; exact h.age
        · intro x hx
          refine (hall x.event ?_).1
          rw [← hsplits.events]
          exact List.mem_map_of_mem hx

theorem Alike.step (h : t.Alike) (hcoherent : t.Coherent op) {t' : Twins} (hs : t.step op = some t') : t'.Alike := by
  unfold Twins.step at hs
  split at hs <;> cases hs
  rename_i hc
  cases op with
  | receive env event => exact h.receive hc
  | process env => exact h.process hc hcoherent

/-- In a calm run in which every item fares as its frames, the engine agrees with the one that merges nothing: in its epoch,
sequence number, held keys and buttons and in whether it is blocked, in every call for a key, a button or scrolling, and in
the total movement between any two of them. -/
theorem coalescing_agrees {s : TargetEngine} (hage : 0 ≤ s.queue.maxAge) (hs : run now s ops = some t)
    (hcoherent : Runs.Before step (start now s) Coherent ops) : t.Agree := by
  have h : t.Alike := hcoherent.invariant (alike_start s hage) (fun _ _ _ h hc hs => h.step hc hs) hs
  exact h.agree

/-! ## Two moves -/

/-- A session of epoch 5. -/
def session : TargetEngine :=
  TargetEngine.initial.exec [.setConnected { now := 0 } true, .tick { now := 1 } 7,
    .receive { now := 1 } { op := .activate, epoch := 5, seq := 1, lease := 7 }, .processOne { now := 1 }]

/-- Two moves that are merged. -/
def twoMoves (seq : Nat) : List TwinOp :=
  [.receive { now := 1 } { op := .move, epoch := 5, seq := 2, lease := 7, a := 3 },
   .receive { now := 1 } { op := .move, epoch := 5, seq := seq, lease := 7, a := 3 }, .process { now := 1 }]

theorem coalescing_agrees_moves : ∃ t, run 1 session (twoMoves 3) = some t ∧ t.Agree := by
  obtain ⟨t, ht⟩ : ∃ t, run 1 session (twoMoves 3) = some t := Option.isSome_iff_exists.mp (by decide +kernel)
  refine ⟨t, ht, coalescing_agrees (by decide +kernel) ht ?_⟩
  have hstep : ∀ {u u' : Twins} {op : TwinOp}, u.step op = some u' → u' = u.act op := by
    intro u u' op h
    unfold Twins.step at h
    split at h <;> cases h
    rfl
  rw [twoMoves, Runs.before_cons]
  refine ⟨trivial,
    fun u hu => Runs.before_cons.mpr ⟨trivial, fun v hv => Runs.before_cons.mpr ⟨?_, fun _ _ => Runs.before_nil⟩⟩⟩
  cases hstep hu
  cases hstep hv
  intro item hitem
  have hhead : (((start 1 session).act (.receive { now := 1 } { op := .move, epoch := 5, seq := 2, lease := 7, a := 3 })).act
      (.receive { now := 1 } { op := .move, epoch := 5, seq := 3, lease := 7, a := 3 })).merged.queue.items.head? =
      some ⟨{ op := .move, epoch := 5, seq := 3, lease := 7, a := 6 }, 1,
        [{ op := .move, epoch := 5, seq := 2, lease := 7, a := 3 },
          { op := .move, epoch := 5, seq := 3, lease := 7, a := 3 }]⟩ := by
    decide +kernel
  rw [hhead] at hitem
  cases hitem
  exact .moved (by decide +kernel) (by decide +kernel) (by decide +kernel) (by decide +kernel) (by decide +kernel)
    (by decide +kernel) (by decide +kernel)

/-- The same move is received twice before it is processed, and is injected twice. -/
theorem repeated_move_disagrees :
    ¬ ∀ now s ops t, 0 ≤ s.queue.maxAge → run now s ops = some t → t.Agree := by
  intro h
  obtain ⟨t, ht⟩ : ∃ t, run 1 session (twoMoves 2) = some t := Option.isSome_iff_exists.mp (by decide +kernel)
  have hmoved : ((run 1 session (twoMoves 2)).map fun t => (({} : Trace).adds t.mergedOut).moved) = some (6, 0) := by
    decide +kernel
  have hmoved' : ((run 1 session (twoMoves 2)).map fun t => (({} : Trace).adds t.plainOut).moved) = some (3, 0) := by
    decide +kernel
  rw [ht, Option.map_some, Option.some.injEq] at hmoved hmoved'
  have hagree := (h 1 session (twoMoves 2) t (by decide +kernel) ht).injected
  rw [hagree, hmoved'] at hmoved
  exact absurd hmoved (by decide)

end Twins

end RemoteInput
