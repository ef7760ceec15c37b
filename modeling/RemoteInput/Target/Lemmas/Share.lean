import RemoteInput.Controller.Lemmas.Inputs
import RemoteInput.Engine.Lemmas.Effective
import RemoteInput.Target.Semantics

/-!
# The engine's share of one epoch

What the engine has injected in an epoch stands for the first inputs that it got of it. While the epoch is active, the rest
of them are in its queue or in the worker's hand; when it is over, the engine does not come back to it.
-/

namespace RemoteInput

/-! ## What becomes of inputs -/

/-- The calls that inputs make, one after the other, and what is held then. -/
def Held.play (h : Held) : List Input → List Call × Held
  | [] => ([], h)
  | i :: more =>
      ((h.inject i.event).1.toList ++ ((h.inject i.event).2.play more).1, ((h.inject i.event).2.play more).2)

theorem Held.play_concat (h : Held) (ms : List Input) (i : Input) :
    h.play (ms ++ [i]) =
      ((h.play ms).1 ++ ((h.play ms).2.inject i.event).1.toList, ((h.play ms).2.inject i.event).2) := by
  induction ms generalizing h with
  | nil => simp [Held.play]
  | cons j ms ih => simp [Held.play, ih]

/-- What an event does is what its input does. -/
theorem Held.inject_input (h : Held) {event : Event} {i : Input} (hi : event.input = some i) :
    h.inject event = h.inject i.event := by
  unfold Event.input at hi
  split at hi <;> cases hi
  · simp [Held.inject, Input.event, *]
  · by_cases hb : event.b = 0 <;> simp [Held.inject, Input.event, *]
  · by_cases hb : event.b = 0 <;> simp [Held.inject, Input.event, *]
  · simp [Held.inject, Input.event, *]

theorem Held.inject_none (h : Held) {event : Event} (hi : event.input = none) : h.inject event = (none, h) :=
  Held.inject_of_not_input (Event.input_eq_none.mp hi)

theorem inputs_cons (event : Event) (l : List Event) : inputs (event :: l) = event.input.toList ++ inputs l := by
  unfold inputs
  cases h : event.input <;> simp [h]

/-! ## What was told and done -/

/-- The target has activated the epoch. -/
def Heard (e : Nat) (done : List (Nat × List Out)) : Prop := ∃ x ∈ done, .emit (.activated e) ∈ x.2

/-- The calls for frames that reached the operating system in operations that began in the epoch. -/
def callsIn (e : Nat) (done : List (Nat × List Out)) : List Call :=
  done.flatMap fun x => if x.1 = e then effective x.2 else []

variable {e n : Nat} {got : List Event} {done : List (Nat × List Out)} {outs : List Out} {event : Event}

theorem heard_concat : Heard e (done ++ [(n, outs)]) ↔ Heard e done ∨ .emit (.activated e) ∈ outs := by
  simp [Heard, or_and_right, exists_or]

theorem callsIn_concat : callsIn e (done ++ [(n, outs)]) = callsIn e done ++ if n = e then effective outs else [] := by
  simp [callsIn]

theorem not_mem_of_announced (h : announced outs = []) : .emit (.activated e) ∉ outs := by
  intro hm
  have hmem : Message.activated e ∈ announced outs := mem_announced.mpr ⟨hm, rfl⟩
  rw [h] at hmem
  cases hmem

/-- What the engine gets of an epoch: at most one `ACTIVATE`, newer frames later, and input only when it has activated the
epoch. -/
structure Proper (got : List Event) (heard : Prop) : Prop where
  single : got.countP (fun f => f.op = .activate) ≤ 1
  sorted : got.Pairwise fun x y => x.seq < y.seq
  told : inputs got ≠ [] → heard

/-! ## The invariant -/

namespace EngineThreads

variable {p p' : EngineThreads} {op : ThreadOp}

/-- The events that the engine still has to process. -/
def events (p : EngineThreads) : List Event := p.items.map Item.event

/-- `got` are the frames of the epoch that the engine got. -/
structure Share (e : Nat) (got : List Event) (done : List (Nat × List Out)) (p : EngineThreads) : Prop where
  parts : ∀ item ∈ p.items, item.parts ≠ []
  online : p.Online
  count : (ofEpoch e p.events).countP (fun f => f.op = .activate) ≤ got.countP (fun f => f.op = .activate)
  spent : Heard e done → (ofEpoch e p.events).countP (fun f => f.op = .activate) < got.countP (fun f => f.op = .activate)
  seqs : ∀ x ∈ ofEpoch e p.events, ∃ f ∈ got, f.seq = x.seq
  told : inputs (ofEpoch e p.events) ≠ [] → Heard e done
  sorted : (ofEpoch e p.events).Pairwise fun x y => x.seq < y.seq
  active : p.engine.epoch = e → Heard e done ∧ ∃ f ∈ got, f.seq = p.engine.seq
  order : p.engine.epoch = e → ∀ x ∈ ofEpoch e p.events, p.engine.seq < x.seq
  past : ∃ taken ms, taken <+: inputs got ∧ Segments (Fuses Input.join) taken ms ∧ callsIn e done = (Held.play {} ms).1
  live : p.engine.epoch = e → p.engine.blocked = false → p.register ≠ .overloaded →
    ∃ before after ms, inputs got = before ++ after ∧ Segments (Fuses Input.join) before ms ∧
      callsIn e done = (Held.play {} ms).1 ∧ p.engine.held = (Held.play {} ms).2 ∧
      Segments (Fuses Input.join) after (inputs (ofEpoch e p.events))

/-- A new process has nothing of the epoch, and goes on with the log of those before. -/
theorem Share.restart (h : Share e got done p) (he : e ≠ 0) : Share e got done {} := by
  have hnone : ofEpoch e ({} : EngineThreads).events = [] := rfl
  refine ⟨by simp [items, Register.items], fun hep => absurd rfl hep, ?_, fun hh => ?_, ?_, ?_, ?_,
    fun hep => absurd hep.symm he, fun hep => absurd hep.symm he, h.past, fun hep => absurd hep.symm he⟩
  · simp [hnone]
  · rw [hnone]
    exact (Nat.zero_le _).trans_lt (h.spent hh)
  · simp [hnone]
  · simp [hnone]
  · simp [hnone]

theorem Share.start (he : e ≠ 0) : Share e [] [] {} := by
  refine Share.restart (p := {}) ?_ he
  refine ⟨by simp [items, Register.items], fun hep => absurd rfl hep, ?_, ?_, ?_, ?_, ?_, fun hep => absurd hep.symm he,
    fun hep => absurd hep.symm he, ⟨[], [], List.nil_prefix, .nil, rfl⟩, fun hep => absurd hep.symm he⟩
  · simp [events, items, Register.items]
  · rintro ⟨x, hx, -⟩
    cases hx
  · simp [events, items, Register.items]
  · simp [events, items, Register.items]
  · simp [events, items, Register.items]

/-! ## Operations without a frame -/

theorem events_sublist (h : p'.items.Sublist p.items) : (ofEpoch e p'.events).Sublist (ofEpoch e p.events) :=
  (h.map Item.event).filter _

theorem inputs_sublist {l l' : List Event} (h : l'.Sublist l) (hn : inputs l' ≠ []) : inputs l ≠ [] := by
  intro hnil
  have hsub : (inputs l').Sublist (inputs l) := h.filterMap _
  rw [hnil] at hsub
  exact hn (List.sublist_nil.mp hsub)

/-- An operation that processes no frame and brings none. -/
theorem Share.rest (h : Share e got done p) (he : e ≠ 0) (hs : p.step op = some p') (hitems : p'.items.Sublist p.items)
    (hin : injected p'.engine.out = []) (hann : announced p'.engine.out = [])
    (hsession : p'.engine.epoch = 0 ∨
      p'.engine.epoch = p.engine.epoch ∧ p'.engine.seq = p.engine.seq ∧ p'.engine.held = p.engine.held)
    (hkeep : p'.engine.epoch = 0 ∨ p'.register = .overloaded ∨ p'.items = p.items ∧ p.register ≠ .overloaded) :
    Share e got (done ++ [(p.engine.epoch, p'.engine.out)]) p' := by
  have hheard : Heard e (done ++ [(p.engine.epoch, p'.engine.out)]) ↔ Heard e done := by
    rw [heard_concat, or_iff_left (not_mem_of_announced hann)]
  have hcalls : callsIn e (done ++ [(p.engine.epoch, p'.engine.out)]) = callsIn e done := by
    rw [callsIn_concat, effective_of_injected hin]
    simp
  have hsub : (ofEpoch e p'.events).Sublist (ofEpoch e p.events) := events_sublist hitems
  have hsame : p'.engine.epoch = e →
      p'.engine.epoch = p.engine.epoch ∧ p'.engine.seq = p.engine.seq ∧ p'.engine.held = p.engine.held := fun hep =>
    hsession.resolve_left fun h0 => he (hep.symm.trans h0)
  refine ⟨fun item hi => h.parts item (hitems.subset hi), h.online.step hs, (hsub.countP_le).trans h.count, fun hh => ?_,
    fun x hx => h.seqs x (hsub.subset hx), fun hn => ?_, h.sorted.sublist hsub, fun hep => ?_, fun hep x hx => ?_, ?_,
    fun hep hb hreg => ?_⟩
  · exact hsub.countP_le.trans_lt (h.spent (hheard.mp hh))
  · exact hheard.mpr (h.told (inputs_sublist hsub hn))
  · obtain ⟨hepoch, hseq, -⟩ := hsame hep
    obtain ⟨hh, f, hf, hfs⟩ := h.active (hepoch.symm.trans hep)
    exact ⟨hheard.mpr hh, f, hf, hfs.trans hseq.symm⟩
  · obtain ⟨hepoch, hseq, -⟩ := hsame hep
    rw [hseq]
    exact h.order (hepoch.symm.trans hep) x (hsub.subset hx)
  · rw [hcalls]; exact h.past
  · obtain ⟨hepoch, -, hheld⟩ := hsame hep
    rcases hkeep with h0 | hover | ⟨hall, hregister⟩
    · exact absurd (hep.symm.trans h0) he
    · exact absurd hover hreg
    have hunblocked : p.engine.blocked = false := by
      cases hpb : p.engine.blocked with
      | false => rfl
      | true => rw [step_blocked hpb hs] at hb; cases hb
    rw [hcalls, hheld, show p'.events = p.events from congrArg (List.map Item.event) hall]
    exact h.live (hepoch.symm.trans hep) hunblocked hregister

theorem Share.popped (h : Share e got done p) (he : e ≠ 0) {env : Env} (hs : p.step (.pop env) = some p')
    (hitems : p'.items = p.items) (hstill : p.engine.Still p'.engine) :
    Share e got (done ++ [(p.engine.epoch, p'.engine.out)]) p' := by
  refine h.rest he hs (hitems ▸ List.Sublist.refl _) hstill.calls hstill.announced
    (.inr ⟨hstill.epoch, hstill.seq, hstill.held⟩) (.inr (.inr ⟨hitems, ?_⟩))
  simp only [EngineThreads.step] at hs
  split at hs
  · rename_i hidle
    rw [hidle]
    simp
  · cases hs

/-! ## A frame comes -/

/-- A put on the queue, for the events of one epoch: one more, or a move that is merged into the last. -/
theorem put_ofEpoch {q : InputQueue} {now : Time} (hok : (q.put now event).ok = true) (before : List Event) :
    ofEpoch e (before ++ (q.put now event).queue.events) = ofEpoch e (before ++ q.events) ++ ofEpoch e [event] ∨
      ∃ init last, event.epoch = e ∧ ofEpoch e (before ++ q.events) = init ++ [last] ∧ last.coalesces event ∧
        ofEpoch e (before ++ (q.put now event).queue.events) = init ++ [last.merge event] := by
  rcases InputQueue.put_events hok with hq | ⟨init, last, hq, hco, hq'⟩
  · left
    rw [hq, ← List.append_assoc, ofEpoch_append]
  have hlast : last.epoch = event.epoch := hco.2.2
  have hmerge : (last.merge event).epoch = event.epoch := rfl
  rw [hq, hq', ← List.append_assoc, ← List.append_assoc]
  by_cases hep : event.epoch = e
  · right
    refine ⟨ofEpoch e (before ++ init), last, hep, ?_, hco, ?_⟩
    · rw [ofEpoch_append e (before ++ init) [last], ofEpoch_self (hlast.trans hep)]
    · rw [ofEpoch_append e (before ++ init) [last.merge event], ofEpoch_self (hmerge.trans hep)]
  · left
    have hnone : ofEpoch e [event] = [] := ofEpoch_other hep
    have hnone' : ofEpoch e [last] = [] := ofEpoch_other (hlast ▸ hep)
    have hnone'' : ofEpoch e [last.merge event] = [] := ofEpoch_other hep
    rw [ofEpoch_append e (before ++ init) [last], ofEpoch_append e (before ++ init) [last.merge event], hnone,
      hnone', hnone'', List.append_nil, List.append_nil]

/-- What waits after a frame has come is newer than what was got before, or waited before. -/
theorem mem_put_ofEpoch {q : InputQueue} {now : Time} (hok : (q.put now event).ok = true) {before : List Event} {x : Event}
    (hx : x ∈ ofEpoch e (before ++ (q.put now event).queue.events)) :
    x ∈ ofEpoch e (before ++ q.events) ∨ event ∈ ofEpoch e [event] ∧ x.seq = event.seq := by
  rcases put_ofEpoch hok before with hl | ⟨init, last, hep, hl, -, hl'⟩
  · rw [hl] at hx
    refine (List.mem_append.mp hx).imp_right fun hx => ?_
    have heq : x = event := List.mem_singleton.mp (mem_ofEpoch.mp hx).1
    subst heq
    exact ⟨hx, rfl⟩
  · rw [hl'] at hx
    rcases List.mem_append.mp hx with hx | hx
    · exact .inl (by rw [hl]; exact List.mem_append_left _ hx)
    · rw [List.mem_singleton.mp hx]
      exact .inr ⟨by rw [ofEpoch_self hep]; exact List.mem_singleton_self _, rfl⟩

theorem Share.received (h : Share e got done p) (hg : Proper (got ++ ofEpoch e [event]) (Heard e done)) {env : Env}
    (hs : p.step (.receive env event) = some p') (hok : (p.engine.queue.put env.now event).ok = true)
    (hq : p'.engine.queue = (p.engine.queue.put env.now event).queue) (hreg : p'.register = p.register)
    (hstill : p.engine.Still p'.engine) :
    Share e (got ++ ofEpoch e [event]) (done ++ [(p.engine.epoch, p'.engine.out)]) p' := by
  have hheard : Heard e (done ++ [(p.engine.epoch, p'.engine.out)]) ↔ Heard e done := by
    rw [heard_concat, or_iff_left (not_mem_of_announced hstill.announced)]
  have hcalls : callsIn e (done ++ [(p.engine.epoch, p'.engine.out)]) = callsIn e done := by
    rw [callsIn_concat, effective_of_injected hstill.calls]
    simp
  have hold : p.events = p.register.items.map Item.event ++ p.engine.queue.events := List.map_append
  have hnew : p'.events = p.register.items.map Item.event ++ (p.engine.queue.put env.now event).queue.events := by
    rw [events, items, hreg, hq]
    exact List.map_append
  have hmem : ∀ x ∈ ofEpoch e p'.events, x ∈ ofEpoch e p.events ∨ event ∈ ofEpoch e [event] ∧ x.seq = event.seq := by
    rw [hold, hnew]
    exact fun x hx => mem_put_ofEpoch hok hx
  have hput := put_ofEpoch (e := e) hok (p.register.items.map Item.event)
  rw [← hold, ← hnew] at hput
  -- the new frame is newer than all before it
  have hnewer : event ∈ ofEpoch e [event] → ∀ f ∈ got, f.seq < event.seq := fun he f hf =>
    (List.pairwise_append.mp hg.sorted).2.2 f hf event he
  refine ⟨?_, h.online.step hs, ?_, fun hh => ?_, fun x hx => ?_, fun hn => ?_, ?_, fun hep => ?_, fun hep x hx => ?_, ?_,
    fun hep hb hover => ?_⟩
  · intro item hi
    rcases List.mem_append.mp hi with hi | hi
    · exact h.parts item (List.mem_append_left _ (hreg ▸ hi))
    · rw [hq] at hi
      exact InputQueue.put_forall (P := fun item => item.parts ≠ [])
        (fun item hi => h.parts item (List.mem_append_right _ hi))
        (by simp) (fun last _ _ _ => by simp [Item.absorb]) item hi
  · rcases hput with hl | ⟨init, last, -, hl, hco, hl'⟩
    · rw [hl, List.countP_append, List.countP_append]
      exact Nat.add_le_add_right h.count _
    · have hcount := h.count
      rw [hl, List.countP_append] at hcount
      rw [hl', List.countP_append, List.countP_append, List.countP_singleton, if_neg (by simp [Event.merge, hco.1])]
      omega
  · have hlt := h.spent (hheard.mp hh)
    rcases hput with hl | ⟨init, last, -, hl, hco, hl'⟩
    · rw [hl, List.countP_append, List.countP_append]
      exact Nat.add_lt_add_right hlt _
    · rw [hl, List.countP_append] at hlt
      rw [hl', List.countP_append, List.countP_append, List.countP_singleton, if_neg (by simp [Event.merge, hco.1])]
      omega
  · rcases hmem x hx with hx | ⟨he, hxs⟩
    · obtain ⟨f, hf, hfs⟩ := h.seqs x hx
      exact ⟨f, List.mem_append_left _ hf, hfs⟩
    · exact ⟨event, List.mem_append_right _ he, hxs.symm⟩
  · rw [hheard]
    rcases hput with hl | ⟨init, last, hep, hl, hco, hl'⟩
    · rw [hl, inputs_append] at hn
      by_cases hn' : inputs (ofEpoch e p.events) = []
      · refine hg.told ?_
        rw [hn', List.nil_append] at hn
        rw [inputs_append]
        exact fun h0 => hn (List.append_eq_nil_iff.mp h0).2
      · exact h.told hn'
    · obtain ⟨-, y, -, -, hy, -⟩ := Event.input_merge hco
      refine hg.told ?_
      rw [inputs_append, ofEpoch_self hep, inputs_one hy]
      simp
  · rcases hput with hl | ⟨init, last, hep, hl, hco, hl'⟩
    · rw [hl, List.pairwise_append]
      refine ⟨h.sorted, (List.pairwise_singleton _ event).sublist List.filter_sublist, fun x hx y hy => ?_⟩
      obtain ⟨f, hf, hfs⟩ := h.seqs x hx
      have hlt := hnewer (by rwa [List.mem_singleton.mp (mem_ofEpoch.mp hy).1] at hy) f hf
      rw [List.mem_singleton.mp (mem_ofEpoch.mp hy).1]
      omega
    · have hsorted := h.sorted
      rw [hl, List.pairwise_append] at hsorted
      rw [hl', List.pairwise_append]
      refine ⟨hsorted.1, List.pairwise_singleton _ _, fun x hx y hy => ?_⟩
      obtain ⟨f, hf, hfs⟩ := h.seqs x (by rw [hl]; exact List.mem_append_left _ hx)
      have hlt := hnewer (by rw [ofEpoch_self hep]; exact List.mem_singleton_self _) f hf
      rw [List.mem_singleton.mp hy, show (last.merge event).seq = event.seq from rfl]
      omega
  · obtain ⟨hh, f, hf, hfs⟩ := h.active (hstill.epoch ▸ hep)
    exact ⟨hheard.mpr hh, f, List.mem_append_left _ hf, hfs.trans hstill.seq.symm⟩
  · rw [hstill.seq]
    rcases hmem x hx with hx | ⟨he, hxs⟩
    · exact h.order (hstill.epoch ▸ hep) x hx
    · obtain ⟨-, f, hf, hfs⟩ := h.active (hstill.epoch ▸ hep)
      have := hnewer he f hf
      omega
  · obtain ⟨taken, ms, htaken, hsegments, hplay⟩ := h.past
    refine ⟨taken, ms, htaken.trans ?_, hsegments, hcalls.trans hplay⟩
    rw [inputs_append]
    exact List.prefix_append _ _
  · have hunblocked : p.engine.blocked = false := by
      cases hpb : p.engine.blocked with
      | false => rfl
      | true => rw [step_blocked hpb hs] at hb; cases hb
    obtain ⟨before, after, ms, hsplit, hbefore, hplay, hheld, hafter⟩ :=
      h.live (hstill.epoch ▸ hep) hunblocked (hreg ▸ hover)
    refine ⟨before, after ++ inputs (ofEpoch e [event]), ms, ?_, hbefore, hcalls.trans hplay, hstill.held.trans hheld, ?_⟩
    · rw [inputs_append, hsplit, List.append_assoc]
    · rw [hnew, ofEpoch_append]
      refine Segments.put ?_ hok
      rw [← ofEpoch_append, ← hold, inputs_append]
      exact hafter.append (Segments.fuse_refl _ _)

/-! ## A frame is processed -/

section Processed

variable {env : Env} {item : Item} {age : Time} {s : TargetEngine}

/-- Nothing stands for nothing. -/
theorem fuses_nil {ms : List Input} (h : Segments (Fuses Input.join) [] ms) : ms = [] := by
  cases ms with
  | nil => rfl
  | cons m ms =>
      obtain ⟨segment, rest, hnil, hsegment, -⟩ := h.of_cons
      obtain ⟨rfl, -⟩ := List.append_eq_nil_iff.mp hnil.symm
      generalize hl : ([] : List Input) = l at hsegment
      cases hsegment with
      | one => cases hl
      | more => exact absurd hl.symm (by simp)

/-- The item in hand comes before the queue. -/
theorem events_popped (hreg : p.register = .popped item age) : p.events = item.event :: p.engine.queue.events := by
  rw [events, items, hreg]
  rfl

/-- Before an `ACTIVATE` starts its epoch, nothing of the epoch was injected. -/
theorem Share.unheard (h : Share e got done p) (hg : Proper got (Heard e done)) (hreg : p.register = .popped item age)
    (hop : item.event.op = .activate) (hep : item.event.epoch = e) :
    ¬ Heard e done ∧ inputs got = [] ∧ callsIn e done = [] := by
  have hnot : ¬ Heard e done := by
    intro hh
    have hlt := h.spent hh
    have hone := hg.single
    have hzero : (ofEpoch e p.events).countP (fun f => f.op = .activate) = 0 := by omega
    rw [List.countP_eq_zero] at hzero
    refine hzero item.event ?_ (by simpa using hop)
    rw [events_popped hreg, ofEpoch_cons_self _ hep]
    exact List.mem_cons_self
  have hnone : inputs got = [] := by
    by_contra hn
    exact hnot (hg.told hn)
  obtain ⟨taken, ms, htaken, hsegments, hplay⟩ := h.past
  rw [hnone, List.prefix_nil] at htaken
  rw [htaken] at hsegments
  rw [fuses_nil hsegments] at hplay
  exact ⟨hnot, hnone, hplay⟩

/-- A new frame of the session makes the calls of its input. -/
theorem Share.advance (h : Share e got done p) (hreg : p.register = .popped item age) (hep : p.engine.epoch = e)
    (hf : p.engine.fresh item.event) :
    ∃ before after ms, inputs got = before ++ after ∧ Segments (Fuses Input.join) before ms ∧
      callsIn e done ++ (p.engine.held.inject item.event).1.toList = (Held.play {} ms).1 ∧
      (p.engine.held.inject item.event).2 = (Held.play {} ms).2 ∧
      Segments (Fuses Input.join) after (inputs (ofEpoch e p.engine.queue.events)) := by
  obtain ⟨before, after, ms, hsplit, hbefore, hplay, hheld, hafter⟩ := h.live hep hf.2.1 (by rw [hreg]; simp)
  rw [events_popped hreg, ofEpoch_cons_self _ (hf.2.2.2.2.1.trans hep), inputs_cons] at hafter
  cases hi : item.event.input with
  | none =>
      rw [hi] at hafter
      refine ⟨before, after, ms, hsplit, hbefore, ?_, ?_, hafter⟩
      · rw [Held.inject_none _ hi, hplay]
        simp
      · rw [Held.inject_none _ hi, hheld]
  | some i =>
      rw [hi] at hafter
      obtain ⟨segment, rest, rfl, hsegment, hrest⟩ := Segments.of_cons hafter
      refine ⟨before ++ segment, rest, ms ++ [i], by rw [hsplit, List.append_assoc], hbefore.concat hsegment, ?_, ?_, hrest⟩
      · rw [Held.inject_input _ hi, Held.play_concat, hplay, hheld]
      · rw [Held.inject_input _ hi, Held.play_concat, hheld]

/-- What the worker makes of the item in its hand, with the effects of this operation only. -/
structure Handled (env : Env) (item : Item) (s t : TargetEngine) : Prop where
  frame : TargetEngine.FrameCase env item s t
  fares : TargetEngine.Fares item s t
  queue : t.queue = s.queue ∨ t.epoch = 0 ∨ s.activates env item.event
  items : t.queue.items.Sublist s.queue.items
  announced : announced t.out = [] ∨
    item.event.op = .activate ∧ t.epoch = item.event.epoch ∧ announced t.out = [.activated item.event.epoch]
  activates : s.activates env item.event → t.epoch = item.event.epoch ∧ .emit (.activated item.event.epoch) ∈ t.out

theorem handled (env : Env) (age : Time) (s : TargetEngine) (hp : item.parts ≠ []) (ho : s.out = []) :
    Handled env item s (s.processItem env item age).1 := by
  refine ⟨TargetEngine.processItem_frame env item age s hp, TargetEngine.processItem_fares env age s hp,
    TargetEngine.processItem_queue env item age s, ?_, ?_, fun ha => ?_⟩
  · rcases (TargetEngine.keeps_processItem env item age s).queue with hq | hq
    · rw [hq]
    · rw [hq]; exact List.nil_sublist _
  · have hann := TargetEngine.processItem_announced env item age s
    rw [ho, announced_nil, List.nil_append] at hann
    exact hann.imp_right fun ⟨h1, _, h2, h3⟩ => ⟨h1, h2, h3⟩
  · obtain ⟨hep, -, -, -, hout⟩ := TargetEngine.processItem_activates age ha
    exact ⟨hep, by rw [hout]; simp⟩

/-- The `ACTIVATE` of the epoch starts it. -/
theorem Share.started (h : Share e got done p) (he : e ≠ 0) (hg : Proper got (Heard e done)) {t : TargetEngine}
    (hs : p.step (.body env) = some ⟨t, .idle⟩) (hreg : p.register = .popped item age)
    (ht : Handled env item { p.engine with out := [] } t) (hnew : .emit (.activated e) ∈ t.out) :
    Share e got (done ++ [(p.engine.epoch, t.out)]) ⟨t, .idle⟩ := by
  have hmem : Message.activated e ∈ announced t.out := mem_announced.mpr ⟨hnew, rfl⟩
  obtain ⟨hop, hepoch, hann⟩ := ht.announced.resolve_left fun hnone => by rw [hnone] at hmem; cases hmem
  have hep : item.event.epoch = e := by
    rw [hann, List.mem_singleton] at hmem
    cases hmem
    rfl
  have hte : t.epoch = e := hepoch.trans hep
  obtain ⟨hnot, hnone, hcalls⟩ := h.unheard hg hreg hop hep
  have hne : p.engine.epoch ≠ e := fun hpe => hnot (h.active hpe).1
  have hheard : Heard e (done ++ [(p.engine.epoch, t.out)]) := heard_concat.mpr (.inr hnew)
  have hcalls' : callsIn e (done ++ [(p.engine.epoch, t.out)]) = [] := by
    rw [callsIn_concat, hcalls, if_neg hne, List.nil_append]
  have hevents : ofEpoch e p.events = item.event :: ofEpoch e p.engine.queue.events := by
    rw [events_popped hreg, ofEpoch_cons_self _ hep]
  have hsub : (ofEpoch e (⟨t, .idle⟩ : EngineThreads).events).Sublist (ofEpoch e p.engine.queue.events) :=
    (ht.items.map Item.event).filter _
  have hsub' : (ofEpoch e (⟨t, .idle⟩ : EngineThreads).events).Sublist (ofEpoch e p.events) := by
    rw [hevents]
    exact hsub.trans (List.sublist_cons_self _ _)
  have hseq : t.seq = item.event.seq ∧ (t.blocked = false → t.held = {}) := by
    cases ht.frame with
    | ignored _ hsame => exact absurd (hsame.symm.trans hte) hne
    | ended h0 => exact absurd (hte.symm.trans h0) he
    | activated _ _ _ hseq hheld => exact ⟨hseq, hheld⟩
    | accepted _ _ _ hcase =>
        rcases hcase with h0 | ⟨hsame, -⟩
        · exact absurd (hte.symm.trans h0) he
        · exact absurd (hsame.symm.trans hte) hne
  have hunfed : inputs (ofEpoch e (⟨t, .idle⟩ : EngineThreads).events) = [] := by
    by_contra hn
    exact hnot (h.told (inputs_sublist hsub' hn))
  have hsorted := h.sorted
  rw [hevents, List.pairwise_cons] at hsorted
  refine ⟨fun x hx => h.parts x ?_, h.online.step hs, hsub'.countP_le.trans h.count, fun _ => ?_,
    fun x hx => h.seqs x (hsub'.subset hx), fun _ => hheard, h.sorted.sublist hsub', fun _ => ⟨hheard, ?_⟩, fun _ x hx => ?_,
    ⟨[], [], List.nil_prefix, .nil, hcalls'⟩, fun _ hb _ => ⟨[], [], [], hnone, .nil, hcalls', hseq.2 hb, ?_⟩⟩
  · rw [items, hreg]
    exact List.mem_cons_of_mem _ (ht.items.subset hx)
  · have hcount := h.count
    rw [hevents, List.countP_cons_of_pos (by simpa using hop)] at hcount
    have hle := hsub.countP_le (p := fun f => f.op = .activate)
    omega
  · obtain ⟨f, hf, hfs⟩ := h.seqs item.event (by rw [hevents]; exact List.mem_cons_self)
    exact ⟨f, hf, hfs.trans hseq.1.symm⟩
  · change t.seq < x.seq
    rw [hseq.1]
    exact hsorted.1 x (hsub.subset hx)
  · rw [hunfed]
    exact .nil

/-- While the session goes on, an item that is no new frame of it carries nothing for it. -/
theorem Share.foreign (h : Share e got done p) (he : e ≠ 0) (hreg : p.register = .popped item age) (hep : p.engine.epoch = e)
    (hb : p.engine.blocked = false) (hold : ¬ p.engine.fresh item.event) :
    inputs (ofEpoch e p.events) = inputs (ofEpoch e p.engine.queue.events) := by
  rw [events_popped hreg]
  by_cases hie : item.event.epoch = e
  · rw [ofEpoch_cons_self _ hie, inputs_cons]
    cases hi : item.event.input with
    | none => rfl
    | some i =>
        have hin : item.event.op.isInput = true := by
          cases hop : item.event.op.isInput with
          | true => rfl
          | false => rw [Event.input_eq_none.mpr hop] at hi; cases hi
        have hlt : p.engine.seq < item.event.seq := by
          refine h.order hep item.event ?_
          rw [events_popped hreg, ofEpoch_cons_self _ hie]
          exact List.mem_cons_self
        have hactive : p.engine.epoch ≠ 0 := hep ▸ he
        refine absurd ⟨fun ha => ?_, hb, h.online hactive, hactive, hie.trans hep.symm, hlt⟩ hold
        rw [ha] at hin
        cases hin
  · rw [ofEpoch_cons_other _ hie]

/-- Any other item. -/
theorem Share.continued (h : Share e got done p) (he : e ≠ 0) {t : TargetEngine}
    (hs : p.step (.body env) = some ⟨t, .idle⟩) (hreg : p.register = .popped item age)
    (ht : Handled env item { p.engine with out := [] } t) (hnew : .emit (.activated e) ∉ t.out) :
    Share e got (done ++ [(p.engine.epoch, t.out)]) ⟨t, .idle⟩ := by
  have hheard : Heard e (done ++ [(p.engine.epoch, t.out)]) ↔ Heard e done := by rw [heard_concat, or_iff_left hnew]
  have hquiet : ∀ {outs}, t.out = outs → effective outs = [] →
      callsIn e (done ++ [(p.engine.epoch, t.out)]) = callsIn e done := by
    intro outs ho hnone
    rw [callsIn_concat, ho, hnone]
    simp
  have hitems : (⟨t, .idle⟩ : EngineThreads).items.Sublist p.engine.queue.items := ht.items
  have hsub : (ofEpoch e (⟨t, .idle⟩ : EngineThreads).events).Sublist (ofEpoch e p.engine.queue.events) :=
    (hitems.map Item.event).filter _
  have hall : (ofEpoch e p.engine.queue.events).Sublist (ofEpoch e p.events) := by
    rw [events_popped hreg]
    exact (List.sublist_cons_self _ _).filter _
  have hsub' := hsub.trans hall
  -- the session is not started anew
  have hnot : t.epoch = e → ¬ p.engine.activates env item.event := by
    intro hte ha
    obtain ⟨hep, hmem⟩ := ht.activates ha
    rw [← hep, hte] at hmem
    exact hnew hmem
  have hframe : t.epoch = e → p.engine.epoch = e ∧
      (¬ p.engine.fresh item.event ∧ t.seq = p.engine.seq ∧ t.held = p.engine.held ∨
        p.engine.fresh item.event ∧ t.seq = item.event.seq ∧ t.held = (p.engine.held.inject item.event).2) := by
    intro hte
    cases ht.frame with
    | ignored hold hsame _ hseq hheld => exact ⟨hsame.symm.trans hte, .inl ⟨hold, hseq, hheld⟩⟩
    | ended h0 => exact absurd (hte.symm.trans h0) he
    | activated ha => exact absurd ha (hnot hte)
    | accepted hf _ _ hcase =>
        rcases hcase with h0 | ⟨hsame, hseq, hheld⟩
        · exact absurd (hte.symm.trans h0) he
        · exact ⟨hsame.symm.trans hte, .inr ⟨hf, hseq, hheld⟩⟩
  have hitem : p.engine.epoch = e → p.engine.fresh item.event →
      ofEpoch e p.events = item.event :: ofEpoch e p.engine.queue.events := by
    intro hep hf
    rw [events_popped hreg, ofEpoch_cons_self _ (hf.2.2.2.2.1.trans hep)]
  have hqueue : t.epoch = e → (⟨t, .idle⟩ : EngineThreads).events = p.engine.queue.events := by
    intro hte
    rcases ht.queue with hq | h0 | ha
    · exact congrArg InputQueue.events hq
    · exact absurd (hte.symm.trans h0) he
    · exact absurd ha (hnot hte)
  refine ⟨fun x hx => h.parts x ?_, h.online.step hs, hsub'.countP_le.trans h.count, fun hh => ?_,
    fun x hx => h.seqs x (hsub'.subset hx), fun hn => hheard.mpr (h.told (inputs_sublist hsub' hn)), h.sorted.sublist hsub',
    fun hte => ?_, fun hte x hx => ?_, ?_, fun hte hb _ => ?_⟩
  · rw [items, hreg]
    exact List.mem_cons_of_mem _ (hitems.subset hx)
  · exact hsub'.countP_le.trans_lt (h.spent (hheard.mp hh))
  · obtain ⟨hep, ⟨-, hseq, -⟩ | ⟨hf, hseq, -⟩⟩ := hframe hte
    · obtain ⟨hh, f, hf, hfs⟩ := h.active hep
      exact ⟨hheard.mpr hh, f, hf, hfs.trans hseq.symm⟩
    · obtain ⟨f, hmem, hfs⟩ := h.seqs item.event (by rw [hitem hep hf]; exact List.mem_cons_self)
      exact ⟨hheard.mpr (h.active hep).1, f, hmem, hfs.trans hseq.symm⟩
  · change t.seq < x.seq
    obtain ⟨hep, ⟨-, hseq, -⟩ | ⟨hf, hseq, -⟩⟩ := hframe hte
    · rw [hseq]
      exact h.order hep x (hsub'.subset hx)
    · have hsorted := h.sorted
      rw [hitem hep hf, List.pairwise_cons] at hsorted
      rw [hseq]
      exact hsorted.1 x (hsub.subset hx)
  · rcases ht.fares with ⟨hnone, -⟩ | ⟨hf, hreach⟩
    · rw [hquiet rfl hnone]
      exact h.past
    · by_cases hep : p.engine.epoch = e
      · obtain ⟨before, after, ms, hsplit, hbefore, hplay, -, -⟩ := h.advance hreg hep hf
        refine ⟨before, ms, hsplit ▸ List.prefix_append _ _, hbefore, ?_⟩
        rw [callsIn_concat, if_pos hep, hreach]
        exact hplay
      · rw [callsIn_concat, if_neg hep, List.append_nil]
        exact h.past
  · rw [hqueue hte]
    obtain ⟨hep, ⟨hold, -, hheld⟩ | ⟨hf, -, hheld⟩⟩ := hframe hte
    · have hunblocked : p.engine.blocked = false := by
        cases hpb : p.engine.blocked with
        | false => rfl
        | true => rw [step_blocked hpb hs] at hb; cases hb
      obtain ⟨before, after, ms, hsplit, hbefore, hplay, hheld', hafter⟩ := h.live hep hunblocked (by rw [hreg]; simp)
      rw [h.foreign he hreg hep hunblocked hold] at hafter
      have hnone : effective t.out = [] := by
        rcases ht.fares with ⟨hnone, -⟩ | ⟨hf, -⟩
        · exact hnone
        · exact absurd hf hold
      exact ⟨before, after, ms, hsplit, hbefore, (hquiet rfl hnone).trans hplay, hheld.trans hheld', hafter⟩
    · obtain ⟨before, after, ms, hsplit, hbefore, hplay, hheld', hafter⟩ := h.advance hreg hep hf
      refine ⟨before, after, ms, hsplit, hbefore, ?_, hheld.trans hheld', hafter⟩
      rcases ht.fares with ⟨-, hover⟩ | ⟨-, hreach⟩
      · exact absurd (hte.symm.trans (hover hf)) he
      · rw [callsIn_concat, if_pos hep, hreach]
        exact hplay

end Processed

/-! ## One operation -/

/-- Frames that come when the session is over change nothing. -/
theorem Share.more (h : Share e got done p) (hep : p.engine.epoch ≠ e) (more : List Event) :
    Share e (got ++ more) done p := by
  refine ⟨h.parts, h.online, ?_, fun hh => ?_, fun x hx => ?_, h.told, h.sorted, fun he => absurd he hep,
    fun he => absurd he hep, ?_, fun he => absurd he hep⟩
  · rw [List.countP_append]
    exact h.count.trans (Nat.le_add_right _ _)
  · rw [List.countP_append]
    exact (h.spent hh).trans_le (Nat.le_add_right _ _)
  · obtain ⟨f, hf, hfs⟩ := h.seqs x hx
    exact ⟨f, List.mem_append_left _ hf, hfs⟩
  · obtain ⟨taken, ms, htaken, hrest⟩ := h.past
    refine ⟨taken, ms, htaken.trans ?_, hrest⟩
    rw [inputs_append]
    exact List.prefix_append _ _

theorem Share.other (h : Share e got done p) (he : e ≠ 0) (hs : p.step op = some p')
    (hreg : p'.register.items = p.register.items) (hq : p'.engine.queue.items = [] ∨ p'.engine.queue = p.engine.queue)
    (hsession : p'.engine.epoch = 0 ∨
      p'.engine.epoch = p.engine.epoch ∧ p'.engine.seq = p.engine.seq ∧ p'.engine.held = p.engine.held)
    (hin : injected p'.engine.out = []) (hann : announced p'.engine.out = [])
    (hnet : ∀ env event, op = .receive env event → p'.engine.epoch = 0) :
    Share e got (done ++ [(p.engine.epoch, p'.engine.out)]) p' := by
  have hitems : p'.items.Sublist p.items := by
    rw [items, items, hreg]
    refine List.Sublist.append_left ?_ _
    rcases hq with hq | hq
    · rw [hq]; exact List.nil_sublist _
    · rw [hq]
  refine h.rest he hs hitems hin hann hsession ?_
  rcases step_kept hs hnet hreg with h0 | hover | ⟨hqueue, hregister⟩
  · exact .inl h0
  · exact .inr (.inl hover)
  · by_cases hover : p'.register = .overloaded
    · exact .inr (.inl hover)
    · refine .inr (.inr ⟨?_, by rwa [← hregister]⟩)
      rw [items, items, hqueue, hregister]

/-- The frame of epoch `e` that an operation of a thread brings. -/
def brings (e : Nat) : ThreadOp → List Event
  | .receive _ event => ofEpoch e [event]
  | _ => []

theorem brings_other (h : ∀ env event, op ≠ .receive env event) : brings e op = [] := by
  cases op with
  | receive env event => exact absurd rfl (h env event)
  | _ => rfl

/-- Every operation of a thread keeps the invariant, when what the engine gets of the epoch is proper. -/
theorem Share.step (h : Share e got done p) (he : e ≠ 0) (hg : Proper (got ++ brings e op) (Heard e done))
    (hs : p.step op = some p') : Share e (got ++ brings e op) (done ++ [(p.engine.epoch, p'.engine.out)]) p' := by
  cases step_cases hs with
  | received env event hop _ hok hq hreg hstill =>
      subst hop
      exact h.received hg hs hok hq hreg hstill
  | popped env hop hitems hstill =>
      subst hop
      rw [brings_other (by simp), List.append_nil]
      exact h.popped he hs hitems hstill
  | processed env item age hop hreg =>
      subst hop
      rw [brings_other (by simp), List.append_nil] at hg ⊢
      rcases step_body hs with ⟨hover, -⟩ | ⟨item', age', hreg', rfl⟩
      · rw [hover] at hreg; cases hreg
      · cases hreg.symm.trans hreg'
        have hparts : item.parts ≠ [] := h.parts item (by rw [items, hreg]; exact List.mem_cons_self)
        have ht := handled env age { p.engine with out := [] } hparts rfl
        by_cases hnew : .emit (.activated e) ∈ (({ p.engine with out := [] } : TargetEngine).processItem env item age).1.out
        · exact h.started he hg hs hreg ht hnew
        · exact h.continued he hs hreg ht hnew
  | other hreg hq hsession hin hann hnet =>
      have hover : ∀ env event, op = .receive env event → p'.engine.epoch = 0 :=
        fun env event hop => hnet env (.inl ⟨event, hop⟩)
      have hrest := h.other he hs hreg hq hsession hin hann hover
      cases op with
      | receive env event => exact hrest.more (fun hep => he (hep.symm.trans (hover env event rfl))) _
      | _ => rw [brings_other (by simp), List.append_nil]; exact hrest

end EngineThreads

end RemoteInput
