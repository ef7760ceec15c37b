import RemoteInput.Controller.Lemmas.Acts
import RemoteInput.Lib.History

/-!
# What the controller's log tells
-/

namespace RemoteInput

@[simp] theorem sentFrames_nil : sentFrames [] = [] := rfl

@[simp] theorem sentFrames_append (l l' : List Deed) : sentFrames (l ++ l') = sentFrames l ++ sentFrames l' :=
  List.filterMap_append

@[simp] theorem sentFrames_sent (frame : Event) : sentFrames [.sent frame] = [frame] := rfl

@[simp] theorem sentFrames_emitted (event : Event) : sentFrames [.emitted event] = [] := rfl

@[simp] theorem sentFrames_stopped (x y : Nat) : sentFrames [.stopped x y] = [] := rfl

theorem mem_sentFrames {log : List Deed} {frame : Event} : frame ∈ sentFrames log ↔ .sent frame ∈ log := by
  unfold sentFrames
  rw [List.mem_filterMap]
  constructor
  · rintro ⟨deed, hd, he⟩
    split at he
    · cases he; exact hd
    · cases he
  · exact fun h => ⟨_, h, rfl⟩

/-- A frame in the middle of the sent frames was put on the outbox at one point of the log. -/
theorem sentFrames_split {log : List Deed} {before after : List Event} {frame : Event}
    (h : sentFrames log = before ++ frame :: after) :
    ∃ l l', log = l ++ .sent frame :: l' ∧ sentFrames l = before ∧ sentFrames l' = after := by
  induction log generalizing before with
  | nil => simp at h
  | cons deed log ih =>
      have hcons : ∀ d : Deed, sentFrames (d :: log) = sentFrames [d] ++ sentFrames log :=
        fun d => sentFrames_append [d] log
      rw [hcons] at h
      have hskip : sentFrames [deed] = [] → ∃ l l', deed :: log = l ++ .sent frame :: l' ∧ sentFrames l = before ∧
          sentFrames l' = after := by
        intro hd
        rw [hd, List.nil_append] at h
        obtain ⟨l, l', rfl, hl, hl'⟩ := ih h
        refine ⟨deed :: l, l', rfl, ?_, hl'⟩
        rw [← List.singleton_append, sentFrames_append, hd, List.nil_append, hl]
      cases deed with
      | emitted event => exact hskip rfl
      | stopped x y => exact hskip rfl
      | sent f =>
          cases before with
          | nil =>
              simp only [sentFrames_sent, List.nil_append, List.singleton_append, List.cons.injEq] at h
              obtain ⟨rfl, h⟩ := h
              exact ⟨[], log, rfl, rfl, h⟩
          | cons b before =>
              simp only [sentFrames_sent, List.cons_append, List.cons.injEq] at h
              obtain ⟨rfl, h⟩ := h
              obtain ⟨l, l', rfl, hl, hl'⟩ := ih h
              exact ⟨.sent f :: l, l', rfl, by rw [← List.singleton_append, sentFrames_append, hl]; rfl, hl'⟩

namespace Controller

variable {c c' d : Controller}

/-! ## The outbox takes what is sent -/

/-- From `c` to `c'` some frames were sent, and they are the last in the outbox unless it has failed. -/
structure Appends (c c' : Controller) (new : List Event) : Prop where
  sent : sentFrames c'.log = sentFrames c.log ++ new
  online : c.outbox.isSome = true → c'.outbox.isSome = true
  waiting : c.outbox.isSome = true → c'.Lossless → c.Lossless ∧ c'.waiting = c.waiting ++ new

/-- The log has no new frame and the outbox is the same. -/
theorem appends_nil (hlog : sentFrames c'.log = sentFrames c.log) (ho : c'.outbox = c.outbox) : Appends c c' [] := by
  refine ⟨by simpa using hlog, fun h => by rwa [ho], fun _ hl => ⟨fun o h => hl o (ho.trans h), ?_⟩⟩
  simp [Controller.waiting, ho]

theorem Appends.trans {new new' : List Event} (h : Appends c d new) (h' : Appends d c' new') :
    Appends c c' (new ++ new') := by
  refine ⟨by rw [h'.sent, h.sent, List.append_assoc], fun ho => h'.online (h.online ho), fun ho hl => ?_⟩
  obtain ⟨hld, hw'⟩ := h'.waiting (h.online ho) hl
  obtain ⟨hlc, hw⟩ := h.waiting ho hld
  exact ⟨hlc, by rw [hw', hw, List.append_assoc]⟩

theorem appends_push {now : Time} {frame : Event} (hlog : sentFrames d.log = sentFrames c.log)
    (ho : d.outbox = c.outbox) : Appends c (d.push now frame) [frame] := by
  have hpush : Appends d (d.push now frame) [frame] :=
    ⟨by simp [push], fun h => by simpa [push] using h, fun ho hl => push_lossless ho hl⟩
  exact (appends_nil hlog ho).trans hpush

theorem Act.appends (h : c.Act c') : ∃ new, Appends c c' new := by
  cases h with
  | quiet | schedule | unschedule | skip | activated => exact ⟨[], appends_nil rfl rfl⟩
  | stop | stall => exact ⟨[], appends_nil (by simp [stopControl, Controller.schedule]) rfl⟩
  | emit => exact ⟨[], appends_nil (by simp) rfl⟩
  | overflow => exact ⟨[], appends_nil (by simp [stopControl, Controller.schedule, sentFrames]) rfl⟩
  | begin | take | beat => exact ⟨_, appends_push rfl rfl⟩

theorem Resets.appends (h : c.Resets c') : ∃ new, Appends c c' new := by
  cases h with
  | stale | scheduled => exact ⟨_, appends_push rfl rfl⟩
  | offline => exact ⟨[], appends_nil rfl rfl⟩

theorem Acts.appends (h : Acts c c') : ∃ new, Appends c c' new := by
  induction h with
  | one hl h =>
      obtain ⟨new, hn⟩ := h.appends
      exact ⟨_, (appends_nil (by rw [hl.log]) hl.outbox).trans hn⟩
  | more _ _ ih ih' =>
      obtain ⟨new, hn⟩ := ih
      obtain ⟨new', hn'⟩ := ih'
      exact ⟨_, hn.trans hn'⟩

/-! ## Sequence numbers -/

/-- A frame is newer than every frame before it. -/
def Newest (before : List Deed) (deed : Deed) : Prop :=
  ∀ frame, deed = .sent frame → ∀ f ∈ sentFrames before, f.seq < frame.seq

/-- The sequence numbers of the frames increase. -/
structure Numbered (c : Controller) : Prop where
  lawful : Lawful Newest c.log
  bound : ∀ f ∈ sentFrames c.log, f.seq ≤ c.seq

theorem Numbered.push {now : Time} {frame : Event} (h : c.Numbered) (hseq : frame.seq = c.seq + 1) :
    (c.push now frame).Numbered := by
  constructor
  · refine h.lawful.concat fun f hf x hx => ?_
    cases hf
    have := h.bound x hx
    omega
  · intro f hf
    show f.seq ≤ c.seq + 1
    rcases List.mem_append.mp (by simpa [Controller.push] using hf : f ∈ sentFrames c.log ++ [frame]) with hf | hf
    · have := h.bound f hf; omega
    · rw [List.mem_singleton.mp hf]; omega

/-- One more deed that is no frame. -/
theorem Numbered.record (h : c.Numbered) {deed : Deed} (hd : ∀ frame, deed ≠ .sent frame) (hlog : c'.log = c.log ++ [deed])
    (hseq : c'.seq = c.seq) : c'.Numbered := by
  have hnone : sentFrames [deed] = [] := by
    cases deed with
    | sent frame => exact absurd rfl (hd frame)
    | _ => rfl
  constructor
  · rw [hlog]; exact h.lawful.concat fun frame hf => absurd hf (hd frame)
  · rw [hlog, hseq, sentFrames_append, hnone, List.append_nil]; exact h.bound

theorem Numbered.congr (h : c.Numbered) (hlog : c'.log = c.log) (hseq : c'.seq = c.seq) : c'.Numbered :=
  ⟨by rw [hlog]; exact h.lawful, by rw [hlog, hseq]; exact h.bound⟩

theorem Numbered.act (h : c.Numbered) (ha : c.Act c') : c'.Numbered := by
  cases ha with
  | quiet | schedule | unschedule | skip | activated => exact h.congr rfl rfl
  | stop | stall => exact h.record (by simp) rfl rfl
  | emit => exact h.record (by simp) rfl rfl
  | overflow queue event =>
      have hemit : Numbered { c with queue := queue, log := c.log ++ [.emitted event] } := h.record (by simp) rfl rfl
      exact hemit.record (by simp) rfl rfl
  | begin now frame rest _ _ _ _ _ _ hseq => exact Numbered.push (h.congr rfl rfl) hseq
  | take now item stamp lease rest => exact Numbered.push (h.congr rfl rfl) rfl
  | beat now frame _ _ hseq => exact h.push hseq

theorem Numbered.resets (h : c.Numbered) (hr : c.Resets c') : c'.Numbered := by
  cases hr with
  | stale now frame _ _ hseq => exact h.push hseq
  | scheduled now frame rest _ _ hseq => exact Numbered.push (h.congr rfl rfl) hseq
  | offline => exact h.congr rfl rfl

/-- A frame was sent once. -/
theorem Numbered.unique (h : c.Numbered) {frame : Event} {l l' m m' : List Deed} (h1 : c.log = l ++ .sent frame :: l')
    (h2 : c.log = m ++ .sent frame :: m') : l = m ∧ l' = m' := by
  have hbefore : ∀ {x x' y y' : List Deed}, c.log = x ++ .sent frame :: x' → c.log = y ++ .sent frame :: y' →
      ¬ x.length < y.length := by
    intro x x' y y' hx hy hlt
    have hmem : .sent frame ∈ y := by
      have hget : (x ++ .sent frame :: x')[x.length]? = (y ++ .sent frame :: y')[x.length]? := by rw [← hx, hy]
      rw [List.getElem?_append_right le_rfl, List.getElem?_append_left hlt] at hget
      exact List.mem_of_getElem? (by simpa using hget.symm)
    have := h.lawful y _ y' hy frame rfl frame (mem_sentFrames.mpr hmem)
    omega
  have hlen : l.length = m.length := by
    have := hbefore h1 h2
    have := hbefore h2 h1
    omega
  obtain ⟨hl, hr⟩ := List.append_inj (h1.symm.trans h2) hlen
  exact ⟨hl, by simpa using hr⟩

end Controller

end RemoteInput
