import RemoteInput.Controller.Lemmas.Inputs
import RemoteInput.Controller.Lemmas.Log
import RemoteInput.Controller.Threads

/-!
# The course of one epoch at the controller

An epoch is drawn, perhaps it becomes active, and it ends for good. While it is active, what the capture has emitted is what
was sent and what is still on its way to the outbox, in the hands of the threads and in the queue.
-/

namespace RemoteInput

/-- The event of epoch `e` that the loop has taken from the queue. -/
def LoopPoint.handed (e : Nat) : LoopPoint → List Event
  | .popped event | .matching event => ofEpoch e [event]
  | _ => []

/-- The event of epoch `e` that the hook thread will put on the queue. -/
def HookPoint.handed (e : Nat) : HookPoint → List Event
  | .putting event => ofEpoch e [event]
  | _ => []

/-- A stop has cleared `epoch`, and not yet all the rest. -/
def StopPoint.ending : StopPoint → Bool
  | .pending | .queue _ | .schedule _ => true
  | _ => false

def HookPoint.ending : HookPoint → Bool
  | .stopping point => point.ending
  | _ => false

/-- The loop has seen, or has made, `epoch` zero. -/
def LoopPoint.paused : LoopPoint → Bool
  | .activating | .drawing | .clearing | .sending => true
  | .stopping _ point => point.ending
  | _ => false

namespace ControllerThreads

variable {t t' : ControllerThreads} {e : Nat} {drawn : List Nat} {emitted : List Input} {heard : Prop} {env : ControllerEnv}

/-- The frames of epoch `e` that were sent. -/
def sentIn (e : Nat) (t : ControllerThreads) : List Event := ofEpoch e (sentFrames t.controller.log)

/-- The epoch may become active. -/
def Coming (e : Nat) (t : ControllerThreads) : Prop :=
  t.controller.pendingEpoch = e ∧ (∀ n, t.loop ≠ .assigned n) ∨ ∃ n, t.loop = .loaded e n

/-- Frames of the epoch may be sent. -/
def Engaged (e : Nat) (t : ControllerThreads) : Prop :=
  t.controller.epoch = e ∨ t.controller.pendingEpoch = e ∨ ∃ n, t.loop = .loaded e n

/-- The epoch was drawn just now. -/
def Opening (e : Nat) (t : ControllerThreads) : Prop :=
  t.controller.pendingEpoch = e ∧ (t.loop = .clearing ∨ t.loop = .sending)

/-- The target's answer has come. -/
def Answered (e : Nat) (t : ControllerThreads) : Prop :=
  t.controller.epoch = e ∨ (∃ n, t.loop = .loaded e n) ∨ t.loop = .activated e ∨
    (t.loop = .compared ∨ t.loop = .checked) ∧ t.controller.pendingEpoch = e

/-- Nothing of the epoch has been emitted, and nothing is there. -/
structure Bare (e : Nat) (emitted : List Input) (t : ControllerThreads) : Prop where
  emitted : emitted = []
  sent : inputs (t.sentIn e) = []
  loop : t.loop.handed e = []
  queue : ofEpoch e t.controller.queue.events = []
  hook : t.hook.handed e = []

/-- The invariant. `heard` says that the target has activated the epoch. -/
structure Course (e : Nat) (drawn : List Nat) (emitted : List Input) (heard : Prop) (t : ControllerThreads) : Prop where
  unborn : e ∉ drawn → ¬ t.Engaged e ∧ t.sentIn e = [] ∧ t.Bare e emitted
  coming : t.Coming e → t.Bare e emitted
  apart : t.Coming e → t.controller.epoch ≠ e
  opening : t.Opening e → t.sentIn e = []
  live : t.controller.epoch = e → ∃ before after, emitted = before ++ after ∧
    Segments (Fuses Input.join) before (inputs (t.sentIn e ++ t.loop.handed e)) ∧
    (t.controller.queue.failed = false →
      Segments (Fuses Input.join) after (inputs (ofEpoch e t.controller.queue.events ++ t.hook.handed e)))
  past : ∃ taken, taken <+: emitted ∧ Segments (Fuses Input.join) taken (inputs (t.sentIn e))
  single : (t.sentIn e).countP (fun f => f.op = .activate) ≤ 1
  sorted : (t.sentIn e).Pairwise fun x y => x.seq < y.seq
  bound : t.Engaged e → ∀ f ∈ t.sentIn e, f.seq ≤ t.controller.seq
  answered : t.Answered e ∨ inputs (t.sentIn e) ≠ [] → heard
  hooked : t.hook.ending = true → t.controller.epoch = e → emitted = []
  looped : t.loop.paused = true → t.controller.epoch ≠ e

/-- A controller that has just been started, with the log of those before. -/
theorem Course.restart (h : t.Course e drawn emitted heard) (he : e ≠ 0) :
    Course e drawn emitted heard { controller := { log := t.controller.log } } := by
  have hengaged : ¬ Engaged e { controller := { log := t.controller.log } } := by
    simp [Engaged, he.symm]
  have hbare : t.Bare e emitted → Bare e emitted { controller := { log := t.controller.log } } :=
    fun h => ⟨h.emitted, h.sent, rfl, rfl, rfl⟩
  refine ⟨fun hn => ⟨hengaged, (h.unborn hn).2.1, hbare (h.unborn hn).2.2⟩, ?_, fun _ => he.symm, ?_, ?_, h.past,
    h.single, h.sorted, fun hn => absurd hn hengaged, ?_, by simp [HookPoint.ending], by simp [LoopPoint.paused]⟩
  · intro hc
    simp [Coming, he.symm] at hc
  · intro ho
    simp [Opening, he.symm] at ho
  · intro hl
    exact absurd hl.symm he
  · rintro (ha | hs)
    · simp [Answered, he.symm] at ha
    · exact h.answered (.inr hs)

theorem Course.start (he : e ≠ 0) : Course e [] [] heard {} := by
  have hnone : sentIn e {} = [] := rfl
  have hbare : Bare e [] {} := ⟨rfl, rfl, rfl, rfl, rfl⟩
  refine ⟨fun _ => ⟨by simp [Engaged, he.symm], rfl, hbare⟩, fun _ => hbare, fun _ => he.symm, fun _ => rfl,
    fun hl => absurd hl.symm he,
    ⟨[], List.nil_prefix, .nil⟩, by simp [hnone], by simp [hnone], by simp [hnone], ?_, by simp [HookPoint.ending],
    by simp [LoopPoint.paused]⟩
  rintro (ha | hs)
  · simp [Answered, he.symm] at ha
  · exact absurd rfl hs

/-! ## Steps that leave the events where they are -/

/-- From `t` to `t'` the epoch does not come closer. -/
structure Aside (e : Nat) (emitted : List Input) (heard : Prop) (t t' : ControllerThreads) : Prop where
  epoch : t'.controller.epoch = e → t.controller.epoch = e
  coming : t'.Coming e → t.Coming e
  engaged : t'.Engaged e → t.Engaged e
  opening : t'.Opening e → t.Opening e
  answered : t'.Answered e → t.Answered e ∨ heard
  hooked : t'.hook.ending = true → t'.controller.epoch = e → t.hook.ending = true ∨ emitted = []
  looped : t'.loop.paused = true → t'.controller.epoch = e → t.loop.paused = true

theorem Course.aside (h : t.Course e drawn emitted heard) (ha : Aside e emitted heard t t')
    (hlog : t'.controller.log = t.controller.log) (hseq : t'.controller.seq = t.controller.seq)
    (hqueue : t'.controller.queue = t.controller.queue) (hloop : t'.loop.handed e = t.loop.handed e)
    (hhook : t'.hook.handed e = t.hook.handed e) : Course e drawn emitted heard t' := by
  have hsent : t'.sentIn e = t.sentIn e := by rw [sentIn, sentIn, hlog]
  have hbare : t.Bare e emitted → t'.Bare e emitted := fun hb =>
    ⟨hb.emitted, by rw [hsent]; exact hb.sent, hloop.trans hb.loop, by rw [hqueue]; exact hb.queue, hhook.trans hb.hook⟩
  refine ⟨fun hn => ?_, fun hc => hbare (h.coming (ha.coming hc)),
    fun hc hl => h.apart (ha.coming hc) (ha.epoch hl), fun ho => ?_, fun hl => ?_, ?_, ?_, ?_, fun hn => ?_,
    fun hn => ?_, fun hp hl => ?_, fun hp hl => h.looped (ha.looped hp hl) (ha.epoch hl)⟩
  · obtain ⟨h1, h2, h3⟩ := h.unborn hn
    exact ⟨fun hn => h1 (ha.engaged hn), hsent.trans h2, hbare h3⟩
  · rw [hsent]; exact h.opening (ha.opening ho)
  · rw [hsent, hloop, hqueue, hhook]; exact h.live (ha.epoch hl)
  · rw [hsent]; exact h.past
  · rw [hsent]; exact h.single
  · rw [hsent]; exact h.sorted
  · rw [hsent, hseq]; exact h.bound (ha.engaged hn)
  · rw [hsent] at hn
    rcases hn with hn | hn
    · exact (ha.answered hn).elim (fun hn => h.answered (.inl hn)) id
    · exact h.answered (.inr hn)
  · rcases ha.hooked hp hl with hp | hp
    · exact h.hooked hp (ha.epoch hl)
    · exact hp

end ControllerThreads

end RemoteInput
