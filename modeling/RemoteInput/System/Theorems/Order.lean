import RemoteInput.System.Lemmas.Epochs
import RemoteInput.System.Theorems.Messages

/-!
# What is injected in an epoch is what was emitted in it
-/

namespace RemoteInput

/-- A key or a button changes. -/
def Input.isTransition : Input → Bool
  | .key .. | .button .. => true
  | .move .. | .scroll .. => false

theorem Input.join_move {x y z : Input} (h : Input.join x y = some z) :
    x.isTransition = false ∧ y.isTransition = false ∧ z.isTransition = false := by
  cases x <;> cases y <;> cases h
  exact ⟨rfl, rfl, rfl⟩

/-- Only moves are merged. -/
theorem fuses_transitions {segment : List Input} {x : Input} (h : Fuses Input.join segment x) :
    segment.filter Input.isTransition = [x].filter Input.isTransition := by
  induction h with
  | one x => rfl
  | more _ hz ih =>
      obtain ⟨hx, hy, hz⟩ := Input.join_move hz
      rw [List.filter_append, ih]
      simp [hx, hy, hz]

theorem segments_transitions {taken items : List Input} (h : Segments (Fuses Input.join) taken items) :
    items.filter Input.isTransition = taken.filter Input.isTransition := by
  obtain ⟨segments, rfl, hall⟩ := h
  induction hall with
  | nil => rfl
  | @cons segment x segments items hx _ ih =>
      rw [← List.singleton_append, List.filter_append, ih, List.flatten_cons, List.filter_append, fuses_transitions hx]

namespace System

variable {crypto : Crypto} {s : System} {owner password : String} {actions : List SystemAction} {e : Nat}

theorem tracked (he : e ≠ 0) (hs : run crypto (start owner password) actions = some s) : s.Linked ∧ s.Tracks e := by
  refine Runs.invariant (I := fun s => s.Linked ∧ s.Tracks e) ⟨.start owner password, .start he owner password⟩ ?_ hs
  rintro t action t' ⟨hlinked, htracks⟩ hstep
  exact htracks.step he hlinked hstep

/-- What is injected in an epoch is made from a first part of the inputs that the capture emitted in it, in order: adjacent
moves may be merged, a release of something that is not held makes no call, and nothing else is left out. In particular the
changes of keys and buttons among these inputs all come, in order. -/
theorem injected_in_order (he : e ≠ 0) (hs : run crypto (start owner password) actions = some s) :
    ∃ taken items, taken <+: s.emittedIn e ∧ Segments (Fuses Input.join) taken items ∧
      items.filter Input.isTransition = taken.filter Input.isTransition ∧ s.injectedIn e = (Held.play {} items).1 := by
  obtain ⟨hlinked, htracks⟩ := tracked he hs
  obtain ⟨c, hhome, -⟩ := htracks.home
  -- the controller fuses what is emitted, and the target fuses again a first part of what the controller sends
  obtain ⟨sent, hsent, hfused⟩ := htracks.course.past
  obtain ⟨arrived, items, harrived, hagain, hcalls⟩ := htracks.share.past
  have hprefix : arrived <+: inputs (s.ctl.sentIn e) := harrived.trans ((hhome.got hlinked).filterMap _)
  obtain ⟨taken, htaken, hfused⟩ := hfused.of_prefix hprefix
  have hall := hfused.fuse Input.join_regroups hagain
  exact ⟨taken, items, htaken.trans hsent, hall, segments_transitions hall, hcalls⟩

/-! ## A run -/

/-- What the clocks and the random generator answer at the controller. -/
def calmCtl : ControllerEnv := { now := 0, bits := 5 }

/-- The controller dials `c`, logs in and hears so, and so does the target. -/
def joins (c : Nat) : List SystemAction :=
  [.ctlDial c "TARGET-001" Relay.samplePassword, .site (.relayHello c), .site (.relayOwn (.transaction c "")),
    .site (.relayOwn (.acquire c)), .site (.relayOwn (.transaction c "")), .site (.relayOwn (.admission c)),
    .site (.relayReplied c), .ctlRead calmCtl, .site (.relayWrite 0), .site (.read Site.calm ("", ""))]

/-- One message of the target gets to the controller. -/
def answers (c : Nat) : List SystemAction :=
  [.site (.write 0), .site (.relayReceive 0), .site (.relayWrite c), .ctlRead calmCtl]

/-- One frame of the controller gets to the target, and its worker takes it. -/
def arrives (c : Nat) : List SystemAction :=
  [.ctlWrite 0, .site (.relayReceive c), .site (.relayWrite 0), .site (.read Site.calm ("", "")),
    .site (.worker (.pop Site.calm)), .site (.worker (.body Site.calm))]

def loops (n : Nat) : List SystemAction := List.replicate n (.ctl (.loop calmCtl))

def hooks (n : Nat) : List SystemAction := List.replicate n (.ctl (.hook calmCtl))

/-- The capture emits an input. -/
def emits (input : Input) : List SystemAction := .ctl (.call (.enqueue input)) :: hooks 3

/-- The loop sends an event from the queue, and it gets to the target. -/
def sends (c : Nat) : List SystemAction := .ctl (.begin calmCtl .sender) :: loops 2 ++ arrives c

/-- The controller gets a lease and activates epoch 5; two moves and a key follow. -/
def controlling : List SystemAction :=
  (Site.joins 0).map .site ++ joins 1 ++ [.site (.worker (.tick Site.calm 7))] ++ answers 1 ++ arrives 1 ++
    .ctl (.call .toggle) :: hooks 2 ++ .ctl (.begin calmCtl .callback) :: loops 5 ++ arrives 1 ++ answers 1 ++ loops 6 ++
    emits (.move 1 2) ++ emits (.move 3 4) ++ emits (.key 65 true) ++ sends 1 ++ sends 1

theorem injected_in_order_controlling :
    ∃ s, run Relay.plain (start Relay.sampleOwner Relay.samplePassword) controlling = some s ∧
      s.emittedIn 5 = [.move 1 2, .move 3 4, .key 65 true] ∧ s.injectedIn 5 = [.move 4 6, .key 65 true] ∧
      ∃ taken items, taken <+: s.emittedIn 5 ∧ Segments (Fuses Input.join) taken items ∧
        items.filter Input.isTransition = taken.filter Input.isTransition ∧ s.injectedIn 5 = (Held.play {} items).1 := by
  obtain ⟨s, hs⟩ := Option.isSome_iff_exists.mp
    (show (run Relay.plain (start Relay.sampleOwner Relay.samplePassword) controlling).isSome = true by decide +kernel)
  have hstate : ((run Relay.plain (start Relay.sampleOwner Relay.samplePassword) controlling).map fun s =>
      (s.emittedIn 5, s.injectedIn 5)) = some ([.move 1 2, .move 3 4, .key 65 true], [.move 4 6, .key 65 true]) := by
    decide +kernel
  rw [hs, Option.map_some, Option.some.injEq, Prod.mk.injEq] at hstate
  exact ⟨s, hs, hstate.1, hstate.2, injected_in_order (by decide) hs⟩

end System

end RemoteInput
