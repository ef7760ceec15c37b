import RemoteInput.Engine.Lemmas.Holds
import RemoteInput.Platforms.Injector

/-!
# What the injector leaves behind on macOS

The engine knows what it has to release; the injector has its own sets and the operating system has what the posted events
hold down. Neither ever holds anything that the engine does not know about.
-/

namespace RemoteInput

open TargetEngine

/-! ## Codes and what is owed -/

/-- Each code that is down is the code of something that is owed. -/
def Covered (code : Int → Option Nat) (down : Nat → Bool) (owed : Int → Bool) : Prop :=
  ∀ c, down c = true → ∃ x, owed x = true ∧ code x = some c

namespace Covered

variable {code : Int → Option Nat} {down down' : Nat → Bool} {owed owed' : Int → Bool}

/-- Owing more, or holding less, keeps what is down covered. -/
theorem mono (h : Covered code down owed) (hdown : ∀ c, down' c = true → down c = true)
    (howed : ∀ x, owed x = true → owed' x = true) : Covered code down' owed' := by
  intro c hc
  obtain ⟨x, hx, hcode⟩ := h c (hdown c hc)
  exact ⟨x, howed x hx, hcode⟩

theorem press (h : Covered code down owed) {k : Int} {n : Nat} (hk : code k = some n)
    (hdown : ∀ c, down' c = true → down c = true ∨ c = n) (howed : ∀ x, owed x = true → owed' x = true)
    (hself : owed' k = true) : Covered code down' owed' := by
  intro c hc
  rcases hdown c hc with hc | rfl
  · exact (h.mono (fun _ h => h) howed) c hc
  · exact ⟨k, hself, hk⟩

/-- Once its code is up, something that is owed no more is not missed. -/
theorem release (h : Covered code down owed) {k : Int} {n : Nat} (hk : code k = some n)
    (hdown : ∀ c, down' c = true → down c = true ∧ c ≠ n) (howed : ∀ x, x ≠ k → owed x = true → owed' x = true) :
    Covered code down' owed' := by
  intro c hc
  obtain ⟨hc, hne⟩ := hdown c hc
  obtain ⟨x, hx, hcode⟩ := h c hc
  refine ⟨x, howed x ?_ hx, hcode⟩
  rintro rfl
  rw [hk] at hcode
  exact hne (Option.some.inj hcode).symm

end Covered

/-- The code of a button, where it has one. -/
def macButton (button : Int) : Option Nat := (CoreGraphics.nativeButton button.toNat).toOption

/-! ## The calls that an engine has made -/

/-- The calls in these effects, with how they ended. -/
def callsOf (history : List Out) : List (Call × Outcome) :=
  history.filterMap fun
    | .call c outcome _ => some (c, outcome)
    | _ => none

/-- What a call with this outcome leaves owed. -/
def owedBy (call : Int → Bool → Call) (x : Int) (held : Bool) (c : Call × Outcome) : Bool :=
  owedAfter call x held (.call c.1 c.2 [])

/-- Only the calls decide what is owed. -/
theorem owed_callsOf (call : Int → Bool → Call) (history : List Out) (x : Int) :
    owed call history x = (callsOf history).foldl (owedBy call x) false := by
  unfold owed
  generalize false = held
  induction history generalizing held with
  | nil => rfl
  | cons o history ih =>
      cases o with
      | emit message => simpa [callsOf, owedAfter] using ih held
      | status reason => simpa [callsOf, owedAfter] using ih held
      | call c outcome parts =>
          rw [List.foldl_cons, ih]
          simp [callsOf, owedBy, owedAfter]

@[simp] theorem owedBy_key (x : Int) (held : Bool) (k : Int) (down : Bool) (o : Outcome) :
    owedBy .key x held (.key k down, o) =
      if k = x then (if down then true else if o.isRaised = false then false else held) else held := by
  cases down <;> by_cases hk : k = x <;> simp [owedBy, owedAfter, hk]

@[simp] theorem owedBy_button (x : Int) (held : Bool) (b : Int) (down : Bool) (o : Outcome) :
    owedBy .button x held (.button b down, o) =
      if b = x then (if down then true else if o.isRaised = false then false else held) else held := by
  cases down <;> by_cases hb : b = x <;> simp [owedBy, owedAfter, hb]

@[simp] theorem owedBy_key_button (x : Int) (held : Bool) (b : Int) (down : Bool) (o : Outcome) :
    owedBy .key x held (.button b down, o) = held := by simp [owedBy, owedAfter]

@[simp] theorem owedBy_button_key (x : Int) (held : Bool) (k : Int) (down : Bool) (o : Outcome) :
    owedBy .button x held (.key k down, o) = held := by simp [owedBy, owedAfter]

@[simp] theorem owedBy_move (call : Int → Bool → Call) (hcall : ∀ x b dx dy, call x b ≠ .move dx dy) (x : Int)
    (held : Bool) (dx dy : Int) (o : Outcome) : owedBy call x held (.move dx dy, o) = held := by
  simp [owedBy, owedAfter, (hcall x _ dx dy).symm]

@[simp] theorem owedBy_scroll (call : Int → Bool → Call) (hcall : ∀ x b dx dy, call x b ≠ .scroll dx dy) (x : Int)
    (held : Bool) (dx dy : Int) (o : Outcome) : owedBy call x held (.scroll dx dy, o) = held := by
  simp [owedBy, owedAfter, (hcall x _ dx dy).symm]

/-! ## One call -/

section Held

variable {α : Type}

/-- What an event does to a code, when there is one. -/
def heldAfter (after : Nat → Bool → MacEvent α → Bool) (down : Nat → Bool) (posted : Option (MacEvent α × Nat))
    (c : Nat) : Bool :=
  posted.elim (down c) fun e => after c (down c) e.1

theorem macKeyDown_append (events : List (MacEvent α × Nat)) (posted : Option (MacEvent α × Nat)) :
    macKeyDown (events ++ posted.toList) = heldAfter MacEvent.keyAfter (macKeyDown events) posted := by
  funext code
  cases posted <;> simp [macKeyDown, heldAfter]

theorem macButtonDown_append (events : List (MacEvent α × Nat)) (posted : Option (MacEvent α × Nat)) :
    macButtonDown (events ++ posted.toList) = heldAfter MacEvent.buttonAfter (macButtonDown events) posted := by
  funext native
  cases posted <;> simp [macButtonDown, heldAfter]

/-- How a call that presses or releases `x` ends. The injector's set follows the call also when no event comes of it, but it
never grows by a release. -/
inductive HoldCase (code : Int → Option Nat) (after other : Nat → Bool → MacEvent α → Bool) (x : Int) (down : Bool)
    (held held' : PySet Int) (r : MacResult α) : Prop where
  | lost (posted : r.posted = none) (outcome : r.outcome = .raised false)
      (grows : ∀ y ∈ held', y ∈ held ∨ down = true ∧ y = x)
  | posted (n : Nat) (e : MacEvent α × Nat) (posted : r.posted = some e) (outcome : r.outcome = .done)
    (hcode : code x = some n)
      (hafter : ∀ c b, after c b e.1 = if n = c then down else b) (hother : ∀ c b, other c b e.1 = b)
      (grows : ∀ y ∈ held', if down then y ∈ held ∨ y = x else y ∈ held ∧ y ≠ x)

/-- What such a call leaves owed. -/
def owedIf (x : Int) (down : Bool) (o : Outcome) (owed : Int → Bool) (y : Int) : Bool :=
  if x = y then (if down then true else if o.isRaised = false then false else owed y) else owed y

namespace HoldCase

variable {code : Int → Option Nat} {after other : Nat → Bool → MacEvent α → Bool} {x : Int} {down : Bool}
  {held held' : PySet Int} {r : MacResult α} {owed : Int → Bool} {downs : Nat → Bool}

theorem remembered (h : HoldCase code after other x down held held' r) (hheld : ∀ y ∈ held, owed y = true) :
    ∀ y ∈ held', owedIf x down r.outcome owed y = true := by
  intro y hy
  cases h with
  | lost _ ho grows =>
      rw [ho]
      rcases grows y hy with hy | ⟨rfl, rfl⟩
      · cases down <;> simp [owedIf, Outcome.isRaised, hheld y hy]
      · simp [owedIf]
  | posted n e _ ho _ _ _ grows =>
      rw [ho]
      have := grows y hy
      cases down with
      | false => simp [owedIf, this.2.symm, hheld y this.1]
      | true =>
          rcases this with hy | rfl
          · simp [owedIf, hheld y hy]
          · simp [owedIf]

theorem covered (h : HoldCase code after other x down held held' r) (hc : Covered code downs owed) :
    Covered code (heldAfter after downs r.posted) (owedIf x down r.outcome owed) := by
  cases h with
  | lost hp ho _ =>
      rw [hp, ho]
      refine hc.mono (fun _ h => h) ?_
      intro y hy
      cases down <;> simp [owedIf, Outcome.isRaised, hy]
  | posted n e hp ho hcode hafter _ _ =>
      rw [hp, ho]
      cases down with
      | false =>
          refine hc.release hcode ?_ ?_
          · intro c
            by_cases hn : n = c
            · simp [heldAfter, hafter, hn]
            · simpa [heldAfter, hafter, hn] using fun h => ⟨h, Ne.symm hn⟩
          · intro y hne hy
            simp [owedIf, hne.symm, hy]
      | true =>
          refine hc.press hcode ?_ ?_ (by simp [owedIf])
          · intro c
            by_cases hn : n = c
            · exact fun _ => .inr hn.symm
            · simpa [heldAfter, hafter, hn] using Or.inl
          · intro y hy
            simp [owedIf, hy]

theorem other_unchanged (h : HoldCase code after other x down held held' r) (downs : Nat → Bool) :
    heldAfter other downs r.posted = downs := by
  cases h with
  | lost hp => rw [hp]; rfl
  | posted n e hp _ _ _ hother _ =>
      rw [hp]
      funext c
      exact hother c (downs c)

end HoldCase

end Held

namespace MacInjector

variable {α : Type}

/-- `_post` raises when there is no event, and has set the flags of the one that there is. -/
theorem post_posted (a : MacAnswers α) (e : MacEvent α) (m : MacInjector α) :
    (m.post a e).posted = if a.cg.createsEvents then some (e, m.flags) else none := by
  cases h : a.cg.createsEvents <;> simp [post, MacResult.posted, h]

theorem post_outcome (a : MacAnswers α) (e : MacEvent α) (m : MacInjector α) :
    (m.post a e).outcome = if a.cg.createsEvents then .done else .raised false := by
  cases h : a.cg.createsEvents <;> simp [post, MacResult.outcome, h]

/-- A call that has updated a set and posts an event about `x`. -/
theorem post_cases {code : Int → Option Nat} {after other : Nat → Bool → MacEvent α → Bool} {x : Int} {down : Bool}
    {held held' : PySet Int} {n : Nat} (m : MacInjector α) (a : MacAnswers α) (e : MacEvent α) (hcode : code x = some n)
    (hafter : ∀ c b, after c b e = if n = c then down else b) (hother : ∀ c b, other c b e = b)
    (hheld : held' = if down then held.add x else held.discard x) :
    HoldCase code after other x down held held' (m.post a e) := by
  by_cases he : a.cg.createsEvents = true
  · refine .posted n (e, m.flags) ?_ ?_ hcode hafter hother ?_
    · rw [post_posted, if_pos he]
    · rw [post_outcome, if_pos he]
    · intro y hy
      rw [hheld] at hy
      cases down <;> simpa using hy
  · refine .lost ?_ ?_ ?_
    · rw [post_posted, if_neg he]
    · rw [post_outcome, if_neg he]
    · intro y hy
      rw [hheld] at hy
      cases down with
      | false => exact .inl (PySet.mem_discard.mp hy).1
      | true => exact (PySet.mem_add.mp hy).imp_right fun h => ⟨rfl, h⟩

/-- What the posted events hold down, and what the injector remembers, is owed. -/
structure Known (m : MacInjector α) (events : List (MacEvent α × Nat)) (owedKeys owedButtons : Int → Bool) : Prop where
  keys : ∀ k ∈ m.keys, owedKeys k = true
  buttons : ∀ b ∈ m.buttons, owedButtons b = true
  codes : Covered macKey (macKeyDown events) owedKeys
  natives : Covered macButton (macButtonDown events) owedButtons

theorem known_initial : ({} : MacInjector α).Known [] (fun _ => false) (fun _ => false) := by
  constructor
  · intro k hk
    exact absurd hk (PySet.notMem_empty k)
  · intro b hb
    exact absurd hb (PySet.notMem_empty b)
  · intro c hc
    cases hc
  · intro c hc
    cases hc

variable {m : MacInjector α} {events : List (MacEvent α × Nat)} {owedKeys owedButtons : Int → Bool}

theorem key_cases (m : MacInjector α) (a : MacAnswers α) (k : Int) (down : Bool) :
    HoldCase macKey MacEvent.keyAfter MacEvent.buttonAfter k down m.keys (m.key a k down).injector.keys (m.key a k down) ∧
      (m.key a k down).injector.buttons = m.buttons := by
  unfold MacInjector.key
  split
  · exact ⟨.lost rfl rfl fun y hy => .inl hy, rfl⟩
  · rename_i code hcode
    refine ⟨?_, rfl⟩
    exact post_cases _ a _ hcode (fun _ _ => rfl) (fun _ _ => rfl) rfl

/-- The type of a button's event tells whether it goes down. -/
theorem buttonType_down (button : Int) (down : Bool) :
    decide (buttonType button down = 1 ∨ buttonType button down = 3 ∨ buttonType button down = 25) = down := by
  unfold buttonType
  split
  · cases down <;> rfl
  · split <;> cases down <;> rfl

/-- A call that presses and releases nothing. -/
structure Loose (m : MacInjector α) (r : MacResult α) : Prop where
  keys : r.injector.keys = m.keys
  buttons : r.injector.buttons = m.buttons
  codes : ∀ downs, heldAfter MacEvent.keyAfter downs r.posted = downs
  natives : ∀ downs, heldAfter MacEvent.buttonAfter downs r.posted = downs

theorem scroll_loose (m : MacInjector α) (a : MacAnswers α) (horizontal vertical : Int) :
    m.Loose (m.scroll a horizontal vertical) := by
  unfold MacInjector.scroll
  dsimp only
  split
  · refine ⟨rfl, rfl, ?_, ?_⟩
    · intro downs
      rw [post_posted]
      split <;> rfl
    · intro downs
      rw [post_posted]
      split <;> rfl
  · exact ⟨rfl, rfl, fun _ => rfl, fun _ => rfl⟩

theorem Known.of_loose (h : m.Known events owedKeys owedButtons) {r : MacResult α} (hr : m.Loose r) :
    r.injector.Known (events ++ r.posted.toList) owedKeys owedButtons := by
  constructor
  · rw [hr.keys]; exact h.keys
  · rw [hr.buttons]; exact h.buttons
  · rw [macKeyDown_append, hr.codes]; exact h.codes
  · rw [macButtonDown_append, hr.natives]; exact h.natives

section Held

variable [CommRing α] [LinearOrder α]

theorem button_cases (m : MacInjector α) (a : MacAnswers α) (b : Int) (down : Bool) :
    HoldCase macButton MacEvent.buttonAfter MacEvent.keyAfter b down m.buttons (m.button a b down).injector.buttons
        (m.button a b down) ∧
      (m.button a b down).injector.keys = m.keys := by
  unfold MacInjector.button
  split
  · exact ⟨.lost rfl rfl fun y hy => .inl hy, rfl⟩
  · dsimp only
    split
    · refine ⟨.lost rfl rfl ?_, rfl⟩
      intro y hy
      cases down with
      | false => exact .inl (PySet.mem_discard.mp hy).1
      | true => exact (PySet.mem_add.mp hy).imp_right fun h => ⟨rfl, h⟩
    · rename_i native hnative
      have hcode : macButton b = some native := by simp [macButton, hnative, Except.toOption]
      refine ⟨post_cases _ a _ hcode ?_ (fun _ _ => rfl) ?_, ?_⟩
      · intro c held
        simp only [MacEvent.buttonAfter, buttonType_down]
      · cases down <;> rfl
      · cases down <;> rfl

theorem move_loose (m : MacInjector α) (a : MacAnswers α) (dx dy : Int) : m.Loose (m.move a dx dy) := by
  unfold MacInjector.move
  split
  · exact ⟨rfl, rfl, fun _ => rfl, fun _ => rfl⟩
  · exact ⟨rfl, rfl, fun _ => rfl, fun _ => rfl⟩

/-- What is owed after a call that ended this way. -/
def owedNext (call : Int → Bool → Call) (owed : Int → Bool) (c : Call × Outcome) (x : Int) : Bool := owedBy call x (owed x) c

/-- Each call keeps what is down and what is remembered among what is owed. -/
theorem Known.perform (h : m.Known events owedKeys owedButtons) (a : MacAnswers α) (call : Call) :
    let r := m.perform a call
    r.injector.Known (events ++ r.posted.toList) (owedNext .key owedKeys (call, r.outcome))
      (owedNext .button owedButtons (call, r.outcome)) := by
  cases call with
  | key k down =>
      obtain ⟨hc, hb⟩ := m.key_cases a k down
      have hkeys : owedNext .key owedKeys (.key k down, (m.key a k down).outcome) =
          owedIf k down (m.key a k down).outcome owedKeys := funext fun x => owedBy_key _ _ _ _ _
      have hbuttons : owedNext .button owedButtons (.key k down, (m.key a k down).outcome) = owedButtons :=
        funext fun x => owedBy_button_key _ _ _ _ _
      simp only [MacInjector.perform, hkeys, hbuttons]
      constructor
      · exact hc.remembered h.keys
      · rw [hb]; exact h.buttons
      · rw [macKeyDown_append]; exact hc.covered h.codes
      · rw [macButtonDown_append, hc.other_unchanged]; exact h.natives
  | button b down =>
      obtain ⟨hc, hk⟩ := m.button_cases a b down
      have hkeys : owedNext .key owedKeys (.button b down, (m.button a b down).outcome) = owedKeys :=
        funext fun x => owedBy_key_button _ _ _ _ _
      have hbuttons : owedNext .button owedButtons (.button b down, (m.button a b down).outcome) =
          owedIf b down (m.button a b down).outcome owedButtons := funext fun x => owedBy_button _ _ _ _ _
      simp only [MacInjector.perform, hkeys, hbuttons]
      constructor
      · rw [hk]; exact h.keys
      · exact hc.remembered h.buttons
      · rw [macKeyDown_append, hc.other_unchanged]; exact h.codes
      · rw [macButtonDown_append]; exact hc.covered h.natives
  | move dx dy =>
      have hkeys : owedNext .key owedKeys (.move dx dy, (m.move a dx dy).outcome) = owedKeys :=
        funext fun x => owedBy_move _ (by simp) _ _ _ _ _
      have hbuttons : owedNext .button owedButtons (.move dx dy, (m.move a dx dy).outcome) = owedButtons :=
        funext fun x => owedBy_move _ (by simp) _ _ _ _ _
      simp only [MacInjector.perform, hkeys, hbuttons]
      exact h.of_loose (m.move_loose a dx dy)
  | scroll dx dy =>
      have hkeys : owedNext .key owedKeys (.scroll dx dy, (m.scroll a dx dy).outcome) = owedKeys :=
        funext fun x => owedBy_scroll _ (by simp) _ _ _ _ _
      have hbuttons : owedNext .button owedButtons (.scroll dx dy, (m.scroll a dx dy).outcome) = owedButtons :=
        funext fun x => owedBy_scroll _ (by simp) _ _ _ _ _
      simp only [MacInjector.perform, hkeys, hbuttons]
      exact h.of_loose (m.scroll_loose a dx dy)

/-! ## A run of calls -/

/-- The events that these results have posted. -/
def postedBy (results : List (Call × MacResult α)) : List (MacEvent α × Nat) := results.filterMap fun r => r.2.posted

/-- The calls with how they ended. -/
def callsBy (results : List (Call × MacResult α)) : List (Call × Outcome) := results.map fun r => (r.1, r.2.outcome)

theorem Known.after (h : m.Known events owedKeys owedButtons) (work : List (MacAnswers α × Call)) :
    (m.after work).Known (events ++ postedBy (m.results work))
      (fun x => (callsBy (m.results work)).foldl (owedBy .key x) (owedKeys x))
      (fun x => (callsBy (m.results work)).foldl (owedBy .button x) (owedButtons x)) := by
  induction work generalizing m events owedKeys owedButtons with
  | nil => simpa [MacInjector.after, results, postedBy, callsBy] using h
  | cons w work ih =>
      have := ih (h.perform w.1 w.2)
      cases hp : (m.perform w.1 w.2).posted with
      | none => simpa [MacInjector.after, results, postedBy, callsBy, owedNext, hp] using this
      | some e => simpa [MacInjector.after, results, postedBy, callsBy, owedNext, hp] using this

/-- The injector does the engine's calls, in the order in which the engine makes them, and they end for the engine as they do
here. -/
def Serves (work : List (MacAnswers α × Call)) (ops : List EngineOp) : Prop :=
  callsOf (initial.history ops) = callsBy (({} : MacInjector α).results work)

/-- Whatever the engine does and however its calls end, a hardware key or a mouse button that the posted events hold down
belongs to one that the engine has to release, and the injector remembers no other. So once the engine is paused and not
blocked nothing is down, no button drags a movement and no modifier is set in an event. -/
theorem mac_at_rest (ops : List EngineOp) (work : List (MacAnswers α × Call)) (h : Serves work ops) :
    let s := initial.exec ops
    let m := ({} : MacInjector α).after work
    let events := postedBy (({} : MacInjector α).results work)
    (∀ k ∈ m.keys, k ∈ s.keys) ∧
    (∀ b ∈ m.buttons, b ∈ s.buttons) ∧
    (∀ code, macKeyDown events code = true → ∃ k ∈ s.keys, macKey k = some code) ∧
    (∀ native, macButtonDown events native = true → ∃ b ∈ s.buttons, macButton b = some native) ∧
    (s.epoch = 0 → s.blocked = false →
      m.keys = ∅ ∧ m.buttons = ∅ ∧ m.flags = 0 ∧
      (∀ code, macKeyDown events code = false) ∧ ∀ native, macButtonDown events native = false) := by
  obtain ⟨hkeys, hbuttons, -⟩ := ledger_run ops
  have hquiet : (initial.exec ops).Quiet :=
    exec_induction (fun s op hs => hs.step op) (by intro _ _; exact ⟨rfl, rfl⟩) ops
  have hknown := (known_initial (α := α)).after work
  simp only [List.nil_append] at hknown
  rw [← show callsOf (initial.history ops) = _ from h] at hknown
  simp only [← owed_callsOf] at hknown
  have hks : ∀ k ∈ (({} : MacInjector α).after work).keys, k ∈ (initial.exec ops).keys :=
    fun k hk => (hkeys k).mpr (hknown.keys k hk)
  have hbs : ∀ b ∈ (({} : MacInjector α).after work).buttons, b ∈ (initial.exec ops).buttons :=
    fun b hb => (hbuttons b).mpr (hknown.buttons b hb)
  have hcodes : ∀ code, macKeyDown (postedBy (({} : MacInjector α).results work)) code = true →
      ∃ k ∈ (initial.exec ops).keys, macKey k = some code := by
    intro code hc
    obtain ⟨k, hk, hcode⟩ := hknown.codes code hc
    exact ⟨k, (hkeys k).mpr hk, hcode⟩
  have hnatives : ∀ native, macButtonDown (postedBy (({} : MacInjector α).results work)) native = true →
      ∃ b ∈ (initial.exec ops).buttons, macButton b = some native := by
    intro native hn
    obtain ⟨b, hb, hnative⟩ := hknown.natives native hn
    exact ⟨b, (hbuttons b).mpr hb, hnative⟩
  refine ⟨hks, hbs, hcodes, hnatives, ?_⟩
  intro hepoch hblocked
  obtain ⟨hk, hb⟩ := hquiet hepoch hblocked
  rw [hk] at hks hcodes
  rw [hb] at hbs hnatives
  have hnone : (({} : MacInjector α).after work).keys = ∅ :=
    PySet.eq_empty_iff_forall.mpr fun k hk => PySet.notMem_empty k (hks k hk)
  refine ⟨hnone, ?_, ?_, ?_, ?_⟩
  · exact PySet.eq_empty_iff_forall.mpr fun b hb => PySet.notMem_empty b (hbs b hb)
  · simp [flags, hnone]
  · intro code
    by_contra hc
    obtain ⟨k, hk, -⟩ := hcodes code (by simpa using hc)
    exact PySet.notMem_empty k hk
  · intro native
    by_contra hn
    obtain ⟨b, hb, -⟩ := hnatives native (by simpa using hn)
    exact PySet.notMem_empty b hb

/-- The controller of this session is gone while it holds Shift and drags. -/
def draggingRun : List EngineOp :=
  [.setConnected { now := 0 } true, .tick { now := 1 } 7,
   .receive { now := 1 } { op := .activate, epoch := 5, seq := 1, lease := 7 }, .processOne { now := 1 },
   .receive { now := 1 } { op := .key, epoch := 5, seq := 2, lease := 7, a := 0xA0, b := 1 }, .processOne { now := 1 },
   .receive { now := 1 } { op := .button, epoch := 5, seq := 3, lease := 7, a := 1, b := 1 }, .processOne { now := 1 },
   .receive { now := 1 } { op := .move, epoch := 5, seq := 4, lease := 7, a := 3, b := 4 }, .processOne { now := 1 },
   .peerChanged { now := 1 }]

/-- Core Graphics without a display, with the cursor at the origin. -/
def plainScreen : MacAnswers Int :=
  { cg := { location := some ⟨0, 0⟩, listError := 0, ids := [], count := 0, bounds := fun _ => ⟨⟨0, 0⟩, ⟨0, 0⟩⟩,
            createsEvents := true } }

/-- What the injector is asked to do meanwhile. -/
def draggingWork : List (MacAnswers Int × Call) :=
  [.key 0xA0 true, .button 1 true, .move 3 4, .key 0xA0 false, .button 1 false].map fun call => (plainScreen, call)

theorem mac_at_rest_dragging :
    (postedBy (({} : MacInjector Int).results draggingWork)).length = 5 ∧
      (∀ code, macKeyDown (postedBy (({} : MacInjector Int).results draggingWork)) code = false) ∧
      ∀ native, macButtonDown (postedBy (({} : MacInjector Int).results draggingWork)) native = false := by
  refine ⟨by decide +kernel, ?_⟩
  have hserves : Serves draggingWork draggingRun := by
    unfold Serves
    decide +kernel
  exact ((mac_at_rest draggingRun draggingWork hserves).2.2.2.2 (by decide +kernel) (by decide +kernel)).2.2.2

end Held

/-! ## Scrolling -/

/-- How far a call scrolls, to the side and up, in steps of which 120 make a line. -/
def asks : Call → Int × Int
  | .scroll horizontal vertical => (horizontal, vertical)
  | _ => 0

/-- The columns and lines that an event scrolls. Its second axis counts the other way. -/
def scrolls (e : MacEvent α × Nat) : Int × Int :=
  match e.1 with
  | .scroll lines columns => (-columns, lines)
  | _ => 0

/-- What is left of the steps. -/
def rest (m : MacInjector α) : Int × Int := (m.scrollX, m.scrollY)

/-- Less than a line is left. -/
def Little (m : MacInjector α) : Prop := |m.scrollX| < 120 ∧ |m.scrollY| < 120

theorem tdiv_rest (n : Int) : |n - n.tdiv 120 * 120| < 120 := by
  have hdef := Int.tmod_def n 120
  have hlow := Int.lt_tmod_of_pos n (b := 120) (by decide)
  have hhigh := Int.tmod_lt_of_pos n (b := 120) (by decide)
  rw [abs_lt]
  constructor <;> linarith

/-- A call that scrolls hands on whole lines and keeps the rest. -/
theorem scroll_carries (m : MacInjector α) (a : MacAnswers α) (horizontal vertical : Int) :
    m.rest + (horizontal, vertical) = (m.scroll a horizontal vertical).injector.rest +
        120 • (m.scroll a horizontal vertical).event.elim 0 scrolls ∧
      (m.scroll a horizontal vertical).injector.Little := by
  have hx := tdiv_rest (m.scrollX + horizontal)
  have hy := tdiv_rest (m.scrollY + vertical)
  unfold MacInjector.scroll
  dsimp only
  split
  · refine ⟨?_, hx, hy⟩
    ext
    · simp [post, rest, scrolls]; ring
    · simp [post, rest, scrolls]; ring
  · rename_i hnone
    push Not at hnone
    refine ⟨?_, hx, hy⟩
    ext
    · simp [rest, hnone.1]
    · simp [rest, hnone.2]

/-- The events that could not be made: their calls have raised, and what they were to scroll is gone. -/
def lostBy (results : List (Call × MacResult α)) : List (MacEvent α × Nat) :=
  results.filterMap fun r => if r.2.error.isSome then r.2.event else none

/-- What a call scrolls is posted or lost. -/
theorem posted_or_lost (r : MacResult α) :
    r.event.elim 0 scrolls = r.posted.elim 0 scrolls + (if r.error.isSome then r.event else none).elim 0 scrolls := by
  unfold MacResult.posted
  cases r.error with
  | none => simp
  | some error => simp

theorem sum_filterMap_cons (f : Call × MacResult α → Option (MacEvent α × Nat)) (r : Call × MacResult α)
    (results : List (Call × MacResult α)) :
    (((r :: results).filterMap f).map scrolls).sum = (f r).elim 0 scrolls + ((results.filterMap f).map scrolls).sum := by
  cases h : f r with
  | none => simp [h]
  | some e => simp [h]

variable [CommRing α] [LinearOrder α]

/-- The other calls neither scroll nor touch what is left. -/
theorem perform_carries (m : MacInjector α) (a : MacAnswers α) (call : Call) (hm : m.Little) :
    m.rest + asks call = (m.perform a call).injector.rest + 120 • (m.perform a call).event.elim 0 scrolls ∧
      (m.perform a call).injector.Little := by
  cases call with
  | scroll horizontal vertical => exact m.scroll_carries a horizontal vertical
  | key k down =>
      simp only [MacInjector.perform, MacInjector.key]
      split
      · exact ⟨by simp [asks], hm⟩
      · exact ⟨by simp [asks, post, rest, scrolls], hm⟩
  | button b down =>
      simp only [MacInjector.perform, MacInjector.button]
      split
      · exact ⟨by simp [asks], hm⟩
      · split
        · exact ⟨by simp [asks, rest], hm⟩
        · cases down
          · exact ⟨by simp [asks, post, rest, scrolls], hm⟩
          · exact ⟨by simp [asks, post, rest, scrolls], hm⟩
  | move dx dy =>
      simp only [MacInjector.perform, MacInjector.move]
      split
      · exact ⟨by simp [asks], hm⟩
      · exact ⟨by simp [asks, scrolls], hm⟩

/-- What the calls ask for is 120 times what the posted events scroll, on each axis and in the same direction, and 120 times
what was lost with events that could not be made, and less than one line that waits for the next call. -/
theorem scroll_conserved (work : List (MacAnswers α × Call)) :
    let m := ({} : MacInjector α).after work
    let done := ({} : MacInjector α).results work
    (work.map fun w => asks w.2).sum =
        m.rest + 120 • ((postedBy done).map scrolls).sum + 120 • ((lostBy done).map scrolls).sum ∧
      m.Little := by
  suffices ∀ m : MacInjector α, m.Little →
      m.rest + (work.map fun w => asks w.2).sum =
        (m.after work).rest + 120 • ((postedBy (m.results work)).map scrolls).sum +
          120 • ((lostBy (m.results work)).map scrolls).sum ∧ (m.after work).Little by
    have h := this {} ⟨by simp, by simp⟩
    rwa [show ({} : MacInjector α).rest = 0 from rfl, zero_add] at h
  induction work with
  | nil => exact fun m hm => ⟨by simp [MacInjector.after, postedBy, lostBy, results], hm⟩
  | cons w work ih =>
      intro m hm
      obtain ⟨hstep, hlittle⟩ := m.perform_carries w.1 w.2 hm
      obtain ⟨hrun, hend⟩ := ih _ hlittle
      refine ⟨?_, hend⟩
      have hposted : ((postedBy (m.results (w :: work))).map scrolls).sum = (m.perform w.1 w.2).posted.elim 0 scrolls +
          ((postedBy ((m.perform w.1 w.2).injector.results work)).map scrolls).sum := sum_filterMap_cons _ _ _
      have hlost : ((lostBy (m.results (w :: work))).map scrolls).sum =
          (if (m.perform w.1 w.2).error.isSome then (m.perform w.1 w.2).event else none).elim 0 scrolls +
            ((lostBy ((m.perform w.1 w.2).injector.results work)).map scrolls).sum := sum_filterMap_cons _ _ _
      rw [List.map_cons, List.sum_cons, ← add_assoc, hstep, posted_or_lost, hposted, hlost]
      simp only [smul_add, MacInjector.after, List.foldl_cons] at hrun ⊢
      calc
        _ = (m.perform w.1 w.2).injector.rest + (work.map fun w => asks w.2).sum +
            120 • (m.perform w.1 w.2).posted.elim 0 scrolls +
            120 • (if (m.perform w.1 w.2).error.isSome then (m.perform w.1 w.2).event else none).elim 0 scrolls := by abel
        _ = _ := by rw [hrun]; abel

/-- Core Graphics that cannot make an event. -/
def noEvents : MacAnswers Int := { cg := { plainScreen.cg with createsEvents := false } }

/-- A line is lost with its event, half a line waits, and the next half makes it whole. -/
theorem scroll_conserved_lost :
    let work : List (MacAnswers Int × Call) :=
      [(noEvents, .scroll 0 120), (plainScreen, .scroll 0 60), (plainScreen, .scroll 0 90)]
    let done := ({} : MacInjector Int).results work
    (postedBy done).map scrolls = [(0, 1)] ∧ (lostBy done).map scrolls = [(0, 1)] ∧
      (work.map fun w => asks w.2).sum =
        (({} : MacInjector Int).after work).rest + 120 • ((postedBy done).map scrolls).sum +
        120 • ((lostBy done).map scrolls).sum := by
  refine ⟨by decide +kernel, by decide +kernel, ?_⟩
  exact (scroll_conserved _).1

end MacInjector

end RemoteInput
