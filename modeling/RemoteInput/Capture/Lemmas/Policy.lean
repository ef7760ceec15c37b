import RemoteInput.Capture.Policy

/-!
# What one event does to the policy
-/

namespace RemoteInput

namespace CapturePolicy

variable {pauses : Pauses} {p q : CapturePolicy} {k : Int} {down : Bool}

@[simp] theorem mem_union {s t : PySet Int} {a : Int} : a ∈ union s t ↔ a ∈ s ∨ a ∈ t := by
  unfold union
  rw [PySet.mem_def (s := t)]
  generalize t.elems = xs
  induction xs generalizing s with
  | nil => simp
  | cons x xs ih =>
      rw [List.foldl_cons, ih, PySet.mem_add, List.mem_cons]
      tauto

/-! ## Callbacks -/

/-- No callback pauses the policy. -/
def calm : Pauses := fun _ _ => false

/-- What a callback cannot change. -/
structure Like (p q : CapturePolicy) : Prop where
  keys : q.keys = p.keys
  buttons : q.buttons = p.buttons
  ignored : q.ignored = p.ignored
  ignoredButtons : q.ignoredButtons = p.ignoredButtons

theorem Like.refl (p : CapturePolicy) : p.Like p := ⟨rfl, rfl, rfl, rfl⟩

theorem Like.trans {r : CapturePolicy} (h : p.Like q) (h' : q.Like r) : p.Like r :=
  ⟨h'.keys.trans h.keys, h'.buttons.trans h.buttons, h'.ignored.trans h.ignored, h'.ignoredButtons.trans h.ignoredButtons⟩

theorem call_cases (pauses : Pauses) (c : PolicyCall) (p : CapturePolicy) :
    pauses p.calls c = true ∧ p.call pauses c = { p with calls := p.calls ++ [c] }.pause ∨
      pauses p.calls c = false ∧ p.call pauses c = { p with calls := p.calls ++ [c] } := by
  unfold call
  cases h : pauses p.calls c with
  | true => exact .inl ⟨rfl, rfl⟩
  | false => exact .inr ⟨rfl, rfl⟩

theorem call_like (pauses : Pauses) (c : PolicyCall) (p : CapturePolicy) : p.Like (p.call pauses c) := by
  rcases call_cases pauses c p with ⟨_, h⟩ | ⟨_, h⟩ <;> exact h ▸ ⟨rfl, rfl, rfl, rfl⟩

@[simp] theorem call_calls (pauses : Pauses) (c : PolicyCall) (p : CapturePolicy) :
    (p.call pauses c).calls = p.calls ++ [c] := by
  rcases call_cases pauses c p with ⟨_, h⟩ | ⟨_, h⟩ <;> simp [h, pause]

/-! ## Presses and releases that are recorded -/

/-- An emitted press, recorded in `forwarded`. -/
def pressed (pauses : Pauses) (k : Int) (p : CapturePolicy) : CapturePolicy :=
  { p.emitKey pauses k true with forwarded := (p.emitKey pauses k true).forwarded.add k }

/-- An emitted release, recorded in `forwarded`. -/
def released (pauses : Pauses) (k : Int) (p : CapturePolicy) : CapturePolicy :=
  { p.emitKey pauses k false with forwarded := (p.emitKey pauses k false).forwarded.discard k }

theorem flushEach_cons (pauses : Pauses) (k : Int) (keys : List Int) (p : CapturePolicy) :
    flushEach pauses (k :: keys) p = flushEach pauses keys (p.pressed pauses k) := rfl

theorem forward_down (pauses : Pauses) (k : Int) (p : CapturePolicy) :
    p.forward pauses k true = (p.flushModifiers pauses).pressed pauses k := by
  unfold forward
  dsimp only
  rw [if_pos (.inl rfl), if_pos rfl]
  rfl

theorem forward_up (pauses : Pauses) (k : Int) (p : CapturePolicy) :
    p.forward pauses k false =
      if k ∈ (p.flushModifiers pauses).forwarded then (p.flushModifiers pauses).released pauses k
      else p.flushModifiers pauses := by
  unfold forward
  dsimp only
  generalize p.flushModifiers pauses = q
  by_cases hk : k ∈ q.forwarded
  · rw [if_pos (.inr hk), if_pos hk, if_neg (by simp)]
    rfl
  · rw [if_neg (by simpa using hk), if_neg hk, if_neg (by simp), PySet.discard_of_notMem hk]

/-- The press of a standalone modifier tap. -/
def tapped (pauses : Pauses) (k : Int) (p : CapturePolicy) : CapturePolicy :=
  { p.pressed pauses k with pending := p.pending.discard k }

/-- The branches of the release of a modifier. -/
inductive ReleaseCase (pauses : Pauses) (k : Int) (p : CapturePolicy) : CapturePolicy × Option Bool → Prop where
  | raised (hp : k ∈ p.pending) (hc : pauses p.calls (.emit { op := .key, a := k, b := 1 }) = true) :
      ReleaseCase pauses k p (p.emitKey pauses k true, none)
  | tapped (hp : k ∈ p.pending) (hc : pauses p.calls (.emit { op := .key, a := k, b := 1 }) = false) :
      ReleaseCase pauses k p ((p.tapped pauses k).released pauses k, some true)
  | released (hp : k ∉ p.pending) (hf : k ∈ p.forwarded) : ReleaseCase pauses k p (p.released pauses k, some true)
  | idle (hp : k ∉ p.pending) (hf : k ∉ p.forwarded) : ReleaseCase pauses k p (p, some true)

theorem releaseModifier_cases (pauses : Pauses) (k : Int) (p : CapturePolicy) :
    ReleaseCase pauses k p (p.releaseModifier pauses k) := by
  unfold releaseModifier
  dsimp only
  by_cases hp : k ∈ p.pending
  · rw [if_pos hp]
    rcases call_cases pauses (.emit { op := .key, a := k, b := 1 }) p with ⟨hc, he⟩ | ⟨hc, he⟩
    · -- the pause has cleared `pending`
      have hgone : k ∉ (p.emitKey pauses k true).pending := by
        show k ∉ (p.call pauses (.emit { op := .key, a := k, b := 1 })).pending
        rw [he]; simp [pause]
      rw [if_pos ⟨hp, hgone⟩]
      exact .raised hp hc
    · have hpend : (p.emitKey pauses k true).pending = p.pending := by
        show (p.call pauses (.emit { op := .key, a := k, b := 1 })).pending = _
        rw [he]
      rw [if_neg (fun h => h.2 (hpend ▸ hp)), if_pos hp, if_pos (by simp), hpend]
      exact .tapped hp hc
  · rw [if_neg hp, if_neg (fun h => hp h.1), if_neg hp]
    by_cases hf : k ∈ p.forwarded
    · rw [if_pos hf]; exact .released hp hf
    · rw [if_neg hf]; exact .idle hp hf

/-! ## What a callback cannot change, an event cannot change by its callbacks -/

theorem pressed_like (pauses : Pauses) (k : Int) (p : CapturePolicy) : p.Like (p.pressed pauses k) :=
  (call_like pauses _ p).trans ⟨rfl, rfl, rfl, rfl⟩

theorem released_like (pauses : Pauses) (k : Int) (p : CapturePolicy) : p.Like (p.released pauses k) :=
  (call_like pauses _ p).trans ⟨rfl, rfl, rfl, rfl⟩

theorem flushEach_like (pauses : Pauses) (keys : List Int) (p : CapturePolicy) : p.Like (flushEach pauses keys p) := by
  induction keys generalizing p with
  | nil => exact .refl p
  | cons key keys ih => exact (pressed_like pauses key p).trans (ih _)

theorem flushModifiers_like (pauses : Pauses) (p : CapturePolicy) : p.Like (p.flushModifiers pauses) :=
  (flushEach_like pauses p.pending.elems p).trans ⟨rfl, rfl, rfl, rfl⟩

theorem forward_like (pauses : Pauses) (k : Int) (down : Bool) (p : CapturePolicy) : p.Like (p.forward pauses k down) := by
  have hf := flushModifiers_like pauses p
  cases down with
  | true =>
      rw [forward_down]
      exact hf.trans (pressed_like pauses k _)
  | false =>
      rw [forward_up]
      split
      · exact hf.trans (released_like pauses k _)
      · exact hf

theorem releaseModifier_like (pauses : Pauses) (k : Int) (p : CapturePolicy) : p.Like (p.releaseModifier pauses k).1 := by
  have hc := releaseModifier_cases pauses k p
  generalize p.releaseModifier pauses k = r at hc ⊢
  cases hc with
  | raised => exact call_like pauses _ p
  | tapped =>
      have ht : p.Like (p.tapped pauses k) := (pressed_like pauses k p).trans ⟨rfl, rfl, rfl, rfl⟩
      exact ht.trans (released_like pauses k _)
  | released => exact released_like pauses k p
  | idle => exact .refl p

/-! ## Keys -/

/-- The state in which `key` decides: the key is in or out of `keys`. -/
def touch (k : Int) (down : Bool) (p : CapturePolicy) : CapturePolicy :=
  { p with keys := if down then p.keys.add k else p.keys.discard k, calls := [] }

/-- The branches of `key` from the state `q`, which already has the key in or out of `keys`. -/
inductive KeyCase (pauses : Pauses) (k : Int) (down repeated : Bool) (q : CapturePolicy) :
    CapturePolicy × Option Bool → Prop where
  | repeated (h : q.hotkey k down) (hr : repeated = true) :
      KeyCase pauses k down repeated q ({ q with swallowed := q.swallowed.add k }, some true)
  | fired (h : q.hotkey k down) (hr : repeated = false) (c : PolicyCall) (hc : c = if k = f9 then .toggle else .stop) :
      KeyCase pauses k down repeated q
        (call pauses c { q with swallowed := q.swallowed.add k, pending := ∅ }, some true)
  | held (h : ¬ q.hotkey k down) (hs : k ∈ q.swallowed) (hd : down = true) : KeyCase pauses k down repeated q (q, some true)
  | unswallowed (h : ¬ q.hotkey k down) (hs : k ∈ q.swallowed) (hd : down = false) :
      KeyCase pauses k down repeated q ({ q with swallowed := q.swallowed.discard k }, some true)
  | ignored (h : ¬ q.hotkey k down) (hs : k ∉ q.swallowed) (hi : k ∈ q.ignored) (hd : down = true) :
      KeyCase pauses k down repeated q (q, some q.active)
  | unignored (h : ¬ q.hotkey k down) (hs : k ∉ q.swallowed) (hi : k ∈ q.ignored) (hd : down = false) :
      KeyCase pauses k down repeated q ({ q with ignored := q.ignored.discard k }, some q.active)
  | passed (h : ¬ q.hotkey k down) (hs : k ∉ q.swallowed) (hi : k ∉ q.ignored) (ha : q.active = false) :
      KeyCase pauses k down repeated q (q, some false)
  | known (hs : k ∉ q.swallowed) (hi : k ∉ q.ignored) (ha : q.active = true) (hm : k ∈ reservedMods) (hd : down = true)
      (hf : k ∈ q.forwarded) : KeyCase pauses k down repeated q (q, some true)
  | deferred (hs : k ∉ q.swallowed) (hi : k ∉ q.ignored) (ha : q.active = true) (hm : k ∈ reservedMods)
      (hd : down = true) (hf : k ∉ q.forwarded) :
      KeyCase pauses k down repeated q ({ q with pending := q.pending.add k }, some true)
  | modifier (hs : k ∉ q.swallowed) (hi : k ∉ q.ignored) (ha : q.active = true) (hm : k ∈ reservedMods)
      (hd : down = false) : KeyCase pauses k down repeated q (q.releaseModifier pauses k)
  | forwarded (h : ¬ q.hotkey k down) (hs : k ∉ q.swallowed) (hi : k ∉ q.ignored) (ha : q.active = true)
      (hm : k ∉ reservedMods) : KeyCase pauses k down repeated q (q.forward pauses k down, some true)

theorem keyHeld_cases (pauses : Pauses) (k : Int) (down repeated : Bool) (q : CapturePolicy) :
    KeyCase pauses k down repeated q (q.keyHeld pauses k down repeated) := by
  unfold keyHeld
  split
  · rename_i h
    dsimp only
    cases repeated with
    | true => exact .repeated h rfl
    | false => exact .fired h rfl _ rfl
  rename_i h
  split
  · rename_i hs
    cases down with
    | true => exact .held h hs rfl
    | false => exact .unswallowed h hs rfl
  rename_i hs
  split
  · rename_i hi
    cases down with
    | true => exact .ignored h hs hi rfl
    | false => exact .unignored h hs hi rfl
  rename_i hi
  split
  · rename_i ha; exact .passed h hs hi ha
  rename_i ha
  have ha : q.active = true := by simpa using ha
  split
  · rename_i hm
    cases down with
    | true =>
        rw [if_pos rfl]
        split
        · rename_i hf; exact .known hs hi ha hm rfl hf
        · rename_i hf; exact .deferred hs hi ha hm rfl hf
    | false => exact .modifier hs hi ha hm rfl
  · rename_i hm; exact .forwarded h hs hi ha hm

theorem key_cases (pauses : Pauses) (k : Int) (down : Bool) (p : CapturePolicy) :
    KeyCase pauses k down (decide (k ∈ p.keys)) (p.touch k down) (p.key pauses k down) :=
  keyHeld_cases pauses k down _ _

/-- Only a release that is not swallowed takes a key out of `ignored`. -/
structure KeyLike (k : Int) (down : Bool) (q r : CapturePolicy) : Prop where
  keys : r.keys = q.keys
  buttons : r.buttons = q.buttons
  ignoredButtons : r.ignoredButtons = q.ignoredButtons
  ignored : r.ignored = q.ignored ∨ down = false ∧ k ∉ q.swallowed ∧ r.ignored = q.ignored.discard k
  released : down = false → k ∉ q.swallowed → k ∉ r.ignored

theorem KeyCase.like {repeated : Bool} {r : CapturePolicy × Option Bool} (h : KeyCase pauses k down repeated q r) :
    KeyLike k down q r.1 := by
  have hlike : ∀ {r : CapturePolicy}, q.Like r → (down = false → k ∉ q.swallowed → k ∉ q.ignored) → KeyLike k down q r :=
    fun h hr => ⟨h.keys, h.buttons, h.ignoredButtons, .inl h.ignored, fun hd hs => h.ignored ▸ hr hd hs⟩
  cases h with
  | repeated h => exact hlike ⟨rfl, rfl, rfl, rfl⟩ (by simp [h.1])
  | fired h _ c =>
      have hq : q.Like { q with swallowed := q.swallowed.add k, pending := ∅ } := ⟨rfl, rfl, rfl, rfl⟩
      exact hlike (hq.trans (call_like pauses c _)) (by simp [h.1])
  | held _ _ hd => exact hlike (.refl q) (by simp [hd])
  | unswallowed _ hs => exact hlike ⟨rfl, rfl, rfl, rfl⟩ (fun _ h => absurd hs h)
  | ignored _ _ _ hd => exact hlike (.refl q) (by simp [hd])
  | unignored _ hs _ hd => exact ⟨rfl, rfl, rfl, .inr ⟨hd, hs, rfl⟩, fun _ _ => by simp⟩
  | passed _ _ hi | known _ hi => exact hlike (.refl q) (fun _ _ => hi)
  | deferred _ hi => exact hlike ⟨rfl, rfl, rfl, rfl⟩ (fun _ _ => hi)
  | modifier _ hi => exact hlike (releaseModifier_like pauses k q) (fun _ _ => hi)
  | forwarded _ _ hi => exact hlike (forward_like pauses k down q) (fun _ _ => hi)

/-! ## A key that is not being sent -/

/-- `k` is neither deferred nor forwarded. -/
def Unsent (k : Int) (p : CapturePolicy) : Prop := k ∉ p.forwarded ∧ k ∉ p.pending

/-- A key that was not being sent in `p` is not in `q` either, and is swallowed in `q` only if it was. -/
def Away (k : Int) (p q : CapturePolicy) : Prop := Unsent k p → Unsent k q ∧ (k ∈ q.swallowed ↔ k ∈ p.swallowed)

theorem Away.trans {r : CapturePolicy} (h : Away k p q) (h' : Away k q r) : Away k p r := by
  intro hu
  obtain ⟨hq, hs⟩ := h hu
  obtain ⟨hr, hs'⟩ := h' hq
  exact ⟨hr, hs'.trans hs⟩

theorem Away.of_eq (hf : q.forwarded = p.forwarded) (hp : q.pending = p.pending) (hs : q.swallowed = p.swallowed) :
    Away k p q := by
  rintro ⟨h1, h2⟩
  exact ⟨⟨hf ▸ h1, hp ▸ h2⟩, by rw [hs]⟩

theorem pause_away (k : Int) (p : CapturePolicy) : Away k p p.pause := by
  rintro ⟨hf, _⟩
  refine ⟨⟨by simp [pause], by simp [pause]⟩, ?_⟩
  show k ∈ union p.swallowed p.forwarded ↔ _
  rw [mem_union]
  exact or_iff_left hf

theorem call_away (pauses : Pauses) (c : PolicyCall) (k : Int) (p : CapturePolicy) : Away k p (p.call pauses c) := by
  have hrec : Away k p { p with calls := p.calls ++ [c] } := .of_eq rfl rfl rfl
  rcases call_cases pauses c p with ⟨_, h⟩ | ⟨_, h⟩
  · rw [h]; exact hrec.trans (pause_away k _)
  · rw [h]; exact hrec

theorem emitKey_away (pauses : Pauses) (j : Int) (down : Bool) (k : Int) (p : CapturePolicy) :
    Away k p (p.emitKey pauses j down) := call_away pauses _ k p

theorem pressed_away (pauses : Pauses) {j : Int} (hj : k ≠ j) (p : CapturePolicy) : Away k p (p.pressed pauses j) := by
  refine (emitKey_away pauses j true k p).trans ?_
  rintro ⟨hf, hp⟩
  exact ⟨⟨fun h => (PySet.mem_add.mp h).elim hf hj, hp⟩, Iff.rfl⟩

theorem released_away (pauses : Pauses) (j k : Int) (p : CapturePolicy) : Away k p (p.released pauses j) := by
  refine (emitKey_away pauses j false k p).trans ?_
  rintro ⟨hf, hp⟩
  exact ⟨⟨fun h => hf (PySet.mem_discard.mp h).1, hp⟩, Iff.rfl⟩

theorem flushEach_away (pauses : Pauses) {keys : List Int} (hk : k ∉ keys) (p : CapturePolicy) :
    Away k p (flushEach pauses keys p) := by
  induction keys generalizing p with
  | nil => exact .of_eq rfl rfl rfl
  | cons key keys ih =>
      rw [List.mem_cons, not_or] at hk
      exact (pressed_away pauses hk.1 p).trans (ih hk.2 _)

theorem flushModifiers_away (pauses : Pauses) (k : Int) (p : CapturePolicy) : Away k p (p.flushModifiers pauses) := by
  intro hu
  obtain ⟨⟨hf, _⟩, hs⟩ := flushEach_away pauses (show k ∉ p.pending.elems from hu.2) p hu
  exact ⟨⟨hf, by simp [flushModifiers]⟩, hs⟩

theorem forward_away (pauses : Pauses) {j : Int} (hj : j ≠ k ∨ down = false) (p : CapturePolicy) :
    Away k p (p.forward pauses j down) := by
  have hf := flushModifiers_away pauses k p
  cases down with
  | true =>
      rw [forward_down]
      exact hf.trans (pressed_away pauses (Ne.symm (hj.resolve_right (by simp))) _)
  | false =>
      rw [forward_up]
      split
      · exact hf.trans (released_away pauses j k _)
      · exact hf

theorem releaseModifier_away (pauses : Pauses) (j k : Int) (p : CapturePolicy) :
    Away k p (p.releaseModifier pauses j).1 := by
  intro hu
  have hc := releaseModifier_cases pauses j p
  generalize p.releaseModifier pauses j = r at hc ⊢
  cases hc with
  | raised => exact emitKey_away pauses j true k p hu
  | tapped hp =>
      have hne : k ≠ j := fun h => hu.2 (h ▸ hp)
      obtain ⟨⟨hf, -⟩, hs⟩ := pressed_away pauses hne p hu
      have ht : Unsent k (p.tapped pauses j) := ⟨hf, fun h => hu.2 (PySet.mem_discard.mp h).1⟩
      obtain ⟨hr, hs'⟩ := released_away pauses j k (p.tapped pauses j) ht
      exact ⟨hr, hs'.trans hs⟩
  | released => exact released_away pauses j k p hu
  | idle => exact ⟨hu, Iff.rfl⟩

/-- An event of another key, or a release of `k`, does not make `k` one that is being sent. -/
theorem KeyCase.unsent {j : Int} {repeated : Bool} {r : CapturePolicy × Option Bool}
    (h : KeyCase pauses j down repeated q r) (hj : j ≠ k ∨ down = false) (hu : Unsent k q) :
    Unsent k r.1 ∧ (k ∉ q.swallowed → k ∉ r.1.swallowed) := by
  have haway : ∀ {r : CapturePolicy}, Away k q r → Unsent k r ∧ (k ∉ q.swallowed → k ∉ r.swallowed) :=
    fun h => ⟨(h hu).1, fun hs hs' => hs ((h hu).2.mp hs')⟩
  have hadd : j ≠ k → k ∉ q.swallowed → k ∉ q.swallowed.add j :=
    fun hne hs h => (PySet.mem_add.mp h).elim hs (Ne.symm hne)
  cases h with
  | repeated h =>
      have hne : j ≠ k := hj.resolve_right (by simp [h.1])
      exact ⟨hu, hadd hne⟩
  | fired h _ c =>
      have hne : j ≠ k := hj.resolve_right (by simp [h.1])
      have hq : Unsent k { q with swallowed := q.swallowed.add j, pending := ∅ } := ⟨hu.1, by simp⟩
      obtain ⟨hc, hs⟩ := call_away pauses c k _ hq
      exact ⟨hc, fun hk hk' => hadd hne hk (hs.mp hk')⟩
  | held | ignored | passed | known => exact haway (.of_eq rfl rfl rfl)
  | unswallowed => exact ⟨hu, fun hs h => hs (PySet.mem_discard.mp h).1⟩
  | unignored => exact haway (.of_eq rfl rfl rfl)
  | deferred _ _ _ _ hd =>
      have hne : j ≠ k := hj.resolve_right (by simp [hd])
      exact ⟨⟨hu.1, fun h => (PySet.mem_add.mp h).elim hu.2 (Ne.symm hne)⟩, id⟩
  | modifier => exact haway (releaseModifier_away pauses j k q)
  | forwarded => exact haway (forward_away pauses hj q)

/-- An autorepeat of an ignored key sends nothing. -/
theorem KeyCase.autorepeat {repeated : Bool} {r : CapturePolicy × Option Bool} (h : KeyCase pauses k true repeated q r)
    (hi : k ∈ q.ignored) (hu : Unsent k q) : Unsent k r.1 := by
  cases h with
  | repeated | held | ignored => exact hu
  | fired _ _ c => exact (call_away pauses c k { q with swallowed := q.swallowed.add k, pending := ∅ } ⟨hu.1, by simp⟩).1
  | unswallowed _ _ hd | unignored _ _ _ hd | modifier _ _ _ _ hd => cases hd
  | passed _ _ hn | known _ hn | deferred _ hn | forwarded _ _ hn => exact absurd hi hn

/-! ## The mouse -/

/-- The state in which `mouse` decides: a button is in or out of `buttons`. -/
def touchButton (op : Op) (a b : Int) (p : CapturePolicy) : CapturePolicy :=
  { p with buttons := if op = .button then if b ≠ 0 then p.buttons.add a else p.buttons.discard a else p.buttons,
           calls := [] }

/-- The branches of `mouse` from the state `q`, which already has the button in or out of `buttons`. -/
inductive MouseCase (pauses : Pauses) (op : Op) (a b : Int) (q : CapturePolicy) : CapturePolicy × Bool → Prop where
  | ignored (hop : op = .button) (hi : a ∈ q.ignoredButtons) (hb : b ≠ 0) : MouseCase pauses op a b q (q, q.active)
  | unignored (hop : op = .button) (hi : a ∈ q.ignoredButtons) (hb : b = 0) :
      MouseCase pauses op a b q ({ q with ignoredButtons := q.ignoredButtons.discard a }, q.active)
  | passed (hi : op = .button → a ∉ q.ignoredButtons) (ha : q.active = false) : MouseCase pauses op a b q (q, false)
  | emitted (hi : op = .button → a ∉ q.ignoredButtons) (ha : q.active = true) :
      MouseCase pauses op a b q ((q.flushModifiers pauses).call pauses (.emit { op := op, a := a, b := b }), true)

theorem mouse_cases (pauses : Pauses) (op : Op) (a b : Int) (p : CapturePolicy) :
    MouseCase pauses op a b (p.touchButton op a b) (p.mouse pauses op a b) := by
  have hseen : ∀ q : CapturePolicy, (op = .button → a ∉ q.ignoredButtons) →
      MouseCase pauses op a b q (q.mouseSeen pauses op a b) := by
    intro q hi
    unfold mouseSeen
    split
    · rename_i ha; exact .passed hi ha
    · rename_i ha; exact .emitted hi (by simpa using ha)
  unfold mouse
  dsimp only
  by_cases hop : op = .button
  · rw [if_pos hop]
    have ht : p.touchButton op a b =
        { p with buttons := if b ≠ 0 then p.buttons.add a else p.buttons.discard a, calls := [] } := by
      rw [touchButton, if_pos hop]
    rw [ht]
    by_cases hi : a ∈ p.ignoredButtons
    · rw [if_pos hi]
      by_cases hb : b = 0
      · rw [if_neg (not_not.mpr hb), if_neg (not_not.mpr hb)]; exact .unignored hop hi hb
      · rw [if_pos hb, if_pos hb]; exact .ignored hop hi hb
    · rw [if_neg hi]; exact hseen _ fun _ => hi
  · have ht : p.touchButton op a b = { p with calls := [] } := by rw [touchButton, if_neg hop]
    rw [if_neg hop, ht]
    exact hseen _ fun h => absurd h hop

theorem MouseCase.like {op : Op} {a b : Int} {r : CapturePolicy × Bool} (h : MouseCase pauses op a b q r) :
    r.1.keys = q.keys ∧ r.1.buttons = q.buttons ∧ r.1.ignored = q.ignored ∧
      (r.1.ignoredButtons = q.ignoredButtons ∨ op = .button ∧ b = 0 ∧ r.1.ignoredButtons = q.ignoredButtons.discard a) ∧
      (op = .button → b = 0 → a ∉ r.1.ignoredButtons) := by
  cases h with
  | ignored _ _ hb => exact ⟨rfl, rfl, rfl, .inl rfl, fun _ h => absurd h hb⟩
  | unignored hop _ hb => exact ⟨rfl, rfl, rfl, .inr ⟨hop, hb, rfl⟩, fun _ _ => by simp⟩
  | passed hi => exact ⟨rfl, rfl, rfl, .inl rfl, fun hop _ => hi hop⟩
  | emitted hi =>
      obtain ⟨hk, hb, hi', hib⟩ := (flushModifiers_like pauses q).trans
        (call_like pauses (.emit { op := op, a := a, b := b }) (q.flushModifiers pauses))
      exact ⟨hk, hb, hi', .inl hib, fun hop _ => hib ▸ hi hop⟩

theorem MouseCase.unsent {op : Op} {a b : Int} {r : CapturePolicy × Bool} (h : MouseCase pauses op a b q r)
    (hu : Unsent k q) : Unsent k r.1 ∧ (k ∉ q.swallowed → k ∉ r.1.swallowed) := by
  cases h with
  | ignored | unignored | passed => exact ⟨hu, id⟩
  | emitted =>
      obtain ⟨hr, hs⟩ :=
        (flushModifiers_away pauses k q).trans (call_away pauses (.emit { op := op, a := a, b := b }) k _) hu
      exact ⟨hr, fun hk hk' => hk (hs.mp hk')⟩

end CapturePolicy

end RemoteInput
