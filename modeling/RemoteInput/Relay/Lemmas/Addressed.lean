import RemoteInput.Relay.Lemmas.Queues

/-!
# Which messages a peer is sent
-/

namespace RemoteInput

/-- The messages that the relay has for a role. -/
def Message.suits : Message → Role → Bool
  | .frame _, .target | .peerJoined, .target | .peerGone, .target | .rotated _, .target => true
  | .ack .., .controller | .challenge _, .controller | .activated _, .controller | .paused _, .controller => true
  | _, _ => false

namespace Relay

variable {crypto : Crypto} {r r' : Relay} {action : RelayAction}

/-- `q` has taken the place of `p`, or of nothing. -/
def Replaces (p q : Peer) : Prop := q.role = p.role ∧ q.name = p.name

/-- A peer keeps its role and its name. -/
theorem StepCase.peer_stays (hses : r.Sessions) (hstep : StepCase crypto r action r') {d : Nat} {p : Peer}
    (hp : r.peer d = some p) : ∃ q, r'.peer d = some q ∧ Replaces p q := by
  have hset : ∀ {t : Relay} {c : Nat} {x y : Peer}, t.peer = r.peer → t.peer c = some x → Replaces x y →
      ∃ q, (t.setPeer c y).peer d = some q ∧ Replaces p q := by
    intro t c x y ht hx hy
    by_cases h : d = c
    · subst h
      cases hp.symm.trans (ht ▸ hx)
      exact ⟨y, by simp [Relay.setPeer], hy⟩
    · exact ⟨p, by simp [Relay.setPeer, h, ht, hp], rfl, rfl⟩
  have hnew : ∀ {c : Nat} {y : Peer}, (r.stage c).early = true → ((r.setPeer c y).peer d = some p) := by
    intro c y he
    have hne : d ≠ c := by
      rintro rfl
      rw [hses.early d he] at hp
      cases hp
    simpa [Relay.setPeer, hne] using hp
  have hput : ∀ {t q : Relay} {e : Nat} {entry : Entry} {y : Peer}, t.peer d = some y → Replaces p y →
      t.putOn e entry = some q → ∃ x, q.peer d = some x ∧ Replaces p x := by
    intro t q e entry y ht hy hq
    obtain ⟨pe, hpe, rfl⟩ := putOn_eq hq
    by_cases h : d = e
    · subst h
      cases ht.symm.trans hpe
      exact ⟨y.enqueue entry, by simp [Relay.setPeer], hy⟩
    · exact ⟨y, by simp [Relay.setPeer, h, ht], hy⟩
  cases hstep with
  | idle | moved | inserted | locked | unlocked | committed | targetOut | controllerOut | detached | orphaned
  | orphanEnded => exact ⟨p, hp, rfl, rfl⟩
  | targetIn c name g owner hfree hs hn => exact ⟨p, hnew (by rw [hs]; rfl), rfl, rfl⟩
  | controllerIn c name g t hs ht hn q hq =>
      show ∃ x, q.peer d = some x ∧ Replaces p x
      refine hput ?_ ⟨rfl, rfl⟩ hq
      exact hnew (c := c) (by rw [hs]; rfl)
  | controllerFull c name g t hs ht hn => exact ⟨p, hnew (c := c) (by rw [hs]; rfl), rfl, rfl⟩
  | frame _ _ _ _ _ _ _ _ _ _ q hq => exact hput hp ⟨rfl, rfl⟩ hq
  | outbound _ _ _ _ _ _ _ _ _ _ _ q hq => exact hput hp ⟨rfl, rfl⟩ hq
  | completed c x owner g hs hx q hq =>
      obtain ⟨y, hy, hr⟩ := hset (t := { r with controllers := Function.update r.controllers x.name none,
                                                completed := r.completed ++ [(x.name, g)] })
        (y := { x with generation := g }) rfl hx ⟨rfl, rfl⟩
      show ∃ x, q.peer d = some x ∧ Replaces p x
      refine hput ?_ hr hq
      exact hy
  | completedFull c x owner g hs hx =>
      exact hset (t := { r with controllers := Function.update r.controllers x.name none,
                                completed := r.completed ++ [(x.name, g)] }) rfl hx ⟨rfl, rfl⟩
  | wrote c x entry rest hx => exact hset rfl hx ⟨rfl, rfl⟩
  | controllerGone c x t hs hx hrole hc ht q hq =>
      show ∃ x, q.peer d = some x ∧ Replaces p x
      exact hput (t := { r with controllers := Function.update r.controllers x.name none }) hp ⟨rfl, rfl⟩ hq

/-! ## Every queue -/

/-- Every entry on a queue is for its peer's role. -/
def Addressed (r : Relay) : Prop := ∀ d p, r.peer d = some p → ∀ entry ∈ p.log, entry.message.suits p.role = true

theorem addressed_start (registry : Registry) : Addressed { registry := registry } := by
  intro d p h
  cases h

theorem outbound_suits {m m' : Message} (h : Relay.outbound m = some m') : m'.suits .controller = true := by
  cases m <;> simp only [Relay.outbound, Option.ite_none_right_eq_some, reduceCtorEq, Option.some.injEq] at h
  all_goals grind [Message.suits]

/-- What is put on the queue of a peer is for its role. -/
theorem Put.suits (hses : r.Sessions) {d : Nat} {entry : Entry} (h : r.Put action d entry) :
    ∃ p, r.peer d = some p ∧ entry.message.suits p.role = true := by
  cases h with
  | joined name c ht _ he | gone name c ht _ he | frame name c event ht _ _ he =>
      obtain ⟨p, hp, hr, _⟩ := hses.target name d ht
      exact ⟨p, hp, by rw [he, hr]; rfl⟩
  | rotated p o g hp hr _ he => exact ⟨p, hp, by rw [he, hr]; rfl⟩
  | outbound name t m m' hd hm _ he =>
      obtain ⟨p, hp, hr, _⟩ := hses.controller name d hd
      exact ⟨p, hp, by rw [he, hr]; exact outbound_suits hm⟩

theorem Addressed.step (h : r.Addressed) (hses : r.Sessions) (hrot : r.Rotating) (hstep : StepCase crypto r action r') :
    r'.Addressed := by
  intro d q hq entry he
  rw [← logOf_peer hq] at he
  have hrole : ∀ p, r.peer d = some p → q.role = p.role := by
    intro p hp
    obtain ⟨q', hq', hr, _⟩ := hstep.peer_stays hses hp
    cases hq.symm.trans hq'
    exact hr
  have hold : entry ∈ r.logOf d → entry.message.suits q.role = true := by
    intro hm
    cases hp : r.peer d with
    | none => simp [logOf, hp] at hm
    | some p =>
        rw [logOf_peer hp] at hm
        rw [hrole p hp]
        exact h d p hp entry hm
  rcases hstep.logs hses hrot d with hl | ⟨x, hx, hl⟩
  · rw [hl] at he; exact hold he
  · rw [hl, List.mem_append, List.mem_singleton] at he
    rcases he with he | rfl
    · exact hold he
    · obtain ⟨p, hp, hs⟩ := hx.suits hses
      rw [hrole p hp]
      exact hs

end Relay

end RemoteInput
