import RemoteInput.Relay.Lemmas.Queues

/-!
# Rotations that a connection waits for

The rotation that the reader of a connection is busy with, and the replies on its queue.
-/

namespace RemoteInput

def Message.isRotate : Message → Bool
  | .rotate .. => true
  | _ => false

def Message.isRotated : Message → Bool
  | .rotated _ => true
  | _ => false

/-- The replies to rotations in a queue. -/
def Entry.replies (out : List Entry) : Nat := out.countP fun entry => entry.message.isRotated

/-- One if the reader is busy with a rotation. -/
def Stage.rotations (st : Stage) : Nat := if st.rotating then 1 else 0

theorem Stage.rotations_of_not {st : Stage} (h : st.rotating = false) : st.rotations = 0 := by simp [rotations, h]

/-- A stage that goes on with what was told before is not busy with a new rotation. -/
theorem Stage.Carries.rotating {st st' : Stage} (h : st.Carries st') (hu : ∀ owner g, st' ≠ .serving owner (.committed g))
    (hr : st'.rotating = true) : st.rotating = true := by
  have hsome : ∀ x, st.rotation = some x → st.rotating = true := by
    intro x hx
    unfold Stage.rotation at hx
    split at hx
    · rfl
    · rfl
    · cases hx
  unfold Stage.rotating at hr
  split at hr
  · cases hr
  · rename_i owner reader hidle
    cases reader with
    | idle => exact absurd rfl hidle
    | waiting password rotationId => exact hsome _ (h.rotation _ rfl)
    | hashing password rotationId => exact hsome _ (h.rotation _ rfl)
    | committed g => exact absurd rfl (hu owner g)
  · cases hr

namespace Relay

variable {crypto : Crypto} {r r' : Relay} {action : RelayAction} {c : Nat}

/-- The replies on the queue of `c`. -/
def replies (r : Relay) (c : Nat) : Nat := ((r.peer c).map fun p => Entry.replies p.out).getD 0

def outstanding (r : Relay) (c : Nat) : Nat := (r.stage c).rotations + r.replies c

theorem replies_of_peer {p : Peer} (h : r.peer c = some p) : r.replies c = Entry.replies p.out := by simp [replies, h]

theorem replies_setPeer (r : Relay) (d : Nat) (p : Peer) (c : Nat) :
    (r.setPeer d p).replies c = if c = d then Entry.replies p.out else r.replies c := by
  unfold replies Relay.setPeer
  by_cases h : c = d
  · subst h; simp
  · simp [h]

theorem stage_setStage (r : Relay) (d : Nat) (st : Stage) (c : Nat) :
    (r.setStage d st).stage c = if c = d then st else r.stage c := by
  unfold Relay.setStage
  by_cases h : c = d
  · subst h; simp
  · simp [h]

/-- One more entry on a queue. -/
theorem replies_putOn {d : Nat} {entry : Entry} {q : Relay} (hq : r.putOn d entry = some q) (c : Nat) :
    q.stage = r.stage ∧ q.replies c = r.replies c + if c = d ∧ entry.message.isRotated then 1 else 0 := by
  obtain ⟨p, hp, rfl⟩ := putOn_eq hq
  refine ⟨rfl, ?_⟩
  rw [replies_setPeer]
  by_cases h : c = d
  · subst h
    rw [if_pos rfl, replies_of_peer hp]
    simp [Peer.enqueue, Entry.replies, List.countP_append, List.countP_singleton]
  · simp [h]

theorem replies_putOn_quiet {d : Nat} {entry : Entry} {q : Relay} (hq : r.putOn d entry = some q)
    (he : entry.message.isRotated = false) (c : Nat) : q.stage = r.stage ∧ q.replies c = r.replies c := by
  obtain ⟨hs, h⟩ := replies_putOn hq c
  exact ⟨hs, by simpa [he] using h⟩

theorem outbound_isRotated {m m' : Message} (h : Relay.outbound m = some m') : m'.isRotated = false := by
  cases m <;> simp only [Relay.outbound, Option.ite_none_right_eq_some, reduceCtorEq, Option.some.injEq] at h
  all_goals grind [Message.isRotated]

/-- One if the relay takes a request for a rotation from `c`. -/
def asks (action : RelayAction) (c : Nat) : Nat :=
  match action with
  | .receive d (some (.rotate ..)) => if d = c then 1 else 0
  | _ => 0

/-- An action adds to what a connection waits for only by taking a request. -/
theorem StepCase.outstanding (hstep : StepCase crypto r action r') (c : Nat) :
    r'.outstanding c ≤ r.outstanding c + asks action c := by
  -- a change of one stage and of queues that leaves the replies alone
  have hmove : ∀ {q : Relay} {d : Nat} {st : Stage}, q.stage = r.stage → q.replies c ≤ r.replies c →
      (c = d → st.rotations ≤ (r.stage c).rotations + asks action c) →
      (q.setStage d st).outstanding c ≤ r.outstanding c + asks action c := by
    intro q d st hq hle hst
    unfold Relay.outstanding
    rw [stage_setStage, show (q.setStage d st).replies c = q.replies c from rfl]
    by_cases h : c = d
    · rw [if_pos h]
      have := hst h
      omega
    · rw [if_neg h, hq]
      omega
  have hrest : ∀ {st : Stage}, st.rotating = false → st.rotations ≤ (r.stage c).rotations + asks action c := by
    intro st h
    rw [Stage.rotations_of_not h]
    exact Nat.zero_le _
  have hsame : ∀ {st : Stage}, (st.rotating = true → (r.stage c).rotating = true) →
      st.rotations ≤ (r.stage c).rotations + asks action c := by
    intro st h
    cases hr : st.rotating with
    | false => exact hrest hr
    | true => simp [Stage.rotations, hr, h hr]
  have hinactive : ∀ {st : Stage}, st.active = false → st.rotating = false := by
    intro st h
    cases st <;> simp [Stage.active, Stage.rotating] at h ⊢
  cases hstep with
  | idle => exact Nat.le_add_right _ _
  | moved d st hm hf hw ht =>
      refine hmove rfl le_rfl ?_
      rintro rfl
      cases ht with
      | before h => exact hsame (h.rotating hm.uncommitted)
      | hello message _ he => exact hrest (by rw [he]; exact (firstStage_calm message).2.2.2)
      | rotate owner password rotationId ha hst he =>
          have hone : asks action c = 1 := by rw [ha, asks, if_pos rfl]
          rw [hone, hst, he]
          exact le_rfl
  | inserted d owner password salt hs => exact hmove rfl le_rfl fun _ => hrest rfl
  | locked d st hfree hl hactive hatt hearly hf hc hw =>
      refine hmove rfl le_rfl ?_
      rintro rfl
      exact hsame hw
  | unlocked d st orphans hold hl hactive => exact hmove rfl le_rfl fun _ => hrest (hinactive hactive)
  | targetIn d name g owner hfree hs hn =>
      refine hmove (q := { r with targets := Function.update r.targets name (some d) }.setPeer d _) rfl ?_
        fun _ => hrest (show (Stage.replying owner).rotating = false from rfl)
      rw [replies_setPeer]
      split
      · exact Nat.zero_le _
      · exact le_rfl
  | controllerIn d name g t hs ht hn q hq =>
      obtain ⟨hstage, hreplies⟩ := replies_putOn_quiet hq rfl c
      refine hmove hstage (hreplies.trans_le ?_) fun _ => hrest rfl
      refine (replies_setPeer { r with controllers := Function.update r.controllers name (some d) } d _ c).trans_le ?_
      split
      · exact Nat.zero_le _
      · exact le_rfl
  | controllerFull d name g t hs ht hn =>
      refine hmove (q := ({ r with controllers := Function.update r.controllers name (some d) }.setPeer d _).release) rfl ?_
        fun _ => hrest (show Stage.closing.rotating = false from rfl)
      refine (replies_setPeer { r with controllers := Function.update r.controllers name (some d) } d _ c).trans_le ?_
      split
      · exact Nat.zero_le _
      · exact le_rfl
  | frame d p owner event t hs hp hrole ht hc q hq =>
      obtain ⟨hstage, hreplies⟩ := replies_putOn_quiet hq rfl c
      unfold Relay.outstanding
      rw [hstage, hreplies]
      exact Nat.le_add_right _ _
  | outbound d p owner m m' e hs hp hrole hd hm q hq =>
      obtain ⟨hstage, hreplies⟩ := replies_putOn_quiet hq (outbound_isRotated hm) c
      unfold Relay.outstanding
      rw [hstage, hreplies]
      exact Nat.le_add_right _ _
  | committed d p owner password rotationId salt g registry hs hp hr =>
      refine hmove rfl le_rfl ?_
      rintro rfl
      exact hsame fun _ => by rw [hs]; rfl
  | completed d p owner g hs hp q hq =>
      obtain ⟨hstage, hreplies⟩ := replies_putOn hq c
      have hsetPeer := replies_setPeer { r with controllers := Function.update r.controllers p.name none,
                                                completed := r.completed ++ [(p.name, g)] } d { p with generation := g } c
      have hset : (({ r with controllers := Function.update r.controllers p.name none,
                             completed := r.completed ++ [(p.name, g)] }.setPeer d
                               { p with generation := g }).release).replies
          c = r.replies c := by
        refine hsetPeer.trans ?_
        split
        · rename_i h; subst h; exact (replies_of_peer hp).symm
        · rfl
      rw [hset] at hreplies
      unfold Relay.outstanding
      rw [stage_setStage, show (q.setStage d (.serving owner .idle)).replies c = q.replies c from rfl, hreplies, hstage]
      by_cases h : c = d
      · subst h
        -- the reply takes the place of the rotation that the reader was busy with
        rw [if_pos rfl, if_pos ⟨rfl, rfl⟩, hs]
        simp [Stage.rotations, Stage.rotating]
        omega
      · rw [if_neg h, if_neg (fun h' => h h'.1)]
        exact Nat.le_add_right _ _
  | completedFull d p owner g hs hp =>
      refine hmove (q := ({ r with controllers := Function.update r.controllers p.name none,
                                   completed := r.completed ++ [(p.name, g)] }.setPeer d { p with generation := g }).release)
        rfl ?_ fun _ => hrest (show Stage.closing.rotating = false from rfl)
      refine (replies_setPeer { r with controllers := Function.update r.controllers p.name none,
                                       completed := r.completed ++ [(p.name, g)] } d _ c).trans_le ?_
      split
      · rename_i h; subst h; rw [replies_of_peer hp]
      · exact le_rfl
  | wrote d p entry rest hp ho =>
      have hle : (r.setPeer d { p with out := rest, sent := p.sent ++ [entry] }).replies c ≤ r.replies c := by
        rw [replies_setPeer]
        split
        · rename_i h
          subst h
          rw [replies_of_peer hp, ho]
          exact (List.sublist_cons_self entry rest).countP_le
        · exact le_rfl
      exact (Nat.add_le_add_left hle _).trans (Nat.le_add_right _ _)
  | targetOut | controllerOut | detached => exact hmove rfl le_rfl fun _ => hrest rfl
  | controllerGone d p t hs hp hrole hc ht q hq =>
      obtain ⟨hstage, hreplies⟩ := replies_putOn_quiet hq rfl c
      exact hmove hstage hreplies.le fun _ => hrest rfl
  | orphaned | orphanEnded => exact Nat.le_add_right _ _

/-- What the writer takes from the queue is no longer on it. -/
theorem write_outstanding {entry : Entry} {p : Peer} (hp : r.peer c = some p) (he : p.out.head? = some entry)
    (h : r.write c = some r') :
    r'.outstanding c + (if entry.message.isRotated then 1 else 0) = r.outstanding c ∧
      ∀ d ≠ c, r'.outstanding d = r.outstanding d := by
  obtain ⟨p', entry', rest, hp', ho, rfl⟩ := write_eq h
  cases hp.symm.trans hp'
  rw [ho, List.head?_cons, Option.some.injEq] at he
  subst he
  constructor
  · unfold Relay.outstanding
    rw [replies_setPeer, if_pos rfl, replies_of_peer hp, ho]
    simp only [Entry.replies, List.countP_cons]
    exact (Nat.add_assoc _ _ _)
  · intro d hd
    unfold Relay.outstanding
    rw [replies_setPeer, if_neg hd]
    rfl

end Relay

end RemoteInput
