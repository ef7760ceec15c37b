import RemoteInput.Relay.Lemmas.Keys
import RemoteInput.Relay.Lemmas.Outstanding

/-!
# Where requests come from and where they go
-/

namespace RemoteInput

/-- The handler has begun to leave, and takes nothing from its client any more. -/
def Stage.leaving : Stage → Bool
  | .closing | .closed => true
  | _ => false

/-- The owner secret of a target after it has been checked, and the empty one of a controller. -/
def Stage.verified : Stage → Option String
  | .waitingTarget _ _ owner | .replying owner | .serving owner _ => some owner
  | _ => none

theorem Stage.verified_of_active {st : Stage} (h : st.active = true) : st.verified ≠ none := by
  cases st <;> simp [active] at h <;> simp [verified]

theorem Stage.verified_owner {st : Stage} {owner : String} (h : st.verified = some owner) : st.owner = some owner := by
  cases st <;> simp [verified] at h <;> simp [Stage.owner, h]

theorem Stage.verified_of_owner {st : Stage} {owner : String} (h : st.owner = some owner) (hv : st.verified ≠ none) :
    st.verified = some owner := by
  cases st <;> simp [verified] at hv <;> exact h

theorem Stage.verified_cases {st : Stage} (h : st.verified ≠ none) :
    st.active = true ∨ ∃ name g owner, st = .waitingTarget name g owner := by
  cases st <;> simp [verified] at h <;> simp [active]

/-- The reader has a rotation committed. -/
def Stage.committed : Stage → Bool
  | .serving _ (.committed _) => true
  | _ => false

theorem Stage.committed_eq {st : Stage} (h : st.committed = true) : ∃ owner g, st = .serving owner (.committed g) := by
  unfold committed at h
  split at h
  · exact ⟨_, _, rfl⟩
  · cases h

theorem Stage.leaving_iff (st : Stage) : st.leaving = true ↔ st.early = false ∧ st.active = false := by
  cases st <;> simp [leaving, early, active]

/-- A stage that is neither early nor active any more is one of leaving. -/
theorem Stage.leaving_mono {st st' : Stage} (he : st'.early = true → st.early = true)
    (ha : st'.active = true → st.active = true) (hl : st.leaving = true) : st'.leaving = true := by
  rw [Stage.leaving_iff] at hl ⊢
  refine ⟨?_, ?_⟩
  · cases h : st'.early with
    | false => rfl
    | true => rw [he h] at hl; cases hl.1
  · cases h : st'.active with
    | false => rfl
    | true => rw [ha h] at hl; cases hl.2

theorem firstStage_owner {message : Hello} {owner : String} (h : (Relay.firstStage message).owner = some owner) :
    ∃ id password, message = .target owner id password := by
  unfold Relay.firstStage at h
  cases message with
  | target o id password =>
      dsimp only at h
      split at h
      · cases h
      · split at h <;> split at h <;> cases h <;> exact ⟨id, password, rfl⟩
  | controller id password =>
      dsimp only at h
      split at h <;> cases h
  | diagnostic | other => cases h

theorem firstStage_registration {message : Hello} {x : String × String}
    (h : (Relay.firstStage message).registration = some x) : message = .target x.1 "" x.2 ∧ validField x.2 24 128 := by
  unfold Relay.firstStage at h
  cases message with
  | target o id password =>
      dsimp only at h
      split at h
      · cases h
      · split at h
        · split at h <;> cases h
        · rename_i hid
          obtain rfl : id = "" := not_not.mp hid
          split at h
          · rename_i hvalid
            cases h
            exact ⟨rfl, hvalid⟩
          · cases h
  | controller id password =>
      dsimp only at h
      split at h <;> cases h
  | diagnostic | other => cases h

theorem firstStage_rotation (message : Hello) : (Relay.firstStage message).rotation = none := by
  unfold Relay.firstStage
  cases message with
  | target o id password =>
      dsimp only
      split
      · rfl
      · split <;> split <;> rfl
  | controller id password =>
      dsimp only
      split <;> rfl
  | diagnostic | other => rfl

namespace Relay

variable {crypto : Crypto} {r r' : Relay} {action : RelayAction}

/-- What an action makes of the stage of `d`. -/
inductive Staged (action : RelayAction) (r r' : Relay) (d : Nat) : Prop where
  | same (h : r'.stage d = r.stage d)
  | told (h : Told action d (r.stage d) (r'.stage d)) (hl : (r.stage d).leaving = true → (r'.stage d).leaving = true)
      (ha : (r'.stage d).active = true → (r.stage d).verified ≠ none)
  | joined (p : Peer) (hp : r'.peer d = some p) (hrole : p.role = .controller) (h : r'.stage d = .replying "")
      (hl : (r.stage d).leaving = false)

theorem Staged.set {c : Nat} {st : Stage} (hs : r'.stage = Function.update r.stage c st) (ht : Told action c (r.stage c) st)
    (hl : (r.stage c).leaving = true → st.leaving = true) (ha : st.active = true → (r.stage c).verified ≠ none) (d : Nat) :
    Staged action r r' d := by
  by_cases hd : d = c
  · subst hd
    have he : r'.stage d = st := by rw [hs, Function.update_self]
    exact .told (by rw [he]; exact ht) (by rw [he]; exact hl) (by rw [he]; exact ha)
  · exact .same (by rw [hs, Function.update_of_ne hd])

theorem StepCase.staged (hstep : StepCase crypto r action r') (d : Nat) : Staged action r r' d := by
  -- a handler goes on with the owner secret it knows, and with nothing else that it was told
  have hgoes : ∀ {c : Nat} {st st' : Stage}, r.stage c = st → r'.stage = Function.update r.stage c st' →
      st'.registration = none → st'.owner = st.owner → st'.rotation = none → st.leaving = false →
      (st'.active = true → st.verified ≠ none) → Staged action r r' d := by
    intro c st st' hst hs hreg ho hrot hl ha
    refine .set hs (.before ⟨by simp [hreg], ?_, by simp [hrot]⟩) (by rw [hst, hl]; simp) (hst ▸ ha) d
    rw [hst, ho]; exact fun _ => id
  have hleaves : ∀ {c : Nat} {st : Stage}, r'.stage = Function.update r.stage c st → st.leaving = true →
      Staged action r r' d := by
    intro c st hs hl
    refine .set hs ?_ (fun _ => hl) (fun ha => ?_) d
    · cases st <;> simp [Stage.leaving] at hl <;> exact .silent rfl rfl rfl
    · rw [((Stage.leaving_iff st).mp hl).2] at ha; cases ha
  cases hstep with
  | idle | wrote | orphaned | orphanEnded => exact .same rfl
  | frame _ _ _ _ _ _ _ _ _ _ q hq =>
      obtain ⟨_, _, rfl⟩ := putOn_eq hq
      exact .same rfl
  | outbound _ _ _ _ _ _ _ _ _ _ _ q hq =>
      obtain ⟨_, _, rfl⟩ := putOn_eq hq
      exact .same rfl
  | moved c st hm hf hw ht =>
      exact .set rfl ht (Stage.leaving_mono hm.early hm.active) (fun ha => Stage.verified_of_active (hm.active ha)) d
  | inserted c owner password salt hs => exact hgoes hs rfl rfl rfl rfl rfl (by simp [Stage.active])
  | locked c st hfree hl hactive hatt hearly hf hc hw ht =>
      exact .set rfl (.before ht) (Stage.leaving_mono hearly hactive) (fun ha => Stage.verified_of_active (hactive ha)) d
  | unlocked c st orphans hold hl hactive hatt hearly ho =>
      exact hleaves rfl ((Stage.leaving_iff st).mpr ⟨hearly, hactive⟩)
  | targetIn c name g owner hfree hs hn => exact hgoes hs rfl rfl rfl rfl rfl (by simp [Stage.verified])
  | controllerIn c name g t hs ht hn q hq =>
      obtain ⟨p, hp, rfl⟩ := putOn_eq hq
      by_cases hd : d = c
      · subst hd
        have hst : ((r.setStage d (.replying "")).stage d) = .replying "" := by rw [stage_setStage, if_pos rfl]
        by_cases htd : d = t
        · subst htd
          have hp' := hp
          simp only [Relay.setPeer, Relay.release, Function.update_self, Option.some.injEq] at hp'
          refine .joined (p.enqueue ⟨.peerJoined, some d⟩) (by simp [Relay.setPeer, Relay.setStage]) ?_ hst (by rw [hs]; rfl)
          rw [← hp']; rfl
        · refine .joined { role := .controller, name := name, generation := g } ?_ rfl hst (by rw [hs]; rfl)
          simp [Relay.setPeer, Relay.setStage, Relay.release, htd]
      · exact .same (by rw [stage_setStage, if_neg hd]; rfl)
  | controllerFull | completedFull | targetOut | controllerOut | detached => exact hleaves rfl rfl
  | committed c p owner password rotationId salt g registry hs hp hr =>
      exact hgoes hs rfl rfl rfl rfl rfl (by simp [Stage.verified])
  | completed c p owner g hs hp q hq =>
      obtain ⟨_, _, rfl⟩ := putOn_eq hq
      exact hgoes hs rfl rfl rfl rfl rfl (by simp [Stage.verified])
  | controllerGone c p t hs hp hrole hc ht q hq =>
      obtain ⟨_, _, rfl⟩ := putOn_eq hq
      exact hleaves rfl rfl

theorem StepCase.orphan (hstep : StepCase crypto r action r') {o : Orphan} (ho : o ∈ r'.orphans) :
    o ∈ r.orphans ∨ ∃ c, r.stage c = .serving o.owner (.hashing o.password o.rotationId) := by
  cases hstep with
  | idle | moved | inserted | locked | targetIn | controllerFull | committed | completedFull | wrote | targetOut
  | controllerOut | detached => exact .inl ho
  | unlocked c st orphans hold hl hactive hatt hearly hsub => exact (hsub o ho).imp id fun h => ⟨c, h⟩
  | controllerIn _ _ _ _ _ _ _ q hq =>
      obtain ⟨_, _, rfl⟩ := putOn_eq hq
      exact .inl ho
  | frame _ _ _ _ _ _ _ _ _ _ q hq =>
      obtain ⟨_, _, rfl⟩ := putOn_eq hq
      exact .inl ho
  | outbound _ _ _ _ _ _ _ _ _ _ _ q hq =>
      obtain ⟨_, _, rfl⟩ := putOn_eq hq
      exact .inl ho
  | completed _ _ _ _ _ _ q hq =>
      obtain ⟨_, _, rfl⟩ := putOn_eq hq
      exact .inl ho
  | controllerGone _ _ _ _ _ _ _ _ q hq =>
      obtain ⟨_, _, rfl⟩ := putOn_eq hq
      exact .inl ho
  | orphaned _ orphans _ _ _ _ hsub _ => exact .inl (hsub ho)
  | orphanEnded orphans hsub => exact .inl (hsub ho)

/-! ## The table and the replies -/

/-- A rotation of `c` has been committed, and its reply has not been sent. -/
def answered (r : Relay) (c : Nat) : Prop := (r.stage c).committed = true ∨ 0 < r.replies c

/-- What an action makes of the table, and of the rotations that are committed but not answered. -/
inductive Effect (crypto : Crypto) (r r' : Relay) : Prop where
  | quiet (h : r'.registry = r.registry) (ha : ∀ d, r'.answered d → r.answered d)
  | inserted (c : Nat) (owner password salt : String) (hs : r.stage c = .inserting owner password)
      (h : r'.registry = (r.registry.insert crypto owner password salt).1) (ha : ∀ d, r'.answered d → r.answered d)
  | committed (c : Nat) (p : Peer) (owner password rotationId salt : String) (g : Nat)
      (hs : r.stage c = .serving owner (.hashing password rotationId)) (hp : r.peer c = some p)
      (h : r.registry.rotate crypto p.name owner password rotationId salt = some (r'.registry, g))
      (ha : ∀ d ≠ c, r'.answered d → r.answered d)
  | orphaned (o : Orphan) (salt : String) (g : Nat) (ho : o ∈ r.orphans)
      (h : r.registry.rotate crypto o.name o.owner o.password o.rotationId salt = some (r'.registry, g))
      (ha : ∀ d, r'.answered d → r.answered d)

theorem answered_set {c : Nat} {st : Stage} (hs : r'.stage = Function.update r.stage c st)
    (hst : st.committed = true → (r.stage c).committed = true) (hr : ∀ d, r'.replies d ≤ r.replies d) (d : Nat)
    (h : r'.answered d) : r.answered d := by
  rcases h with h | h
  · left
    rw [hs, Function.update_apply] at h
    split at h
    · rename_i hd; rw [hd]; exact hst h
    · exact h
  · exact .inr (h.trans_le (hr d))

theorem answered_same (hs : r'.stage = r.stage) (hr : ∀ d, r'.replies d ≤ r.replies d) (d : Nat) (h : r'.answered d) :
    r.answered d := by
  rcases h with h | h
  · exact .inl (hs ▸ h)
  · exact .inr (h.trans_le (hr d))

theorem replies_setPeer_le {c : Nat} {p : Peer} (h : Entry.replies p.out ≤ r.replies c) (d : Nat) :
    (r.setPeer c p).replies d ≤ r.replies d := by
  rw [replies_setPeer]
  split
  · rename_i hd; rw [hd]; exact h
  · exact le_rfl

theorem StepCase.effect (hstep : StepCase crypto r action r') : Effect crypto r r' := by
  have hnot : ∀ {c : Nat} {st : Stage}, st.committed = false → st.committed = true → (r.stage c).committed = true := by
    intro c st h h'
    rw [h] at h'; cases h'
  cases hstep with
  | idle | orphanEnded => exact .quiet rfl fun _ => id
  | moved c st hm hf hw ht =>
      refine .quiet rfl (answered_set rfl (fun h => ?_) fun _ => le_rfl)
      obtain ⟨owner, g, rfl⟩ := Stage.committed_eq h
      exact absurd rfl (hm.uncommitted owner g)
  | inserted c owner password salt hs =>
      exact .inserted c owner password salt hs rfl (answered_set rfl (hnot rfl) fun _ => le_rfl)
  | locked c st hfree hl hactive hatt hearly hf hc hw ht =>
      refine .quiet rfl (answered_set rfl (fun h => ?_) fun _ => le_rfl)
      obtain ⟨owner, g, rfl⟩ := Stage.committed_eq h
      exact absurd rfl (hc owner g)
  | unlocked c st orphans hold hl hactive =>
      refine .quiet rfl (answered_set rfl (hnot ?_) fun _ => le_rfl)
      cases st <;> simp [Stage.active] at hactive <;> rfl
  | targetIn c name g owner hfree hs hn =>
      exact .quiet rfl (answered_set rfl (hnot rfl) (replies_setPeer_le (r := { r with targets := _ }) (Nat.zero_le _)))
  | controllerIn c name g t hs ht hn q hq =>
      have hstage : (q.setStage c (.replying "")).stage = Function.update r.stage c (.replying "") := by
        obtain ⟨_, _, rfl⟩ := putOn_eq hq; rfl
      refine .quiet ?_ (answered_set hstage (hnot rfl) fun d => ?_)
      · obtain ⟨_, _, rfl⟩ := putOn_eq hq; rfl
      · refine (replies_putOn_quiet hq rfl d).2.trans_le ?_
        exact replies_setPeer_le (r := { r with controllers := _ })
          (p := { role := .controller, name := name, generation := g }) (Nat.zero_le _) d
  | controllerFull c name g t hs ht hn =>
      exact .quiet rfl (answered_set rfl (hnot rfl) (replies_setPeer_le (r := { r with controllers := _ }) (Nat.zero_le _)))
  | frame d p owner event t hs hp hrole ht hc q hq =>
      refine .quiet ?_ (answered_same ?_ fun e => (replies_putOn_quiet hq rfl e).2.le)
      · obtain ⟨_, _, rfl⟩ := putOn_eq hq; rfl
      · obtain ⟨_, _, rfl⟩ := putOn_eq hq; rfl
  | outbound d p owner m m' e hs hp hrole hd hm q hq =>
      refine .quiet ?_ (answered_same ?_ fun e => (replies_putOn_quiet hq (outbound_isRotated hm) e).2.le)
      · obtain ⟨_, _, rfl⟩ := putOn_eq hq; rfl
      · obtain ⟨_, _, rfl⟩ := putOn_eq hq; rfl
  | committed c p owner password rotationId salt g registry hs hp hr =>
      refine .committed c p owner password rotationId salt g hs hp hr fun d hd h => ?_
      rcases h with h | h
      · left; rwa [stage_setStage, if_neg hd] at h
      · exact .inr h
  | completed c p owner g hs hp q hq =>
      refine .quiet ?_ fun d h => ?_
      · obtain ⟨_, _, rfl⟩ := putOn_eq hq; rfl
      · by_cases hd : d = c
        · rw [hd]; exact .inl (by rw [hs]; rfl)
        · obtain ⟨hstage, hreplies⟩ := replies_putOn hq d
          rcases h with h | h
          · left
            rw [stage_setStage, if_neg hd, hstage] at h
            exact h
          · right
            rw [show (q.setStage c (.serving owner .idle)).replies d = q.replies d from rfl, hreplies,
              if_neg (fun h => hd h.1)] at h
            refine h.trans_le ((Nat.add_zero _).trans_le ?_)
            exact replies_setPeer_le (r := { r with controllers := _, completed := _ }) (p := { p with generation := g })
              (replies_of_peer hp).ge d
  | completedFull c p owner g hs hp =>
      exact .quiet rfl (answered_set rfl (hnot rfl)
        (replies_setPeer_le (r := { r with controllers := _, completed := _ }) (replies_of_peer hp).ge))
  | wrote c p entry rest hp ho =>
      refine .quiet rfl (answered_same rfl (replies_setPeer_le ?_))
      rw [replies_of_peer hp, ho]
      exact (List.sublist_cons_self entry rest).countP_le
  | targetOut | controllerOut | detached => exact .quiet rfl (answered_set rfl (hnot rfl) fun _ => le_rfl)
  | controllerGone c p t hs hp hrole hc ht q hq =>
      have hstage : (q.setStage c .closed).stage = Function.update r.stage c .closed := by
        obtain ⟨_, _, rfl⟩ := putOn_eq hq; rfl
      refine .quiet ?_ (answered_set hstage (hnot rfl) fun d => (replies_putOn_quiet hq rfl d).2.le)
      obtain ⟨_, _, rfl⟩ := putOn_eq hq; rfl
  | orphaned o orphans salt registry g ho hsub hr =>
      exact .orphaned o salt g ho hr (answered_same rfl fun _ => le_rfl)

theorem StepCase.keyed (hstep : StepCase crypto r action r') (h : r.registry.Keyed) : r'.registry.Keyed := by
  cases hstep.effect with
  | quiet he => rw [he]; exact h
  | inserted c owner password salt hs he => rw [he]; exact h.insert ..
  | committed c p owner password rotationId salt g hs hp he => exact h.rotate he
  | orphaned o salt g ho he => exact h.rotate he

end Relay

end RemoteInput
