import RemoteInput.Relay.Lemmas.Addressed
import RemoteInput.Relay.Lemmas.Requests

/-!
# Targets that are served have a row
-/

namespace RemoteInput

namespace Registry

variable {crypto : Crypto} {r r' : Registry} {name owner password rotationId salt hash : String} {g : Nat}

theorem byOwner_isSome {row : Row} (hr : row ∈ r.rows) (ho : row.ownerHash = hash) : (r.byOwner hash).isSome = true := by
  unfold byOwner
  rw [List.find?_isSome]
  exact ⟨row, hr, by simpa using ho⟩

theorem owner_byOwner (h : r.owner crypto name owner = some g) : (r.byOwner (crypto.digest owner)).isSome = true := by
  unfold Registry.owner at h
  split at h
  · rename_i row hrow
    split at h
    · rename_i ho; exact byOwner_isSome (List.mem_of_find?_eq_some hrow) ho
    · cases h
  · cases h

theorem insert_owner (crypto : Crypto) (r : Registry) (owner password salt : String) :
    ((r.insert crypto owner password salt).1.byOwner (crypto.digest owner)).isSome = true := by
  have hc := r.insert_cases crypto owner password salt
  generalize r.insert crypto owner password salt = result at hc ⊢
  cases hc with
  | found row hr ho => exact byOwner_isSome hr ho
  | new row hn ho => exact byOwner_isSome (List.mem_append_right _ (List.mem_singleton_self row)) ho

theorem insert_keeps (h : (r.byOwner hash).isSome = true) :
    ((r.insert crypto owner password salt).1.byOwner hash).isSome = true := by
  rcases insert_byOwner crypto r owner password salt hash with he | ⟨_, _, row, hrow, _⟩
  · rw [he]; exact h
  · rw [hrow]; rfl

theorem Keyed.rotate_keeps (hk : r.Keyed) (hr : r.rotate crypto name owner password rotationId salt = some (r', g))
    (h : (r.byOwner hash).isSome = true) : (r'.byOwner hash).isSome = true := by
  rcases hk.rotate_byOwner hr hash with ⟨he, _⟩ | ⟨_, row, _, ⟨_, he⟩ | ⟨_, he⟩⟩
  · rw [he]; exact h
  · rw [he]; rfl
  · rw [he]; rfl

end Registry

namespace Relay

variable {crypto : Crypto} {r r' : Relay} {action : RelayAction}

theorem StepCase.row_kept (hstep : StepCase crypto r action r') (hk : r.registry.Keyed) {hash : String}
    (h : (r.registry.byOwner hash).isSome = true) : (r'.registry.byOwner hash).isSome = true := by
  cases hstep.effect with
  | quiet he => rw [he]; exact h
  | inserted c owner password salt hs he => rw [he]; exact Registry.insert_keeps h
  | committed c p owner password rotationId salt g hs hp he => exact hk.rotate_keeps he h
  | orphaned o salt g ho he => exact hk.rotate_keeps he h

/-! ## Waiting for the lock -/

theorem putOn_stage {q : Relay} {d : Nat} {entry : Entry} (h : r.putOn d entry = some q) (e : Nat) :
    q.stage e = r.stage e := by
  obtain ⟨_, _, rfl⟩ := putOn_eq h
  rfl

theorem release_stage (r : Relay) (d : Nat) : r.release.stage d = r.stage d := rfl

theorem setPeer_stage (r : Relay) (c : Nat) (p : Peer) (d : Nat) : (r.setPeer c p).stage d = r.stage d := rfl

theorem putOn_getD (r q : Relay) (d e : Nat) (entry : Entry) :
    ((r.putOn d entry).getD q).stage e = r.stage e ∨ (r.putOn d entry).getD q = q := by
  cases h : r.putOn d entry with
  | none => exact .inr rfl
  | some x => exact .inl (putOn_stage h e)

theorem firstStage_waits (message : Hello) (name : String) (g : Nat) (o : String) :
    firstStage message ≠ .waitingTarget name g o := by
  unfold firstStage
  grind

theorem waits_kept {d : Nat} {name : String} {g : Nat} {o : String} (hs : r.step crypto action = some r')
    (ha : ∀ c salt, action ≠ .transaction c salt) (hw : r'.stage d = .waitingTarget name g o) :
    r.stage d = .waitingTarget name g o := by
  cases action with
  | transaction c salt => exact absurd rfl (ha c salt)
  | hello c message =>
      simp only [step, hello] at hs
      grind [firstStage_waits, stage_setStage]
  | refuse c =>
      simp only [step, refuse] at hs
      grind [stage_setStage, release_stage]
  | acquire c =>
      simp only [step, acquire] at hs
      grind [stage_setStage, release_stage, setPeer_stage]
  | admission c =>
      simp only [step, admission] at hs
      split at hs
      · split at hs
        · grind [stage_setStage]
        · split at hs
          · grind [stage_setStage]
          · split at hs
            · grind [stage_setStage]
            · split at hs
              · rename_i q hq
                cases hs
                obtain ⟨_, _, rfl⟩ := putOn_eq hq
                grind [stage_setStage, release_stage, setPeer_stage]
              · grind [stage_setStage, release_stage, setPeer_stage]
      · cases hs
  | rejected c =>
      simp only [step, rejected] at hs
      grind [stage_setStage, release_stage]
  | replied c =>
      simp only [step, replied] at hs
      grind [stage_setStage]
  | receive c message =>
      simp only [step, receive] at hs
      split at hs
      · split at hs <;> cases hs
        · unfold fromController at hw
          grind [stage_setStage, putOn_getD]
        · unfold fromTarget at hw
          grind [stage_setStage, putOn_getD]
      · cases hs
  | complete c =>
      simp only [step, complete] at hs
      split at hs
      · split at hs
        · rename_i q hq
          cases hs
          obtain ⟨_, _, rfl⟩ := putOn_eq hq
          grind [stage_setStage, release_stage, setPeer_stage]
        · grind [stage_setStage, release_stage, setPeer_stage]
      · cases hs
  | write c =>
      simp only [step, write] at hs
      grind [setPeer_stage]
  | fail c running =>
      simp only [step, fail] at hs
      grind [stage_setStage, release_stage]
  | detach c =>
      simp only [step, detach] at hs
      split at hs
      · cases hs
        have hst : ∀ p, (r.detachPeer c p).stage d = r.stage d := by
          intro p
          unfold detachPeer
          grind [putOn_getD]
        grind [stage_setStage]
      · cases hs
  | orphan i salt =>
      simp only [step, orphan] at hs
      grind
/-- A target waits for the lock once its owner has a row. -/
theorem waits_cases {d : Nat} {name : String} {g : Nat} {o : String} (hs : r.step crypto action = some r')
    (hw : r'.stage d = .waitingTarget name g o) :
    r.stage d = .waitingTarget name g o ∨ (r'.registry.byOwner (crypto.digest o)).isSome = true := by
  by_cases ha : ∀ c salt, action ≠ .transaction c salt
  · exact .inl (waits_kept hs ha hw)
  simp only [not_forall, not_not] at ha
  obtain ⟨c, salt, rfl⟩ := ha
  have hset : ∀ {q : Relay} {st : Stage}, q.stage = r.stage → (q.setStage c st).stage d = .waitingTarget name g o →
      r.stage d = .waitingTarget name g o ∨ st = .waitingTarget name g o := by
    intro q st hq h
    rw [stage_setStage, hq] at h
    split at h
    · exact .inr h
    · exact .inl h
  unfold step transaction at hs
  dsimp only at hs
  split at hs
  · split at hs <;> cases hs
    · exact .inl ((hset rfl hw).resolve_right (by simp))
    · rename_i hg
      refine (hset rfl hw).imp id fun he => ?_
      cases he
      exact Registry.owner_byOwner hg
  · split at hs <;> cases hs
    · exact .inl ((hset rfl hw).resolve_right (by simp))
    · rename_i found hg
      refine (hset rfl hw).imp id fun he => ?_
      cases he
      obtain ⟨row, hr, ho, _⟩ := Registry.registered_mem hg
      exact Registry.byOwner_isSome hr ho
  · cases hs
    refine (hset (q := { r with registry := _ }) rfl hw).imp id fun he => ?_
    cases he
    exact Registry.insert_owner ..
  · split at hs <;> cases hs <;> exact .inl ((hset rfl hw).resolve_right (by simp))
  · cases hs
    exact .inl ((hset rfl hw).resolve_right (by simp))
  · obtain ⟨p, hp, hs⟩ := Option.map_eq_some_iff.mp hs
    split at hs <;> cases hs
    · exact .inl ((hset rfl hw).resolve_right (by simp))
    · exact .inl ((hset (q := { r with registry := _ }) rfl hw).resolve_right (by simp))
  · cases hs

/-- Every target whose secret has been checked has a row. -/
def Owned (crypto : Crypto) (r : Relay) : Prop :=
  ∀ c o, (r.stage c).verified = some o →
    (∃ p, r.peer c = some p ∧ p.role = .controller) ∨ (r.registry.byOwner (crypto.digest o)).isSome = true

theorem Owned.step (h : r.Owned crypto) (hk : r.registry.Keyed) (hses : r.Sessions) (hs : r.step crypto action = some r') :
    r'.Owned crypto := by
  intro c o ho
  have hstep := step_cases hs
  have hold : (r.stage c).verified = some o →
      (∃ p, r'.peer c = some p ∧ p.role = .controller) ∨ (r'.registry.byOwner (crypto.digest o)).isSome = true := by
    intro hv
    refine (h c o hv).imp ?_ (hstep.row_kept hk)
    rintro ⟨p, hp, hrole⟩
    obtain ⟨q, hq, hr, _⟩ := hstep.peer_stays hses hp
    exact ⟨q, hq, hr.trans hrole⟩
  rcases Stage.verified_cases (by rw [ho]; simp) with hact | ⟨name, g, o', hw⟩
  · cases hstep.staged c with
    | same he => exact hold (he ▸ ho)
    | joined p hp hrole => exact .inl ⟨p, hp, hrole⟩
    | told ht _ hv =>
        cases ht with
        | before hc => exact hold (Stage.verified_of_owner (hc.owner o (Stage.verified_owner ho)) (hv hact))
        | hello message _ he =>
            have hcalm := (firstStage_calm message).2.1
            rw [he] at hact
            cases hst : firstStage message <;> rw [hst] at hact hcalm <;> simp [Stage.active, Stage.attached] at hact hcalm
        | rotate o' password rotationId _ hst he =>
            rw [he] at ho
            exact hold (by rw [hst]; exact ho)
  · rw [hw] at ho
    cases ho
    rcases waits_cases hs hw with hw | hrow
    · exact hold (by rw [hw]; rfl)
    · exact .inr hrow

end Relay

end RemoteInput
