import RemoteInput.Relay.Lemmas.Addressed
import RemoteInput.Relay.Lemmas.Owners

/-!
# What a client has shown before it is admitted
-/

namespace RemoteInput

/-- What a handler has to check, or has checked, before the admission of its client. -/
inductive Passport where
  | password (name password : String)
  | owner (name owner : String)
  | registration (owner password : String)
  | target (name : String) (generation : Nat) (owner : String)
  | controller (name : String) (generation : Nat)
  deriving DecidableEq

def Stage.passport : Stage → Option Passport
  | .checkingPassword name password => some (.password name password)
  | .checkingOwner name owner => some (.owner name owner)
  | .registering owner password | .inserting owner password => some (.registration owner password)
  | .waitingTarget name generation owner => some (.target name generation owner)
  | .waitingController name generation | .fetching name generation | .fetched name generation _ =>
      some (.controller name generation)
  | _ => none

/-- What a peer has shown. -/
def Peer.Showed (P : Passport → Prop) (p : Peer) : Prop :=
  match p.role with
  | .target => ∃ generation owner, P (.target p.name generation owner)
  | .controller => P (.controller p.name p.generation)

/-- Only the role, the name and, for a controller, the generation count. -/
theorem Peer.Showed.congr {P : Passport → Prop} {p q : Peer} (h : p.Showed P) (hrole : q.role = p.role)
    (hname : q.name = p.name) (hg : p.role = .controller → q.generation = p.generation) : q.Showed P := by
  unfold Peer.Showed at h ⊢
  rw [hrole]
  cases hp : p.role with
  | target =>
      rw [hp] at h
      dsimp only at h ⊢
      rwa [hname]
  | controller =>
      rw [hp] at h
      dsimp only at h ⊢
      rwa [hname, hg hp]

theorem Peer.Showed.mono {P Q : Passport → Prop} {p : Peer} (h : p.Showed P) (hPQ : ∀ x, P x → Q x) : p.Showed Q := by
  unfold Peer.Showed at h ⊢
  cases hr : p.role with
  | target =>
      rw [hr] at h
      obtain ⟨g, owner, h⟩ := h
      exact ⟨g, owner, hPQ _ h⟩
  | controller =>
      rw [hr] at h
      exact hPQ _ h

namespace Registry

variable {crypto : Crypto} {r r' : Registry} {name owner password rotationId salt : String} {row : Row} {g : Nat}

/-- The row that a client reaches by `name`, or that has given it the name, is of `owner`. -/
def Belongs (crypto : Crypto) (r : Registry) (name owner : String) : Prop :=
  ∃ row ∈ r.rows, row.ownerHash = crypto.digest owner ∧ ((row.number : Int) = number name ∨ name = Registry.name row.number)

/-- The row that a client reaches by `name` is not of `owner`. -/
def Alien (crypto : Crypto) (r : Registry) (name owner : String) : Prop :=
  ∃ row ∈ r.rows, (row.number : Int) = number name ∧ row.ownerHash ≠ crypto.digest owner

theorem Belongs.not_alien (h : r.Belongs crypto name owner) (hk : r.Keyed) : ¬ r.Alien crypto name owner := by
  rintro ⟨row', hr', hnumber', hother⟩
  obtain ⟨row, hr, hown, hname⟩ := h
  have hnumber : (row.number : Int) = number name := by
    rcases hname with hname | rfl
    · exact hname
    · rcases number_name row.number with hn | hn
      · exact hn.symm
      · rw [hn] at hnumber'
        omega
  have hsame : row = row' := hk.eq_of_number hr hr' (by omega)
  exact hother (hsame ▸ hown)

/-- Rows keep their numbers and owners. -/
def Extends (r r' : Registry) : Prop :=
  ∀ row ∈ r.rows, ∃ row' ∈ r'.rows, row'.number = row.number ∧ row'.ownerHash = row.ownerHash

theorem Extends.refl (r : Registry) : r.Extends r := fun row hr => ⟨row, hr, rfl, rfl⟩

theorem insert_extends (crypto : Crypto) (r : Registry) (owner password salt : String) :
    r.Extends (r.insert crypto owner password salt).1 := by
  have hc := r.insert_cases crypto owner password salt
  generalize r.insert crypto owner password salt = result at hc ⊢
  cases hc with
  | found => exact .refl r
  | new => exact fun row hr => ⟨row, List.mem_append_left _ hr, rfl, rfl⟩

theorem Keyed.rotate_extends (hk : r.Keyed) (hr : r.rotate crypto name owner password rotationId salt = some (r', g)) :
    r.Extends r' := by
  have hc := rotate_cases crypto hk name owner password rotationId salt
  rw [hr] at hc
  cases hc with
  | again => exact .refl r
  | set row h ho hi =>
      intro x hx
      refine ⟨_, List.mem_map.mpr ⟨x, hx, rfl⟩, ?_⟩
      split <;> exact ⟨rfl, rfl⟩

theorem Belongs.extends (h : r.Belongs crypto name owner) (he : r.Extends r') : r'.Belongs crypto name owner := by
  obtain ⟨row, hr, hown, hname⟩ := h
  obtain ⟨row', hr', hn, ho⟩ := he row hr
  exact ⟨row', hr', ho.trans hown, by rw [hn]; exact hname⟩

theorem Alien.extends (h : r.Alien crypto name owner) (he : r.Extends r') : r'.Alien crypto name owner := by
  obtain ⟨row, hr, hname, hown⟩ := h
  obtain ⟨row', hr', hn, ho⟩ := he row hr
  exact ⟨row', hr', by rw [hn]; exact hname, by rw [ho]; exact hown⟩

end Registry

namespace Relay

variable {crypto : Crypto} {r r' : Relay} {action : RelayAction} {d : Nat} {x : Passport}

/-- A transaction is the business of one handler. -/
theorem transaction_other {c : Nat} {salt : String} (hs : r.transaction crypto c salt = some r') (hd : d ≠ c) :
    r'.stage d = r.stage d := by
  have hset : ∀ (q : Relay) st, q.stage = r.stage → (q.setStage c st).stage d = r.stage d := by
    intro q st hq
    rw [stage_setStage, if_neg hd, hq]
  unfold transaction at hs
  split at hs
  · split at hs <;> cases hs <;> exact hset _ _ rfl
  · split at hs <;> cases hs <;> exact hset _ _ rfl
  · cases hs
    exact hset _ _ rfl
  · split at hs <;> cases hs <;> exact hset _ _ rfl
  · cases hs
    exact hset _ _ rfl
  · obtain ⟨p, -, rfl⟩ := Option.map_eq_some_iff.mp hs
    split
    · exact hset _ _ rfl
    · exact hset _ _ rfl
  · cases hs

/-- Only the first message and the transactions of a client change what it has shown. -/
theorem passport_kept (hs : r.step crypto action = some r') (hhello : ∀ message, action ≠ .hello d message)
    (htransaction : ∀ salt, action ≠ .transaction d salt) (hx : (r'.stage d).passport = some x) :
    (r.stage d).passport = some x := by
  have hserving : ∀ owner reader, (Stage.serving owner reader).passport = none := fun _ _ => rfl
  have hreplying : ∀ owner, (Stage.replying owner).passport = none := fun _ => rfl
  have hleaving : Stage.closing.passport = none ∧ Stage.closed.passport = none ∧ Stage.rejecting.passport = none :=
    ⟨rfl, rfl, rfl⟩
  cases action with
  | hello c message =>
      have hne : d ≠ c := fun he => hhello message (by rw [he])
      simp only [step, hello] at hs
      grind [stage_setStage]
  | transaction c salt =>
      have hne : d ≠ c := fun he => htransaction salt (by rw [he])
      rwa [transaction_other hs hne] at hx
  | refuse c =>
      simp only [step, refuse] at hs
      grind [stage_setStage, release_stage]
  | acquire c =>
      simp only [step, acquire] at hs
      have hcontroller : ∀ name g, (Stage.fetching name g).passport = (Stage.waitingController name g).passport :=
        fun _ _ => rfl
      grind [stage_setStage, release_stage, setPeer_stage]
  | admission c =>
      simp only [step, admission] at hs
      split at hs
      · split at hs
        · grind [stage_setStage]
        · split at hs
          · grind [stage_setStage]
          · split at hs
            · grind [stage_setStage]
            · split at hs
              · rename_i q hq
                cases hs
                obtain ⟨_, _, rfl⟩ := putOn_eq hq
                grind [stage_setStage, release_stage, setPeer_stage]
              · grind [stage_setStage, release_stage, setPeer_stage]
      · cases hs
  | rejected c =>
      simp only [step, rejected] at hs
      grind [stage_setStage, release_stage]
  | replied c =>
      simp only [step, replied] at hs
      grind [stage_setStage]
  | receive c message =>
      simp only [step, receive] at hs
      split at hs
      · split at hs <;> cases hs
        · unfold fromController at hx
          grind [stage_setStage, putOn_getD]
        · unfold fromTarget at hx
          grind [stage_setStage, putOn_getD]
      · cases hs
  | complete c =>
      simp only [step, complete] at hs
      split at hs
      · split at hs
        · rename_i q hq
          cases hs
          obtain ⟨_, _, rfl⟩ := putOn_eq hq
          grind [stage_setStage, release_stage, setPeer_stage]
        · grind [stage_setStage, release_stage, setPeer_stage]
      · cases hs
  | write c =>
      simp only [step, write] at hs
      grind [setPeer_stage]
  | fail c running =>
      simp only [step, fail] at hs
      grind [stage_setStage, release_stage]
  | detach c =>
      simp only [step, detach] at hs
      split at hs
      · cases hs
        have hst : ∀ p, (r.detachPeer c p).stage d = r.stage d := by
          intro p
          unfold detachPeer
          grind [putOn_getD]
        grind [stage_setStage]
      · cases hs
  | orphan i salt =>
      simp only [step, orphan] at hs
      grind

/-- What the first message of a client says. -/
theorem firstStage_passport {message : Hello} (h : (firstStage message).passport = some x) :
    (∃ name password, message = .controller name password ∧ x = .password name password) ∨
      (∃ owner name password, message = .target owner name password ∧ x = .owner name owner) ∨
      ∃ owner password, message = .target owner "" password ∧ x = .registration owner password := by
  unfold firstStage at h
  cases message with
  | target owner id password =>
      dsimp only at h
      split at h
      · cases h
      · split at h
        · split at h <;> cases h
          exact .inr (.inl ⟨owner, id, password, rfl, rfl⟩)
        · rename_i hid
          obtain rfl : id = "" := not_not.mp hid
          split at h <;> cases h
          exact .inr (.inr ⟨owner, password, rfl, rfl⟩)
  | controller id password =>
      dsimp only at h
      split at h <;> cases h
      exact .inl ⟨id, password, rfl, rfl⟩
  | diagnostic | other => cases h

/-- A transaction of `d` finds at the registry that its client may go on. -/
inductive Verifies (crypto : Crypto) (r : Relay) (salt : String) (d : Nat) : Passport → Prop where
  | password (name password : String) (g : Nat) (hs : r.stage d = .checkingPassword name password)
      (h : r.registry.login crypto name password = some g) : Verifies crypto r salt d (.controller name g)
  | owner (name owner : String) (g : Nat) (hs : r.stage d = .checkingOwner name owner)
      (h : r.registry.owner crypto name owner = some g) : Verifies crypto r salt d (.target name g owner)
  | registered (owner password name : String) (g : Nat) (hs : r.stage d = .registering owner password)
      (h : r.registry.registered crypto owner = some (name, g)) : Verifies crypto r salt d (.target name g owner)
  | inserted (owner password : String) (hs : r.stage d = .inserting owner password) :
      Verifies crypto r salt d (.target (r.registry.insert crypto owner password salt).2.1
        (r.registry.insert crypto owner password salt).2.2 owner)

theorem StepCase.extends (hstep : StepCase crypto r action r') (hk : r.registry.Keyed) : r.registry.Extends r'.registry := by
  cases hstep.effect with
  | quiet he => rw [he]; exact .refl _
  | inserted c owner password salt hs he => rw [he]; exact Registry.insert_extends crypto _ owner password salt
  | committed c p owner password rotationId salt g hs hp he => exact hk.rotate_extends he
  | orphaned o salt g ho he => exact hk.rotate_extends he

theorem Verifies.belongs {salt name owner : String} {g : Nat} (h : Verifies crypto r salt d (.target name g owner))
    (hs : r.step crypto (.transaction d salt) = some r') : r'.registry.Belongs crypto name owner := by
  cases h with
  | owner _ _ _ hst h =>
      simp only [step, transaction, hst, h] at hs
      cases hs
      unfold Registry.owner at h
      split at h
      · rename_i row hrow
        split at h
        · rename_i hhash
          exact ⟨row, List.mem_of_find?_eq_some hrow, hhash, .inl (Registry.byNumber_number hrow)⟩
        · cases h
      · cases h
  | registered _ _ _ _ hst h =>
      simp only [step, transaction, hst, h] at hs
      cases hs
      obtain ⟨row, hrow, he⟩ := Option.map_eq_some_iff.mp h
      obtain ⟨hmem, hhash⟩ := Registry.byOwner_mem hrow
      exact ⟨row, hmem, hhash, .inr (Prod.mk.inj he).1.symm⟩
  | inserted _ password hst =>
      simp only [step, transaction, hst] at hs
      cases hs
      have hcases := r.registry.insert_cases crypto owner password salt
      show Registry.Belongs crypto (r.registry.insert crypto owner password salt).1
        (r.registry.insert crypto owner password salt).2.1 owner
      generalize r.registry.insert crypto owner password salt = result at hcases ⊢
      cases hcases with
      | found row hmem hhash => exact ⟨row, hmem, hhash, .inr rfl⟩
      | new row hn hhash => exact ⟨row, List.mem_append_right _ (List.mem_singleton_self row), hhash, .inr rfl⟩

/-- Where a handler has its passport from. -/
theorem passport_cases (hs : r.step crypto action = some r') (hx : (r'.stage d).passport = some x) :
    (r.stage d).passport = some x ∨ (∃ message, action = .hello d message ∧ (firstStage message).passport = some x) ∨
      ∃ salt, action = .transaction d salt ∧ Verifies crypto r salt d x := by
  by_cases hhello : ∀ message, action ≠ .hello d message
  · by_cases htransaction : ∀ salt, action ≠ .transaction d salt
    · exact .inl (passport_kept hs hhello htransaction hx)
    push Not at htransaction
    obtain ⟨salt, rfl⟩ := htransaction
    simp only [step, transaction] at hs
    split at hs
    · rename_i name owner hst
      split at hs <;> cases hs <;> rw [stage_setStage, if_pos rfl] at hx <;> cases hx
      exact .inr (.inr ⟨salt, rfl, .owner name owner _ hst ‹_›⟩)
    · rename_i owner password hst
      split at hs <;> cases hs <;> rw [stage_setStage, if_pos rfl] at hx <;> cases hx
      · exact .inl (by rw [hst]; rfl)
      · exact .inr (.inr ⟨salt, rfl, .registered owner password _ _ hst ‹_›⟩)
    · rename_i owner password hst
      cases hs
      simp only [setStage, Function.update_self, Stage.passport, Option.some.injEq] at hx
      subst hx
      exact .inr (.inr ⟨salt, rfl, .inserted owner password hst⟩)
    · rename_i name password hst
      split at hs <;> cases hs <;> rw [stage_setStage, if_pos rfl] at hx <;> cases hx
      exact .inr (.inr ⟨salt, rfl, .password name password _ hst ‹_›⟩)
    · rename_i name g hst
      cases hs
      rw [stage_setStage, if_pos rfl] at hx
      exact .inl (by rw [hst]; exact hx)
    · obtain ⟨p, -, rfl⟩ := Option.map_eq_some_iff.mp hs
      split at hx
      · simp [release, setStage, Stage.passport] at hx
      · simp [setStage, Stage.passport] at hx
    · cases hs
  · push Not at hhello
    obtain ⟨message, rfl⟩ := hhello
    simp only [step, hello] at hs
    split at hs <;> cases hs
    rw [stage_setStage, if_pos rfl] at hx
    exact .inr (.inl ⟨message, rfl, hx⟩)

/-! ## Admitted clients -/

/-- A new peer has shown what its handler had checked, and an old one keeps what it has shown. -/
theorem StepCase.peer_showed (hrot : r.Rotating) (hstep : StepCase crypto r action r') {P : Passport → Prop}
    (hstage : ∀ x, (r.stage d).passport = some x → P x) (hpeer : ∀ p, r.peer d = some p → p.Showed P) {q : Peer}
    (hq : r'.peer d = some q) : q.Showed P := by
  have hset : ∀ {c : Nat} {y z : Peer}, (r.setPeer c y).peer d = some z → (d = c → y.Showed P) → z.Showed P := by
    intro c y z hz hy
    simp only [setPeer, Function.update_apply] at hz
    split at hz
    · rename_i hd
      cases hz
      exact hy hd
    · exact hpeer z hz
  have hput : ∀ {t t' : Relay} {e : Nat} {entry : Entry}, t.putOn e entry = some t' →
      (∀ z, t.peer d = some z → z.Showed P) → ∀ z, t'.peer d = some z → z.Showed P := by
    intro t t' e entry he ht z hz
    obtain ⟨p, hp, rfl⟩ := putOn_eq he
    simp only [setPeer, Function.update_apply] at hz
    split at hz
    · rename_i hd
      cases hz
      rw [← hd] at hp
      exact (ht p hp).congr rfl rfl fun _ => rfl
    · exact ht z hz
  have hreply : ∀ {c : Nat} {p : Peer} {owner : String} {g : Nat}, r.stage c = .serving owner (.committed g) →
      r.peer c = some p →
      d = c → Peer.Showed P { p with generation := g } := by
    intro c p owner g hs hp hd
    obtain ⟨p', hp', hrole⟩ := hrot c (by rw [hs]; rfl)
    cases hp.symm.trans hp'
    exact (hpeer p (hd ▸ hp)).congr rfl rfl fun hc => by rw [hrole] at hc; cases hc
  cases hstep with
  | idle | moved | inserted | locked | unlocked | committed | targetOut | controllerOut | detached | orphaned
  | orphanEnded =>
      exact hpeer q hq
  | targetIn c name g owner hfree hs hn =>
      exact hset (y := ⟨.target, name, g, [], []⟩) hq fun hd => ⟨g, owner, hstage _ (by rw [hd, hs]; rfl)⟩
  | controllerIn c name g t hs ht hn q' hq' =>
      refine hput hq' (fun z hz => ?_) q hq
      exact hset (y := ⟨.controller, name, g, [], []⟩) hz fun hd => hstage (.controller name g) (by rw [hd, hs]; rfl)
  | controllerFull c name g t hs ht hn =>
      exact hset (y := ⟨.controller, name, g, [], []⟩) hq fun hd => hstage (.controller name g) (by rw [hd, hs]; rfl)
  | frame c p owner event t hs hp hrole ht hc q' hq' => exact hput hq' hpeer q hq
  | outbound c p owner m m' e hs hp hrole hd hm q' hq' => exact hput hq' hpeer q hq
  | completed c p owner g hs hp q' hq' => exact hput hq' (fun z hz => hset hz (hreply hs hp)) q hq
  | completedFull c p owner g hs hp => exact hset hq (hreply hs hp)
  | wrote c p entry rest hp ho => exact hset hq fun hd => (hpeer p (hd ▸ hp)).congr rfl rfl fun _ => rfl
  | controllerGone c p t hs hp hrole hc ht q' hq' => exact hput hq' hpeer q hq

/-! ## The invariants -/

/-- Every client has shown what its handler goes on with. -/
structure Shows (P : Nat → Passport → Prop) (r : Relay) : Prop where
  stage : ∀ c x, (r.stage c).passport = some x → P c x
  peer : ∀ c p, r.peer c = some p → p.Showed (P c)

variable {P : Nat → Passport → Prop}

theorem shows_start (P : Nat → Passport → Prop) (registry : Registry) : Shows P { registry := registry } :=
  ⟨by simp [Stage.passport], by simp⟩

theorem Shows.mono (h : Shows P r) {Q : Nat → Passport → Prop} (hPQ : ∀ c x, P c x → Q c x) : Shows Q r :=
  ⟨fun c x hx => hPQ c x (h.stage c x hx), fun c p hp => (h.peer c p hp).mono (hPQ c)⟩

theorem Shows.step (h : Shows P r) (hrot : r.Rotating) (hs : r.step crypto action = some r')
    (hhello : ∀ d message x, action = .hello d message → (firstStage message).passport = some x → P d x)
    (hverify : ∀ d salt x, action = .transaction d salt → Verifies crypto r salt d x → P d x) : Shows P r' where
  stage d x hx := by
    rcases passport_cases hs hx with hx | ⟨message, ha, hx⟩ | ⟨salt, ha, hx⟩
    · exact h.stage d x hx
    · exact hhello d message x ha hx
    · exact hverify d salt x ha hx
  peer d _ hq := (step_cases hs).peer_showed hrot (h.stage d) (h.peer d) hq

/-- The author of a frame on the queue of a target is a controller of the same name. -/
def Authored (r : Relay) : Prop :=
  ∀ t p, r.peer t = some p → ∀ x ∈ p.log, ∀ event, x.message = .frame event →
    p.role = .target ∧ ∃ c q, x.author = some c ∧ r.peer c = some q ∧ q.role = .controller ∧ q.name = p.name

theorem authored_start (registry : Registry) : Authored { registry := registry } := by
  intro t p h
  cases h

theorem Authored.step (h : r.Authored) (hses : r.Sessions) (hrot : r.Rotating) (hstep : StepCase crypto r action r') :
    r'.Authored := by
  intro t q hq x hx event he
  have hnew : ∀ {p : Peer}, r.peer t = some p → p.role = .target → ∀ {c : Nat} {y : Peer}, x.author = some c →
      r.peer c = some y →
      y.role = .controller → y.name = p.name → q.role = .target ∧
        ∃ c q', x.author = some c ∧ r'.peer c = some q' ∧ q'.role = .controller ∧ q'.name = q.name := by
    intro p hp hrole c y hauthor hy hyrole hyname
    obtain ⟨q', hq', hr, hn⟩ := hstep.peer_stays hses hp
    cases hq.symm.trans hq'
    obtain ⟨y', hy', hr', hn'⟩ := hstep.peer_stays hses hy
    exact ⟨hr.trans hrole, c, y', hauthor, hy', hr'.trans hyrole, by rw [hn', hyname, hn]⟩
  have hold : x ∈ r.logOf t → q.role = .target ∧
      ∃ c q', x.author = some c ∧ r'.peer c = some q' ∧ q'.role = .controller ∧ q'.name = q.name := by
    intro hm
    cases hp : r.peer t with
    | none => simp [logOf, hp] at hm
    | some p =>
        rw [logOf_peer hp] at hm
        obtain ⟨hrole, c, y, hauthor, hy, hyrole, hyname⟩ := h t p hp x hm event he
        exact hnew hp hrole hauthor hy hyrole hyname
  rw [← logOf_peer hq] at hx
  rcases hstep.logs hses hrot t with hl | ⟨y, hy, hl⟩
  · exact hold (hl ▸ hx)
  · rw [hl, List.mem_append, List.mem_singleton] at hx
    rcases hx with hx | rfl
    · exact hold hx
    cases hy with
    | joined name c ht hc hy | gone name c ht hc hy => rw [hy] at he; cases he
    | rotated p o g hp hrole hs hy => rw [hy] at he; cases he
    | frame name c event' ht hc ha hy =>
        obtain ⟨p, hp, hrole, hname⟩ := hses.target name t ht
        obtain ⟨y, hy', hyrole, hyname⟩ := hses.controller name c hc
        exact hnew hp hrole (by rw [hy]) hy' hyrole (hyname.trans hname.symm)
    | outbound name u m m' hd hm ha hy =>
        have := outbound_isFrame hm
        rw [hy] at he
        dsimp only at he
        rw [he] at this
        cases this

end Relay

end RemoteInput
