import RemoteInput.Lib.Runs
import RemoteInput.Relay.Lemmas.Passports
import RemoteInput.Relay.Theorems.Sessions

/-!
# Input comes from clients that know the password
-/

namespace RemoteInput

namespace Relay

variable {crypto : Crypto} {registry : Registry} {r r' : Relay} {actions : List RelayAction} {c d : Nat} {x : Passport}
  {name owner salt : String} {g : Nat}

/-- In the run the client of `c` gave a password for `name`, and the registry then accepted it with `generation`. -/
def LoggedIn (crypto : Crypto) (registry : Registry) (actions : List RelayAction) (c : Nat) (name : String)
    (generation : Nat) : Prop :=
  ∃ before salt after password s, actions = before ++ .transaction c salt :: after ∧
    .hello c (.controller name password) ∈ before ∧ Relay.run crypto { registry := registry } before = some s ∧
    s.registry.login crypto name password = some generation

/-- In the run the client of `c` gave an owner secret, and the registry then had a row of that owner for `name`. -/
def OwnerProved (crypto : Crypto) (registry : Registry) (actions : List RelayAction) (c : Nat) (name : String) : Prop :=
  ∃ before salt after owner id password s, actions = before ++ .transaction c salt :: after ∧
    .hello c (.target owner id password) ∈ before ∧
    Relay.run crypto { registry := registry } (before ++ [.transaction c salt]) = some s ∧
    s.registry.Belongs crypto name owner

/-! ## Evidence for a passport -/

/-- What there is in the run for a passport of `c`. -/
def Evidence (crypto : Crypto) (registry : Registry) (actions : List RelayAction) (c : Nat) : Passport → Prop
  | .password name password => .hello c (.controller name password) ∈ actions
  | .owner _ owner | .registration owner _ => ∃ id password, .hello c (.target owner id password) ∈ actions
  | .target name _ _ => OwnerProved crypto registry actions c name
  | .controller name generation => LoggedIn crypto registry actions c name generation

theorem Evidence.more (h : Evidence crypto registry actions c x) (action : RelayAction) :
    Evidence crypto registry (actions ++ [action]) c x := by
  cases x with
  | password name password => exact List.mem_append_left _ h
  | owner name owner | registration owner password =>
      obtain ⟨id, pw, h⟩ := h
      exact ⟨id, pw, List.mem_append_left _ h⟩
  | target name g owner =>
      obtain ⟨before, salt, after, o, id, pw, s, rfl, h⟩ := h
      exact ⟨before, salt, after ++ [action], o, id, pw, s, by simp, h⟩
  | controller name g =>
      obtain ⟨before, salt, after, pw, s, rfl, h⟩ := h
      exact ⟨before, salt, after ++ [action], pw, s, by simp, h⟩

theorem run_eq (r : Relay) (actions : List RelayAction) : r.run crypto actions = Runs.exec (step crypto) r actions := by
  induction actions generalizing r with
  | nil => rfl
  | cons action actions ih =>
      show (r.step crypto action).bind _ = (r.step crypto action).bind _
      exact congrArg _ (funext ih)

theorem run_concat {action : RelayAction} :
    r.run crypto (actions ++ [action]) = some r' ↔ ∃ s, r.run crypto actions = some s ∧ s.step crypto action = some r' := by
  simp only [run_eq]
  exact Runs.exec_concat

/-- The invariant of a run. -/
structure Authentic (crypto : Crypto) (registry : Registry) (actions : List RelayAction) (r : Relay) : Prop where
  sessions : r.Sessions
  rotating : r.Rotating
  authored : r.Authored
  shows : r.Shows (Evidence crypto registry actions)

theorem authentic_run (hr : Relay.run crypto { registry := registry } actions = some r) :
    Authentic crypto registry actions r := by
  induction actions using List.reverseRecOn generalizing r with
  | nil =>
      cases hr
      exact ⟨sessions_start registry, rotating_start registry, authored_start registry, shows_start _ registry⟩
  | append_singleton actions action ih =>
      obtain ⟨s, hs, hstep⟩ := run_concat.mp hr
      have h := ih hs
      have hcase := step_cases hstep
      refine ⟨h.sessions.step hcase, h.rotating.step h.sessions hcase, h.authored.step h.sessions h.rotating hcase, ?_⟩
      refine (h.shows.mono fun c x hx => hx.more action).step h.rotating hstep ?_ ?_
      · rintro d message x rfl hx
        rcases firstStage_passport hx with ⟨name, pw, rfl, rfl⟩ | ⟨owner, name, pw, rfl, rfl⟩ | ⟨owner, pw, rfl, rfl⟩
        · exact List.mem_append_right _ (List.mem_singleton_self _)
        · exact ⟨_, _, List.mem_append_right _ (List.mem_singleton_self _)⟩
        · exact ⟨_, _, List.mem_append_right _ (List.mem_singleton_self _)⟩
      · rintro d salt x rfl hx
        have htold : ∀ y, (s.stage d).passport = some y → Evidence crypto registry actions d y := h.shows.stage d
        cases x with
        | password | owner | registration => cases hx
        | controller name g =>
            cases hx with
            | password _ pw _ hst hlogin =>
                exact ⟨actions, salt, [], pw, s, rfl, htold (.password name pw) (by rw [hst]; rfl), hs, hlogin⟩
        | target name g owner =>
            have hbelongs := hx.belongs hstep
            obtain ⟨id, pw, hmem⟩ : ∃ id pw, .hello d (.target owner id pw) ∈ actions := by
              cases hx with
              | owner _ _ _ hst _ => exact htold (.owner name owner) (by rw [hst]; rfl)
              | registered _ pw _ _ hst _ => exact htold (.registration owner pw) (by rw [hst]; rfl)
              | inserted _ pw hst => exact htold (.registration owner pw) (by rw [hst]; rfl)
            exact ⟨actions, salt, [], owner, id, pw, r, rfl, hmem, hr, hbelongs⟩

/-- Every frame that the relay ever queues for a target is from a controller that gave the password of that target, at a
moment when the registry accepted it, and the target has shown that it owns the row of that name. -/
theorem input_authenticated (hr : Relay.run crypto { registry := registry } actions = some r) {t : Nat} {p : Peer}
    (hp : r.peer t = some p) {entry : Entry} (hentry : entry ∈ p.log) {event : Event}
    (hframe : entry.message = .frame event) :
    OwnerProved crypto registry actions t p.name ∧
      ∃ c q, entry.author = some c ∧ r.peer c = some q ∧ q.role = .controller ∧ q.name = p.name ∧
        LoggedIn crypto registry actions c p.name q.generation := by
  have h := authentic_run hr
  obtain ⟨hrole, c, q, hauthor, hq, hqrole, hqname⟩ := h.authored t p hp entry hentry event hframe
  have htarget := h.shows.peer t p hp
  have hcontroller := h.shows.peer c q hq
  unfold Peer.Showed at htarget hcontroller
  rw [hrole] at htarget
  rw [hqrole, hqname] at hcontroller
  obtain ⟨g, owner, htarget⟩ := htarget
  exact ⟨htarget, c, q, hauthor, hq, hqrole, hqname, hcontroller⟩

theorem input_authenticated_revoking :
    OwnerProved plain {} revoking 0 "TARGET-001" ∧ ∃ g, LoggedIn plain {} revoking 1 "TARGET-001" g := by
  obtain ⟨r, hr⟩ := Option.isSome_iff_exists.mp (show (Relay.run plain {} revoking).isSome = true by decide +kernel)
  have hpeer : ((Relay.run plain {} revoking).bind fun r => (r.peer 0).map fun p => (p.name, p.log)) =
      some ("TARGET-001", [⟨.peerJoined, some 1⟩, ⟨.frame { op := .move }, some 1⟩, ⟨.rotated 2, some 1⟩]) :=
        by decide +kernel
  rw [hr] at hpeer
  obtain ⟨p, hp, he⟩ := Option.map_eq_some_iff.mp hpeer
  obtain ⟨hname, hlog⟩ := Prod.mk.inj he
  have hentry : (⟨.frame { op := .move }, some 1⟩ : Entry) ∈ p.log := by rw [hlog]; simp
  obtain ⟨howner, c, q, hauthor, -, -, -, hlogin⟩ := input_authenticated hr hp hentry rfl
  rw [hname] at howner hlogin
  cases hauthor
  exact ⟨howner, q.generation, hlogin⟩

end Relay

end RemoteInput
