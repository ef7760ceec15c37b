import RemoteInput.System.Lemmas.Password
import RemoteInput.System.Theorems.Messages

/-!
# No input without a password of the target
-/

namespace RemoteInput

namespace Site

variable {crypto : Crypto} {s : Site} {owner password : String} {actions : List SiteAction}

/-- A password that the target has shown: its first one, or one that was drawn by a command. -/
def Chosen (password : String) (actions : List SiteAction) (pw : String) : Prop :=
  pw = password ∨ ∃ env drawn, .command env drawn ∈ actions ∧ pw = drawn.1

/-- In the run the client of `c` asked to control `name` with the password. -/
def Said (actions : List SiteAction) (c : Nat) (name pw : String) : Prop :=
  .stranger (.hello c (.controller name pw)) ∈ actions

theorem guarded_run (hinj : ∀ salt, Function.Injective fun pw => crypto.passwordHash pw salt)
    (hs : run crypto (start owner password) actions = some s) :
    s.Guarded crypto owner password (Chosen password actions) (Said actions) := by
  have hall : Runs.Before (step crypto) (start owner password) (fun _ action => action ∈ actions) actions :=
    Runs.before_of_forall fun _ ha _ => ha
  have hrun : s.Sound ∧ s.Secret crypto owner password ∧
    s.Guarded crypto owner password (Chosen password actions) (Said actions) := by
    refine hall.invariant (I := fun s => s.Sound ∧ s.Secret crypto owner password ∧
      s.Guarded crypto owner password (Chosen password actions) (Said actions)) ⟨.start .., .start .., .start (.inl rfl)⟩
      (fun t action t' h ha ht => ?_) hs
    obtain ⟨hsound, hsecret, hguarded⟩ := h
    refine ⟨hsound.step ht, hsecret.step hsound ht, hguarded.step hsecret hsound hinj ht (fun env drawn he => ?_)
      fun a he => ?_⟩
    · exact .inr ⟨env, drawn, he ▸ ha, rfl⟩
    · cases a with
      | hello c message =>
          cases message with
          | controller name pw =>
              rw [he] at ha
              exact ha
          | _ => trivial
      | _ => trivial
  exact hrun.2.2

/-- Every frame that the engine of the target ever gets is from a client that asked for control with a password that the
target has shown. Whatever other clients do, and whatever rotations, losses and restarts come in between: without such a
password there is no input. -/
theorem input_needs_password (hinj : ∀ salt, Function.Injective fun pw => crypto.passwordHash pw salt)
    (hs : run crypto (start owner password) actions = some s) :
    ∀ x ∈ s.target.passed, ∃ event c name pw, x = ⟨.frame event, some c⟩ ∧ Said actions c name pw ∧
    Chosen password actions pw := by
  have hsecret : s.Sound ∧ s.Secret crypto owner password :=
    Runs.invariant (I := fun s => s.Sound ∧ s.Secret crypto owner password) ⟨.start .., .start ..⟩
      (fun t a t' h ht => ⟨h.1.step ht, h.2.step h.1 ht⟩) hs
  have hguarded := guarded_run hinj hs
  intro x hx
  obtain ⟨⟨event, hframe⟩, t, hgreet, hlog⟩ := hguarded.passed x hx
  obtain ⟨p, hp, hmem⟩ : ∃ p, s.relay.peer t = some p ∧ x ∈ p.log := by
    cases hp : s.relay.peer t with
    | none => simp [Relay.logOf, hp] at hlog
    | some p => exact ⟨p, rfl, Relay.logOf_peer hp ▸ hlog⟩
  obtain ⟨hrole, c, q, hauthor, hq, hqrole, hqname⟩ := hguarded.authored t p hp x hmem event hframe
  have htarget := hguarded.shows.peer t p hp
  have hcontroller := hguarded.shows.peer c q hq
  unfold Peer.Showed at htarget hcontroller
  rw [hrole] at htarget
  rw [hqrole, hqname] at hcontroller
  obtain ⟨g, o, htarget⟩ := htarget
  rcases hcontroller with ⟨name, pw, hsaid, hchosen⟩ | halien
  · obtain ⟨message, author⟩ := x
    dsimp only at hframe hauthor
    exact ⟨event, c, name, pw, by rw [hframe, hauthor], hsaid, hchosen⟩
  · exact absurd halien ((htarget hgreet).not_alien hsecret.2.keyed)

/-- A client with the password takes control and sends a frame. -/
def visited : List SiteAction :=
  joins 0 ++ [.stranger (.hello 1 (.controller "TARGET-001" Relay.samplePassword)), .relayOwn (.transaction 1 ""),
    .relayOwn (.acquire 1), .relayOwn (.transaction 1 ""), .relayOwn (.admission 1), .stranger (.replied 1),
    .stranger (.receive 1 (some (.frame { op := .move }))), .relayWrite 0, .relayWrite 0, .read calm ("", ""),
    .read calm ("", "")]

theorem append_injective (salt : String) : Function.Injective fun pw : String => pw ++ salt := by
  intro a b h
  have hlist : a.toList ++ salt.toList = b.toList ++ salt.toList := by
    simpa using congrArg String.toList h
  exact String.toList_injective (List.append_cancel_right hlist)

theorem input_needs_password_visited :
    ∃ s, run Relay.plain sample visited = some s ∧ s.target.passed = [⟨.frame { op := .move }, some 1⟩] ∧
      ∃ name pw, Said visited 1 name pw ∧ Chosen Relay.samplePassword visited pw := by
  obtain ⟨s, hs⟩ := Option.isSome_iff_exists.mp (show (run Relay.plain sample visited).isSome = true by decide +kernel)
  have hpassed :
      ((run Relay.plain sample visited).map fun s => s.target.passed) = some [⟨.frame { op := .move }, some 1⟩] := by
    decide +kernel
  rw [hs, Option.map_some, Option.some.injEq] at hpassed
  obtain ⟨event, c, name, pw, hx, hsaid, hchosen⟩ :=
    input_needs_password append_injective hs ⟨.frame { op := .move }, some 1⟩ (by rw [hpassed]; simp)
  cases hx
  exact ⟨s, hs, hpassed, name, pw, hsaid, hchosen⟩

end Site

end RemoteInput
