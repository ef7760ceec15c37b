import RemoteInput.Relay.Lemmas.Generations
import RemoteInput.Relay.Lemmas.Queues

/-!
# Sessions are isolated and revocation is final
-/

namespace RemoteInput

namespace Relay

variable {crypto : Crypto} {registry : Registry} {r : Relay}

theorem Reachable.invariants (h : Reachable crypto registry r) : r.Sessions ∧ r.Generations ∧ r.Rotating := by
  induction h with
  | start => exact ⟨sessions_start registry, generations_start registry, rotating_start registry⟩
  | step action _ hs ih =>
      obtain ⟨hses, hgen, hrot⟩ := ih
      have hcase := step_cases hs
      exact ⟨hses.step hcase, hgen.step hses hcase, hrot.step hses hcase⟩

/-- A controller is in the map only together with its target; on a target's queue the frames of each controller come right
after its `peer_joined` and end with its `peer_gone` or with the `rotated` that revoked it; and a controller that was
admitted before a completed rotation is out of the map, and neither sends nor gets anything any more. -/
theorem sessions_isolated (h : Reachable crypto registry r) :
    (∀ n c, r.controllers n = some c → ∃ t, r.targets n = some t) ∧
    (∀ t p, r.peer t = some p → p.role = .target → Separated p.log) ∧
    (∀ n g, (n, g) ∈ r.completed → ∀ c p, r.peer c = some p → p.role = .controller → p.name = n → p.generation < g →
      r.controllers n ≠ some c ∧
      ∀ action r', r.step crypto action = some r' →
        r'.logOf c = r.logOf c ∧ ∀ t, framesBy c (r'.logOf t) = framesBy c (r.logOf t)) := by
  obtain ⟨hses, hgen, hrot⟩ := h.invariants
  refine ⟨?_, ?_, ?_⟩
  · intro n c hc
    obtain ⟨t, ht, _⟩ := hses.paired n c hc
    exact ⟨t, ht⟩
  · exact fun t p hp hrole => (hses.orderly t p hp hrole).separated
  · rintro n g hg c p hp hrole rfl hlt
    have hc : r.controllers p.name ≠ some c := by
      intro hc
      have hle : g ≤ p.generation := hgen.mapped p.name c p g hc hp hg
      omega
    refine ⟨hc, fun action r' hs => ?_⟩
    exact (step_cases hs).unmapped hses hrot hp hrole hc

/-! ## A revoked controller -/

/-- A stand-in for the two hash functions. -/
def plain : Crypto where
  digest := id
  passwordHash := fun password salt => password ++ salt

def sampleOwner : String := "0123456789012345678901234567890123456789"

def samplePassword : String := "password-password-password"

def samplePassword' : String := "rotation-rotation-rotation"

/-- Connection `c` registers as a target. -/
def registers (c : Nat) (owner : String) : List RelayAction :=
  [.hello c (.target owner "" samplePassword), .transaction c "", .transaction c "salt", .acquire c, .replied c]

/-- Connection `c` becomes the controller of `id`. -/
def controls (c : Nat) (id : String) : List RelayAction :=
  [.hello c (.controller id samplePassword), .transaction c "", .acquire c, .transaction c "", .admission c, .replied c]

/-- The target on connection `c` rotates its password. -/
def rotates (c : Nat) : List RelayAction :=
  [.receive c (some (.rotate samplePassword' samplePassword')), .acquire c, .transaction c "salt", .complete c]

/-- A target, a controller that moves the mouse, and a rotation. -/
def revoking : List RelayAction :=
  registers 0 sampleOwner ++ controls 1 "TARGET-001" ++ [.receive 1 (some (.frame { op := .move }))] ++ rotates 0

theorem sessions_isolated_revoking : ∃ r, Relay.run plain {} revoking = some r ∧ ("TARGET-001", 2) ∈ r.completed ∧
    r.logOf 0 = [⟨.peerJoined, some 1⟩, ⟨.frame { op := .move }, some 1⟩, ⟨.rotated 2, some 1⟩] ∧
    Separated (r.logOf 0) ∧ r.controllers "TARGET-001" ≠ some 1 := by
  obtain ⟨r, hr⟩ := Option.isSome_iff_exists.mp (show (Relay.run plain {} revoking).isSome = true by decide +kernel)
  have hdone : ((Relay.run plain {} revoking).map fun r => r.completed) = some [("TARGET-001", 2)] := by decide +kernel
  have hlog : ((Relay.run plain {} revoking).map fun r => r.logOf 0) =
      some [⟨.peerJoined, some 1⟩, ⟨.frame { op := .move }, some 1⟩, ⟨.rotated 2, some 1⟩] := by decide +kernel
  have htarget : ((Relay.run plain {} revoking).bind fun r => (r.peer 0).map Peer.role) = some .target := by
    decide +kernel
  have hpeer : ((Relay.run plain {} revoking).bind fun r => (r.peer 1).map fun p => (p.role, p.name, p.generation)) =
      some (.controller, "TARGET-001", 1) := by decide +kernel
  rw [hr] at hdone hlog htarget hpeer
  obtain ⟨p, hp, hrole⟩ := Option.map_eq_some_iff.mp htarget
  obtain ⟨q, hq, hrest⟩ := Option.map_eq_some_iff.mp hpeer
  simp only [Prod.mk.injEq] at hrest
  have hcompleted : ("TARGET-001", 2) ∈ r.completed := by
    have hdone : r.completed = [("TARGET-001", 2)] := Option.some.inj hdone
    simp [hdone]
  obtain ⟨-, hseparated, hrevoked⟩ := sessions_isolated (Reachable.start.run revoking hr)
  refine ⟨r, hr, hcompleted, Option.some.inj hlog, ?_, ?_⟩
  · rw [logOf_peer hp]; exact hseparated 0 p hp hrole
  · exact (hrevoked "TARGET-001" 2 hcompleted 1 q hq hrest.1 hrest.2.1 (by rw [hrest.2.2]; omega)).1

end Relay

end RemoteInput
