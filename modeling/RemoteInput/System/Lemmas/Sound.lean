import RemoteInput.Relay.Lemmas.Addressed
import RemoteInput.System.Lemmas.Steps
import RemoteInput.Target.Lemmas.Rotation

/-!
# Invariants of a site
-/

namespace RemoteInput

namespace Site

variable {crypto : Crypto} {s s' : Site} {action : SiteAction}

/-- A packet is on its way to a peer that it is for. -/
def Delivers (relay : Relay) (c : Nat) : Packet → Prop
  | .registered _ => ∃ p, relay.peer c = some p ∧ p.role = .target
  | .connected => True
  | .message entry => ∃ p, relay.peer c = some p ∧ entry.message.suits p.role = true

structure Sound (s : Site) : Prop where
  sessions : s.relay.Sessions
  rotations : s.relay.Rotating
  addressed : s.relay.Addressed
  pending : s.target.rotating = s.target.identity.pending.isSome
  vault : s.target.vault = s.target.identity
  offline : s.targetConn = none → s.target.outbox = none
  greeting : ∀ c, s.targetConn = some c → (s.greeting c).isSome = true
  packets : ∀ c, ∀ packet ∈ s.down c, Delivers s.relay c packet
  served : s.target.outbox.isSome = true → ∀ c, s.targetConn = some c → ∃ p, s.relay.peer c = some p ∧ p.role = .target

theorem Sound.start (owner password : String) : (start owner password).Sound where
  sessions := Relay.sessions_start {}
  rotations := Relay.rotating_start {}
  addressed := Relay.addressed_start {}
  pending := rfl
  vault := rfl
  offline := fun _ => rfl
  greeting := by simp [Site.start]
  packets := by simp [Site.start]
  served := by simp [Site.start, Target.start]

/-! ## Steps of the relay -/

/-- From `relay` to `relay'` the peers that there are stay. -/
def Keeps (relay relay' : Relay) : Prop :=
  ∀ d p, relay.peer d = some p → ∃ q, relay'.peer d = some q ∧ Relay.Replaces p q

theorem Delivers.keeps {relay relay' : Relay} (hk : Keeps relay relay') {c : Nat} {packet : Packet}
    (h : Delivers relay c packet) : Delivers relay' c packet := by
  cases packet with
  | registered name =>
      obtain ⟨p, hp, hr⟩ := h
      obtain ⟨q, hq, hr', _⟩ := hk c p hp
      exact ⟨q, hq, hr'.trans hr⟩
  | connected => trivial
  | message entry =>
      obtain ⟨p, hp, hs⟩ := h
      obtain ⟨q, hq, hr', _⟩ := hk c p hp
      exact ⟨q, hq, hr'.symm ▸ hs⟩

theorem Sound.keeps (h : s.Sound) {a : RelayAction} {relay : Relay} (hr : s.relay.step crypto a = some relay) :
    Keeps s.relay relay := fun _ _ hp => (Relay.step_cases hr).peer_stays h.sessions hp

theorem Sound.relayed (h : s.Sound) {a : RelayAction} {relay : Relay} (hr : s.relay.step crypto a = some relay) :
    Sound { s with relay := relay } := by
  have hc := Relay.step_cases hr
  have hk := h.keeps hr
  refine ⟨h.sessions.step hc, h.rotations.step h.sessions hc, h.addressed.step h.sessions h.rotations hc, h.pending, h.vault,
    h.offline, h.greeting, fun c packet hp => (h.packets c packet hp).keeps hk, fun ho c hc => ?_⟩
  obtain ⟨p, hp, hrole⟩ := h.served ho c hc
  obtain ⟨q, hq, hr', _⟩ := hk c p hp
  exact ⟨q, hq, hr'.trans hrole⟩

theorem Sound.sendDown (h : s.Sound) {c : Nat} {packet : Packet} (hp : Delivers s.relay c packet) :
    (s.sendDown c packet).Sound := by
  refine ⟨h.sessions, h.rotations, h.addressed, h.pending, h.vault, h.offline, h.greeting, fun d x hx => ?_, h.served⟩
  simp only [Site.sendDown, Function.update_apply] at hx
  split at hx
  · rename_i hd
    subst hd
    rcases List.mem_append.mp hx with hx | hx
    · exact h.packets d x hx
    · rw [List.mem_singleton.mp hx]; exact hp
  · exact h.packets d x hx

/-! ## Steps of the target -/

/-- The target goes on, and takes a packet from the link of its connection. -/
theorem Sound.goesOn (h : s.Sound) {target : Target} {c : Nat} {packet : Packet} {rest : List Packet}
    (hd : s.down c = packet :: rest) (hp : target.rotating = target.identity.pending.isSome)
    (hv : target.vault = target.identity) (ho : s.targetConn = none → target.outbox = none)
    (hs : target.outbox.isSome = true → ∀ c, s.targetConn = some c → ∃ p, s.relay.peer c = some p ∧ p.role = .target)
    (taken : Nat → List Entry) :
    Sound { s with target := target, down := Function.update s.down c rest, taken := taken } := by
  refine ⟨h.sessions, h.rotations, h.addressed, hp, hv, ho, h.greeting, fun d x hx => ?_, hs⟩
  dsimp only at hx
  rw [Function.update_apply] at hx
  split at hx
  · rename_i hdc
    subst hdc
    exact h.packets d x (by rw [hd]; exact List.mem_cons_of_mem _ hx)
  · exact h.packets d x hx

theorem Sound.quiet (h : s.Sound) {target : Target} (hq : Target.Quiet s.target target) :
    target.rotating = target.identity.pending.isSome ∧ target.vault = target.identity ∧
      (s.targetConn = none → target.outbox = none) := by
  refine ⟨by rw [hq.rotating, hq.identity]; exact h.pending, by rw [hq.vault, hq.identity]; exact h.vault, fun hn => ?_⟩
  have ho := hq.online
  rw [h.offline hn] at ho
  simpa using ho

/-- While the target is online its peer at the relay has its role. -/
theorem Sound.servedOnline (h : s.Sound) {target : Target} (ho : target.outbox.isSome = s.target.outbox.isSome) :
    target.outbox.isSome = true → ∀ c, s.targetConn = some c → ∃ p, s.relay.peer c = some p ∧ p.role = .target :=
  fun hs => h.served (ho ▸ hs)

theorem Sound.step (h : s.Sound) (hs : s.step crypto action = some s') : s'.Sound := by
  cases step_cases hs with
  | dialed c hc hu =>
      refine ⟨h.sessions, h.rotations, h.addressed, h.pending, h.vault, by simp, fun d hd => ?_, h.packets, fun ho => ?_⟩
      · cases hd; simp
      · rw [h.offline hc] at ho; cases ho
  | registered env drawn c name rest target hc hd ho ht =>
      obtain ⟨hon, hcase⟩ := Target.registered_cases ht
      have hpeer : ∃ p, s.relay.peer c = some p ∧ p.role = .target := h.packets c (.registered name) (by rw [hd]; simp)
      refine h.goesOn hd ?_ ?_ (by simp [hc]) (fun _ d hd' => ?_) s.taken
      · rcases hcase with ⟨hr, hr', hi, _, _⟩ | ⟨_, hr', _, hi, _⟩
        · rw [hr', hi, ← h.pending, hr]
        · rw [hr', hi]; exact (Identity.beginRotation_pending _ _).symm
      · rcases hcase with ⟨_, _, _, _, hv⟩ | ⟨_, _, hv, _, _⟩
        · exact hv
        · exact hv
      · cases hc.symm.trans hd'; exact hpeer
  | took env drawn c entry rest target hc hd ho ht =>
      rcases Target.read_cases ht with ⟨_, hq⟩ | ⟨_, _, hr', hv, hout, hi⟩
      · obtain ⟨h1, h2, h3⟩ := h.quiet hq
        exact h.goesOn hd h1 h2 h3 (h.servedOnline hq.online) _
      · refine h.goesOn hd ?_ hv (by simp [hc]) (h.servedOnline (by rw [hout])) _
        obtain ⟨pending, _, he⟩ := Option.map_eq_some_iff.mp hi
        rw [hr', ← he]
        rfl
  | commanded env drawn target ho ht =>
      obtain ⟨hv, hi, hr, hon, _⟩ := Target.rotate_requests ht
      refine ⟨h.sessions, h.rotations, h.addressed, ?_, hv, fun hn => ?_, h.greeting, h.packets, h.servedOnline hon⟩
      · show target.rotating = target.identity.pending.isSome
        rw [hr, hi]; exact (Identity.beginRotation_pending _ _).symm
      · rw [h.offline hn] at ho; cases ho
  | offline env drawn ho hc =>
      exact ⟨h.sessions, h.rotations, h.addressed, (Identity.beginRotation_pending _ _).symm, rfl, fun _ => ho, h.greeting,
        h.packets, h.served⟩
  | worked op target _ ht =>
      have hq := Target.thread_quiet ht
      obtain ⟨h1, h2, h3⟩ := h.quiet hq
      exact ⟨h.sessions, h.rotations, h.addressed, h1, h2, h3, h.greeting, h.packets, h.servedOnline hq.online⟩
  | wrote now c message outbox outbox' hc ho ht =>
      exact ⟨h.sessions, h.rotations, h.addressed, h.pending, h.vault, by simp [Site.sendUp, hc], h.greeting, h.packets,
        fun _ => h.served (by rw [ho]; rfl)⟩
  | lost env target hc ht =>
      obtain ⟨t, hthread, rfl⟩ := Option.map_eq_some_iff.mp ht
      obtain ⟨h1, h2, _⟩ := h.quiet (Target.thread_quiet hthread)
      exact ⟨h.sessions, h.rotations, h.addressed, h1, h2, fun _ => rfl, by simp, h.packets, by simp⟩
  | restarted => exact ⟨h.sessions, h.rotations, h.addressed, rfl, rfl, fun _ => rfl, by simp, h.packets, by simp⟩
  | greeted c hello relay _ hr => exact h.relayed hr
  | received c message rest relay _ hr =>
      obtain ⟨h1, h2, h3, h4, h5, h6, h7, h8, h9⟩ := h.relayed hr
      exact ⟨h1, h2, h3, h4, h5, h6, h7, h8, h9⟩
  | replied c p relay hr hp =>
      refine (h.relayed hr).sendDown ?_
      split
      · rename_i hrole; exact ⟨p, hp, hrole⟩
      · trivial
  | sent c p entry relay hp he hr =>
      refine (h.relayed hr).sendDown ?_
      obtain ⟨q, hq, hrole, _⟩ := h.keeps hr c p hp
      refine ⟨q, hq, hrole.symm ▸ h.addressed c p hp entry ?_⟩
      exact List.mem_append_right _ (List.mem_of_head? he)
  | own a relay _ hr => exact h.relayed hr
  | foreign a relay _ hr => exact h.relayed hr

end Site

end RemoteInput
