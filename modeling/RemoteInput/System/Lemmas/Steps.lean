import RemoteInput.Relay.Lemmas.Outstanding
import RemoteInput.System.Site

/-!
# What one action of a site can do
-/

namespace RemoteInput

/-- The client that an action of the relay takes something from, or sends something to. -/
def RelayAction.client : RelayAction → Option Nat
  | .hello c _ | .receive c _ | .replied c | .write c => some c
  | _ => none

/-- A packet is the reply to a rotation. -/
def Packet.isReply : Packet → Bool
  | .message entry => entry.message.isRotated
  | _ => false

namespace Site

variable {crypto : Crypto} {s s' : Site} {action : SiteAction}

inductive StepCase (crypto : Crypto) (s : Site) : SiteAction → Site → Prop where
  | dialed (c : Nat) (hc : s.targetConn = none) (hu : s.Unused c) :
      StepCase crypto s (.dial c)
        { s with targetConn := some c, greeting := Function.update s.greeting c (some s.target.identity.hello) }
  | registered (env : Env) (drawn : String × String) (c : Nat) (name : String) (rest : List Packet) (target : Target)
      (hc : s.targetConn = some c) (hd : s.down c = .registered name :: rest) (ho : s.target.outbox = none)
      (ht : s.target.registered env drawn name = some target) :
      StepCase crypto s (.read env drawn) { s with target := target, down := Function.update s.down c rest }
  | took (env : Env) (drawn : String × String) (c : Nat) (entry : Entry) (rest : List Packet) (target : Target)
      (hc : s.targetConn = some c) (hd : s.down c = .message entry :: rest) (ho : s.target.outbox.isSome = true)
      (ht : s.target.read env entry = some target) :
      StepCase crypto s (.read env drawn) { s with target := target, down := Function.update s.down c rest,
                                                   taken := Function.update s.taken c (s.taken c ++ [entry]) }
  | commanded (env : Env) (drawn : String × String) (target : Target) (ho : s.target.outbox.isSome = true)
      (ht : s.target.rotate env drawn = some target) : StepCase crypto s (.command env drawn) { s with target := target }
  | offline (env : Env) (drawn : String × String) (ho : s.target.outbox = none) (hc : s.targetConn = none) :
      StepCase crypto s (.command env drawn) { s with target := s.target.rotateOffline drawn }
  | worked (op : ThreadOp) (target : Target) (hop : ∀ env event, op ≠ .receive env event)
      (ht : s.target.thread op = some target) :
      StepCase crypto s (.worker op) { s with target := target }
  | wrote (now : Time) (c : Nat) (message : Message) (outbox outbox' : Outbox Message) (hc : s.targetConn = some c)
      (ho : s.target.outbox = some outbox) (ht : outbox.take now = some (message, outbox')) :
      StepCase crypto s (.write now) ({ s with target := { s.target with outbox := some outbox' } }.sendUp c message)
  | lost (env : Env) (target : Target) (hc : s.targetConn.isSome = true) (ht : s.target.disconnect env = some target) :
      StepCase crypto s (.lose env) { s with target := target, targetConn := none }
  | restarted : StepCase crypto s .restart { s with target := s.target.restart, targetConn := none }
  | greeted (c : Nat) (hello : Hello) (relay : Relay) (hg : s.greeting c = some hello)
      (hr : s.relay.step crypto (.hello c hello) = some relay) :
      StepCase crypto s (.relayHello c) { s with relay := relay }
  | received (c : Nat) (message : Message) (rest : List Message) (relay : Relay) (hu : s.up c = message :: rest)
      (hr : s.relay.step crypto (.receive c (some message)) = some relay) :
      StepCase crypto s (.relayReceive c)
        { s with relay := relay, up := Function.update s.up c rest,
                 received := Function.update s.received c (s.received c ++ framesOf [message]) }
  | replied (c : Nat) (p : Peer) (relay : Relay) (hr : s.relay.step crypto (.replied c) = some relay)
      (hp : relay.peer c = some p) :
      StepCase crypto s (.relayReplied c)
        ({ s with relay := relay }.sendDown c (if p.role = Role.target then .registered p.name else .connected))
  | sent (c : Nat) (p : Peer) (entry : Entry) (relay : Relay) (hp : s.relay.peer c = some p)
      (he : p.out.head? = some entry) (hr : s.relay.step crypto (.write c) = some relay) :
      StepCase crypto s (.relayWrite c) ({ s with relay := relay }.sendDown c (.message entry))
  | own (action : RelayAction) (relay : Relay) (ha : action.client = none) (hr : s.relay.step crypto action = some relay) :
      StepCase crypto s (.relayOwn action) { s with relay := relay }
  | foreign (action : RelayAction) (relay : Relay) (hf : s.Foreign crypto action)
      (hr : s.relay.step crypto action = some relay) :
      StepCase crypto s (.stranger action) { s with relay := relay }

theorem read_cases {env : Env} {drawn : String × String} (h : s.read env drawn = some s') :
    StepCase crypto s (.read env drawn) s' := by
  unfold read at h
  split at h
  · cases h
  rename_i c hc
  split at h
  · rename_i name rest hd ho
    obtain ⟨target, ht, rfl⟩ := Option.map_eq_some_iff.mp h
    exact .registered env drawn c name rest target hc hd ho ht
  · rename_i entry rest outbox hd ho
    obtain ⟨target, ht, rfl⟩ := Option.map_eq_some_iff.mp h
    exact .took env drawn c entry rest target hc hd (by rw [ho]; rfl) ht
  · cases h

theorem write_cases {now : Time} (h : s.write now = some s') : StepCase crypto s (.write now) s' := by
  unfold write at h
  split at h
  · rename_i c message outbox' hc ht
    cases h
    obtain ⟨outbox, ho, ht⟩ := Option.bind_eq_some_iff.mp ht
    exact .wrote now c message outbox outbox' hc ho ht
  · cases h

theorem step_cases (h : s.step crypto action = some s') : StepCase crypto s action s' := by
  cases action with
  | dial c =>
      unfold step dial at h
      dsimp only at h
      split at h <;> cases h
      rename_i hc
      exact .dialed c hc.1 hc.2
  | read env drawn => exact read_cases h
  | command env drawn =>
      unfold step command at h
      dsimp only at h
      split at h
      · rename_i ho
        obtain ⟨target, ht, rfl⟩ := Option.map_eq_some_iff.mp h
        exact .commanded env drawn target ho ht
      · rename_i ho
        split at h <;> cases h
        rename_i hc
        exact .offline env drawn (by simpa using ho) hc
  | worker op =>
      unfold step worker at h
      dsimp only at h
      split at h
      · obtain ⟨target, ht, rfl⟩ := Option.map_eq_some_iff.mp h; exact .worked _ target (by simp) ht
      · obtain ⟨target, ht, rfl⟩ := Option.map_eq_some_iff.mp h; exact .worked _ target (by simp) ht
      · obtain ⟨target, ht, rfl⟩ := Option.map_eq_some_iff.mp h; exact .worked _ target (by simp) ht
      · cases h
  | write now => exact write_cases h
  | lose env =>
      unfold step lose at h
      dsimp only at h
      split at h
      · rename_i hc
        obtain ⟨target, ht, rfl⟩ := Option.map_eq_some_iff.mp h
        exact .lost env target hc ht
      · cases h
  | restart => cases h; exact .restarted
  | relayHello c =>
      obtain ⟨hello, hg, h⟩ := Option.bind_eq_some_iff.mp h
      obtain ⟨relay, hr, rfl⟩ := Option.map_eq_some_iff.mp h
      exact .greeted c hello relay hg hr
  | relayReceive c =>
      unfold step relayReceive at h
      dsimp only at h
      split at h
      · cases h
      · rename_i message rest hu
        obtain ⟨relay, hr, rfl⟩ := Option.map_eq_some_iff.mp h
        exact .received c message rest relay hu hr
  | relayReplied c =>
      obtain ⟨relay, hr, h⟩ := Option.bind_eq_some_iff.mp h
      obtain ⟨p, hp, rfl⟩ := Option.map_eq_some_iff.mp h
      exact .replied c p relay hr hp
  | relayWrite c =>
      obtain ⟨p, hp, h⟩ := Option.bind_eq_some_iff.mp h
      obtain ⟨entry, he, h⟩ := Option.bind_eq_some_iff.mp h
      obtain ⟨relay, hr, rfl⟩ := Option.map_eq_some_iff.mp h
      exact .sent c p entry relay hp he hr
  | relayOwn action =>
      have hown :
          ∀ {b : RelayAction}, b.client = none → (s.relay.step crypto b).map (fun relay => { s with relay := relay }) =
          some s' → StepCase crypto s (.relayOwn b) s' := by
        intro b hb h
        obtain ⟨relay, hr, rfl⟩ := Option.map_eq_some_iff.mp h
        exact .own b relay hb hr
      unfold step relayOwn at h
      cases action with
      | hello | receive | replied | write => cases h
      | refuse | transaction | acquire | admission | rejected | complete | fail | detach | orphan => exact hown rfl h
  | stranger action =>
      unfold step stranger at h
      dsimp only at h
      split at h
      · rename_i hf
        obtain ⟨relay, hr, rfl⟩ := Option.map_eq_some_iff.mp h
        exact .foreign action relay hf hr
      · cases h

/-- A foreign action is of a connection that no program has. -/
theorem Foreign.greeting {action : RelayAction} (h : s.Foreign crypto action) :
    ∃ c, action.client = some c ∧ s.greeting c = none := by
  unfold Foreign at h
  split at h
  · exact ⟨_, rfl, h.1.1⟩
  · exact ⟨_, rfl, h.1⟩
  · exact ⟨_, rfl, h⟩
  · exact ⟨_, rfl, h⟩
  · exact ⟨_, rfl, h⟩
  · exact h.elim

end Site

end RemoteInput
