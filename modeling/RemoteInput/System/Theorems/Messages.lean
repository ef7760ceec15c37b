import RemoteInput.Controller.Semantics
import RemoteInput.Relay.Theorems.Sessions
import RemoteInput.System.Lemmas.Sound

/-!
# The readers handle what the relay sends
-/

namespace RemoteInput

/-- What is sent to a controller its reader handles. -/
theorem Controller.read_suits {message : Message} (h : message.suits .controller = true) (env : ControllerEnv)
    (c : Controller) :
    (c.read env message).isSome = true := by
  cases message with
  | ack | challenge | activated | paused => rfl
  | frame | rotate | rotated | peerJoined | peerGone => cases h

theorem Relay.Reachable.addressed {crypto : Crypto} {registry : Registry} {r : Relay}
    (h : Relay.Reachable crypto registry r) :
    r.Addressed := by
  induction h with
  | start => exact Relay.addressed_start registry
  | step action h hs ih =>
      obtain ⟨hses, _, hrot⟩ := h.invariants
      exact ih.step hses hrot (Relay.step_cases hs)

namespace Site

variable {crypto : Crypto} {s s' : Site} {action : SiteAction} {owner password : String} {actions : List SiteAction}

/-- The rotations and replies that the connection `c` of the target still has before it. -/
def flight (s : Site) (c : Nat) : Nat :=
  s.target.requests.length + (s.up c).countP Message.isRotate + s.relay.outstanding c + (s.down c).countP Packet.isReply

/-- On the connection of the target at most one rotation is under way, and only while the target waits for it. -/
def Single (s : Site) : Prop :=
  ∀ c, s.targetConn = some c → s.flight c ≤ if s.target.rotating = true ∧ s.target.outbox.isSome = true then 1 else 0

/-- `P` is not pressed online while a rotation is under way. -/
def Unhurried (s : Site) : SiteAction → Prop
  | .command _ _ => s.target.outbox.isSome = true → s.target.rotating = false
  | _ => True

instance (s : Site) (action : SiteAction) : Decidable (s.Unhurried action) := by
  cases action <;> simp only [Unhurried] <;> infer_instance

theorem request_length (i : Identity) : (Identity.request i).length ≤ 1 := by
  unfold Identity.request
  cases i.pending <;> simp

/-- The target goes on without a new request. -/
theorem Single.quiet (h : s.Single) {target : Target} (hq : Target.Quiet s.target target) :
    Single { s with target := target } := by
  intro c hc
  have hle := h c hc
  have hreq := hq.requests.length_le
  unfold flight at hle ⊢
  dsimp only
  rw [hq.rotating, hq.online]
  omega

/-- An action of the relay that takes nothing from the connection of the target. -/
theorem Single.relayed (h : s.Single) {a : RelayAction} {relay : Relay} (hr : s.relay.step crypto a = some relay)
    (ha : ∀ c, s.targetConn = some c → Relay.asks a c = 0) : Single { s with relay := relay } := by
  intro c hc
  have hle := h c hc
  have hout := (Relay.step_cases hr).outstanding c
  rw [ha c hc] at hout
  unfold flight at hle ⊢
  dsimp only
  omega

theorem asks_client {a : RelayAction} {c : Nat} (h : a.client ≠ some c) : Relay.asks a c = 0 := by
  cases a with
  | receive d message =>
      have hd : d ≠ c := fun he => h (congrArg some he)
      cases message with
      | none => rfl
      | some m => cases m <;> simp [Relay.asks, hd]
  | _ => rfl

theorem Single.step (h : s.Single) (hsound : s.Sound) (hu : s.Unhurried action) (hs : s.step crypto action = some s') :
    s'.Single := by
  cases step_cases hs with
  | dialed c hc hunused =>
      intro d hd
      cases hd
      obtain ⟨_, hstage, hup, hdown⟩ := hunused
      have hpeer : s.relay.peer c = none := hsound.sessions.early c (by rw [hstage]; rfl)
      have hreq : s.target.requests = [] := by simp [Target.requests, Target.waiting, hsound.offline hc]
      have hzero : s.flight c = 0 := by
        simp [flight, hreq, hup, hdown, Relay.outstanding, hstage, Stage.rotations, Stage.rotating, Relay.replies, hpeer]
      exact hzero.trans_le (Nat.zero_le _)
  | registered env drawn c name rest target hc hd ho ht =>
      obtain ⟨hon, hcase⟩ := Target.registered_cases ht
      intro d hd'
      cases hc.symm.trans hd'
      have hle := h c hc
      rw [ho, if_neg (by simp)] at hle
      unfold flight at hle ⊢
      rw [hd, List.countP_cons] at hle
      dsimp only
      rw [Function.update_self, hon]
      rcases hcase with ⟨_, _, _, hreq, _⟩ | ⟨_, hr, _, _, hreq⟩
      · rw [hreq, List.length_nil]
        omega
      · have := hreq.length_le
        have := request_length target.identity
        rw [hr, if_pos ⟨rfl, rfl⟩]
        omega
  | took env drawn c entry rest target hc hd ho ht =>
      intro d hd'
      cases hc.symm.trans hd'
      have hle := h c hc
      unfold flight at hle ⊢
      rw [hd, List.countP_cons] at hle
      dsimp only
      rw [Function.update_self]
      rcases Target.read_cases ht with ⟨hm, hq⟩ | ⟨hm, hr, hr', _, hout, _⟩
      · have := hq.requests.length_le
        rw [hq.rotating, hq.online]
        omega
      · -- the reply was the only rotation under way
        have hreq : target.requests = s.target.requests := by simp [Target.requests, Target.waiting, hout]
        rw [show Packet.isReply (.message entry) = true from hm, if_pos rfl, if_pos ⟨hr, ho⟩] at hle
        rw [hr', hreq, if_neg (by simp)]
        omega
  | commanded env drawn target ho ht =>
      obtain ⟨_, _, hr, hon, hreq⟩ := Target.rotate_requests ht
      intro c hc
      have hle := h c hc
      have hcalm : s.target.rotating = false := hu ho
      have hlen := hreq.length_le
      have hone := request_length target.identity
      rw [hcalm, if_neg (by simp)] at hle
      unfold flight at hle ⊢
      dsimp only
      rw [List.length_append] at hlen
      rw [hr, hon, ho, if_pos ⟨rfl, rfl⟩]
      omega
  | offline env drawn ho hc =>
      intro c hc'
      cases hc.symm.trans hc'
  | worked op target _ ht => exact h.quiet (Target.thread_quiet ht)
  | wrote now c message outbox outbox' hc ho ht =>
      intro d hd
      cases hc.symm.trans hd
      have hle := h c hc
      obtain ⟨_, _, hw⟩ := Outbox.take_eq ht
      have hold : s.target.requests = (message :: outbox'.waiting).filter Message.isRotate := by
        simp [Target.requests, Target.waiting, ho, hw]
      have hnew :
          ({ s.target with outbox := some outbox' } : Target).requests = outbox'.waiting.filter Message.isRotate := rfl
      rw [ho] at hle
      unfold flight at hle ⊢
      rw [hold, ← List.countP_eq_length_filter, List.countP_cons] at hle
      unfold sendUp
      dsimp only
      rw [Function.update_self, hnew, ← List.countP_eq_length_filter, List.countP_append, List.countP_singleton]
      rw [Option.isSome_some] at hle ⊢
      omega
  | lost | restarted =>
      intro c hc
      cases hc
  | greeted c hello relay _ hr => exact h.relayed hr fun _ _ => rfl
  | received c message rest relay hup hr =>
      intro d hd
      have hle := h d hd
      have hout := (Relay.step_cases hr).outstanding d
      unfold flight at hle ⊢
      dsimp only
      by_cases hdc : d = c
      · subst hdc
        rw [hup, List.countP_cons] at hle
        rw [Function.update_self]
        have hasks : Relay.asks (.receive d (some message)) d = if message.isRotate = true then 1 else 0 := by
          cases message <;> simp [Relay.asks, Message.isRotate]
        rw [hasks] at hout
        omega
      · rw [Function.update_of_ne hdc]
        rw [asks_client (by simpa [RelayAction.client] using Ne.symm hdc)] at hout
        omega
  | replied c p relay hr hp =>
      have hrelay := h.relayed hr fun _ _ => rfl
      intro d hd
      have hle := hrelay d hd
      unfold flight at hle ⊢
      unfold sendDown
      dsimp only at hle ⊢
      by_cases hdc : d = c
      · subst hdc
        have hreply : Packet.isReply (if p.role = Role.target then .registered p.name else .connected) = false := by
          split <;> rfl
        rw [Function.update_self, List.countP_append, List.countP_singleton, hreply]
        simpa using hle
      · rw [Function.update_of_ne hdc]; exact hle
  | sent c p entry relay hp he hr =>
      obtain ⟨hself, hother⟩ := Relay.write_outstanding hp he hr
      intro d hd
      have hle := h d hd
      unfold flight at hle ⊢
      unfold sendDown
      dsimp only
      by_cases hdc : d = c
      · subst hdc
        rw [Function.update_self, List.countP_append, List.countP_singleton,
          show Packet.isReply (.message entry) = entry.message.isRotated from rfl]
        omega
      · rw [Function.update_of_ne hdc, hother d hdc]; exact hle
  | own a relay ha hr =>
      refine h.relayed hr fun c _ => asks_client ?_
      rw [ha]; simp
  | foreign a relay hf hr =>
      obtain ⟨d, hd, hg⟩ := hf.greeting
      refine h.relayed hr fun c hc => asks_client ?_
      rw [hd]
      intro hdc
      have hne := hsound.greeting c hc
      rw [← Option.some.inj hdc, hg] at hne
      cases hne

/-- What is sent to the target its reader handles. -/
theorem Sound.reads (h : s.Sound) (hsingle : s.Single) {c : Nat} {entry : Entry} {rest : List Packet}
    (hc : s.targetConn = some c) (hd : s.down c = .message entry :: rest) (ho : s.target.outbox.isSome = true) (env : Env) :
    (s.target.read env entry).isSome = true := by
  obtain ⟨p, hp, hsuits⟩ := h.packets c (.message entry) (by rw [hd]; simp)
  obtain ⟨q, hq, hrole⟩ := h.served ho c hc
  cases hp.symm.trans hq
  rw [hrole] at hsuits
  have hle := hsingle c hc
  unfold Target.read
  cases hm : entry.message with
  | frame event =>
      dsimp only
      split
      · rfl
      · rfl
  | peerJoined | peerGone => rfl
  | rotated g =>
      have hone : 1 ≤ s.flight c := by
        have : Packet.isReply (.message entry) = true := by simp [Packet.isReply, hm, Message.isRotated]
        unfold flight
        rw [hd, List.countP_cons, if_pos this]
        omega
      have hr : s.target.rotating = true := by
        by_contra hn
        rw [if_neg (fun h => hn h.1)] at hle
        omega
      have hpending : s.target.identity.pending.isSome = true := by rw [← h.pending]; exact hr
      obtain ⟨pending, hp⟩ := Option.isSome_iff_exists.mp hpending
      simp [hr, Identity.finishRotation, hp]
  | ack | challenge | activated | paused | rotate => rw [hm] at hsuits; cases hsuits

/-- Unless `P` is pressed online while a rotation is under way, the target's reader handles every message that comes; and
whatever the clients do, a controller's reader handles every message on its queue. -/
theorem messages_handled (hu : Runs.Before (Site.step crypto) (start owner password) Unhurried actions)
    (hs : run crypto (start owner password) actions = some s) :
    (∀ c entry rest env, s.targetConn = some c → s.down c = .message entry :: rest → s.target.outbox.isSome = true →
      (s.target.read env entry).isSome = true) ∧
    ∀ registry r, Relay.Reachable crypto registry r → ∀ c p, r.peer c = some p → p.role = .controller →
      ∀ entry ∈ p.log, ∀ env (ctl : Controller), (ctl.read env entry.message).isSome = true := by
  have hinv : s.Sound ∧ s.Single := by
    refine hu.invariant (I := fun s => s.Sound ∧ s.Single) ⟨.start owner password, by simp [Single, start]⟩
      (fun t a t' h ha ht => ⟨h.1.step ht, h.2.step h.1 ha ht⟩) hs
  refine ⟨fun c entry rest env hc hd ho => hinv.1.reads hinv.2 hc hd ho env, ?_⟩
  intro registry r hr c p hp hrole entry he env ctl
  have hsuits := hr.addressed c p hp entry he
  rw [hrole] at hsuits
  exact Controller.read_suits hsuits env ctl

/-! ## One rotation, and two -/

/-- What the clocks and the operating system answer at the start. -/
def calm : Env := { now := 0 }

/-- The target dials `c`, registers and hears so. -/
def joins (c : Nat) : List SiteAction :=
  [.dial c, .relayHello c, .relayOwn (.transaction c ""), .relayOwn (.transaction c "salt"), .relayOwn (.acquire c),
    .relayReplied c, .read calm ("", "")]

/-- The relay takes a request for a rotation from `c`, and replies. -/
def rotates (c : Nat) : List SiteAction :=
  [.relayReceive c, .relayOwn (.acquire c), .relayOwn (.transaction c "pepper"), .relayOwn (.complete c), .relayWrite c]

/-- `P` is pressed. -/
def press : SiteAction := .command calm (Relay.samplePassword', Relay.samplePassword')

def sample : Site := start Relay.sampleOwner Relay.samplePassword

/-- The target changes its password once. -/
def unhurried : List SiteAction := joins 0 ++ [press, .write 0] ++ rotates 0

/-- `P` is pressed again before the reply. -/
def hurried : List SiteAction :=
  joins 0 ++ [press, press, .write 0, .write 0] ++ rotates 0 ++ rotates 0 ++ [.read calm ("", "")]

/-- The reply to a rotation in generation 2. -/
def reply : Entry := ⟨.rotated 2, none⟩

theorem messages_handled_unhurried : ∃ s, run Relay.plain sample unhurried = some s ∧ s.down 0 = [.message reply] ∧
    (s.target.read calm reply).isSome = true := by
  obtain ⟨s, hs⟩ := Option.isSome_iff_exists.mp (show (run Relay.plain sample unhurried).isSome = true by decide +kernel)
  have hstate : ((run Relay.plain sample unhurried).map fun s => (s.targetConn, s.down 0, s.target.outbox.isSome)) =
      some (some 0, [.message reply], true) := by decide +kernel
  rw [hs, Option.map_some, Option.some.injEq, Prod.mk.injEq, Prod.mk.injEq] at hstate
  obtain ⟨hc, hd, ho⟩ := hstate
  have hu : Runs.Before (Site.step Relay.plain) sample Unhurried unhurried := by decide +kernel
  exact ⟨s, hs, hd, (messages_handled hu hs).1 0 reply [] calm hc hd ho⟩

/-- The second reply comes when the rotation has ended. -/
theorem second_reply_unhandled : ∃ s, run Relay.plain sample hurried = some s ∧ s.targetConn = some 0 ∧
    s.down 0 = [.message reply] ∧ s.target.outbox.isSome = true ∧ s.target.read calm reply = none := by
  obtain ⟨s, hs⟩ := Option.isSome_iff_exists.mp (show (run Relay.plain sample hurried).isSome = true by decide +kernel)
  have hstate : ((run Relay.plain sample hurried).map fun s =>
      (s.targetConn, s.down 0, s.target.outbox.isSome, s.target.rotating)) =
        some (some 0, [.message reply], true, false) := by
    decide +kernel
  rw [hs, Option.map_some, Option.some.injEq, Prod.mk.injEq, Prod.mk.injEq, Prod.mk.injEq] at hstate
  obtain ⟨hc, hd, ho, hr⟩ := hstate
  exact ⟨s, hs, hc, hd, ho, by simp [Target.read, reply, hr]⟩

end Site

end RemoteInput
