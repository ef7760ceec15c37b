import RemoteInput.System.Lemmas.Sound
import RemoteInput.Target.Lemmas.Works

/-!
# Frames on their way from the relay to the engine

The engine gets the first of the frames that the relay took from a controller, whatever connections and rotations come in
between. Other clients are left out.
-/

namespace RemoteInput

/-- The entries on a link. -/
def entriesOf (packets : List Packet) : List Entry :=
  packets.filterMap fun
    | .message entry => some entry
    | _ => none

@[simp] theorem entriesOf_append (l l' : List Packet) : entriesOf (l ++ l') = entriesOf l ++ entriesOf l' :=
  List.filterMap_append

namespace Site

variable {crypto : Crypto} {s s' : Site} {action : SiteAction}

/-- The invariant. -/
structure Flows (s : Site) : Prop where
  forwards : s.relay.Forwards s.received
  link : ∀ t, s.targetConn = some t → s.taken t ++ entriesOf (s.down t) = s.relay.sentOf t
  taken : ∀ t, s.taken t <+: s.relay.sentOf t
  idle : ∀ t, s.greeting t = none → s.taken t = []
  mine : ∀ c, eventsOf (Relay.framesBy c s.target.passed) <+: s.received c
  caught : ∀ t c, s.targetConn = some t → s.target.rotating = false → owner (s.taken t) = some c →
    Relay.framesBy c s.target.passed = Relay.framesBy c (s.taken t)
  seen : ∀ c, Relay.framesBy c s.target.passed ≠ [] → ∃ t, ⟨.peerJoined, some c⟩ ∈ s.taken t
  authors : ∀ x ∈ s.target.passed, ∃ event c, x = ⟨.frame event, some c⟩

theorem Flows.start (owner password : String) : (start owner password).Flows where
  forwards := Relay.Forwards.start {}
  link := by simp [Site.start]
  taken := fun _ => List.nil_prefix
  idle := fun _ _ => rfl
  mine := fun _ => List.nil_prefix
  caught := by simp [Site.start]
  seen := fun _ h => absurd rfl h
  authors := fun _ h => (by cases h)

/-! ## Steps of the relay -/

theorem Flows.relayed (h : s.Flows) (hsound : s.Sound) {a : RelayAction} {relay : Relay}
    (hr : s.relay.step crypto a = some relay) (hw : ∀ c, a ≠ .write c) {received : Nat → List Event}
    (hreceived : ∀ c, received c = s.received c ++ Relay.framesIn c a) :
    Flows { s with relay := relay, received := received } := by
  have hsent : ∀ t, relay.sentOf t = s.relay.sentOf t := (Relay.step_cases hr).sends hsound.sessions hw
  have hforwards := h.forwards.step hsound.sessions hsound.addressed hsound.rotations hr
  rw [← funext hreceived] at hforwards
  refine ⟨hforwards, fun t ht => (h.link t ht).trans (hsent t).symm, fun t => ?_, h.idle, fun c => ?_, h.caught,
    h.seen, h.authors⟩
  · show s.taken t <+: relay.sentOf t
    rw [hsent]; exact h.taken t
  · show _ <+: received c
    rw [hreceived]; exact (h.mine c).trans (List.prefix_append _ _)

/-- An action of the relay that takes no frame. -/
theorem Flows.passive (h : s.Flows) (hsound : s.Sound) {a : RelayAction} {relay : Relay}
    (hr : s.relay.step crypto a = some relay) (hw : ∀ c, a ≠ .write c) (ha : ∀ c m, a ≠ .receive c m) :
    Flows { s with relay := relay } := by
  refine h.relayed hsound hr hw fun c => ?_
  unfold Relay.framesIn
  split
  · exact absurd rfl (ha _ _)
  · rw [List.append_nil]

/-- A packet without a message is sent. -/
theorem Flows.sendDown (h : s.Flows) (c : Nat) {packet : Packet} (hp : entriesOf [packet] = []) :
    (s.sendDown c packet).Flows := by
  refine ⟨h.forwards, fun t ht => ?_, h.taken, h.idle, h.mine, h.caught, h.seen, h.authors⟩
  show s.taken t ++ entriesOf (Function.update s.down c (s.down c ++ [packet]) t) = s.relay.sentOf t
  rw [← h.link t ht]
  by_cases htc : t = c
  · subst htc
    rw [Function.update_self, entriesOf_append, hp, List.append_nil]
  · rw [Function.update_of_ne htc]

theorem Flows.sent (h : s.Flows) (hsound : s.Sound) {c : Nat} {p : Peer} {entry : Entry} {relay : Relay}
    (hp : s.relay.peer c = some p) (he : p.out.head? = some entry) (hr : s.relay.step crypto (.write c) = some relay) :
    (({ s with relay := relay } : Site).sendDown c (.message entry)).Flows := by
  have hsent : ∀ t, relay.sentOf t = if t = c then s.relay.sentOf c ++ [entry] else s.relay.sentOf t :=
    Relay.write_sends hp he hr
  have hforwards := h.forwards.step hsound.sessions hsound.addressed hsound.rotations hr
  simp only [Relay.framesIn, List.append_nil] at hforwards
  refine ⟨hforwards, fun t ht => ?_, fun t => ?_, h.idle, h.mine, h.caught, h.seen, h.authors⟩
  · show s.taken t ++ entriesOf (Function.update s.down c (s.down c ++ [.message entry]) t) = relay.sentOf t
    rw [hsent]
    by_cases htc : t = c
    · subst htc
      rw [Function.update_self, entriesOf_append, if_pos rfl, ← h.link t ht, List.append_assoc]
      rfl
    · rw [Function.update_of_ne htc, if_neg htc]
      exact h.link t ht
  · show s.taken t <+: relay.sentOf t
    rw [hsent]
    split
    · rename_i htc
      subst htc
      exact (h.taken t).trans (List.prefix_append _ _)
    · exact h.taken t

/-! ## Steps of the target -/

/-- The target goes on without a new frame, on its connection or without one. -/
theorem Flows.works (h : s.Flows) {target : Target} (hw : Target.Works s.target target) {conn : Option Nat}
    (hconn : ∀ t, conn = some t → s.targetConn = some t)
    (hr : target.rotating = false → conn ≠ none → s.target.rotating = false) :
    Flows { s with target := target, targetConn := conn } := by
  refine ⟨h.forwards, fun t ht => h.link t (hconn t ht), h.taken, h.idle, ?_, ?_, ?_, ?_⟩
  all_goals dsimp only; rw [hw.passed]
  · exact h.mine
  · exact fun t c ht hrot ho => h.caught t c (hconn t ht) (hr hrot (by rw [ht]; simp)) ho
  · exact h.seen
  · exact h.authors

/-- What the target takes comes next on its queue at the relay. -/
theorem Flows.next (h : s.Flows) (hsound : s.Sound) {t : Nat} {entry : Entry} {rest : List Packet}
    (hc : s.targetConn = some t) (hd : s.down t = .message entry :: rest) (ho : s.target.outbox.isSome = true) :
    s.taken t ++ [entry] ++ entriesOf rest = s.relay.sentOf t ∧ s.taken t ++ [entry] <+: s.relay.logOf t ∧
      Orderly (s.relay.logOf t) ∧ Follows (s.taken t) entry := by
  have hlink : s.taken t ++ [entry] ++ entriesOf rest = s.relay.sentOf t := by
    rw [← h.link t hc, hd, List.append_assoc]
    rfl
  have hlog : s.taken t ++ [entry] <+: s.relay.logOf t :=
    (hlink ▸ List.prefix_append _ _).trans (s.relay.sentOf_begins t)
  obtain ⟨p, hp, hrole⟩ := hsound.served ho t hc
  have horderly : Orderly (s.relay.logOf t) := by
    rw [Relay.logOf_peer hp]
    exact hsound.sessions.orderly t p hp hrole
  obtain ⟨more, hmore⟩ := hlog
  exact ⟨hlink, ⟨more, hmore⟩, horderly, horderly _ entry more (by rw [← hmore]; simp)⟩

/-- Nothing of a controller that has just joined was passed or taken. -/
theorem Flows.newcomer (h : s.Flows) {t c : Nat} (hlog : s.taken t ++ [⟨.peerJoined, some c⟩] <+: s.relay.logOf t)
    (hfresh : ∀ x ∈ s.taken t, x.author ≠ some c) :
    Relay.framesBy c s.target.passed = [] ∧ Relay.framesBy c (s.taken t) = [] := by
  refine ⟨by_contra fun hne => ?_, Relay.framesBy_stranger hfresh⟩
  obtain ⟨t', ht'⟩ := h.seen c hne
  have hmem : ⟨.peerJoined, some c⟩ ∈ s.relay.logOf t' := ((h.taken t').trans (s.relay.sentOf_begins t')).subset ht'
  have htt := h.forwards.once c t t' (hlog.subset (by simp)) hmem
  exact hfresh _ (htt ▸ ht') rfl

theorem Flows.took (h : s.Flows) (hsound : s.Sound) {env : Env} {t : Nat} {entry : Entry} {rest : List Packet}
    {target : Target}
    (hc : s.targetConn = some t) (hd : s.down t = .message entry :: rest) (ho : s.target.outbox.isSome = true)
    (ht : s.target.read env entry = some target) :
    Flows { s with target := target, down := Function.update s.down t rest,
                   taken := Function.update s.taken t (s.taken t ++ [entry]) } := by
  obtain ⟨hlink, hlog, horderly, hfollows⟩ := h.next hsound hc hd ho
  have hgrows : ∀ d, s.taken d <+: Function.update s.taken t (s.taken t ++ [entry]) d := by
    intro d
    by_cases hdt : d = t
    · subst hdt; rw [Function.update_self]; exact List.prefix_append _ _
    · rw [Function.update_of_ne hdt]
  have hlink' : ∀ d, s.targetConn = some d → Function.update s.taken t (s.taken t ++ [entry]) d ++
      entriesOf (Function.update s.down t rest d) = s.relay.sentOf d := by
    intro d hd
    cases hc.symm.trans hd
    rw [Function.update_self, Function.update_self]
    exact hlink
  have htaken : ∀ d, Function.update s.taken t (s.taken t ++ [entry]) d <+: s.relay.sentOf d := by
    intro d
    by_cases hdt : d = t
    · subst hdt; rw [Function.update_self, ← hlink]; exact List.prefix_append _ _
    · rw [Function.update_of_ne hdt]; exact h.taken d
  have hidle : ∀ d, s.greeting d = none → Function.update s.taken t (s.taken t ++ [entry]) d = [] := by
    intro d hg
    have hdt : d ≠ t := by
      rintro rfl
      have hsome := hsound.greeting d hc
      rw [hg] at hsome
      cases hsome
    rw [Function.update_of_ne hdt]
    exact h.idle d hg
  rcases Target.read_works ht with ⟨event, hm, hrot, hs⟩ | ⟨hframe, hw⟩
  · -- a frame of the owner
    obtain ⟨c, hauthor, howner⟩ : ∃ c, entry.author = some c ∧ owner (s.taken t) = some c := by
      unfold Follows at hfollows
      rw [hm] at hfollows
      exact hfollows
    obtain ⟨message, author⟩ := entry
    dsimp only at hm hauthor
    subst hm hauthor
    have hcaught := h.caught t c hc hrot howner
    have hsame :
        Relay.framesBy c (s.target.passed ++ [⟨.frame event, some c⟩]) =
          Relay.framesBy c (s.taken t ++ [⟨.frame event, some c⟩]) := by
      rw [Relay.framesBy_append, Relay.framesBy_append, hcaught]
    have hother : ∀ d, d ≠ c →
        Relay.framesBy d (s.target.passed ++ [⟨.frame event, some c⟩]) = Relay.framesBy d s.target.passed := by
      intro d hdc
      rw [Relay.framesBy_append, Relay.framesBy_other (.inr (by simpa using hdc.symm)), List.append_nil]
    refine ⟨h.forwards, hlink', htaken, hidle, fun d => ?_, fun d c' hd _ hown => ?_, fun d hne => ?_, fun x hx => ?_⟩
    · dsimp only
      rw [hs.passed]
      by_cases hdc : d = c
      · subst hdc
        rw [hsame]
        exact (eventsOf_mono (Relay.framesBy_mono hlog)).trans (h.forwards.partly d t)
      · rw [hother d hdc]
        exact h.mine d
    · cases hc.symm.trans hd
      dsimp only at hown ⊢
      rw [Function.update_self, owner_concat] at hown
      have hcc : c' = c := Option.some.inj (hown.symm.trans howner)
      rw [hs.passed, Function.update_self, hcc]
      exact hsame
    · dsimp only at hne ⊢
      rw [hs.passed] at hne
      by_cases hdc : d = c
      · subst hdc
        obtain ⟨more, hmore⟩ := hlog
        have hjoined := horderly.separated.joined (s.taken t) event d more (by rw [← hmore]; simp)
        exact ⟨t, (hgrows t).subset hjoined⟩
      · rw [hother d hdc] at hne
        obtain ⟨t', ht'⟩ := h.seen d hne
        exact ⟨t', (hgrows t').subset ht'⟩
    · dsimp only at hx
      rw [hs.passed, List.mem_append, List.mem_singleton] at hx
      rcases hx with hx | rfl
      · exact h.authors x hx
      · exact ⟨event, c, rfl⟩
  · refine ⟨h.forwards, hlink', htaken, hidle, ?_, fun d c hd hrot hown => ?_, fun d hne => ?_, ?_⟩
    · dsimp only; rw [hw.passed]; exact h.mine
    · cases hc.symm.trans hd
      dsimp only at hrot hown ⊢
      rw [Function.update_self, owner_concat] at hown
      rw [hw.passed, Function.update_self]
      have hkept : entry.message.isFrame = false → s.target.rotating = false → owner (s.taken t) = some c →
          Relay.framesBy c s.target.passed = Relay.framesBy c (s.taken t ++ [entry]) := by
        intro hf hr ho
        rw [Relay.framesBy_append, Relay.framesBy_other (.inl hf), List.append_nil]
        exact h.caught t c hc hr ho
      rcases Target.read_cases ht with ⟨hrotated, hq⟩ | ⟨hrotated, -⟩
      · rw [hq.rotating] at hrot
        obtain ⟨message, author⟩ := entry
        unfold nextOwner at hown
        cases message with
        | frame event => rw [hframe rfl] at hrot; cases hrot
        | peerJoined =>
            dsimp only at hown
            subst hown
            obtain ⟨c', hc', hfresh⟩ := hfollows
            cases hc'
            obtain ⟨h1, h2⟩ := h.newcomer hlog hfresh
            rw [h1, Relay.framesBy_append, h2]
            rfl
        | peerGone => cases hown
        | rotated g => cases hown
        | _ => exact hkept rfl hrot hown
      · obtain ⟨message, author⟩ := entry
        cases message <;> cases hrotated
        cases hown
    · dsimp only at hne ⊢
      rw [hw.passed] at hne
      obtain ⟨t', ht'⟩ := h.seen d hne
      exact ⟨t', (hgrows t').subset ht'⟩
    · dsimp only; rw [hw.passed]; exact h.authors

/-! ## Every step -/

theorem Flows.step (h : s.Flows) (hsound : s.Sound) (ha : ∀ a, action ≠ .stranger a) (hs : s.step crypto action = some s') :
    s'.Flows := by
  cases step_cases hs with
  | dialed c hc hu =>
      obtain ⟨hgreeting, hfresh, -, hdown⟩ := hu
      have htaken := h.idle c hgreeting
      have hpeer : s.relay.peer c = none := hsound.sessions.early c (by rw [hfresh]; rfl)
      refine ⟨h.forwards, fun t ht => ?_, h.taken, fun t ht => ?_, h.mine, fun t d ht _ ho => ?_, h.seen, h.authors⟩
      · cases ht
        show s.taken c ++ entriesOf (s.down c) = s.relay.sentOf c
        rw [htaken, hdown, Relay.sentOf, hpeer]
        rfl
      · refine h.idle t ?_
        by_cases htc : t = c
        · rw [htc]; exact hgreeting
        · simpa [htc] using ht
      · cases ht
        dsimp only at ho
        rw [htaken] at ho
        cases ho
  | registered env drawn c name rest target hc hd ho ht =>
      have hw := Target.registered_works ht
      have hrot : target.rotating = false → s.target.rotating = false := by
        intro hr
        rcases (Target.registered_cases ht).2 with ⟨hr0, -⟩ | ⟨-, hr', -⟩
        · exact hr0
        · rw [hr] at hr'; cases hr'
      obtain ⟨h1, h2, h3, h4, h5, h6, h7, h8⟩ := h.works hw (fun _ h => h) fun hr _ => hrot hr
      refine ⟨h1, fun t ht => ?_, h3, h4, h5, h6, h7, h8⟩
      cases hc.symm.trans ht
      have hlink := h.link c hc
      rw [hd] at hlink
      dsimp only
      rw [Function.update_self]
      exact hlink
  | took env drawn c entry rest target hc hd ho ht => exact h.took hsound hc hd ho ht
  | commanded env drawn target ho ht =>
      refine h.works (Target.rotate_works ht) (fun _ h => h) fun hr _ => ?_
      rw [(Target.rotate_requests ht).rotating] at hr
      cases hr
  | offline env drawn ho hc =>
      exact h.works (Target.rotateOffline_works drawn s.target) (fun _ h => h) fun _ hn => absurd hc hn
  | worked op target hop ht =>
      refine h.works (Target.thread_works hop ht) (fun _ h => h) fun hr _ => ?_
      rw [← hr, (Target.thread_quiet ht).rotating]
  | wrote now c message outbox outbox' hc ho ht =>
      exact ⟨h.forwards, h.link, h.taken, h.idle, h.mine, h.caught, h.seen, h.authors⟩
  | lost env target hc ht => exact h.works (Target.disconnect_works ht) (by simp) fun _ hn => absurd rfl hn
  | restarted => exact ⟨h.forwards, by simp, h.taken, h.idle, h.mine, by simp, h.seen, h.authors⟩
  | greeted c hello relay hg hr => exact h.passive hsound hr (by simp) (by simp)
  | received c message rest relay hu hr =>
      have hreceived : ∀ d, Function.update s.received c (s.received c ++ framesOf [message]) d =
          s.received d ++ Relay.framesIn d (.receive c (some message)) := by
        intro d
        by_cases hdc : d = c
        · subst hdc; rw [Function.update_self, Relay.framesIn, if_pos rfl]
        · rw [Function.update_of_ne hdc, Relay.framesIn, if_neg (Ne.symm hdc), List.append_nil]
      obtain ⟨h1, h2, h3, h4, h5, h6, h7, h8⟩ := h.relayed hsound hr (by simp) hreceived
      exact ⟨h1, h2, h3, h4, h5, h6, h7, h8⟩
  | replied c p relay hr hp =>
      refine (h.passive hsound hr (by simp) (by simp)).sendDown c ?_
      split <;> rfl
  | sent c p entry relay hp he hr => exact h.sent hsound hp he hr
  | own a relay hclient hr =>
      refine h.passive hsound hr ?_ ?_
      · rintro c rfl; cases hclient
      · rintro c m rfl; cases hclient
  | foreign a relay hf hr => exact absurd rfl (ha a)

end Site

end RemoteInput
