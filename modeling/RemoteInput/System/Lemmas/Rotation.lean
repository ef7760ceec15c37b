import RemoteInput.Lib.Journal
import RemoteInput.System.Lemmas.Secret

/-!
# The target and the relay as writer and server of the password
-/

namespace RemoteInput

namespace Site

variable {crypto : Crypto} {s s' : Site} {action : SiteAction} {owner password : String} {drawn : String × String}

/-- The row of the target. -/
def row (crypto : Crypto) (s : Site) : Option Row :=
  s.relay.registry.byOwner (crypto.digest s.target.identity.ownerSecret)

/-- The row accepts a password; before there is one, registration will make it accept the first. -/
def Accepts (crypto : Crypto) (password : String) (row : Option Row) (v : String) : Prop :=
  match row with
  | some row => row.passwordHash = crypto.passwordHash v row.salt
  | none => v = password

/-- The relay may still get to a request with this password and this id: it is in the target's outbox, on a connection that
the relay still reads, with a reader, or with the thread of a cancelled one. -/
inductive Asks (crypto : Crypto) (s : Site) (x : String × String) : Prop where
  | outbox (h : .rotate x.1 x.2 ∈ s.target.waiting)
  | link (c : Nat) (h : .rotate x.1 x.2 ∈ s.up c) (hl : (s.relay.stage c).leaving = false)
  | reader (c : Nat) (h : (s.relay.stage c).rotation = some x) (hg : (s.greeting c).isSome = true)
  | thread (o : Orphan) (ho : o ∈ s.relay.orphans)
      (howner : crypto.digest o.owner = crypto.digest s.target.identity.ownerSecret) (hx : (o.password, o.rotationId) = x)

/-- A reply is on its way to the target, or the relay is about to send it. -/
def Replied (s : Site) : Prop :=
  ∃ c, s.targetConn = some c ∧ (s.relay.answered c ∨ ∃ packet ∈ s.down c, packet.isReply = true)

def journal (crypto : Crypto) (password : String) (s : Site) : Journal String String where
  value := s.target.identity.password
  pending := s.target.identity.pending
  accepts := Accepts crypto password (s.row crypto)
  last := (s.row crypto).bind Row.rotationId
  asks := s.Asks crypto
  replied := s.Replied

/-- `P` begins a change with a new id, and only when nothing is left of the changes before it. -/
def Settled (crypto : Crypto) (s : Site) : SiteAction → Prop
  | .command _ drawn => s.target.identity.pending = none →
      (∀ x, ¬ s.Asks crypto x) ∧ ¬ s.Replied ∧ (s.row crypto).bind Row.rotationId ≠ some drawn.2
  | _ => True

/-! ## Steps of the relay -/

/-- A rotation that the relay commits with the owner secret of the target is of the target's program. -/
theorem Secret.rotates (h : s.Secret crypto owner password) (hsound : s.Sound) {c : Nat} {o pw id : String}
    (hs : s.relay.stage c = .serving o (.hashing pw id) ∨ s.relay.stage c = .serving o (.waiting pw id)) :
    Knows crypto owner (s.greeting c) o := by
  have hrot : (s.relay.stage c).rotating = true ∧ (s.relay.stage c).owner = some o := by
    rcases hs with hs | hs <;> rw [hs] <;> exact ⟨rfl, rfl⟩
  obtain ⟨p, hp, hrole⟩ := hsound.rotations c hrot.1
  refine (h.told c o hrot.2).resolve_left ?_
  rintro ⟨q, hq, hrole'⟩
  cases hp.symm.trans hq
  rw [hrole] at hrole'; cases hrole'

theorem Knows.greeted {greeting : Option Hello} {o : String} (h : Knows crypto owner greeting o)
    (ho : crypto.digest o = crypto.digest owner) : greeting.isSome = true := by
  cases hg : greeting with
  | some _ => rfl
  | none =>
      rw [hg] at h
      exact absurd ho h

/-- What the relay does leaves no more requests than there were. -/
theorem asks_relayed (h : s.Secret crypto owner password) (hsound : s.Sound) {a : RelayAction}
    (hr : s.relay.step crypto a = some s'.relay) (hg : s'.greeting = s.greeting) (ht : s'.target = s.target)
    (hup : ∀ c, ∀ m ∈ s'.up c, m ∈ s.up c)
    (hask : ∀ c, ∀ x : String × String, a = .receive c (some (.rotate x.1 x.2)) → (s.greeting c).isSome = true →
      (s.relay.stage c).leaving = false → s.Asks crypto x)
    {x : String × String} (hx : s'.Asks crypto x) : s.Asks crypto x := by
  have hc := Relay.step_cases hr
  cases hx with
  | outbox hx => exact .outbox (ht ▸ hx)
  | link c hx hl =>
      refine .link c (hup c _ hx) ?_
      cases hc.staged c with
      | same he => rw [← he]; exact hl
      | joined _ _ _ _ hl' => exact hl'
      | told _ hl' =>
          cases hold : (s.relay.stage c).leaving with
          | false => rfl
          | true => rw [hl' hold] at hl; cases hl
  | reader c hx hgreet =>
      rw [hg] at hgreet
      cases hc.staged c with
      | same he => exact .reader c (he ▸ hx) hgreet
      | joined _ _ _ he => rw [he] at hx; cases hx
      | told hold =>
          cases hold with
          | before hk => exact .reader c (hk.rotation x hx) hgreet
          | hello message _ he => rw [he, firstStage_rotation] at hx; cases hx
          | rotate o pw id ha hst he =>
              rw [he] at hx
              cases hx
              exact hask c (pw, id) ha hgreet (by rw [hst]; rfl)
  | thread o ho howner hx =>
      rw [ht] at howner
      rcases hc.orphan ho with hold | ⟨c, hst⟩
      · exact .thread o hold howner hx
      · have hknows := (h.rotates hsound (.inl hst)).greeted (by rw [howner, h.secret])
        exact .reader c (by rw [hst, ← hx]; rfl) hknows

theorem replied_relayed (hconn : s'.targetConn = s.targetConn)
    (hdown : ∀ c, ∀ packet ∈ s'.down c, packet.isReply = true → packet ∈ s.down c ∨ s.relay.answered c)
    (ha : ∀ c, s.targetConn = some c → s'.relay.answered c → s.relay.answered c) (h : s'.Replied) : s.Replied := by
  obtain ⟨c, hc, h⟩ := h
  rw [hconn] at hc
  refine ⟨c, hc, ?_⟩
  rcases h with h | ⟨packet, hp, hreply⟩
  · exact .inl (ha c hc h)
  · exact (hdown c packet hp hreply).elim (fun hp => .inr ⟨packet, hp, hreply⟩) .inl

theorem journal_relayed (h : s.Secret crypto owner password) (hsound : s.Sound) {a : RelayAction}
    (hr : s.relay.step crypto a = some s'.relay) (hg : s'.greeting = s.greeting) (ht : s'.target = s.target)
    (hconn : s'.targetConn = s.targetConn) (hup : ∀ c, ∀ m ∈ s'.up c, m ∈ s.up c)
    (hdown : ∀ c, ∀ packet ∈ s'.down c, packet.isReply = true → packet ∈ s.down c ∨ s.relay.answered c)
    (hask : ∀ c, ∀ x : String × String, a = .receive c (some (.rotate x.1 x.2)) → (s.greeting c).isSome = true →
      (s.relay.stage c).leaving = false → s.Asks crypto x) :
    Journal.Step (s.journal crypto password) (s'.journal crypto password) := by
  have hasks : ∀ x, s'.Asks crypto x → s.Asks crypto x := fun x => asks_relayed h hsound hr hg ht hup hask
  have hvalue : s'.target.identity.password = s.target.identity.password := by rw [ht]
  have hpending : s'.target.identity.pending = s.target.identity.pending := by rw [ht]
  have hreplied := replied_relayed hconn hdown
  -- the row stays, and so do the replies on the connection of the target
  have hquiet : s'.row crypto = s.row crypto → (∀ c, s.targetConn = some c → s'.relay.answered c → s.relay.answered c) →
      Journal.Step (s.journal crypto password) (s'.journal crypto password) := by
    intro hrow ha
    refine .quiet hvalue hpending (fun v hv => ?_) (congrArg (·.bind Row.rotationId) hrow) (fun x hx => .inl (hasks x hx))
      (hreplied ha)
    show Accepts crypto password (s'.row crypto) v
    rw [hrow]; exact hv
  have hrowOf : s'.row crypto = s'.relay.registry.byOwner (crypto.digest owner) := by unfold row; rw [ht, h.secret]
  have hrowOf' : s.row crypto = s.relay.registry.byOwner (crypto.digest owner) := by unfold row; rw [h.secret]
  have hrotates : ∀ {name o pw id salt : String} {g : Nat},
      s.relay.registry.rotate crypto name o pw id salt = some (s'.relay.registry, g) →
      crypto.digest owner = crypto.digest o →
      s.Asks crypto (pw, id) → Journal.Step (s.journal crypto password) (s'.journal crypto password) := by
    intro name o pw id salt g hrot ho hasked
    rcases h.keyed.rotate_byOwner hrot (crypto.digest owner) with ⟨_, hne⟩ | ⟨_, row, hrow, hcase⟩
    · exact absurd ho hne
    rw [← hrowOf'] at hrow
    rw [← hrowOf] at hcase
    rcases hcase with ⟨hid, hrow'⟩ | ⟨hid, hrow'⟩
    · refine .repeated (pw, id) hasked ?_ hvalue hpending (fun v hv => ?_) ?_ hasks
      · show (s.row crypto).bind _ = _
        rw [hrow]; exact hid
      · show Accepts crypto password (s'.row crypto) v
        rw [hrow', ← hrow]; exact hv
      · show (s'.row crypto).bind _ = (s.row crypto).bind _
        rw [hrow, hrow']
    · refine .committed (pw, id) hasked ?_ hvalue hpending ?_ ?_ hasks
      · show (s.row crypto).bind _ ≠ _
        rw [hrow]; exact hid
      · show Accepts crypto password (s'.row crypto) pw
        rw [hrow']; rfl
      · show (s'.row crypto).bind _ = _
        rw [hrow']; rfl
  cases (Relay.step_cases hr).effect with
  | quiet he ha => exact hquiet (by rw [hrowOf, hrowOf', he]) fun c _ => ha c
  | inserted c o pw salt hst he ha =>
      rcases Registry.insert_byOwner crypto s.relay.registry o pw salt (crypto.digest owner) with hsame |
        ⟨hnone, ho, row, hrow, hhash, hid⟩
      · exact hquiet (by rw [hrowOf, hrowOf', he, hsame]) fun c _ => ha c
      · rw [← he, ← hrowOf] at hrow
        rw [← hrowOf'] at hnone
        have hgreet : (s.greeting c).isSome = true := by
          rcases h.told c o (by rw [hst]; rfl) with ⟨p, hp, _⟩ | hknows
          · rw [hsound.sessions.early c (by rw [hst]; rfl)] at hp; cases hp
          · exact hknows.greeted ho.symm
        have hpw : pw = password := h.registration c (o, pw) (by rw [hst]; rfl) hgreet
        refine .quiet hvalue hpending (fun v hv => ?_) ?_ (fun x hx => .inl (hasks x hx)) (hreplied fun c _ => ha c)
        · have hv : Accepts crypto password (s.row crypto) v := hv
          rw [hnone] at hv
          show Accepts crypto password (s'.row crypto) v
          rw [hrow, show v = password from hv, ← hpw]
          exact hhash
        · show (s'.row crypto).bind _ = (s.row crypto).bind _
          rw [hrow, hnone]; exact hid
  | committed c p o pw id salt g hst hp he ha =>
      have hknows := h.rotates hsound (.inl hst)
      by_cases ho : crypto.digest owner = crypto.digest o
      · exact hrotates he ho (.reader c (by rw [hst]; rfl) (hknows.greeted ho.symm))
      · have hrow := (h.keyed.rotate_byOwner he (crypto.digest owner)).resolve_right fun hcase => ho hcase.1
        refine hquiet (by rw [hrowOf, hrowOf', hrow.1]) fun d hd => ha d ?_
        rintro rfl
        have hgreet := hsound.greeting d hd
        rw [Knows, if_pos hgreet] at hknows
        exact ho (by rw [hknows])
  | orphaned o salt g hmem he ha =>
      by_cases ho : crypto.digest owner = crypto.digest o.owner
      · exact hrotates he ho (.thread o hmem (by rw [← ho, h.secret]) rfl)
      · have hrow := (h.keyed.rotate_byOwner he (crypto.digest owner)).resolve_right fun hcase => ho hcase.1
        exact hquiet (by rw [hrowOf, hrowOf', hrow.1]) fun c _ => ha c

/-! ## Steps of the target -/

/-- The target goes on with the same connection, and leaves nothing on the way that was not there. -/
theorem asks_target {y : String × String} (h : s'.Asks crypto y)
    (ht : s'.target.identity.ownerSecret = s.target.identity.ownerSecret) (hr : s'.relay = s.relay)
    (hg : s'.greeting = s.greeting)
    (hout : .rotate y.1 y.2 ∈ s'.target.waiting → s.Asks crypto y)
    (hup : ∀ c, .rotate y.1 y.2 ∈ s'.up c → (s.relay.stage c).leaving = false → s.Asks crypto y) : s.Asks crypto y := by
  cases h with
  | outbox h => exact hout h
  | link c h hl => exact hup c h (hr ▸ hl)
  | reader c h hgreet => exact .reader c (hr ▸ h) (hg ▸ hgreet)
  | thread o ho howner hx => exact .thread o (hr ▸ ho) (howner.trans (by rw [ht])) hx

/-- While the table and the password stay, one step changes what is asked and replied. -/
theorem journal_quiet (hr : s'.relay = s.relay) (hs : s'.target.identity.ownerSecret = s.target.identity.ownerSecret)
    (hp : s'.target.identity.password = s.target.identity.password)
    (hpending : s'.target.identity.pending = s.target.identity.pending)
    (hasks : ∀ x, s'.Asks crypto x → s.Asks crypto x ∨ s.target.identity.pending = some x)
    (hreplied : s'.Replied → s.Replied) :
    Journal.Step (s.journal crypto password) (s'.journal crypto password) := by
  have hrow : s'.row crypto = s.row crypto := by unfold row; rw [hr, hs]
  refine .quiet hp hpending (fun v hv => ?_) (congrArg (·.bind Row.rotationId) hrow) hasks hreplied
  show Accepts crypto password (s'.row crypto) v
  rw [hrow]; exact hv

theorem mem_request {i : Identity} {x : String × String} (h : .rotate x.1 x.2 ∈ Identity.request i) :
    i.pending = some x := by
  unfold Identity.request at h
  rw [Option.mem_toList, Option.map_eq_some_iff] at h
  obtain ⟨pending, hp, he⟩ := h
  obtain ⟨h1, h2⟩ := Message.rotate.inj he
  rw [hp, Prod.ext h1 h2]

theorem mem_requests {t : Target} {x : String × String} : .rotate x.1 x.2 ∈ t.waiting ↔ .rotate x.1 x.2 ∈ t.requests := by
  unfold Target.requests
  rw [List.mem_filter]
  exact ⟨fun h => ⟨h, rfl⟩, fun h => h.1⟩

/-- The target is asked for a change: it begins one, or asks again for the one that is under way. -/
theorem journal_command (hsettled : s.target.identity.pending = none →
      (∀ x, ¬ s.Asks crypto x) ∧ ¬ s.Replied ∧ (s.row crypto).bind Row.rotationId ≠ some drawn.2)
    {target : Target} (hi : target.identity = s.target.identity.beginRotation drawn)
    (hout : ∀ x : String × String, .rotate x.1 x.2 ∈ target.waiting →
      .rotate x.1 x.2 ∈ s.target.waiting ∨ target.identity.pending = some x) :
    Journal.Step (s.journal crypto password) (journal crypto password { s with target := target }) := by
  obtain ⟨h1, h2, h3⟩ := Identity.beginRotation_keeps drawn s.target.identity
  have hasks : ∀ x, Asks crypto { s with target := target } x → s.Asks crypto x ∨ target.identity.pending = some x := by
    intro x hx
    by_cases hnew : target.identity.pending = some x
    · exact .inr hnew
    · refine .inl (asks_target hx (by rw [hi, h1]) rfl rfl (fun h => ?_) fun c h hl => .link c h hl)
      exact .outbox ((hout x h).resolve_right hnew)
  cases hp : s.target.identity.pending with
  | some pending =>
      have hsame : target.identity.pending = s.target.identity.pending := by
        rw [hi, Identity.beginRotation, if_neg (by rw [hp]; simp)]
      refine journal_quiet rfl (by rw [hi, h1]) (by rw [hi, h3]) hsame (fun x hx => ?_) id
      exact hsame ▸ hasks x hx
  | none =>
      obtain ⟨hclear, hreplied, hnew⟩ := hsettled hp
      have hdrawn : target.identity.pending = some drawn := by rw [hi, Identity.beginRotation, if_pos hp]
      have hrow : row crypto { s with target := target } = s.row crypto := by
        unfold row; dsimp only; rw [hi, h1]
      refine .begun drawn hp hclear hnew (by show target.identity.password = _; rw [hi, h3]; rfl) hdrawn (fun v hv => ?_)
        (congrArg (·.bind Row.rotationId) hrow) (fun x hx => ?_) hreplied
      · show Accepts crypto password (row crypto { s with target := target }) v
        rw [hrow]; exact hv
      · exact Option.some.inj (((hasks x hx).resolve_left (hclear x)).symm.trans hdrawn)

theorem journal_step (h : s.Secret crypto owner password) (hsound : s.Sound) (hsettled : s.Settled crypto action)
    (hs : s.step crypto action = some s') : Journal.Step (s.journal crypto password) (s'.journal crypto password) := by
  have htake : ∀ {c : Nat} {packet : Packet} {rest : List Packet} {target : Target} {taken : Nat → List Entry},
      s.down c = packet :: rest →
      Replied { s with target := target, down := Function.update s.down c rest, taken := taken } → s.Replied := by
    rintro c packet rest target taken hd ⟨d, hdc, hr⟩
    refine ⟨d, hdc, hr.imp id ?_⟩
    rintro ⟨x, hx, hreply⟩
    refine ⟨x, ?_, hreply⟩
    dsimp only at hx
    rw [Function.update_apply] at hx
    split at hx
    · rename_i he
      subst he
      rw [hd]; exact List.mem_cons_of_mem _ hx
    · exact hx
  have hquiet : ∀ {t : Target}, Target.Quiet s.target t →
      ∀ x : String × String, .rotate x.1 x.2 ∈ t.waiting → s.Asks crypto x := fun hq x hx =>
    .outbox (mem_requests.mpr (hq.requests.subset (mem_requests.mp hx)))
  have hup : ∀ {c : Nat} {x : String × String}, .rotate x.1 x.2 ∈ s.up c → (s.relay.stage c).leaving = false →
      s.Asks crypto x := fun hx hl => .link _ hx hl
  cases step_cases hs with
  | dialed c hc hu =>
      obtain ⟨hgreet, hstage, hup', hdown⟩ := hu
      refine journal_quiet rfl rfl rfl rfl (fun x hx => .inl ?_) ?_
      · cases hx with
        | outbox hx => exact .outbox hx
        | link d hx hl => exact .link d hx hl
        | thread o ho howner hx => exact .thread o ho howner hx
        | reader d hx hg =>
            refine .reader d hx ?_
            by_cases hd : d = c
            · subst hd
              rw [show s.relay.stage d = .fresh from hstage] at hx; cases hx
            · dsimp only at hg
              rwa [Function.update_of_ne hd] at hg
      · rintro ⟨d, hd, hr⟩
        cases hd
        rcases hr with (hr | hr) | ⟨packet, hp, _⟩
        · rw [show s.relay.stage c = .fresh from hstage] at hr; cases hr
        · have hpeer := hsound.sessions.early c (by rw [hstage]; rfl)
          simp [Relay.replies, hpeer] at hr
        · rw [show s.down c = [] from hdown] at hp; cases hp
  | registered env drawn c name rest target hc hd ho ht =>
      obtain ⟨_, hcase⟩ := Target.registered_cases ht
      have hwait : s.target.waiting = [] := by simp [Target.waiting, ho]
      rcases hcase with ⟨_, _, hi, hreq, _⟩ | ⟨hr, _, _, hi, hreq⟩
      · refine journal_quiet rfl (by rw [hi]) (by rw [hi]) (by rw [hi]) (fun x hx => .inl ?_) (htake hd)
        refine asks_target hx (by rw [hi]) rfl rfl (fun hx => ?_) fun c hx hl => hup hx hl
        rw [mem_requests, hreq] at hx; cases hx
      · obtain ⟨h1, _, h3⟩ := Identity.beginRotation_keeps drawn { s.target.identity with id := some name }
        obtain ⟨pending, hp⟩ : ∃ pending, s.target.identity.pending = some pending :=
          Option.isSome_iff_exists.mp (hsound.pending ▸ hr)
        have hsame : target.identity.pending = s.target.identity.pending := by
          rw [hi, Identity.beginRotation, if_neg (by simp [hp])]
        refine journal_quiet rfl (by rw [hi, h1]) (by rw [hi, h3]) hsame (fun x hx => ?_) (htake hd)
        by_cases hx' : s.target.identity.pending = some x
        · exact .inr hx'
        · refine .inl (asks_target hx (by rw [hi, h1]) rfl rfl (fun hx => ?_) fun c hx hl => hup hx hl)
          exact absurd (hsame ▸ mem_request (hreq.subset (mem_requests.mp hx))) hx'
  | took env drawn c entry rest target hc hd ho ht =>
      rcases Target.read_cases ht with ⟨_, hq⟩ | ⟨hm, _, _, _, hout, hi⟩
      · refine journal_quiet rfl (by rw [hq.identity]) (by rw [hq.identity]) (by rw [hq.identity])
          (fun x hx => .inl ?_) (htake hd)
        exact asks_target hx (by rw [hq.identity]) rfl rfl (hquiet hq x) fun c hx hl => hup hx hl
      · obtain ⟨pending, hp, hi⟩ := Identity.finishRotation_eq hi
        have hreplied : s.Replied := ⟨c, hc, .inr ⟨.message entry, by rw [hd]; simp, hm⟩⟩
        have hrow : row crypto { s with target := target, down := Function.update s.down c rest,
                                        taken := Function.update s.taken c (s.taken c ++ [entry]) } = s.row crypto := by
          unfold row; dsimp only; rw [hi]
        refine .finished pending hp hreplied (by show target.identity.password = _; rw [hi])
          (by show target.identity.pending = _; rw [hi]) (fun v hv => ?_) (congrArg (·.bind Row.rotationId) hrow)
            fun x hx => ?_
        · show Accepts crypto password (row crypto _) v
          rw [hrow]; exact hv
        · refine asks_target hx (by show target.identity.ownerSecret = _; rw [hi]) rfl rfl (fun hx => ?_)
            fun c hx hl => hup hx hl
          refine .outbox ?_
          have hx : .rotate x.1 x.2 ∈ target.waiting := hx
          rw [Target.waiting, hout] at hx
          exact hx
  | commanded env drawn target ho ht =>
      obtain ⟨_, hi, _, _, hreq⟩ := Target.rotate_requests ht
      refine journal_command hsettled hi fun x hx => ?_
      rcases List.mem_append.mp (hreq.subset (mem_requests.mp hx)) with hx | hx
      · exact .inl (mem_requests.mpr hx)
      · exact .inr (mem_request hx)
  | offline env drawn ho hc => exact journal_command hsettled rfl fun x hx => .inl hx
  | worked op target _ ht =>
      have hq := Target.thread_quiet ht
      refine journal_quiet rfl (by rw [hq.identity]) (by rw [hq.identity]) (by rw [hq.identity]) (fun x hx => .inl ?_) id
      exact asks_target hx (by rw [hq.identity]) rfl rfl (hquiet hq x) fun c hx hl => hup hx hl
  | wrote now c message outbox outbox' hc ho ht =>
      obtain ⟨_, _, hw⟩ := Outbox.take_eq ht
      have hold : s.target.waiting = message :: outbox'.waiting := by simp [Target.waiting, ho, hw]
      refine journal_quiet rfl rfl rfl rfl (fun x hx => .inl ?_) id
      refine asks_target hx rfl rfl rfl (fun hx => ?_) fun d hx hl => ?_
      · exact .outbox (by rw [hold]; exact List.mem_cons_of_mem _ hx)
      · simp only [sendUp, Function.update_apply] at hx
        split at hx
        · rename_i hd
          subst hd
          rcases List.mem_append.mp hx with hx | hx
          · exact .link d hx hl
          · exact .outbox (by rw [hold, List.mem_singleton.mp hx]; exact List.mem_cons_self)
        · exact .link d hx hl
  | lost env target hc ht =>
      obtain ⟨t, hthread, rfl⟩ := Option.map_eq_some_iff.mp ht
      have hq := Target.thread_quiet hthread
      refine journal_quiet rfl (by show t.identity.ownerSecret = _; rw [hq.identity])
        (by show t.identity.password = _; rw [hq.identity]) (by show t.identity.pending = _; rw [hq.identity])
        (fun x hx => .inl ?_) (by rintro ⟨d, hd, _⟩; cases hd)
      exact asks_target hx (by show t.identity.ownerSecret = _; rw [hq.identity]) rfl rfl (fun hx => by cases hx)
        fun c hx hl => hup hx hl
  | restarted =>
      have hv : s.target.restart.identity = s.target.identity := hsound.vault
      refine journal_quiet rfl (by show s.target.restart.identity.ownerSecret = _; rw [hv])
        (by show s.target.restart.identity.password = _; rw [hv]) (by show s.target.restart.identity.pending = _; rw [hv])
        (fun x hx => .inl ?_) (by rintro ⟨d, hd, _⟩; cases hd)
      exact asks_target hx (by show s.target.restart.identity.ownerSecret = _; rw [hv]) rfl rfl (fun hx => by cases hx)
        fun c hx hl => hup hx hl
  | greeted c hello relay hg hr =>
      exact journal_relayed h hsound hr rfl rfl rfl (fun _ _ hm => hm)
        (fun _ _ hp _ => .inl hp) (by rintro d x ⟨⟩)
  | received c message rest relay hu hr =>
      refine journal_relayed h hsound hr rfl rfl rfl (fun d m hm => ?_) (fun _ _ hp _ => .inl hp) ?_
      · dsimp only at hm
        rw [Function.update_apply] at hm
        split at hm
        · rename_i hd
          subst hd
          rw [hu]; exact List.mem_cons_of_mem _ hm
        · exact hm
      · intro d x he _ hl
        cases he
        exact .link c (by rw [hu]; exact List.mem_cons_self) hl
  | replied c p relay hr hp =>
      refine journal_relayed h hsound (a := .replied c) hr rfl rfl rfl (fun _ _ hm => hm)
        (fun d packet hpacket hreply => .inl ?_) (by rintro d x ⟨⟩)
      simp only [sendDown, Function.update_apply] at hpacket
      split at hpacket
      · rename_i hd
        subst hd
        rcases List.mem_append.mp hpacket with hx | hx
        · exact hx
        · rw [List.mem_singleton.mp hx] at hreply
          split at hreply <;> cases hreply
      · exact hpacket
  | sent c p entry relay hp he hr =>
      refine journal_relayed h hsound (a := .write c) hr rfl rfl rfl (fun _ _ hm => hm) (fun d packet hpacket hreply => ?_)
        (by rintro d x ⟨⟩)
      simp only [sendDown, Function.update_apply] at hpacket
      split at hpacket
      · rename_i hd
        subst hd
        rcases List.mem_append.mp hpacket with hx | hx
        · exact .inl hx
        · rw [List.mem_singleton.mp hx] at hreply
          refine .inr (.inr ?_)
          rw [Relay.replies_of_peer hp]
          exact List.countP_pos_iff.mpr ⟨entry, List.mem_of_head? he, hreply⟩
      · exact .inl hpacket
  | own a relay ha hr =>
      refine journal_relayed h hsound hr rfl rfl rfl (fun _ _ hm => hm)
        (fun _ _ hp _ => .inl hp) ?_
      rintro d x rfl
      cases ha
  | foreign a relay hf hr =>
      refine journal_relayed h hsound hr rfl rfl rfl (fun _ _ hm => hm)
        (fun _ _ hp _ => .inl hp) ?_
      rintro d x rfl hg
      obtain ⟨e, he, hgreet⟩ := hf.greeting
      cases he
      rw [hgreet] at hg
      cases hg

end Site

end RemoteInput
