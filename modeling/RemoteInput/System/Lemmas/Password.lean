import RemoteInput.Relay.Lemmas.Passports
import RemoteInput.System.Lemmas.Rotation
import RemoteInput.Target.Lemmas.Works

/-!
# Who knows the password of the target
-/

namespace RemoteInput

namespace Site

variable {crypto : Crypto} {s s' : Site} {action : SiteAction} {owner password : String} {S : String → Prop}
  {said : Nat → String → String → Prop} {registry : Registry} {greeting : Nat → Option Hello} {c : Nat} {x : Passport}

/-! ## Controllers -/

/-- The client of `c` said a password of `S`. -/
def Knower (S : String → Prop) (said : Nat → String → String → Prop) (c : Nat) : Prop := ∃ name pw, said c name pw ∧ S pw

/-- What a handler holds against its client: the controller of a name knows a password, or the name leads to a row of
somebody else, and the name of the target's program is that of the target's row. -/
def Holds (crypto : Crypto) (owner : String) (S : String → Prop) (said : Nat → String → String → Prop) (registry : Registry)
    (greeting : Nat → Option Hello) (c : Nat) : Passport → Prop
  | .password name pw => said c name pw
  | .controller name _ => Knower S said c ∨ registry.Alien crypto name owner
  | .target name _ _ => (greeting c).isSome = true → registry.Belongs crypto name owner
  | _ => True

theorem Holds.extends {registry' : Registry} (h : Holds crypto owner S said registry greeting c x)
    (he : registry.Extends registry') : Holds crypto owner S said registry' greeting c x := by
  cases x with
  | password | owner | registration => exact h
  | controller name g => exact h.imp_right fun h => h.extends he
  | target name g o => exact fun hg => (h hg).extends he

theorem Holds.congr {greeting' : Nat → Option Hello} (h : Holds crypto owner S said registry greeting c x)
    (hg : greeting' c = greeting c) : Holds crypto owner S said registry greeting' c x := by
  cases x with
  | target name g o =>
      dsimp only [Holds] at h ⊢
      rwa [hg]
  | _ => exact h

/-- Nobody is admitted as a controller of the target who does not know a password of `S`, and the engine gets frames from
nobody else. -/
structure Guarded (crypto : Crypto) (owner password : String) (S : String → Prop) (said : Nat → String → String → Prop)
    (s : Site) : Prop where
  shows : s.relay.Shows (Holds crypto owner S said s.relay.registry s.greeting)
  authored : s.relay.Authored
  packets : ∀ c entry, .message entry ∈ s.down c → entry ∈ s.relay.logOf c
  passed : ∀ x ∈ s.target.passed, (∃ event, x.message = .frame event) ∧ ∃ t, (s.greeting t).isSome = true ∧
    x ∈ s.relay.logOf t
  within : (s.journal crypto password).Within S

theorem Guarded.start (hS : S password) : Guarded crypto owner password S said (start owner password) where
  shows := Relay.shows_start _ {}
  authored := Relay.authored_start {}
  packets := by simp [Site.start]
  passed := fun _ hx => by cases hx
  within := by
    refine ⟨hS, by simp [journal, Site.start, Target.start], fun x hx => ?_, password, hS, rfl⟩
    cases hx with
    | outbox h => cases h
    | link _ h => cases h
    | reader _ h => cases h
    | thread _ h => cases h

/-! ## Steps of the relay -/

/-- The first message of a controller is one that `said` has. -/
def Told (said : Nat → String → String → Prop) : RelayAction → Prop
  | .hello c (.controller name pw) => said c name pw
  | _ => True

/-- A handler holds no more than what its client has shown. -/
theorem Guarded.verified (h : s.Guarded crypto owner password S said) (hsecret : s.Secret crypto owner password)
    (hsound : s.Sound)
    (hinj : ∀ salt, Function.Injective fun pw => crypto.passwordHash pw salt) {salt : String} {relay : Relay}
    (hr : s.relay.step crypto (.transaction c salt) = some relay) (hx : Relay.Verifies crypto s.relay salt c x) :
    Holds crypto owner S said relay.registry s.greeting c x := by
  cases x with
  | password | owner | registration => cases hx
  | controller name g =>
      cases hx with
      | password _ pw _ hst hlogin =>
          have hsaid : said c name pw := h.shows.stage c (.password name pw) (by rw [hst]; rfl)
          obtain ⟨row, hrow, hhash⟩ : ∃ row, s.relay.registry.byNumber (Registry.number name) = some row ∧
              crypto.passwordHash pw row.salt = row.passwordHash := by
            unfold Registry.login at hlogin
            split at hlogin
            · rename_i row hrow
              split at hlogin
              · exact ⟨row, hrow, ‹_›⟩
              · cases hlogin
            · cases hlogin
          have hmem := List.mem_of_find?_eq_some hrow
          by_cases hown : row.ownerHash = crypto.digest owner
          · left
            have htarget : s.row crypto = some row := by
              unfold Site.row
              rw [hsecret.secret]
              exact (hsecret.keyed.byOwner_iff).mpr ⟨hmem, hown⟩
            obtain ⟨v, hv, haccepts⟩ := h.within.accepts
            have haccepts : Accepts crypto password (s.row crypto) v := haccepts
            rw [htarget] at haccepts
            have hsame : pw = v := hinj row.salt (hhash.trans haccepts)
            exact ⟨name, pw, hsaid, hsame ▸ hv⟩
          · right
            have halien : s.relay.registry.Alien crypto name owner := ⟨row, hmem, Registry.byNumber_number hrow, hown⟩
            exact halien.extends ((Relay.step_cases hr).extends hsecret.keyed)
  | target name g o =>
      intro hg
      have hbelongs := hx.belongs hr
      have hstage : (s.relay.stage c).owner = some o ∧ (s.relay.stage c).early = true := by
        cases hx with
        | owner _ _ _ hst _ => rw [hst]; exact ⟨rfl, rfl⟩
        | registered _ _ _ _ hst _ => rw [hst]; exact ⟨rfl, rfl⟩
        | inserted _ _ hst => rw [hst]; exact ⟨rfl, rfl⟩
      rcases hsecret.told c o hstage.1 with ⟨p, hp, _⟩ | hknows
      · rw [hsound.sessions.early c hstage.2] at hp
        cases hp
      · rw [Knows, if_pos hg] at hknows
        rw [← hknows]
        exact hbelongs

theorem Guarded.relayed (h : s.Guarded crypto owner password S said) (hsecret : s.Secret crypto owner password)
    (hsound : s.Sound)
    (hinj : ∀ salt, Function.Injective fun pw => crypto.passwordHash pw salt) {a : RelayAction} {relay : Relay}
    (hr : s.relay.step crypto a = some relay) (htold : Told said a) :
    relay.Shows (Holds crypto owner S said relay.registry s.greeting) ∧ relay.Authored ∧
      ∀ c, s.relay.logOf c <+: relay.logOf c := by
  have hcase := Relay.step_cases hr
  have hextends := hcase.extends hsecret.keyed
  refine ⟨?_, h.authored.step hsound.sessions hsound.rotations hcase, fun c => ?_⟩
  · refine (h.shows.mono fun c x hx => hx.extends hextends).step hsound.rotations hr ?_ ?_
    · rintro d message x rfl hx
      rcases Relay.firstStage_passport hx with ⟨name, pw, rfl, rfl⟩ | ⟨o, name, pw, rfl, rfl⟩ | ⟨o, pw, rfl, rfl⟩
      · exact htold
      · trivial
      · trivial
    · rintro d salt x rfl hx
      exact h.verified hsecret hsound hinj hr hx
  · rcases hcase.logs hsound.sessions hsound.rotations c with hl | ⟨y, _, hl⟩
    · rw [hl]
    · rw [hl]
      exact List.prefix_append _ _

/-! ## Steps of the target -/

/-- A new password is drawn only by a command. -/
theorem pending_step (hsound : s.Sound) (hs : s.step crypto action = some s') {x : String × String}
    (hx : s'.target.identity.pending = some x) :
    s.target.identity.pending = some x ∨ ∃ env, action = .command env x := by
  have hbegin : ∀ {i : Identity} {drawn : String × String}, (i.beginRotation drawn).pending = some x →
      i.pending = some x ∨ x = drawn := by
    intro i drawn h
    unfold Identity.beginRotation at h
    split at h
    · exact .inr (Option.some.inj h).symm
    · exact .inl h
  cases step_cases hs with
  | dialed | wrote | greeted | received | replied | sent | own | foreign => exact .inl hx
  | registered env drawn c name rest target hc hd ho ht =>
      obtain ⟨_, hcase⟩ := Target.registered_cases ht
      left
      rcases hcase with ⟨_, _, hi, _⟩ | ⟨hr, _, _, hi, _⟩
      · dsimp only at hx
        rw [hi] at hx
        exact hx
      · obtain ⟨pending, hp⟩ : ∃ pending, s.target.identity.pending = some pending :=
          Option.isSome_iff_exists.mp (hsound.pending ▸ hr)
        dsimp only at hx
        rw [hi, Identity.beginRotation, if_neg (by simp [hp])] at hx
        exact hx
  | took env drawn c entry rest target hc hd ho ht =>
      rcases Target.read_cases ht with ⟨_, hq⟩ | ⟨_, _, _, _, _, hi⟩
      · exact .inl (hq.identity ▸ hx)
      · obtain ⟨pending, _, hi⟩ := Identity.finishRotation_eq hi
        dsimp only at hx
        rw [hi] at hx
        cases hx
  | commanded env drawn target ho ht =>
      dsimp only at hx
      rw [(Target.rotate_requests ht).identity] at hx
      exact (hbegin hx).imp_right fun he => ⟨env, by rw [he]⟩
  | offline env drawn ho hc => exact (hbegin (i := s.target.identity) hx).imp_right fun he => ⟨env, by rw [he]⟩
  | worked op target _ ht => exact .inl ((Target.thread_quiet ht).identity ▸ hx)
  | lost env target hc ht =>
      obtain ⟨t, hthread, rfl⟩ := Option.map_eq_some_iff.mp ht
      exact .inl ((Target.thread_quiet hthread).identity ▸ hx)
  | restarted =>
      have hv : s.target.restart.identity = s.target.identity := hsound.vault
      exact .inl (hv ▸ hx)

/-- A command leaves the table and asks for the pending password at most. -/
theorem within_command {target : Target} {drawn : String × String} (h : (s.journal crypto password).Within S)
    (hi : target.identity = s.target.identity.beginRotation drawn) (hdrawn : S drawn.1)
    (hout : ∀ x : String × String, .rotate x.1 x.2 ∈ target.waiting →
      .rotate x.1 x.2 ∈ s.target.waiting ∨ target.identity.pending = some x) :
    (journal crypto password { s with target := target }).Within S := by
  obtain ⟨h1, h2, h3⟩ := Identity.beginRotation_keeps drawn s.target.identity
  have hpending : ∀ x, target.identity.pending = some x → S x.1 := by
    intro x hx
    rw [hi, Identity.beginRotation] at hx
    split at hx
    · rw [← Option.some.inj hx]
      exact hdrawn
    · exact h.pending x hx
  have hrow : row crypto { s with target := target } = s.row crypto := by
    unfold row; dsimp only; rw [hi, h1]
  obtain ⟨v, hv, haccepts⟩ := h.accepts
  refine ⟨?_, hpending, fun x hx => ?_, v, hv, ?_⟩
  · show S target.identity.password
    rw [hi, h3]
    exact h.value
  · by_cases hnew : target.identity.pending = some x
    · exact hpending x hnew
    · refine h.asks x (asks_target hx (by rw [hi, h1]) rfl rfl (fun h => ?_) fun c h hl => .link c h hl)
      exact .outbox ((hout x h).resolve_right hnew)
  · show Accepts crypto password (row crypto _) v
    rw [hrow]
    exact haccepts

theorem within_step (h : (s.journal crypto password).Within S) (hsecret : s.Secret crypto owner password) (hsound : s.Sound)
    (hs : s.step crypto action = some s') (hS : ∀ env drawn, action = .command env drawn → S drawn.1) :
    (s'.journal crypto password).Within S := by
  by_cases hcommand : ∃ env drawn, action = .command env drawn
  · obtain ⟨env, drawn, rfl⟩ := hcommand
    cases step_cases hs with
    | commanded _ _ target ho ht =>
        obtain ⟨_, hi, _, _, hreq⟩ := Target.rotate_requests ht
        refine within_command h hi (hS env drawn rfl) fun x hx => ?_
        rcases List.mem_append.mp (hreq.subset (mem_requests.mp hx)) with hx | hx
        · exact .inl (mem_requests.mpr hx)
        · exact .inr (mem_request hx)
    | offline _ _ ho hc => exact within_command h rfl (hS env drawn rfl) fun x hx => .inl hx
  · have hsettled : s.Settled crypto action := by
      cases action with
      | command env drawn => exact absurd ⟨env, drawn, rfl⟩ hcommand
      | _ => trivial
    refine h.step (journal_step hsecret hsound hsettled hs) fun x hx => ?_
    rcases pending_step hsound hs hx with hx | ⟨env, rfl⟩
    · exact h.pending x hx
    · exact hS env x rfl

/-- Only the relay, the links and the frames of the engine count. -/
theorem Guarded.goesOn {t : Site} (h : s.Guarded crypto owner password S said) (hr : t.relay = s.relay)
    (hg : t.greeting = s.greeting) (hdown : ∀ c entry, .message entry ∈ t.down c → .message entry ∈ s.down c)
    (hpassed : ∀ x ∈ t.target.passed, x ∈ s.target.passed ∨
      (∃ event, x.message = .frame event) ∧ ∃ c, (s.greeting c).isSome = true ∧ .message x ∈ s.down c)
    (hwithin : (t.journal crypto password).Within S) : t.Guarded crypto owner password S said where
  shows := by rw [hr, hg]; exact h.shows
  authored := by rw [hr]; exact h.authored
  packets := fun c entry hm => by rw [hr]; exact h.packets c entry (hdown c entry hm)
  passed := by
    intro x hx
    rw [hr, hg]
    rcases hpassed x hx with hx | ⟨hframe, c, hgreet, hm⟩
    · exact h.passed x hx
    · exact ⟨hframe, c, hgreet, h.packets c x hm⟩
  within := hwithin

theorem Guarded.step (h : s.Guarded crypto owner password S said) (hsecret : s.Secret crypto owner password)
    (hsound : s.Sound)
    (hinj : ∀ salt, Function.Injective fun pw => crypto.passwordHash pw salt) (hs : s.step crypto action = some s')
    (hS : ∀ env drawn, action = .command env drawn → S drawn.1) (htold : ∀ a, action = .stranger a → Told said a) :
    s'.Guarded crypto owner password S said := by
  have hwithin := within_step h.within hsecret hsound hs hS
  have htail : ∀ {c : Nat} {packet : Packet} {rest : List Packet}, s.down c = packet :: rest →
      ∀ d entry, .message entry ∈ Function.update s.down c rest d → .message entry ∈ s.down d := by
    intro c packet rest hd d entry hm
    rw [Function.update_apply] at hm
    split at hm
    · rename_i he
      rw [he, hd]; exact List.mem_cons_of_mem _ hm
    · exact hm
  have hrelay : ∀ {t : Site} {a : RelayAction} {relay : Relay}, s.relay.step crypto a = some relay → Told said a →
      t.relay = relay →
      t.greeting = s.greeting → t.target = s.target →
      (∀ c entry, .message entry ∈ t.down c → .message entry ∈ s.down c ∨ entry ∈ s.relay.logOf c) →
      (t.journal crypto password).Within S → t.Guarded crypto owner password S said := by
    intro t a relay hr ha he hg ht hdown hwithin
    obtain ⟨hshows, hauthored, hlogs⟩ := h.relayed hsecret hsound hinj hr ha
    refine ⟨by rw [he, hg]; exact hshows, by rw [he]; exact hauthored, fun c entry hm => ?_, fun x hx => ?_, hwithin⟩
    · rw [he]
      exact (hlogs c).subset ((hdown c entry hm).elim (h.packets c entry) id)
    · rw [ht] at hx
      obtain ⟨hframe, c, hgreet, hm⟩ := h.passed x hx
      rw [he, hg]
      exact ⟨hframe, c, hgreet, (hlogs c).subset hm⟩
  cases step_cases hs with
  | dialed c hc hu =>
      obtain ⟨hgreet, hfresh, -, -⟩ := hu
      have hpeer : s.relay.peer c = none := hsound.sessions.early c (by rw [hfresh]; rfl)
      refine ⟨⟨fun d x hx => ?_, fun d p hp => ?_⟩, h.authored, h.packets, fun x hx => ?_, hwithin⟩
      · have hdc : d ≠ c := by
          rintro rfl
          dsimp only at hx
          rw [hfresh] at hx
          cases hx
        exact (h.shows.stage d x hx).congr (Function.update_of_ne hdc ..)
      · have hdc : d ≠ c := by
          rintro rfl
          dsimp only at hp
          rw [hpeer] at hp
          cases hp
        exact (h.shows.peer d p hp).mono fun x hx => hx.congr (Function.update_of_ne hdc ..)
      · obtain ⟨hframe, t, hg, hm⟩ := h.passed x hx
        refine ⟨hframe, t, ?_, hm⟩
        by_cases htc : t = c
        · subst htc
          dsimp only
          rw [Function.update_self]
          rfl
        · dsimp only
          rwa [Function.update_of_ne htc]
  | registered env drawn c name rest target hc hd ho ht =>
      refine h.goesOn rfl rfl (htail hd) (fun x hx => .inl ?_) hwithin
      dsimp only at hx
      rwa [(Target.registered_works ht).passed] at hx
  | took env drawn c entry rest target hc hd ho ht =>
      refine h.goesOn rfl rfl (htail hd) (fun x hx => ?_) hwithin
      dsimp only at hx
      rcases Target.read_works ht with ⟨event, hm, -, hop⟩ | ⟨-, hw⟩
      · rw [hop.passed, List.mem_append, List.mem_singleton] at hx
        refine hx.imp id ?_
        rintro rfl
        exact ⟨⟨event, hm⟩, c, hsound.greeting c hc, by rw [hd]; exact List.mem_cons_self⟩
      · exact .inl (hw.passed ▸ hx)
  | commanded env drawn target ho ht =>
      exact h.goesOn rfl rfl (fun _ _ => id) (fun x hx => .inl ((Target.rotate_works ht).passed ▸ hx)) hwithin
  | offline env drawn ho hc => exact h.goesOn rfl rfl (fun _ _ => id) (fun x hx => .inl hx) hwithin
  | worked op target hop ht =>
      exact h.goesOn rfl rfl (fun _ _ => id) (fun x hx => .inl ((Target.thread_works hop ht).passed ▸ hx)) hwithin
  | wrote now c message outbox outbox' hc ho ht => exact h.goesOn rfl rfl (fun _ _ => id) (fun x hx => .inl hx) hwithin
  | lost env target hc ht =>
      exact h.goesOn rfl rfl (fun _ _ => id) (fun x hx => .inl ((Target.disconnect_works ht).passed ▸ hx)) hwithin
  | restarted => exact h.goesOn rfl rfl (fun _ _ => id) (fun x hx => .inl hx) hwithin
  | greeted c hello relay hg hr =>
      refine hrelay hr ?_ rfl rfl rfl (fun _ _ => .inl) hwithin
      obtain ⟨id, pw, rfl, -⟩ := hsecret.hello c hello hg
      trivial
  | received c message rest relay hu hr => exact hrelay hr trivial rfl rfl rfl (fun _ _ => .inl) hwithin
  | replied c p relay hr hp =>
      refine hrelay (a := .replied c) hr trivial rfl rfl rfl (fun d entry hm => .inl ?_) hwithin
      simp only [sendDown, Function.update_apply] at hm
      split at hm
      · rename_i hdc
        rcases List.mem_append.mp hm with hm | hm
        · rw [hdc]; exact hm
        · have hm := List.mem_singleton.mp hm
          split at hm <;> cases hm
      · exact hm
  | sent c p entry relay hp he hr =>
      refine hrelay (a := .write c) hr trivial rfl rfl rfl (fun d x hm => ?_) hwithin
      simp only [sendDown, Function.update_apply] at hm
      split at hm
      · rename_i hdc
        rw [hdc]
        rcases List.mem_append.mp hm with hm | hm
        · exact .inl hm
        · cases List.mem_singleton.mp hm
          right
          rw [Relay.logOf_peer hp]
          exact List.mem_append_right _ (List.mem_of_head? he)
      · exact .inl hm
  | own a relay ha hr =>
      refine hrelay hr ?_ rfl rfl rfl (fun _ _ => .inl) hwithin
      cases a with
      | hello => cases ha
      | _ => trivial
  | foreign a relay hf hr => exact hrelay hr (htold a rfl) rfl rfl rfl (fun _ _ => .inl) hwithin

end Site

end RemoteInput
