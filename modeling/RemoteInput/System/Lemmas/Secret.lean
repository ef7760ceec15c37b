import RemoteInput.Relay.Lemmas.Requests
import RemoteInput.System.Lemmas.Sound

/-!
# Who knows the owner secret
-/

namespace RemoteInput

namespace Site

variable {crypto : Crypto} {s s' : Site} {action : SiteAction} {owner password : String}

/-- A handler works with the owner secret of the target exactly if the target's program is its client. -/
def Knows (crypto : Crypto) (owner : String) (greeting : Option Hello) (o : String) : Prop :=
  if greeting.isSome then o = owner else crypto.digest o ≠ crypto.digest owner

/-- Only the target uses its owner secret, and it registers with the password that it was started with. -/
structure Secret (crypto : Crypto) (owner password : String) (s : Site) : Prop where
  secret : s.target.identity.ownerSecret = owner
  first : s.target.identity.id = none → s.target.identity.password = password
  online : s.target.outbox.isSome = true → s.target.identity.id ≠ none
  hello : ∀ c hello, s.greeting c = some hello →
    ∃ id pw, hello = .target owner id pw ∧ (validField pw 24 128 → pw = password)
  told : ∀ c o, (s.relay.stage c).owner = some o →
    (∃ p, s.relay.peer c = some p ∧ p.role = .controller) ∨ Knows crypto owner (s.greeting c) o
  registration : ∀ c x, (s.relay.stage c).registration = some x → (s.greeting c).isSome = true → x.2 = password
  silent : ∀ c, s.greeting c = none → s.up c = []
  keyed : s.relay.registry.Keyed

theorem Secret.start (crypto : Crypto) (owner password : String) : Secret crypto owner password (start owner password) where
  secret := rfl
  first := fun _ => rfl
  online := by simp [Site.start, Target.start]
  hello := by simp [Site.start]
  told := by simp [Site.start, Stage.owner]
  registration := by simp [Site.start]
  silent := fun _ _ => rfl
  keyed := .empty

/-! ## Steps of the relay -/

/-- What a first message says fits the client that it is from. -/
def Fits (crypto : Crypto) (owner password : String) (s : Site) : RelayAction → Prop
  | .hello c message => (∀ o, (Relay.firstStage message).owner = some o → Knows crypto owner (s.greeting c) o) ∧
      ∀ x, (Relay.firstStage message).registration = some x → (s.greeting c).isSome = true → x.2 = password
  | _ => True

theorem Secret.relayed (h : s.Secret crypto owner password) (hsound : s.Sound) {a : RelayAction} {relay : Relay}
    (hr : s.relay.step crypto a = some relay) (hfits : s.Fits crypto owner password a) :
    Secret crypto owner password { s with relay := relay } := by
  have hkept : ∀ c, (∃ p, s.relay.peer c = some p ∧ p.role = .controller) → ∃ p, relay.peer c = some p ∧
      p.role = .controller := by
    rintro c ⟨p, hp, hrole⟩
    obtain ⟨q, hq, hr', _⟩ := hsound.keeps hr c p hp
    exact ⟨q, hq, hr'.trans hrole⟩
  refine ⟨h.secret, h.first, h.online, h.hello, fun c o ho => ?_, fun c x hx hg => ?_, h.silent,
    (Relay.step_cases hr).keyed h.keyed⟩
  · dsimp only at ho ⊢
    cases (Relay.step_cases hr).staged c with
    | same hst => exact (h.told c o (hst ▸ ho)).imp_left (hkept c)
    | joined p hp hrole => exact .inl ⟨p, hp, hrole⟩
    | told ht =>
        cases ht with
        | before hc => exact (h.told c o (hc.owner o ho)).imp_left (hkept c)
        | hello message ha he => subst ha; exact .inr (hfits.1 o (he ▸ ho))
        | rotate o' pw id ha hst he =>
            rw [he] at ho
            refine (h.told c o ?_).imp_left (hkept c)
            rw [hst]; exact ho
  · dsimp only at hx
    cases (Relay.step_cases hr).staged c with
    | same hst => exact h.registration c x (hst ▸ hx) hg
    | joined p hp hrole hst => rw [hst] at hx; cases hx
    | told ht =>
        cases ht with
        | before hc => exact h.registration c x (hc.registration x hx) hg
        | hello message ha he => subst ha; exact hfits.2 x (he ▸ hx) hg
        | rotate o' pw id ha hst he => rw [he] at hx; cases hx

/-- Only the relay and the target count. -/
theorem Secret.congr {t : Site} (h : s.Secret crypto owner password) (hr : t.relay = s.relay) (hg : t.greeting = s.greeting)
    (ht : t.target.identity = s.target.identity) (ho : t.target.outbox.isSome = true → s.target.outbox.isSome = true)
    (hup : ∀ c, s.up c = [] → s.greeting c = none → t.up c = []) : t.Secret crypto owner password := by
  refine ⟨ht ▸ h.secret, ht ▸ h.first, fun hs => ht ▸ h.online (ho hs), hg ▸ h.hello, ?_, ?_, fun c hc => ?_, hr ▸ h.keyed⟩
  · rw [hr, hg]; exact h.told
  · rw [hr, hg]; exact h.registration
  · rw [hg] at hc
    exact hup c (h.silent c hc) hc

theorem Secret.step (h : s.Secret crypto owner password) (hsound : s.Sound) (hs : s.step crypto action = some s') :
    s'.Secret crypto owner password := by
  cases step_cases hs with
  | dialed c hc hu =>
      obtain ⟨hgreet, hstage, _⟩ := hu
      have hother : ∀ d, d ≠ c → Function.update s.greeting c (some s.target.identity.hello) d = s.greeting d :=
        fun d hd => Function.update_of_ne hd ..
      refine ⟨h.secret, h.first, h.online, fun d hello hd => ?_, fun d o ho => ?_, fun d x hx hg => ?_,
        fun d hd => ?_, h.keyed⟩
      · by_cases hdc : d = c
        · subst hdc
          dsimp only at hd
          rw [Function.update_self, Option.some.injEq] at hd
          subst hd
          unfold Identity.hello
          cases hid : s.target.identity.id with
          | some id => exact ⟨id, "", by rw [h.secret], fun hv => absurd hv.1 (by decide)⟩
          | none => exact ⟨"", s.target.identity.password, by rw [h.secret], fun _ => h.first hid⟩
        · exact h.hello d hello ((hother d hdc) ▸ hd)
      · by_cases hdc : d = c
        · subst hdc
          rw [show s.relay.stage d = .fresh from hstage] at ho; cases ho
        · have := h.told d o ho
          dsimp only
          rwa [hother d hdc]
      · by_cases hdc : d = c
        · subst hdc
          rw [show s.relay.stage d = .fresh from hstage] at hx; cases hx
        · dsimp only at hg
          rw [hother d hdc] at hg
          exact h.registration d x hx hg
      · by_cases hdc : d = c
        · subst hdc
          simp at hd
        · exact h.silent d ((hother d hdc) ▸ hd)
  | registered env drawn c name rest target hc hd ho ht =>
      obtain ⟨_, hcase⟩ := Target.registered_cases ht
      have hid : target.identity.ownerSecret = s.target.identity.ownerSecret ∧ target.identity.id = some name := by
        rcases hcase with ⟨_, _, hi, _⟩ | ⟨_, _, _, hi, _⟩
        · rw [hi]; exact ⟨rfl, rfl⟩
        · obtain ⟨h1, h2, _⟩ := Identity.beginRotation_keeps drawn { s.target.identity with id := some name }
          rw [hi, h1, h2]; exact ⟨rfl, rfl⟩
      refine ⟨hid.1.trans h.secret, ?_, ?_, h.hello, h.told, h.registration, h.silent, h.keyed⟩
      · intro hn; rw [hid.2] at hn; cases hn
      · intro _ hn; rw [hid.2] at hn; cases hn
  | took env drawn c entry rest target hc hd ho ht =>
      rcases Target.read_cases ht with ⟨_, hq⟩ | ⟨_, _, _, _, hout, hi⟩
      · exact h.congr rfl rfl hq.identity (fun hs => hq.online ▸ hs) fun _ hup _ => hup
      · obtain ⟨pending, _, hi⟩ := Identity.finishRotation_eq hi
        have honline := h.online ho
        refine ⟨?_, fun hn => ?_, fun _ => ?_, h.hello, h.told, h.registration, h.silent, h.keyed⟩
        · dsimp only; rw [hi]; exact h.secret
        · dsimp only at hn; rw [hi] at hn; exact absurd hn honline
        · dsimp only; rw [hi]; exact honline
  | commanded env drawn target ho ht =>
      obtain ⟨_, hi, _, hon, _⟩ := Target.rotate_requests ht
      obtain ⟨h1, h2, h3⟩ := Identity.beginRotation_keeps drawn s.target.identity
      refine ⟨?_, fun hn => ?_, fun _ => ?_, h.hello, h.told, h.registration, h.silent, h.keyed⟩
      · dsimp only; rw [hi, h1]; exact h.secret
      · dsimp only at hn ⊢; rw [hi, h2] at hn; rw [hi, h3]; exact h.first hn
      · dsimp only; rw [hi, h2]; exact h.online ho
  | offline env drawn ho hc =>
      obtain ⟨h1, h2, h3⟩ := Identity.beginRotation_keeps drawn s.target.identity
      refine ⟨h1.trans h.secret, fun hn => h3.trans (h.first (h2.symm.trans hn)), fun hs => ?_, h.hello, h.told,
        h.registration, h.silent, h.keyed⟩
      rw [show (s.target.rotateOffline drawn).outbox = none from ho] at hs
      cases hs
  | worked op target _ ht =>
      have hq := Target.thread_quiet ht
      exact h.congr rfl rfl hq.identity (fun hs => hq.online ▸ hs) fun _ hup _ => hup
  | wrote now c message outbox outbox' hc ho ht =>
      refine h.congr rfl rfl rfl (fun _ => by rw [ho]; rfl) fun d hup hd => ?_
      have hne : d ≠ c := by
        rintro rfl
        have := hsound.greeting d hc
        rw [hd] at this; cases this
      simp [sendUp, hne, hup]
  | lost env target hc ht =>
      obtain ⟨t, hthread, rfl⟩ := Option.map_eq_some_iff.mp ht
      exact h.congr rfl rfl (Target.thread_quiet hthread).identity (fun hs => by cases hs) fun _ hup _ => hup
  | restarted => exact h.congr rfl rfl hsound.vault (fun hs => by cases hs) fun _ hup _ => hup
  | greeted c hello relay hg hr =>
      refine h.relayed hsound hr ⟨fun o ho => ?_, fun x hx _ => ?_⟩
      · obtain ⟨id, pw, he, _⟩ := h.hello c hello hg
        obtain ⟨id', pw', he'⟩ := firstStage_owner ho
        rw [he] at he'
        cases he'
        rw [Knows, hg]; rfl
      · obtain ⟨id, pw, he, hpw⟩ := h.hello c hello hg
        obtain ⟨he', hvalid⟩ := firstStage_registration hx
        rw [he] at he'
        cases he'
        exact hpw hvalid
  | received c message rest relay hup hr =>
      refine (h.relayed hsound hr trivial).congr rfl rfl rfl id fun d hd _ => ?_
      have hne : d ≠ c := by
        rintro rfl
        rw [show s.up d = [] from hd] at hup; cases hup
      simpa [hne] using hd
  | replied c p relay hr hp => exact (h.relayed hsound hr trivial).congr rfl rfl rfl id fun _ hup _ => hup
  | sent c p entry relay hp he hr => exact (h.relayed hsound hr trivial).congr rfl rfl rfl id fun _ hup _ => hup
  | own a relay ha hr =>
      refine h.relayed hsound hr ?_
      cases a with
      | hello => cases ha
      | _ => trivial
  | foreign a relay hf hr =>
      refine h.relayed hsound hr ?_
      cases a with
      | hello c message =>
          obtain ⟨d, hd, hg⟩ := hf.greeting
          cases hd
          refine ⟨fun o ho => ?_, fun x _ hx => by rw [hg] at hx; cases hx⟩
          obtain ⟨id, pw, rfl⟩ := firstStage_owner ho
          rw [Knows, hg, ← h.secret]
          exact hf.2
      | _ => trivial

end Site

end RemoteInput
