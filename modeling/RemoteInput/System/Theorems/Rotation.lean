import RemoteInput.Relay.Lemmas.Owners
import RemoteInput.System.Lemmas.Rotation
import RemoteInput.System.Theorems.Messages

/-!
# The target and the relay agree on the password
-/

namespace RemoteInput

namespace Site

variable {crypto : Crypto} {s s' : Site} {action : SiteAction} {owner password : String} {actions : List SiteAction}

/-! ## A target that knows its id has a row -/

structure Rowed (crypto : Crypto) (owner : String) (s : Site) : Prop where
  owned : s.relay.Owned crypto
  packets : ∀ c name, .registered name ∈ s.down c → (s.greeting c).isSome = true →
    (s.relay.registry.byOwner (crypto.digest owner)).isSome = true
  row : s.target.identity.id ≠ none → (s.relay.registry.byOwner (crypto.digest owner)).isSome = true

theorem Rowed.start (crypto : Crypto) (owner password : String) : Rowed crypto owner (start owner password) where
  owned := by simp [Relay.Owned, Site.start, Stage.verified]
  packets := by simp [Site.start]
  row := by simp [Site.start, Target.start]

theorem Rowed.relayed (h : s.Rowed crypto owner) (hsecret : s.Secret crypto owner password) (hsound : s.Sound)
    {a : RelayAction} {relay : Relay} (hr : s.relay.step crypto a = some relay) :
    Rowed crypto owner { s with relay := relay } := by
  have hkept : ∀ hash, (s.relay.registry.byOwner hash).isSome = true → (relay.registry.byOwner hash).isSome = true :=
    fun _ => (Relay.step_cases hr).row_kept hsecret.keyed
  exact ⟨h.owned.step hsecret.keyed hsound.sessions hr, fun c name hm hg => hkept _ (h.packets c name hm hg),
    fun hid => hkept _ (h.row hid)⟩

/-- Only the relay, the identity and what is on the way to the target count. -/
theorem Rowed.congr {t : Site} (h : s.Rowed crypto owner) (hr : t.relay = s.relay) (hg : t.greeting = s.greeting)
    (hid : t.target.identity.id ≠ none → s.target.identity.id ≠ none)
    (hdown : ∀ c name, .registered name ∈ t.down c → .registered name ∈ s.down c) : t.Rowed crypto owner := by
  refine ⟨hr ▸ h.owned, fun c name hm hgreet => ?_, fun hn => hr ▸ h.row (hid hn)⟩
  rw [hr]
  exact h.packets c name (hdown c name hm) (hg ▸ hgreet)

theorem Rowed.step (h : s.Rowed crypto owner) (hsecret : s.Secret crypto owner password) (hsound : s.Sound)
    (hs : s.step crypto action = some s') : s'.Rowed crypto owner := by
  have htail : ∀ {c : Nat} {packet : Packet} {rest : List Packet}, s.down c = packet :: rest →
      ∀ d name, .registered name ∈ Function.update s.down c rest d → .registered name ∈ s.down d := by
    intro c packet rest hd d name hm
    rw [Function.update_apply] at hm
    split at hm
    · rename_i he
      rw [he, hd]; exact List.mem_cons_of_mem _ hm
    · exact hm
  cases step_cases hs with
  | dialed c hc hu =>
      refine ⟨h.owned, fun d name hm hg => ?_, h.row⟩
      have hdc : d ≠ c := by
        rintro rfl
        rw [show s.down d = [] from hu.2.2.2] at hm; cases hm
      dsimp only at hg
      rw [Function.update_of_ne hdc] at hg
      exact h.packets d name hm hg
  | registered env drawn c name rest target hc hd ho ht =>
      have hrow := h.packets c name (by rw [hd]; exact List.mem_cons_self) (hsound.greeting c hc)
      exact ⟨h.owned, fun d n hm hg => h.packets d n (htail hd d n hm) hg, fun _ => hrow⟩
  | took env drawn c entry rest target hc hd ho ht =>
      refine h.congr rfl rfl (fun hn => ?_) (htail hd)
      rcases Target.read_cases ht with ⟨_, hq⟩ | ⟨_, _, _, _, _, hi⟩
      · exact hq.identity ▸ hn
      · obtain ⟨pending, _, hi⟩ := Identity.finishRotation_eq hi
        dsimp only at hn
        rw [hi] at hn
        exact hn
  | commanded env drawn target ho ht =>
      obtain ⟨_, hi, _⟩ := Target.rotate_requests ht
      refine h.congr rfl rfl (fun hn => ?_) fun _ _ hm => hm
      dsimp only at hn
      rwa [hi, (Identity.beginRotation_keeps drawn _).2.1] at hn
  | offline env drawn ho hc =>
      refine h.congr rfl rfl (fun hn => ?_) fun _ _ hm => hm
      have hn : (s.target.identity.beginRotation drawn).id ≠ none := hn
      rwa [(Identity.beginRotation_keeps drawn _).2.1] at hn
  | worked op target _ ht =>
      exact h.congr rfl rfl (fun hn => (Target.thread_quiet ht).identity ▸ hn) fun _ _ hm => hm
  | wrote now c message outbox outbox' hc ho ht => exact h.congr rfl rfl id fun _ _ hm => hm
  | lost env target hc ht =>
      obtain ⟨t, hthread, rfl⟩ := Option.map_eq_some_iff.mp ht
      exact h.congr rfl rfl (fun hn => (Target.thread_quiet hthread).identity ▸ hn) fun _ _ hm => hm
  | restarted =>
      have hv : s.target.restart.identity = s.target.identity := hsound.vault
      exact h.congr rfl rfl (fun hn => hv ▸ hn) fun _ _ hm => hm
  | greeted c hello relay hg hr => exact h.relayed hsecret hsound hr
  | received c message rest relay hup hr => exact (h.relayed hsecret hsound hr).congr rfl rfl id fun _ _ hm => hm
  | sent c p entry relay hp he hr =>
      refine (h.relayed hsecret hsound hr).congr rfl rfl id fun d name hm => ?_
      simp only [sendDown, Function.update_apply] at hm
      split at hm
      · rename_i hd
        subst hd
        simpa using hm
      · exact hm
  | replied c p relay hr hp =>
      have hrelayed := h.relayed hsecret hsound hr
      refine ⟨hrelayed.owned, fun d name hm hg => ?_, hrelayed.row⟩
      simp only [sendDown, Function.update_apply] at hm
      split at hm
      · rename_i hd
        subst hd
        rcases List.mem_append.mp hm with hm | hm
        · exact hrelayed.packets d name hm hg
        · -- the reply is for a target whose secret has been checked
          have hrole : p.role = .target := by
            by_contra hne
            rw [if_neg hne] at hm
            cases List.mem_singleton.mp hm
          obtain ⟨o, hst⟩ : ∃ o, relay.stage d = .serving o .idle := by
            have hr : s.relay.replied d = some relay := hr
            unfold Relay.replied at hr
            split at hr <;> cases hr
            exact ⟨_, by rw [Relay.stage_setStage, if_pos rfl]⟩
          have hknown := (hsecret.relayed hsound hr trivial).told d o (by dsimp only; rw [hst]; rfl)
          have ho : o = owner := by
            rcases hknown with ⟨q, hq, hrole'⟩ | hknows
            · cases hp.symm.trans hq
              rw [hrole] at hrole'; cases hrole'
            · dsimp only [sendDown] at hg
              rwa [Knows, if_pos hg] at hknows
          rcases hrelayed.owned d o (by dsimp only; rw [hst]; rfl) with ⟨q, hq, hrole'⟩ | hrow
          · cases hp.symm.trans hq
            rw [hrole] at hrole'; cases hrole'
          · exact ho ▸ hrow
      · exact hrelayed.packets d name hm hg
  | own a relay ha hr => exact h.relayed hsecret hsound hr
  | foreign a relay hf hr => exact h.relayed hsecret hsound hr

/-! ## The password -/

theorem journal_start (crypto : Crypto) (owner password : String) :
    (journal crypto password (start owner password)).Agrees := by
  have hrow : row crypto (start owner password) = none := rfl
  have hasks : ∀ x, ¬ Asks crypto (start owner password) x := by
    intro x hx
    cases hx with
    | outbox h => simp [Site.start, Target.start, Target.waiting] at h
    | link c h => simp [Site.start] at h
    | reader c h => cases h
    | thread o ho => simp [Site.start] at ho
  refine ⟨fun _ => ?_, fun _ x hx => absurd hx (hasks x), ?_, ?_, ?_, ?_⟩
  · show Accepts crypto password (row crypto (Site.start owner password)) password
    rw [hrow]; rfl
  all_goals exact fun x hx => by cases hx

/-- While `P` begins a change only when nothing is left of the changes before it, a target that knows its id has one row; the
row accepts the password, or, while a change is under way, the old one or the new one; and a reply that ends a change comes
only after the relay has committed that change. -/
theorem rotation_agrees (hu : Runs.Before (Site.step crypto) (start owner password) (Settled crypto) actions)
    (hs : run crypto (start owner password) actions = some s) :
    (s.target.vault.id ≠ none → ∃ row ∈ s.relay.registry.rows, row.ownerHash = crypto.digest s.target.vault.ownerSecret) ∧
    ∀ row ∈ s.relay.registry.rows, row.ownerHash = crypto.digest s.target.vault.ownerSecret →
      (s.target.vault.pending = none → row.passwordHash = crypto.passwordHash s.target.vault.password row.salt) ∧
      ∀ pending, s.target.vault.pending = some pending →
        (row.passwordHash = crypto.passwordHash s.target.vault.password row.salt ∨
          row.passwordHash = crypto.passwordHash pending.1 row.salt) ∧
        ∀ c g rest, s.targetConn = some c → s.down c = .message g :: rest → g.message.isRotated = true →
          row.rotationId = some pending.2 := by
  obtain ⟨hsound, hsecret, hrowed, hagrees⟩ :
      s.Sound ∧ s.Secret crypto owner password ∧ s.Rowed crypto owner ∧ (s.journal crypto password).Agrees := by
    refine hu.invariant
      (I := fun s => s.Sound ∧ s.Secret crypto owner password ∧ s.Rowed crypto owner ∧ (s.journal crypto password).Agrees)
      ⟨.start owner password, .start crypto owner password, .start crypto owner password,
        journal_start crypto owner password⟩
      (fun t a t' h ha ht => ?_) hs
    obtain ⟨h1, h2, h3, h4⟩ := h
    exact ⟨h1.step ht, h2.step h1 ht, h3.step h2 h1 ht, h4.step (journal_step h2 h1 ha ht)⟩
  rw [hsound.vault, hsecret.secret]
  constructor
  · intro hid
    obtain ⟨row, hrow⟩ := Option.isSome_iff_exists.mp (hrowed.row hid)
    exact ⟨row, (Registry.byOwner_mem hrow).1, (Registry.byOwner_mem hrow).2⟩
  · intro row hm ho
    have hrow : s.row crypto = some row := by
      unfold Site.row
      rw [hsecret.secret]
      exact hsecret.keyed.byOwner_iff.mpr ⟨hm, ho⟩
    have haccepts : ∀ v, (s.journal crypto password).accepts v → row.passwordHash = crypto.passwordHash v row.salt := by
      intro v hv
      have hv : Accepts crypto password (s.row crypto) v := hv
      rwa [hrow] at hv
    have hlast : (s.journal crypto password).last = row.rotationId := congrArg (·.bind Row.rotationId) hrow
    refine ⟨fun hn => haccepts _ (hagrees.settled hn), fun pending hp => ⟨?_, fun c g rest hc hd hg => ?_⟩⟩
    · by_cases hdone : row.rotationId = some pending.2
      · exact .inr (haccepts _ (hagrees.after pending hp (hlast.trans hdone)))
      · exact .inl (haccepts _ (hagrees.before pending hp (hlast ▸ hdone)))
    · have hreplied : s.Replied := ⟨c, hc, .inr ⟨.message g, by rw [hd]; exact List.mem_cons_self, hg⟩⟩
      exact hlast.symm.trans (hagrees.replied pending hp hreplied)

/-! ## One change, and a reply that comes late -/

/-- Only `dial` gives a connection to the target. -/
theorem run_greeting {c : Nat} (hs : run crypto s actions = some s') (hg : s.greeting c = none)
    (hd : ∀ action ∈ actions, action ≠ .dial c) : s'.greeting c = none := by
  have hbefore : Runs.Before (Site.step crypto) s (fun _ action => action ≠ .dial c) actions :=
    Runs.before_of_forall fun a ha _ => hd a ha
  refine hbefore.invariant (I := fun s => s.greeting c = none) hg (fun t a t' h ha ht => ?_) hs
  cases step_cases ht with
  | dialed d =>
      have hne : c ≠ d := fun he => ha (he ▸ rfl)
      dsimp only
      rwa [Function.update_of_ne hne]
  | _ => exact h

/-- After the target has joined, nothing is left of a change. -/
theorem joined_settled (hs : run Relay.plain sample (joins 0) = some s) : s.Settled Relay.plain press := by
  intro _
  have hinv : s.Sound ∧ s.Secret Relay.plain Relay.sampleOwner Relay.samplePassword := by
    refine Runs.invariant (I := fun s => s.Sound ∧ s.Secret Relay.plain Relay.sampleOwner Relay.samplePassword)
      ⟨.start .., .start ..⟩ (fun t a t' h ht => ⟨h.1.step ht, h.2.step h.1 ht⟩) hs
  have hother : ∀ c ≠ 0, s.greeting c = none := fun c hc => run_greeting hs rfl (by simp [joins, Ne.symm hc])
  have hasks : ((run Relay.plain sample (joins 0)).map fun s => (s.target.waiting, s.up 0, (s.relay.stage 0).rotation,
      s.relay.orphans)) = some ([], [], none, []) := by decide +kernel
  have hreplied : ((run Relay.plain sample (joins 0)).map fun s => (s.targetConn, (s.relay.stage 0).committed,
      s.relay.replies 0, s.down 0)) = some (some 0, false, 0, []) := by decide +kernel
  have hlast : ((run Relay.plain sample (joins 0)).map fun s => (s.row Relay.plain).bind Row.rotationId) = some none := by
    decide +kernel
  rw [hs, Option.map_some, Option.some.injEq] at hasks hreplied hlast
  simp only [Prod.mk.injEq] at hasks hreplied
  obtain ⟨hwait, hup, hrot, horphans⟩ := hasks
  obtain ⟨hconn, hcommitted, hreplies, hdown⟩ := hreplied
  refine ⟨fun x hx => ?_, ?_, by rw [hlast]; simp⟩
  · cases hx with
    | outbox h => rw [hwait] at h; cases h
    | link c h =>
        by_cases hc : c = 0
        · rw [hc, hup] at h; cases h
        · rw [hinv.2.silent c (hother c hc)] at h; cases h
    | reader c h hg =>
        by_cases hc : c = 0
        · rw [hc, hrot] at h; cases h
        · rw [hother c hc] at hg; cases hg
    | thread o ho => rw [horphans] at ho; cases ho
  · rintro ⟨c, hc, h⟩
    obtain rfl : 0 = c := Option.some.inj (hconn.symm.trans hc)
    rcases h with (h | h) | ⟨packet, hp, _⟩
    · rw [hcommitted] at h; cases h
    · rw [hreplies] at h; cases h
    · rw [hdown] at hp; cases hp

/-- The target changes its password once, and hears so. -/
def changed : List SiteAction := joins 0 ++ press :: .write 0 :: rotates 0 ++ [.read calm ("", "")]

theorem rotation_agrees_changed : ∃ s, run Relay.plain sample changed = some s ∧ s.target.vault.pending = none ∧
    s.target.vault.password = Relay.samplePassword' ∧
    ∃ row ∈ s.relay.registry.rows, row.passwordHash = Relay.plain.passwordHash Relay.samplePassword' row.salt := by
  obtain ⟨s, hs⟩ := Option.isSome_iff_exists.mp (show (run Relay.plain sample changed).isSome = true by decide +kernel)
  have hstate : ((run Relay.plain sample changed).map fun s => (s.target.vault.pending, s.target.vault.password,
      s.target.vault.id)) = some (none, Relay.samplePassword', some "TARGET-001") := by decide +kernel
  rw [hs, Option.map_some, Option.some.injEq] at hstate
  simp only [Prod.mk.injEq] at hstate
  obtain ⟨hpending, hpassword, hid⟩ := hstate
  have hu : Runs.Before (Site.step Relay.plain) sample (Settled Relay.plain) changed := by
    refine Runs.before_append.mpr ⟨Runs.before_append.mpr ⟨?_, fun t ht => ?_⟩, fun t _ => ?_⟩
    · exact Runs.before_of_forall (by simp [joins, Settled])
    · exact Runs.before_cons.mpr ⟨joined_settled ht, fun _ _ => Runs.before_of_forall (by simp [rotates, Settled])⟩
    · exact Runs.before_of_forall (by simp [Settled])
  obtain ⟨hrow, hagree⟩ := rotation_agrees hu hs
  obtain ⟨row, hm, ho⟩ := hrow (by rw [hid]; simp)
  exact ⟨s, hs, hpending, hpassword, row, hm, by rw [← hpassword]; exact (hagree row hm ho).1 hpending⟩

def thirdPassword : String := "third-third-third-third-third"

/-- `P` is pressed twice, and again after the first of the two replies. The second reply ends the new change. -/
def lateReply : List SiteAction :=
  joins 0 ++ [press, press, .write 0, .write 0] ++ rotates 0 ++ rotates 0 ++
    [.read calm ("", ""), .command calm (thirdPassword, thirdPassword), .read calm ("", "")]

theorem late_reply_disagrees : ∃ s, run Relay.plain sample lateReply = some s ∧ s.target.vault.id = some "TARGET-001" ∧
    s.target.vault.pending = none ∧ ∃ row, s.relay.registry.rows = [row] ∧
      row.passwordHash ≠ Relay.plain.passwordHash s.target.vault.password row.salt ∧
      row.rotationId ≠ some thirdPassword := by
  obtain ⟨s, hs⟩ := Option.isSome_iff_exists.mp (show (run Relay.plain sample lateReply).isSome = true by decide +kernel)
  have hstate : ((run Relay.plain sample lateReply).map fun s => (s.target.vault.id, s.target.vault.pending,
      s.target.vault.password, s.relay.registry.rows)) = some (some "TARGET-001", none, thirdPassword,
        [⟨1, Relay.sampleOwner, "pepper", Relay.samplePassword' ++ "pepper", 2, some Relay.samplePassword'⟩]) := by
    decide +kernel
  rw [hs, Option.map_some, Option.some.injEq] at hstate
  simp only [Prod.mk.injEq] at hstate
  obtain ⟨hid, hpending, hpassword, hrows⟩ := hstate
  refine ⟨s, hs, hid, hpending, _, hrows, ?_, by decide⟩
  rw [hpassword]
  decide

end Site

end RemoteInput
