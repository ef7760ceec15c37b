import RemoteInput.System.Lemmas.Flow

/-!
# The answers of the target on their way to a controller
-/

namespace RemoteInput

theorem Relay.outbound_activated {m : Message} {e : Nat} (h : Relay.outbound m = some (.activated e)) :
    m = .activated e := by
  cases m <;> simp only [Relay.outbound, Option.ite_none_right_eq_some, reduceCtorEq, Option.some.injEq, and_false] at h
  obtain ⟨-, h⟩ := h
  exact h

namespace Site

variable {crypto : Crypto} {s s' : Site} {action : SiteAction}

/-- Wherever it is said that an epoch is active, the target has activated it. -/
structure Honest (s : Site) : Prop where
  speaks : s.target.Speaks
  up : ∀ c e, .activated e ∈ s.up c → Heard e s.target.done
  queued : ∀ c, ∀ entry ∈ s.relay.logOf c, ∀ e, entry.message = .activated e → Heard e s.target.done
  down : ∀ c entry, .message entry ∈ s.down c → ∀ e, entry.message = .activated e → Heard e s.target.done

theorem Honest.start (owner password : String) : (start owner password).Honest where
  speaks := .offline rfl
  up := by simp [Site.start]
  queued := by simp [Site.start, Relay.logOf]
  down := by simp [Site.start]

/-- The relay acts; what it takes comes from a link. -/
theorem Honest.relayed (h : s.Honest) (hsound : s.Sound) {a : RelayAction} {relay : Relay}
    (hr : s.relay.step crypto a = some relay) (ha : ∀ c m, a = .receive c (some m) → m ∈ s.up c) :
    Honest { s with relay := relay } := by
  refine ⟨h.speaks, h.up, fun c entry he e hm => ?_, h.down⟩
  rcases (Relay.step_cases hr).logs hsound.sessions hsound.rotations c with hl | ⟨x, hx, hl⟩
  · exact h.queued c entry (hl ▸ he) e hm
  · dsimp only at he
    rw [hl, List.mem_append, List.mem_singleton] at he
    rcases he with he | rfl
    · exact h.queued c entry he e hm
    · cases hx with
      | joined _ _ _ _ he | gone _ _ _ _ he | rotated _ _ _ _ _ _ he | frame _ _ _ _ _ _ he => subst he; cases hm
      | outbound name t m m' _ hout ht he =>
          subst he
          dsimp only at hm
          subst hm
          rw [Relay.outbound_activated hout] at ht
          exact h.up t e (ha t _ ht)

theorem Honest.sendDown (h : s.Honest) (c : Nat) {packet : Packet}
    (hp : ∀ entry, packet = .message entry → ∀ e, entry.message = .activated e → Heard e s.target.done) :
    (s.sendDown c packet).Honest := by
  refine ⟨h.speaks, h.up, h.queued, fun d entry he e hm => ?_⟩
  simp only [Site.sendDown, Function.update_apply] at he
  split at he
  · rcases List.mem_append.mp he with he | he
    · exact h.down c entry he e hm
    · exact hp entry (List.mem_singleton.mp he).symm e hm
  · exact h.down d entry he e hm

/-- The target goes on, and takes what is left of the links. -/
theorem Honest.goesOn (h : s.Honest) {target : Target} (hs : target.Speaks) (hd : s.target.done <+: target.done)
    {down : Nat → List Packet} (hdown : ∀ c, down c ⊆ s.down c) {t : Site} (hrelay : t.relay = s.relay) (hup : t.up = s.up)
    (ht : t.target = target) (hdown' : t.down = down) : t.Honest := by
  refine ⟨ht ▸ hs, fun c e he => ?_, fun c entry he e hm => ?_, fun c entry he e hm => ?_⟩
  · rw [ht]; exact (h.up c e (hup ▸ he)).mono hd
  · rw [ht]; exact (h.queued c entry (hrelay ▸ he) e hm).mono hd
  · rw [ht]; exact (h.down c entry (hdown c (hdown' ▸ he)) e hm).mono hd

theorem Honest.works (h : s.Honest) {target : Target} (hw : Target.Works s.target target) (conn : Option Nat) :
    Honest { s with target := target, targetConn := conn } :=
  h.goesOn (h.speaks.works hw) hw.done (fun _ => List.Subset.refl _) rfl rfl rfl rfl

theorem pop_subset {down : Nat → List Packet} {c : Nat} {packet : Packet} {rest : List Packet} (hd : down c = packet :: rest)
    (d : Nat) : Function.update down c rest d ⊆ down d := by
  by_cases hdc : d = c
  · subst hdc
    rw [Function.update_self, hd]
    exact List.subset_cons_self _ _
  · rw [Function.update_of_ne hdc]
    exact List.Subset.refl _

theorem Honest.step (h : s.Honest) (hsound : s.Sound) (ha : ∀ a, action ≠ .stranger a)
    (hs : s.step crypto action = some s') :
    s'.Honest := by
  cases step_cases hs with
  | dialed c hc hu => exact ⟨h.speaks, h.up, h.queued, h.down⟩
  | registered env drawn c name rest target hc hd ho ht =>
      have hw := Target.registered_works ht
      exact h.goesOn (h.speaks.works hw) hw.done (pop_subset hd) rfl rfl rfl rfl
  | took env drawn c entry rest target hc hd ho ht =>
      rcases Target.read_works ht with ⟨event, hm, hrot, hop⟩ | ⟨-, hw⟩
      · have hspeaks : ({ s.target with passed := s.target.passed ++ [entry] } : Target).Speaks :=
          ⟨h.speaks.plain, h.speaks.heard⟩
        have hdone : s.target.done <+: target.done := by rw [hop.done]; exact List.prefix_append _ _
        exact h.goesOn (hspeaks.operates hop) hdone (pop_subset hd) rfl rfl rfl rfl
      · exact h.goesOn (h.speaks.works hw) hw.done (pop_subset hd) rfl rfl rfl rfl
  | commanded env drawn target ho ht => exact h.works (Target.rotate_works ht) s.targetConn
  | offline env drawn ho hc => exact h.works (Target.rotateOffline_works drawn s.target) s.targetConn
  | worked op target hop ht => exact h.works (Target.thread_works hop ht) s.targetConn
  | wrote now c message outbox outbox' hc ho ht =>
      obtain ⟨-, -, hw⟩ := Outbox.take_eq ht
      have hwaiting : s.target.waiting = message :: outbox'.waiting := by rw [Target.waiting, ho, ← hw]; rfl
      have hspeaks : ({ s.target with outbox := some outbox' } : Target).Speaks := by
        refine ⟨fun m hm => h.speaks.plain m ?_, fun e he => h.speaks.heard e ?_⟩ <;> rw [hwaiting]
        · exact List.mem_cons_of_mem _ hm
        · exact List.mem_cons_of_mem _ he
      refine ⟨hspeaks, fun d e he => ?_, h.queued, h.down⟩
      simp only [Site.sendUp, Function.update_apply] at he
      split at he
      · rcases List.mem_append.mp he with he | he
        · exact h.up c e he
        · refine h.speaks.heard e ?_
          rw [hwaiting, List.mem_singleton.mp he]
          exact List.mem_cons_self
      · exact h.up d e he
  | lost env target hc ht => exact h.works (Target.disconnect_works ht) none
  | restarted =>
      have hspeaks : s.target.restart.Speaks := .offline rfl
      exact h.goesOn hspeaks (List.prefix_refl _) (fun _ => List.Subset.refl _) rfl rfl rfl rfl
  | greeted c hello relay hg hr => exact h.relayed hsound hr (by simp)
  | received c message rest relay hu hr =>
      have hmem : ∀ d m, RelayAction.receive c (some message) = .receive d (some m) → m ∈ s.up d := by
        intro d m he
        cases he
        rw [hu]
        exact List.mem_cons_self
      obtain ⟨h1, h2, h3, h4⟩ := h.relayed hsound hr hmem
      refine ⟨h1, fun d e he => h2 d e ?_, h3, h4⟩
      dsimp only at he ⊢
      by_cases hdc : d = c
      · subst hdc
        rw [Function.update_self] at he
        rw [hu]
        exact List.mem_cons_of_mem _ he
      · rwa [Function.update_of_ne hdc] at he
  | replied c p relay hr hp =>
      refine (h.relayed hsound hr (by simp)).sendDown c fun entry he => ?_
      split at he <;> cases he
  | sent c p entry relay hp he hr =>
      refine (h.relayed hsound hr (by simp)).sendDown c fun x hx e hm => ?_
      cases hx
      refine h.queued c entry ?_ e hm
      rw [Relay.logOf_peer hp]
      exact List.mem_append_right _ (List.mem_of_head? he)
  | own a relay hclient hr =>
      refine h.relayed hsound hr ?_
      rintro c m rfl
      cases hclient
  | foreign a relay hf hr => exact absurd rfl (ha a)

end Site

end RemoteInput
