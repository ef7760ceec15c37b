import RemoteInput.Relay.Lemmas.Owners
import RemoteInput.Relay.Server

/-!
# What the relay holds for its clients
-/

namespace RemoteInput

namespace Relay

variable {crypto : Crypto} {r r' : Relay} {action : RelayAction}

/-! ## One handler at a time -/

/-- A message is put on a queue, or something else happens: the handlers stay where they are. -/
theorem putOn_getD_stage {q : Relay} (d : Nat) (entry : Entry) (hq : q.stage = r.stage) :
    ((r.putOn d entry).getD q).stage = r.stage := by
  cases h : r.putOn d entry with
  | none => exact hq
  | some t => exact funext (putOn_stage h)

theorem detachPeer_stage (r : Relay) (c : Nat) (p : Peer) : (r.detachPeer c p).stage = r.stage := by
  unfold detachPeer
  split
  · split <;> rfl
  · split
    · dsimp only
      split
      · exact putOn_getD_stage _ _ rfl
      · rfl
    · rfl

/-- Only the handler `c` has moved. -/
def Only (r r' : Relay) (c : Nat) : Prop := ∀ d, d ≠ c → r'.stage d = r.stage d

theorem only_setStage {q : Relay} (hq : q.stage = r.stage) (c : Nat) (st : Stage) : Only r (q.setStage c st) c := by
  intro d hd
  rw [stage_setStage, if_neg hd, hq]

theorem only_of_stage (h : r'.stage = r.stage) (c : Nat) : Only r r' c := fun d _ => congrFun h d

theorem fromController_only (r : Relay) (c : Nat) (p : Peer) (message : Option Message) :
    Only r (r.fromController c p message) c := by
  unfold fromController
  split
  · split
    · exact only_setStage rfl _ _
    · split
      · exact only_setStage rfl _ _
      · rename_i t _ _
        cases h : r.putOn t ⟨.frame _, some c⟩ with
        | none => exact only_setStage rfl _ _
        | some q => exact only_of_stage (funext (putOn_stage h)) c
  · exact only_setStage rfl _ _

theorem fromTarget_only (r : Relay) (c : Nat) (p : Peer) (owner : String) (message : Option Message) :
    Only r (r.fromTarget c p owner message) c := by
  unfold fromTarget
  split
  · split
    · exact only_setStage rfl _ _
    · exact only_setStage rfl _ _
  · split
    · exact only_setStage rfl _ _
    · split
      · exact only_of_stage rfl c
      · rename_i m _ _ d _
        cases h : r.putOn d ⟨m, some c⟩ with
        | none => exact only_setStage rfl _ _
        | some q => exact only_of_stage (funext (putOn_stage h)) c

theorem transaction_only {c : Nat} {salt : String} (h : r.transaction crypto c salt = some r') : Only r r' c := by
  unfold transaction at h
  split at h
  · split at h <;> cases h <;> exact only_setStage rfl _ _
  · split at h <;> cases h <;> exact only_setStage rfl _ _
  · cases h
    exact only_setStage rfl _ _
  · split at h <;> cases h <;> exact only_setStage rfl _ _
  · cases h
    exact only_setStage rfl _ _
  · obtain ⟨p, -, he⟩ := Option.map_eq_some_iff.mp h
    split at he <;> cases he
    · exact only_setStage (q := r) rfl _ _
    · exact only_setStage rfl _ _
  · cases h

theorem admission_only {c : Nat} (h : r.admission c = some r') : Only r r' c := by
  unfold admission at h
  split at h
  · split at h
    · cases h
      exact only_setStage rfl _ _
    · split at h
      · cases h
        exact only_setStage rfl _ _
      · split at h
        · cases h
          exact only_setStage rfl _ _
        · dsimp only at h
          split at h
          · rename_i q hq
            cases h
            exact only_setStage (funext (putOn_stage hq)) _ _
          · cases h
            exact only_setStage rfl _ _
  · cases h

theorem complete_only {c : Nat} (h : r.complete c = some r') : Only r r' c := by
  unfold complete at h
  split at h
  · dsimp only at h
    split at h
    · rename_i q hq
      cases h
      exact only_setStage (funext (putOn_stage hq)) _ _
    · cases h
      exact only_setStage rfl _ _
  · cases h

theorem acquire_only {c : Nat} (h : r.acquire c = some r') : Only r r' c := by
  unfold acquire at h
  split at h
  · cases h
  split at h
  · split at h <;> cases h <;> exact only_setStage rfl _ _
  · cases h
    exact only_setStage rfl _ _
  · cases h
    exact only_setStage rfl _ _
  · cases h

theorem fail_only {c : Nat} {running : Bool} (h : r.fail c running = some r') : Only r r' c := by
  unfold fail at h
  split at h <;> cases h <;> exact only_setStage (q := r) rfl _ _

/-- An action moves only the handler that it is of. -/
theorem step_other (h : r.step crypto action = some r') {d : Nat} (hd : d ∉ action.handler) : r'.stage d = r.stage d := by
  have hne : ∀ c, action.handler = some c → d ≠ c := by
    rintro c hc rfl
    exact hd hc
  cases action with
  | hello c message =>
      simp only [step, hello] at h
      split at h <;> cases h
      exact only_setStage rfl _ _ d (hne c rfl)
  | refuse c =>
      simp only [step, refuse] at h
      split at h <;> cases h <;> exact only_setStage (q := r) rfl _ _ d (hne c rfl)
  | transaction c salt => exact transaction_only h d (hne c rfl)
  | acquire c => exact acquire_only h d (hne c rfl)
  | admission c => exact admission_only h d (hne c rfl)
  | rejected c =>
      simp only [step, rejected] at h
      split at h <;> cases h
      exact only_setStage (q := r) rfl _ _ d (hne c rfl)
  | replied c =>
      simp only [step, replied] at h
      split at h <;> cases h
      exact only_setStage rfl _ _ d (hne c rfl)
  | receive c message =>
      simp only [step, receive] at h
      split at h
      · split at h <;> cases h
        · exact fromController_only _ _ _ _ d (hne c rfl)
        · exact fromTarget_only _ _ _ _ _ d (hne c rfl)
      · cases h
  | complete c => exact complete_only h d (hne c rfl)
  | write c =>
      simp only [step, write] at h
      split at h
      · split at h <;> cases h
        rfl
      · split at h <;> cases h
        rfl
      · cases h
  | fail c running => exact fail_only h d (hne c rfl)
  | detach c =>
      simp only [step, detach] at h
      split at h
      · cases h
        exact only_setStage (detachPeer_stage _ _ _) _ _ d (hne c rfl)
      · cases h
  | orphan i salt =>
      obtain ⟨o, -, he⟩ := Option.map_eq_some_iff.mp h
      dsimp only at he
      split at he <;> cases he <;> rfl

/-! ## The lock and the maps -/

/-- The lock is held by a handler that will give it back, and the maps lead to handlers that will detach their peer. -/
structure Kept (r : Relay) : Prop where
  holder : ∀ c, r.pairLock = some c → (r.stage c).locked = true
  target : ∀ n t, r.targets n = some t → (r.stage t).attached = true
  controller : ∀ n c, r.controllers n = some c → (r.stage c).attached = true

theorem kept_start (registry : Registry) : Kept { registry := registry } := by
  constructor <;> simp

theorem Kept.congr (h : r.Kept) (h1 : r'.pairLock = r.pairLock) (h2 : r'.stage = r.stage) (h3 : r'.targets = r.targets)
    (h4 : r'.controllers = r.controllers) : r'.Kept := by
  constructor
  · rw [h1, h2]; exact h.holder
  · rw [h2, h3]; exact h.target
  · rw [h2, h4]; exact h.controller

theorem Kept.putOn (h : r.Kept) {q : Relay} {d : Nat} {entry : Entry} (hq : r.putOn d entry = some q) : q.Kept := by
  obtain ⟨p, -, rfl⟩ := putOn_eq hq
  exact h.congr rfl rfl rfl rfl

/-- One handler goes on, and takes the lock, gives it back or leaves it. -/
theorem Kept.moves (h : r.Kept) (c : Nat) (st : Stage) (lock : Option Nat)
    (hlock : ∀ d, lock = some d → (d = c ∧ st.locked = true) ∨ (d ≠ c ∧ r.pairLock = some d))
    (hatt : (r.stage c).attached = true → st.attached = true) : { r.setStage c st with pairLock := lock }.Kept := by
  have hstage : ∀ t, (r.stage t).attached = true → ((r.setStage c st).stage t).attached = true := by
    intro t ht
    by_cases htc : t = c
    · subst htc; simpa [stage_setStage] using hatt ht
    · simpa [stage_setStage, htc] using ht
  constructor
  · intro d hd
    show ((r.setStage c st).stage d).locked = true
    rcases hlock d hd with ⟨rfl, hl⟩ | ⟨hne, hd⟩
    · simpa [stage_setStage] using hl
    · simpa [stage_setStage, hne] using h.holder d hd
  · exact fun n t ht => hstage t (h.target n t ht)
  · exact fun n d hd => hstage d (h.controller n d hd)

/-- The maps change, and new entries lead to handlers with a peer. -/
theorem Kept.maps (h : r.Kept) (targets controllers : String → Option Nat)
    (ht : ∀ n t, targets n = some t → r.targets n = some t ∨ (r.stage t).attached = true)
    (hc : ∀ n c, controllers n = some c → r.controllers n = some c ∨ (r.stage c).attached = true) :
    { r with targets := targets, controllers := controllers }.Kept where
  holder := h.holder
  target n t hn := (ht n t hn).elim (h.target n t) id
  controller n c hn := (hc n c hn).elim (h.controller n c) id

/-- A lock that nobody takes. -/
theorem Kept.stays (h : r.Kept) {c : Nat} {st : Stage} (hl : st.locked = (r.stage c).locked) :
    ∀ d, r.pairLock = some d → (d = c ∧ st.locked = true) ∨ (d ≠ c ∧ r.pairLock = some d) := by
  intro d hd
  by_cases hdc : d = c
  · subst hdc
    exact .inl ⟨rfl, hl.trans (h.holder d hd)⟩
  · exact .inr ⟨hdc, hd⟩

/-- A handler leaves that is in neither map. -/
theorem Kept.leaves (h : r.Kept) {c : Nat} (hs : r.stage c = .closing) (ht : ∀ n, r.targets n ≠ some c)
    (hc : ∀ n, r.controllers n ≠ some c) : (r.setStage c .closed).Kept := by
  constructor
  · intro d hd
    have hl := h.holder d hd
    by_cases hdc : d = c
    · subst hdc; rw [hs] at hl; cases hl
    · simpa [stage_setStage, hdc] using hl
  · intro n t hn
    have hne : t ≠ c := fun he => ht n (he ▸ hn)
    simpa [stage_setStage, hne] using h.target n t hn
  · intro n d hn
    have hne : d ≠ c := fun he => hc n (he ▸ hn)
    simpa [stage_setStage, hne] using h.controller n d hn

theorem update_none {m : String → Option Nat} {name n : String} {c : Nat} (h : Function.update m name none n = some c) :
    n ≠ name ∧ m n = some c := by
  by_cases hn : n = name
  · subst hn; simp at h
  · exact ⟨hn, by simpa [hn] using h⟩

theorem update_some {m : String → Option Nat} {name : String} {c : Nat} {P : Nat → Prop} (hc : P c) :
    ∀ n d, Function.update m name (some c) n = some d → m n = some d ∨ P d := by
  intro n d hd
  by_cases hn : n = name
  · subst hn
    cases (show some c = some d by simpa using hd)
    exact .inr hc
  · exact .inl (by simpa [hn] using hd)

/-- The entries of a peer are under its name. -/
theorem Sessions.target_name (hses : r.Sessions) {c : Nat} {p : Peer} (hp : r.peer c = some p) {n : String}
    (hn : r.targets n = some c) : p.role = .target ∧ n = p.name := by
  obtain ⟨p', hp', hrole, hname⟩ := hses.target n c hn
  cases hp.symm.trans hp'
  exact ⟨hrole, hname.symm⟩

theorem Sessions.controller_name (hses : r.Sessions) {c : Nat} {p : Peer} (hp : r.peer c = some p) {n : String}
    (hn : r.controllers n = some c) : p.role = .controller ∧ n = p.name := by
  obtain ⟨p', hp', hrole, hname⟩ := hses.controller n c hn
  cases hp.symm.trans hp'
  exact ⟨hrole, hname.symm⟩

theorem Kept.step (h : r.Kept) (hses : r.Sessions) (hstep : StepCase crypto r action r') : r'.Kept := by
  cases hstep with
  | idle => exact h
  | moved c st hm => exact h.moves c st r.pairLock (h.stays hm.locked) (fun ha => hm.attached.trans ha)
  | inserted c owner password salt hs =>
      exact (h.moves c (.waitingTarget _ _ owner) r.pairLock (h.stays (by rw [hs]; rfl))
        (by rw [hs]; simp [Stage.attached])).congr rfl rfl rfl rfl
  | locked c st hfree hl hactive hatt =>
      refine (h.moves c st (some c) ?_ (fun ha => hatt.trans ha)).congr rfl rfl rfl rfl
      intro d hd
      cases hd
      exact .inl ⟨rfl, hl⟩
  | unlocked c st orphans hold hl hactive hatt =>
      exact (h.moves c st none (by simp) (fun ha => hatt.trans ha)).congr rfl rfl rfl rfl
  | targetIn c name g owner hfree hs hn =>
      have hmoved := h.moves c (.replying owner) r.pairLock (h.stays (by rw [hs]; rfl)) (fun _ => rfl)
      exact (hmoved.maps (Function.update r.targets name (some c)) r.controllers
        (update_some (by simp [setStage, Stage.attached]))
        (fun _ _ h => .inl h)).congr rfl rfl rfl rfl
  | controllerIn c name g t hs ht hn q hq =>
      have hmoved := h.moves c (.replying "") none (by simp) (fun _ => rfl)
      have hin := hmoved.maps r.targets (Function.update r.controllers name (some c)) (fun _ _ h => .inl h)
        (update_some (by simp [setStage, Stage.attached]))
      obtain ⟨p, hp, rfl⟩ := putOn_eq hq
      exact hin.congr rfl rfl rfl rfl
  | controllerFull c name g t hs ht hn =>
      have hmoved := h.moves c .closing none (by simp) (fun _ => rfl)
      exact (hmoved.maps r.targets (Function.update r.controllers name (some c)) (fun _ _ h => .inl h)
        (update_some (by simp [setStage, Stage.attached]))).congr rfl rfl rfl rfl
  | frame c p o event t hs hp hrole ht hc q hq => exact h.putOn hq
  | outbound c p o m m' d hs hp hrole hd hm q hq => exact h.putOn hq
  | committed c p o password rotationId salt g registry hs hp hr =>
      exact (h.moves c (.serving o (.committed g)) r.pairLock (h.stays (by rw [hs]; rfl)) (fun _ => rfl)).congr
        rfl rfl rfl rfl
  | completed c p o g hs hp q hq =>
      have hmoved := h.moves c (.serving o .idle) none (by simp) (fun _ => rfl)
      obtain ⟨p', hp', rfl⟩ := putOn_eq hq
      exact (hmoved.maps r.targets (Function.update r.controllers p.name none) (fun _ _ h => .inl h)
        (fun _ _ h => .inl (update_none h).2)).congr rfl rfl rfl rfl
  | completedFull c p o g hs hp =>
      have hmoved := h.moves c .closing none (by simp) (fun _ => rfl)
      exact (hmoved.maps r.targets (Function.update r.controllers p.name none) (fun _ _ h => .inl h)
        (fun _ _ h => .inl (update_none h).2)).congr rfl rfl rfl rfl
  | wrote c p entry rest hp ho => exact h.congr rfl rfl rfl rfl
  | targetOut c p hs hp hrole ht =>
      have hout := h.maps (Function.update r.targets p.name none) (Function.update r.controllers p.name none)
        (fun _ _ h => .inl (update_none h).2) (fun _ _ h => .inl (update_none h).2)
      refine hout.leaves hs ?_ ?_
      · intro n hn
        obtain ⟨hne, hn⟩ := update_none hn
        exact hne (hses.target_name hp hn).2
      · intro n hn
        obtain ⟨hne, hn⟩ := update_none hn
        exact hne (hses.controller_name hp hn).2
  | controllerOut c p hs hp hrole hc =>
      have hout := h.maps r.targets (Function.update r.controllers p.name none) (fun _ _ h => .inl h)
        (fun _ _ h => .inl (update_none h).2)
      refine hout.leaves hs ?_ ?_
      · intro n hn
        have := (hses.target_name hp hn).1
        rw [hrole] at this
        cases this
      · intro n hn
        obtain ⟨hne, hn⟩ := update_none hn
        exact hne (hses.controller_name hp hn).2
  | controllerGone c p t hs hp hrole hc ht q hq =>
      have hout := h.maps r.targets (Function.update r.controllers p.name none) (fun _ _ h => .inl h)
        (fun _ _ h => .inl (update_none h).2)
      obtain ⟨p', hp', rfl⟩ := putOn_eq hq
      refine (hout.leaves hs ?_ ?_).congr rfl rfl rfl rfl
      · intro n hn
        have := (hses.target_name hp hn).1
        rw [hrole] at this
        cases this
      · intro n hn
        obtain ⟨hne, hn⟩ := update_none hn
        exact hne (hses.controller_name hp hn).2
  | detached c p hs hp ht hc =>
      refine h.leaves hs ?_ ?_
      · intro n hn
        obtain ⟨hrole, rfl⟩ := hses.target_name hp hn
        exact ht hrole hn
      · intro n hn
        obtain ⟨hrole, rfl⟩ := hses.controller_name hp hn
        exact hc hrole hn
  | orphaned => exact h.congr rfl rfl rfl rfl
  | orphanEnded => exact h.congr rfl rfl rfl rfl

/-! ## The queues -/

/-- Every queue has its bound. -/
def Small (r : Relay) : Prop := ∀ c p, r.peer c = some p → p.out.length ≤ outCapacity

theorem Small.congr (h : r.Small) (hp : r'.peer = r.peer) : r'.Small := by
  unfold Small
  rw [hp]
  exact h

theorem Small.setPeer (h : r.Small) {c : Nat} {p : Peer} (hp : p.out.length ≤ outCapacity) : (r.setPeer c p).Small := by
  intro d q hq
  by_cases hd : d = c
  · subst hd
    cases (show some p = some q by simpa [Relay.setPeer] using hq)
    exact hp
  · exact h d q (by simpa [Relay.setPeer, hd] using hq)

theorem Small.putOn (h : r.Small) {q : Relay} {d : Nat} {entry : Entry} (hq : r.putOn d entry = some q) : q.Small := by
  obtain ⟨p, hp, hq⟩ := Option.bind_eq_some_iff.mp hq
  obtain ⟨p', hput, rfl⟩ := Option.map_eq_some_iff.mp hq
  unfold Peer.put at hput
  split at hput <;> cases hput
  rename_i hlen
  refine h.setPeer ?_
  simp only [Peer.enqueue, List.length_append, List.length_cons, List.length_nil]
  omega

theorem Small.step (h : r.Small) (hstep : StepCase crypto r action r') : r'.Small := by
  cases hstep with
  | idle | orphaned | orphanEnded => exact h.congr rfl
  | moved | inserted | locked | unlocked | committed | targetOut | controllerOut | detached => exact h.congr rfl
  | targetIn c name g owner hfree hs hn =>
      exact (h.setPeer (c := c) (p := { role := .target, name := name, generation := g }) (Nat.zero_le _)).congr rfl
  | controllerIn c name g t hs ht hn q hq =>
      refine Small.congr (Small.putOn ?_ hq) rfl
      exact (h.setPeer (c := c) (p := { role := .controller, name := name, generation := g }) (Nat.zero_le _)).congr rfl
  | controllerFull c name g t hs ht hn =>
      exact (h.setPeer (c := c) (p := { role := .controller, name := name, generation := g }) (Nat.zero_le _)).congr rfl
  | frame c p o event t hs hp hrole ht hc q hq => exact h.putOn hq
  | outbound c p o m m' d hs hp hrole hd hm q hq => exact h.putOn hq
  | completed c p o g hs hp q hq =>
      refine Small.congr (Small.putOn ?_ hq) rfl
      exact (h.setPeer (c := c) (p := { p with generation := g }) (h c p hp)).congr rfl
  | completedFull c p o g hs hp => exact (h.setPeer (c := c) (p := { p with generation := g }) (h c p hp)).congr rfl
  | wrote c p entry rest hp ho =>
      refine h.setPeer ?_
      have := h c p hp
      rw [ho, List.length_cons] at this
      exact Nat.le_of_succ_le this
  | controllerGone c p t hs hp hrole hc ht q hq =>
      refine Small.congr (Small.putOn ?_ hq) rfl
      exact h.congr rfl

end Relay

namespace RelayServer

variable {crypto : Crypto} {s s' : RelayServer}

/-! ## The server -/

structure Sound (s : RelayServer) : Prop where
  sessions : s.relay.Sessions
  kept : s.relay.Kept
  small : s.relay.Small
  counted : s.connections = s.admitted.length + s.turned.length
  few : s.admitted.length ≤ connectionLimit
  nodup : s.admitted.Nodup
  entered : ∀ c, s.relay.stage c ≠ .fresh → s.relay.stage c ≠ .closed → c ∈ s.admitted
  hashes : ∀ c ∈ s.hashSlots, (s.relay.stage c).hashes = true
  slots : s.hashSlots.length ≤ slotLimit
  slotsNodup : s.hashSlots.Nodup

theorem sound_start (registry : Registry) : Sound { relay := { registry := registry } } where
  sessions := Relay.sessions_start registry
  kept := Relay.kept_start registry
  small := by simp [Relay.Small]
  counted := rfl
  few := Nat.zero_le _
  nodup := List.nodup_nil
  entered := fun _ h => absurd rfl h
  hashes := by simp
  slots := Nat.zero_le _
  slotsNodup := List.nodup_nil

theorem Sound.connect (h : s.Sound) {c : Nat} {welcome : Bool} (hs : s.connect c welcome = some s') : s'.Sound := by
  unfold RelayServer.connect at hs
  split at hs
  · cases hs
  rename_i hc
  push Not at hc
  dsimp only at hs
  split at hs <;> cases hs
  · exact { h with counted := by simp [h.counted]; omega }
  · rename_i hroom
    push Not at hroom
    have hlen : s.admitted.length + 1 ≤ connectionLimit := by have := h.counted; omega
    exact { h with
      counted := by simp [h.counted]; omega
      few := hlen
      nodup := List.nodup_cons.mpr ⟨hc.1, h.nodup⟩
      entered := fun d h1 h2 => List.mem_cons_of_mem _ (h.entered d h1 h2) }

theorem Sound.leave (h : s.Sound) {c : Nat} (hs : s.leave c = some s') : s'.Sound := by
  unfold RelayServer.leave at hs
  split at hs <;> cases hs
  rename_i hc
  have hlen := List.length_erase_of_mem hc
  have hpos := List.length_pos_of_mem hc
  exact { h with counted := by simp only [hlen, h.counted]; omega }

theorem Sound.takeSlot (h : s.Sound) {c : Nat} (hs : s.takeSlot c = some s') : s'.Sound := by
  unfold RelayServer.takeSlot at hs
  split at hs <;> cases hs
  rename_i hc
  exact { h with
    hashes := fun d hd => (List.mem_cons.mp hd).elim (fun he => he ▸ hc.2.1) (h.hashes d)
    slots := hc.2.2.2
    slotsNodup := List.nodup_cons.mpr ⟨hc.2.2.1, h.slotsNodup⟩ }

theorem Sound.ended (h : s.Sound) {c : Nat} (hs : s.ended c = some s') : s'.Sound := by
  unfold RelayServer.ended at hs
  split at hs <;> cases hs
  rename_i hc
  have hlen := List.length_erase_of_mem hc.1
  have hpos := List.length_pos_of_mem hc.1
  exact { h with
    counted := by simp only [hlen, h.counted]; omega
    few := (List.length_erase_le ..).trans h.few
    nodup := h.nodup.erase c
    entered := by
      intro d h1 h2
      have hne : d ≠ c := by rintro rfl; exact h2 hc.2
      exact (List.mem_erase_of_ne hne).mpr (h.entered d h1 h2) }

theorem Sound.act (h : s.Sound) {action : RelayAction} (hs : s.act crypto action = some s') : s'.Sound := by
  unfold RelayServer.act at hs
  split at hs
  · rename_i hmay
    obtain ⟨r, hr, rfl⟩ := Option.map_eq_some_iff.mp hs
    have hcase := Relay.step_cases hr
    exact { h with
      sessions := h.sessions.step hcase
      kept := h.kept.step h.sessions hcase
      small := h.small.step hcase
      entered := by
        intro d h1 h2
        by_cases hd : d ∈ action.handler
        · exact (hmay d hd).1
        · dsimp only at h1 h2
          rw [Relay.step_other hr hd] at h1 h2
          exact h.entered d h1 h2
      hashes := fun d hd => by simpa using (List.mem_filter.mp hd).2
      slots := (List.length_filter_le _ _).trans h.slots
      slotsNodup := h.slotsNodup.filter _ }
  · cases hs

theorem Sound.step (h : s.Sound) (action : ServerAction) (hs : s.step crypto action = some s') : s'.Sound := by
  cases action with
  | connect c welcome => exact h.connect hs
  | turned c => exact h.leave hs
  | slot c => exact h.takeSlot hs
  | act action => exact h.act hs
  | ended c => exact h.ended hs

theorem sound_run {registry : Registry} {actions : List ServerAction}
    (hs : RelayServer.run crypto { relay := { registry := registry } } actions = some s) : s.Sound :=
  Runs.invariant (sound_start registry) (fun _ action _ h hs => h.step action hs) hs

end RelayServer

end RemoteInput
