import RemoteInput.Relay.Lemmas.Steps

/-!
# Targets, controllers and their queues

The invariant of the two maps and of the targets' queues. It says nothing about `pair_lock` or generations.
-/

namespace RemoteInput

namespace Relay

variable {crypto : Crypto} {r r' : Relay} {action : RelayAction}

structure Sessions (r : Relay) : Prop where
  target : ∀ n t, r.targets n = some t → ∃ p, r.peer t = some p ∧ p.role = .target ∧ p.name = n
  controller : ∀ n c, r.controllers n = some c → ∃ p, r.peer c = some p ∧ p.role = .controller ∧ p.name = n
  paired : ∀ n c, r.controllers n = some c → ∃ t, r.targets n = some t ∧
    ∀ p, r.peer t = some p → (r.stage c).active = true → owner p.log = some c
  early : ∀ c, (r.stage c).early = true → r.peer c = none
  attached : ∀ c, (r.stage c).attached = true → ∃ p, r.peer c = some p ∧ (p.role = .target → r.targets p.name = some c)
  orderly : ∀ t p, r.peer t = some p → p.role = .target → Orderly p.log
  stranger : ∀ c, r.peer c = none → ∀ t p, r.peer t = some p → p.role = .target → ∀ e ∈ p.log, e.author ≠ some c

theorem sessions_start (registry : Registry) : Sessions { registry := registry } where
  target := by simp
  controller := by simp
  paired := by simp
  early := by simp
  attached := by simp [Stage.attached]
  orderly := by simp
  stranger := by simp

theorem putOn_eq {q : Relay} {d : Nat} {entry : Entry} (h : r.putOn d entry = some q) :
    ∃ p, r.peer d = some p ∧ q = r.setPeer d (p.enqueue entry) := by
  obtain ⟨p, hp, h⟩ := Option.bind_eq_some_iff.mp h
  obtain ⟨p', hput, rfl⟩ := Option.map_eq_some_iff.mp h
  unfold Peer.put at hput
  split at hput <;> cases hput
  exact ⟨p, hp, rfl⟩

theorem log_enqueue (p : Peer) (entry : Entry) : (p.enqueue entry).log = p.log ++ [entry] := by
  simp [Peer.log, Peer.enqueue]

/-- One handler goes on to another await. -/
theorem Sessions.setStage (h : r.Sessions) {c : Nat} {st : Stage} (hearly : st.early = true → r.peer c = none)
    (hatt : st.attached = true → ∃ p, r.peer c = some p ∧ (p.role = .target → r.targets p.name = some c))
    (hactive : st.active = true → ∀ n t p, r.controllers n = some c → r.targets n = some t → r.peer t = some p →
      owner p.log = some c) : (r.setStage c st).Sessions where
  target := h.target
  controller := h.controller
  paired := by
    intro n d hd
    obtain ⟨t, ht, ho⟩ := h.paired n d hd
    refine ⟨t, ht, fun p hp => ?_⟩
    simp only [Relay.setStage, Function.update_apply]
    split
    · rename_i hdc; subst hdc; exact fun ha => hactive ha n t p hd ht hp
    · exact ho p hp
  early := by
    intro d
    simp only [Relay.setStage, Function.update_apply]
    split
    · rename_i hdc; subst hdc; exact hearly
    · exact h.early d
  attached := by
    intro d
    simp only [Relay.setStage, Function.update_apply]
    split
    · rename_i hdc; subst hdc; exact hatt
    · exact h.attached d
  orderly := h.orderly
  stranger := h.stranger

/-- A peer gets another queue, orderly and with the same owner. -/
theorem Sessions.replace (h : r.Sessions) {d : Nat} {p p' : Peer} (hp : r.peer d = some p) (hrole : p'.role = p.role)
    (hname : p'.name = p.name) (horderly : p.role = .target → Orderly p'.log)
    (howner : ∀ n c, r.controllers n = some c → r.targets n = some d → (r.stage c).active = true →
      owner p'.log = some c)
    (hstranger : p.role = .target → ∀ c, r.peer c = none → ∀ e ∈ p'.log, e.author ≠ some c) :
    (r.setPeer d p').Sessions := by
  have hpeer : ∀ x q, Function.update r.peer d (some p') x = some q → x = d ∧ q = p' ∨ x ≠ d ∧ r.peer x = some q := by
    intro x q hq
    by_cases hx : x = d
    · subst hx; exact .inl ⟨rfl, by simpa using hq.symm⟩
    · exact .inr ⟨hx, by simpa [hx] using hq⟩
  have hsome : ∀ x q, r.peer x = some q →
      ∃ q', Function.update r.peer d (some p') x = some q' ∧ q'.role = q.role ∧ q'.name = q.name := by
    intro x q hq
    by_cases hx : x = d
    · subst hx
      cases hp.symm.trans hq
      exact ⟨p', by simp, hrole, hname⟩
    · exact ⟨q, by simp [hx, hq], rfl, rfl⟩
  constructor <;> simp only [Relay.setPeer]
  · intro n t ht
    obtain ⟨q, hq, h1, h2⟩ := h.target n t ht
    obtain ⟨q', hq', h1', h2'⟩ := hsome t q hq
    exact ⟨q', hq', h1'.trans h1, h2'.trans h2⟩
  · intro n c hc
    obtain ⟨q, hq, h1, h2⟩ := h.controller n c hc
    obtain ⟨q', hq', h1', h2'⟩ := hsome c q hq
    exact ⟨q', hq', h1'.trans h1, h2'.trans h2⟩
  · intro n c hc
    obtain ⟨t, ht, ho⟩ := h.paired n c hc
    refine ⟨t, ht, fun q hq ha => ?_⟩
    rcases hpeer t q hq with ⟨rfl, rfl⟩ | ⟨_, hq⟩
    · exact howner n c hc ht ha
    · exact ho q hq ha
  · intro c hc
    have := h.early c hc
    have hne : c ≠ d := by rintro rfl; rw [hp] at this; cases this
    simpa [hne] using this
  · intro c hc
    obtain ⟨q, hq, ht⟩ := h.attached c hc
    obtain ⟨q', hq', h1', h2'⟩ := hsome c q hq
    exact ⟨q', hq', by rw [h1', h2']; exact ht⟩
  · intro t q hq hr
    rcases hpeer t q hq with ⟨_, rfl⟩ | ⟨_, hq⟩
    · exact horderly (hrole ▸ hr)
    · exact h.orderly t q hq hr
  · intro c hc t q hq hr e he
    have hc' : r.peer c = none := by
      cases hq' : r.peer c with
      | none => rfl
      | some q' => obtain ⟨_, hs, _⟩ := hsome c q' hq'; rw [hs] at hc; cases hc
    rcases hpeer t q hq with ⟨_, rfl⟩ | ⟨_, hq⟩
    · exact hstranger (hrole ▸ hr) c hc' e he
    · exact h.stranger c hc' t q hq hr e he

/-- The owner that an active controller of the target `d` is. -/
theorem Sessions.owner_eq (h : r.Sessions) {n : String} {c d : Nat} {p : Peer} (hc : r.controllers n = some c)
    (hd : r.targets n = some d) (hp : r.peer d = some p) (ha : (r.stage c).active = true) : owner p.log = some c := by
  obtain ⟨t, ht, ho⟩ := h.paired n c hc
  cases ht.symm.trans hd
  exact ho p hp ha

/-- The queue stays what it was. -/
theorem Sessions.relabel (h : r.Sessions) {d : Nat} {p p' : Peer} (hp : r.peer d = some p) (hrole : p'.role = p.role)
    (hname : p'.name = p.name) (hlog : p'.log = p.log) : (r.setPeer d p').Sessions := by
  refine h.replace hp hrole hname ?_ ?_ ?_ <;> rw [hlog]
  · exact h.orderly d p hp
  · exact fun n c hc hd ha => h.owner_eq hc hd hp ha
  · exact fun hr c hc => h.stranger c hc d p hp hr

/-- One more entry on the queue of a peer. -/
theorem Sessions.append (h : r.Sessions) {d : Nat} {p p' : Peer} {entry : Entry} (hp : r.peer d = some p)
    (hrole : p'.role = p.role) (hname : p'.name = p.name) (hlog : p'.log = p.log ++ [entry])
    (hfollows : p.role = .target → Follows p.log entry)
    (howner : ∀ n c, r.controllers n = some c → r.targets n = some d → (r.stage c).active = true →
      nextOwner (owner p.log) entry = some c)
    (hauthor : ∀ c, entry.author = some c → r.peer c ≠ none) : (r.setPeer d p').Sessions := by
  refine h.replace hp hrole hname ?_ ?_ ?_ <;> rw [hlog]
  · exact fun hr => (h.orderly d p hp hr).concat (hfollows hr)
  · rw [owner_concat]; exact howner
  · intro hr c hc e he
    rcases List.mem_append.mp he with he | he
    · exact h.stranger c hc d p hp hr e he
    · rw [List.mem_singleton.mp he]
      exact fun ha => hauthor c ha hc

/-- Only the maps, the stages and the peers matter. -/
theorem Sessions.congr (h : r.Sessions) (h1 : r'.targets = r.targets) (h2 : r'.controllers = r.controllers)
    (h3 : r'.stage = r.stage) (h4 : r'.peer = r.peer) : r'.Sessions := by
  constructor
  · rw [h1, h4]; exact h.target
  · rw [h2, h4]; exact h.controller
  · rw [h1, h2, h3, h4]; exact h.paired
  · rw [h3, h4]; exact h.early
  · rw [h1, h3, h4]; exact h.attached
  · rw [h4]; exact h.orderly
  · rw [h4]; exact h.stranger

/-- A connection gets its peer, with an empty queue, and an entry in the map of its role. -/
theorem Sessions.joins (h : r.Sessions) {c : Nat} {p : Peer} {st : Stage} (ts cs : String → Option Nat)
    (hc : r.peer c = none) (hlog : p.log = []) (hst : st.early = false)
    (hts : ∀ n t, ts n = some t → t = c ∧ p.role = .target ∧ p.name = n ∨ r.targets n = some t)
    (hcs : ∀ n d, cs n = some d → d = c ∧ p.role = .controller ∧ p.name = n ∨ r.controllers n = some d)
    (hkeep : ∀ n t, r.targets n = some t → ts n = some t) (hown : p.role = .target → ts p.name = some c)
    (hpaired : p.role = .controller → st.active = false ∧ ∃ t, r.targets p.name = some t) :
    (({ r with targets := ts, controllers := cs }.setPeer c p).setStage c st).Sessions := by
  have hold : ∀ x q, r.peer x = some q → x ≠ c := by
    rintro x q hq rfl
    rw [hc] at hq; cases hq
  have hpeer : ∀ x q, Function.update r.peer c (some p) x = some q → x = c ∧ q = p ∨ x ≠ c ∧ r.peer x = some q := by
    intro x q hq
    by_cases hx : x = c
    · subst hx; exact .inl ⟨rfl, by simpa using hq.symm⟩
    · exact .inr ⟨hx, by simpa [hx] using hq⟩
  constructor <;> simp only [Relay.setStage, Relay.setPeer]
  · intro n t ht
    rcases hts n t ht with ⟨rfl, hr, hn⟩ | ht
    · exact ⟨p, by simp, hr, hn⟩
    · obtain ⟨q, hq, hr, hn⟩ := h.target n t ht
      exact ⟨q, by simpa [hold t q hq] using hq, hr, hn⟩
  · intro n d hd
    rcases hcs n d hd with ⟨rfl, hr, hn⟩ | hd
    · exact ⟨p, by simp, hr, hn⟩
    · obtain ⟨q, hq, hr, hn⟩ := h.controller n d hd
      exact ⟨q, by simpa [hold d q hq] using hq, hr, hn⟩
  · intro n d hd
    rcases hcs n d hd with ⟨rfl, hr, rfl⟩ | hd
    · obtain ⟨hact, t, ht⟩ := hpaired hr
      exact ⟨t, hkeep _ _ ht, by simp [hact]⟩
    · obtain ⟨q, hq, _⟩ := h.controller n d hd
      obtain ⟨t, ht, ho⟩ := h.paired n d hd
      refine ⟨t, hkeep n t ht, fun q' hq' ha => ?_⟩
      have hdc := hold d q hq
      obtain ⟨q'', hq'', _⟩ := h.target n t ht
      rcases hpeer t q' hq' with ⟨rfl, _⟩ | ⟨_, hq'⟩
      · exact absurd rfl (hold t q'' hq'')
      · exact ho q' hq' (by simpa [hdc] using ha)
  · intro d hd
    by_cases hdc : d = c
    · subst hdc; simp [hst] at hd
    · simpa [hdc] using h.early d (by simpa [hdc] using hd)
  · intro d hd
    by_cases hdc : d = c
    · subst hdc; exact ⟨p, by simp, hown⟩
    · obtain ⟨q, hq, ht⟩ := h.attached d (by simpa [hdc] using hd)
      exact ⟨q, by simpa [hdc] using hq, fun hr => hkeep _ _ (ht hr)⟩
  · intro t q hq hr
    rcases hpeer t q hq with ⟨_, rfl⟩ | ⟨_, hq⟩
    · rw [hlog]; exact orderly_nil
    · exact h.orderly t q hq hr
  · intro d hd t q hq hr e he
    have hd' : r.peer d = none := by
      by_cases hdc : d = c
      · rw [hdc]; exact hc
      · simpa [hdc] using hd
    rcases hpeer t q hq with ⟨_, rfl⟩ | ⟨_, hq⟩
    · rw [hlog] at he; cases he
    · exact h.stranger d hd' t q hq hr e he

/-- Entries leave the maps: a target only together with its controller. -/
theorem Sessions.leaves (h : r.Sessions) {c : Nat} {ts cs : String → Option Nat}
    (hts : ∀ n t, ts n = some t → r.targets n = some t) (hcs : ∀ n d, cs n = some d → r.controllers n = some d)
    (hpair : ∀ n d, cs n = some d → ts n = r.targets n)
    (hkeep : ∀ d p, d ≠ c → r.peer d = some p → r.targets p.name = some d → ts p.name = some d) :
    ({ r with targets := ts, controllers := cs }.setStage c .closed).Sessions := by
  constructor <;> simp only [Relay.setStage]
  · exact fun n t ht => h.target n t (hts n t ht)
  · exact fun n d hd => h.controller n d (hcs n d hd)
  · intro n d hd
    obtain ⟨t, ht, ho⟩ := h.paired n d (hcs n d hd)
    refine ⟨t, (hpair n d hd).trans ht, fun p hp ha => ho p hp ?_⟩
    by_cases hdc : d = c
    · subst hdc; simp [Stage.active] at ha
    · simpa [hdc] using ha
  · intro d hd
    by_cases hdc : d = c
    · subst hdc; simp [Stage.early] at hd
    · exact h.early d (by simpa [hdc] using hd)
  · intro d hd
    by_cases hdc : d = c
    · subst hdc; simp [Stage.attached] at hd
    · obtain ⟨p, hp, ht⟩ := h.attached d (by simpa [hdc] using hd)
      exact ⟨p, hp, fun hr => hkeep d p hdc hp (ht hr)⟩
  · exact h.orderly
  · exact h.stranger
/-- A controller leaves the map. -/
theorem Sessions.unpair (h : r.Sessions) (name : String) :
    { r with controllers := Function.update r.controllers name none }.Sessions := by
  have hold : ∀ n d, Function.update r.controllers name none n = some d → r.controllers n = some d := by
    intro n d hd
    by_cases hn : n = name
    · subst hn; simp at hd
    · simpa [hn] using hd
  exact ⟨h.target, fun n d hd => h.controller n d (hold n d hd), fun n d hd => h.paired n d (hold n d hd), h.early,
    h.attached, h.orderly, h.stranger⟩

/-! ## Every action keeps the invariant -/

/-- The admission of a controller, before `peer_joined` is queued. -/
theorem Sessions.controllerFull (h : r.Sessions) {c : Nat} {name : String} {g t : Nat}
    (hs : (r.stage c).early = true) (ht : r.targets name = some t) :
    (({ r with controllers := Function.update r.controllers name (some c) }.setPeer c
      { role := .controller, name := name, generation := g }).setStage c .closing).Sessions := by
  refine h.joins r.targets _ (h.early c hs) rfl rfl (fun n d hd => .inr hd) ?_ (fun n d hd => hd) (by simp) ?_
  · intro n d hd
    by_cases hnn : n = name
    · subst hnn; exact .inl ⟨by simpa using hd.symm, rfl, rfl⟩
    · exact .inr (by simpa [hnn] using hd)
  · exact fun _ => ⟨rfl, t, ht⟩

/-- A target has one name. -/
theorem Sessions.name_eq (h : r.Sessions) {n m : String} {t : Nat} (hn : r.targets n = some t)
    (hm : r.targets m = some t) : n = m := by
  obtain ⟨p, hp, _, rfl⟩ := h.target n t hn
  obtain ⟨q, hq, _, rfl⟩ := h.target m t hm
  cases hp.symm.trans hq
  rfl

theorem Sessions.controllerIn (h : r.Sessions) {c : Nat} {name : String} {g t : Nat} {q : Relay}
    (hs : (r.stage c).early = true) (ht : r.targets name = some t)
    (hq : (({ r with controllers := Function.update r.controllers name (some c) }.setPeer c
        { role := .controller, name := name, generation := g }).release).putOn t ⟨.peerJoined, some c⟩ = some q) :
    (q.setStage c (.replying "")).Sessions := by
  obtain ⟨pt, hpt, rfl⟩ := putOn_eq hq
  have hc : r.peer c = none := h.early c hs
  obtain ⟨pt', hpt', hrt, _⟩ := h.target name t ht
  have htc : t ≠ c := by rintro rfl; rw [hc] at hpt'; cases hpt'
  have hpt : r.peer t = some pt := by simpa [Relay.release, Relay.setPeer, htc] using hpt
  cases hpt.symm.trans hpt'
  have hmap : ∀ n d, Function.update r.controllers name (some c) n = some d → r.targets n = some t → d = c := by
    intro n d hd htn
    rw [h.name_eq htn ht] at hd
    simpa using hd.symm
  -- `peer_joined` is queued while the controller is in the map but does not serve yet
  have hput : ((({ r with controllers := Function.update r.controllers name (some c) }.setPeer c
      { role := .controller, name := name, generation := g }).setStage c .closing).setPeer t
        (pt.enqueue ⟨.peerJoined, some c⟩)).Sessions := by
    refine (h.controllerFull hs ht).append (p := pt) (by simpa [Relay.setStage, Relay.setPeer, htc] using hpt) rfl rfl
      (log_enqueue pt _) ?_ ?_ ?_
    · exact fun _ => ⟨c, rfl, fun x hx => h.stranger c hc t pt hpt hrt x hx⟩
    · intro n d hd htn had
      have hdc : d = c := hmap n d hd htn
      subst hdc
      simp [Relay.setStage, Stage.active] at had
    · rintro d hd; cases hd; simp [Relay.setStage, Relay.setPeer]
  have hserve : (((({ r with controllers := Function.update r.controllers name (some c) }.setPeer c
      { role := .controller, name := name, generation := g }).setStage c .closing).setPeer t
        (pt.enqueue ⟨.peerJoined, some c⟩)).setStage c (.replying "")).Sessions := by
    refine hput.setStage (by simp [Stage.early]) ?_ ?_
    · exact fun _ => ⟨{ role := .controller, name := name, generation := g },
        by simp [Relay.setStage, Relay.setPeer, htc.symm], by simp⟩
    · intro _ n d q hn hd hqd
      have hname : n = name := by
        by_contra hne
        obtain ⟨x, hx, _⟩ := h.controller n c (by simpa [Relay.setStage, Relay.setPeer, hne] using hn)
        rw [hc] at hx; cases hx
      subst hname
      have hdt : d = t := Option.some.inj ((show r.targets n = some d from hd).symm.trans ht)
      subst hdt
      have hqe : q = pt.enqueue ⟨.peerJoined, some c⟩ := by
        simpa [Relay.setStage, Relay.setPeer] using hqd.symm
      rw [hqe, log_enqueue, owner_concat]; rfl
  exact Sessions.congr hserve rfl rfl (by simp [Relay.setStage, Relay.setPeer, Relay.release]) rfl

/-- A rotation revokes the controller and changes the generation of the target. -/
theorem Sessions.revoked (h : r.Sessions) {c : Nat} {p : Peer} (hp : r.peer c = some p) (g : Nat) :
    ({ r with controllers := Function.update r.controllers p.name none }.setPeer c
      { p with generation := g }).Sessions := (h.unpair p.name).relabel hp rfl rfl rfl

theorem Sessions.completed (h : r.Sessions) {c : Nat} {p : Peer} {o : String} {g : Nat} {q : Relay}
    (hs : r.stage c = .serving o (.committed g)) (hp : r.peer c = some p)
    (hq : (({ r with controllers := Function.update r.controllers p.name none,
                       completed := r.completed ++ [(p.name, g)] }.setPeer c { p with generation := g }).release).putOn
        c ⟨.rotated g, r.controllers p.name⟩ = some q) : (q.setStage c (.serving o .idle)).Sessions := by
  obtain ⟨p', hp', rfl⟩ := putOn_eq hq
  have hpe : p' = { p with generation := g } := by simpa [Relay.release, Relay.setPeer] using hp'.symm
  subst hpe
  -- `c` has no controller any more, and is none
  have hfree : ∀ n d, Function.update r.controllers p.name none n = some d → r.targets n = some c ∨ d = c → d ≠ d := by
    intro n d hd hor
    have hne : n ≠ p.name := by rintro rfl; simp at hd
    have hd : r.controllers n = some d := by simpa [hne] using hd
    obtain ⟨x, hx, _, hxn⟩ := h.controller n d hd
    rcases hor with ht | rfl
    · obtain ⟨y, hy, _, hyn⟩ := h.target n c ht
      cases hp.symm.trans hy
      exact absurd hyn.symm hne
    · cases hp.symm.trans hx
      exact absurd hxn.symm hne
  have hput : (({ r with controllers := Function.update r.controllers p.name none }.setPeer c
      { p with generation := g }).setPeer c
        ({ p with generation := g }.enqueue ⟨.rotated g, r.controllers p.name⟩)).Sessions := by
    refine (h.revoked hp g).append (p := { p with generation := g }) (by simp [Relay.setPeer]) rfl rfl
      (log_enqueue { p with generation := g } _) (fun _ => trivial) ?_ ?_
    · intro n d hd htn had
      exact absurd rfl (hfree n d hd (.inl htn))
    · intro d hd
      obtain ⟨x, hx, _⟩ := h.controller _ _ hd
      by_cases hdc : d = c
      · simp [Relay.setPeer, hdc]
      · simp [Relay.setPeer, hdc, hx]
  have hserve : ((({ r with controllers := Function.update r.controllers p.name none }.setPeer c
      { p with generation := g }).setPeer c
        ({ p with generation := g }.enqueue ⟨.rotated g, r.controllers p.name⟩)).setStage c
          (.serving o .idle)).Sessions := by
    refine hput.setStage (by simp [Stage.early]) ?_ ?_
    · intro _
      obtain ⟨p', hp', ht⟩ := h.attached c (by rw [hs]; rfl)
      cases hp.symm.trans hp'
      refine ⟨{ p with generation := g }.enqueue ⟨.rotated g, r.controllers p.name⟩, ?_, ht⟩
      simp [Relay.setPeer]
    · intro _ n t q hn ht hqt
      exact absurd rfl (hfree n c hn (.inr rfl))
  exact Sessions.congr hserve rfl rfl rfl rfl

theorem Sessions.step (h : r.Sessions) (hstep : StepCase crypto r action r') : r'.Sessions := by
  cases hstep with
  | idle => exact h
  | moved c st hm =>
      refine h.setStage (fun he => h.early c (hm.early he)) (fun ha => h.attached c (hm.attached ▸ ha)) ?_
      exact fun ha n t p hc ht hp => h.owner_eq hc ht hp (hm.active ha)
  | inserted c o password salt hs =>
      have hc : r.peer c = none := h.early c (by rw [hs]; rfl)
      refine Sessions.congr (r := r.setStage c (.waitingTarget _ _ o)) ?_ rfl rfl rfl rfl
      exact h.setStage (fun _ => hc) (by simp [Stage.attached]) (by simp [Stage.active])
  | locked c st hfree hl hactive hatt hearly =>
      refine Sessions.congr (r := r.setStage c st) ?_ rfl rfl rfl rfl
      refine h.setStage (fun he => h.early c (hearly he)) (fun ha => h.attached c (hatt ▸ ha)) ?_
      exact fun ha n t p hc ht hp => h.owner_eq hc ht hp (hactive ha)
  | unlocked c st orphans hold hl hactive hatt hearly =>
      refine Sessions.congr (r := r.setStage c st) ?_ rfl rfl rfl rfl
      refine h.setStage (by simp [hearly]) (fun ha => h.attached c (hatt ▸ ha)) (by simp [hactive])
  | targetIn c name g o hfree hs hn =>
      refine h.joins _ r.controllers (h.early c (by rw [hs]; rfl)) rfl rfl ?_ (fun n d hd => .inr hd) ?_ (by simp)
        (by simp)
      · intro n t ht
        by_cases hnn : n = name
        · subst hnn; exact .inl ⟨by simpa using ht.symm, rfl, rfl⟩
        · exact .inr (by simpa [hnn] using ht)
      · intro n t ht
        have hnn : n ≠ name := by rintro rfl; rw [hn] at ht; cases ht
        simpa [hnn] using ht
  | controllerIn c name g t hs ht hn q hq => exact h.controllerIn (by rw [hs]; rfl) ht hq
  | controllerFull c name g t hs ht hn =>
      exact Sessions.congr (h.controllerFull (g := g) (by rw [hs]; rfl) ht) rfl rfl rfl rfl
  | frame c p o event t hs hp hrole ht hc q hq =>
      obtain ⟨pt, hpt, rfl⟩ := putOn_eq hq
      have ha : (r.stage c).active = true := by rw [hs]; rfl
      have ho : owner pt.log = some c := h.owner_eq hc ht hpt ha
      refine h.append hpt rfl rfl (log_enqueue pt _) (fun _ => ⟨c, rfl, ho⟩) ?_ ?_
      · intro n d hd htn had
        exact h.owner_eq hd htn hpt had
      · rintro d hd; cases hd; rw [hp]; simp
  | outbound c p o m m' d hs hp hrole hd hm q hq =>
      obtain ⟨pd, hpd, rfl⟩ := putOn_eq hq
      obtain ⟨pd', hpd', hr, _⟩ := h.controller _ _ hd
      cases hpd.symm.trans hpd'
      have htarget : ∀ n, r.targets n ≠ some d := by
        intro n hn
        obtain ⟨x, hx, hxr, _⟩ := h.target n d hn
        cases hpd.symm.trans hx
        rw [hr] at hxr; cases hxr
      refine h.append hpd rfl rfl (log_enqueue pd _) (by simp [hr]) (fun n e _ hn => absurd hn (htarget n)) ?_
      rintro e he; cases he; rw [hp]; simp
  | committed c p o password rotationId salt g registry hs hp hr =>
      refine Sessions.congr (r := r.setStage c (.serving o (.committed g))) ?_ rfl rfl rfl rfl
      refine h.setStage (by simp [Stage.early]) (fun _ => h.attached c (by rw [hs]; rfl)) ?_
      exact fun _ n t p hc ht hp => h.owner_eq hc ht hp (by rw [hs]; rfl)
  | completed c p o g hs hp q hq => exact h.completed hs hp hq
  | completedFull c p o g hs hp =>
      obtain ⟨p', hp', ht⟩ := h.attached c (by rw [hs]; rfl)
      cases hp.symm.trans hp'
      have hclose : (({ r with controllers := Function.update r.controllers p.name none }.setPeer c
          { p with generation := g }).setStage c .closing).Sessions := by
        refine (h.revoked hp g).setStage (by simp [Stage.early]) ?_ (by simp [Stage.active])
        exact fun _ => ⟨{ p with generation := g }, by simp [Relay.setPeer], ht⟩
      exact Sessions.congr hclose rfl rfl rfl rfl
  | wrote c p entry rest hp ho =>
      exact h.relabel hp rfl rfl (by simp [Peer.log, ho])
  | targetOut c p hs hp hrole ht =>
      refine h.leaves ?_ ?_ ?_ ?_
      · intro n t htn
        by_cases hn : n = p.name
        · subst hn; simp at htn
        · simpa [hn] using htn
      · intro n d hd
        by_cases hn : n = p.name
        · subst hn; simp at hd
        · simpa [hn] using hd
      · intro n d hd
        by_cases hn : n = p.name
        · subst hn; simp at hd
        · simp [hn]
      · intro d q hdc hq htq
        have hn : q.name ≠ p.name := fun he => hdc (Option.some.inj ((he ▸ htq).symm.trans ht))
        simpa [hn] using htq
  | controllerOut c p hs hp hrole hc =>
      exact (h.unpair p.name).leaves (fun _ _ h => h) (fun _ _ h => h) (fun _ _ _ => rfl) (fun _ _ _ _ h => h)
  | controllerGone c p t hs hp hrole hc ht q hq =>
      obtain ⟨pt, hpt, rfl⟩ := putOn_eq hq
      have hgone : ({ r with controllers := Function.update r.controllers p.name none }.setPeer t
          (pt.enqueue ⟨.peerGone, some c⟩)).Sessions := by
        refine (h.unpair p.name).append hpt rfl rfl (log_enqueue pt _) (fun _ => trivial) ?_ ?_
        · intro n d hd htn
          -- the target of `c` has no other name
          obtain ⟨x, hx, _, hxn⟩ := h.target _ _ ht
          obtain ⟨y, hy, _, hyn⟩ := h.target n t htn
          cases hx.symm.trans hy
          rw [← hyn, hxn] at hd
          simp at hd
        · rintro d hd; cases hd; rw [hp]; simp
      exact hgone.leaves (fun _ _ h => h) (fun _ _ h => h) (fun _ _ _ => rfl) (fun _ _ _ _ h => h)
  | detached c p hs hp ht hc =>
      exact h.setStage (by simp [Stage.early]) (by simp [Stage.attached]) (by simp [Stage.active])
  | orphaned => exact Sessions.congr h rfl rfl rfl rfl
  | orphanEnded => exact Sessions.congr h rfl rfl rfl rfl

end Relay

end RemoteInput
