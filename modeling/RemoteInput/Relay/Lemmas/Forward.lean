import RemoteInput.Relay.Lemmas.Addressed

/-!
# The frames of a controller on their way through the relay

While a controller is in the map, the queue of its target holds every frame that the relay took from it. Later nothing is
added. A controller joins one target only.
-/

namespace RemoteInput

/-- The frames that entries carry, in order. -/
def eventsOf (entries : List Entry) : List Event := framesOf (entries.map Entry.message)

@[simp] theorem eventsOf_nil : eventsOf [] = [] := rfl

@[simp] theorem eventsOf_append (l l' : List Entry) : eventsOf (l ++ l') = eventsOf l ++ eventsOf l' := by
  rw [eventsOf, eventsOf, eventsOf, List.map_append, framesOf_append]

theorem framesOf_mono {l l' : List Message} (h : l <+: l') : framesOf l <+: framesOf l' := by
  obtain ⟨more, rfl⟩ := h
  rw [framesOf_append]
  exact List.prefix_append _ _

theorem eventsOf_mono {l l' : List Entry} (h : l <+: l') : eventsOf l <+: eventsOf l' := framesOf_mono (h.map _)

namespace Relay

variable {crypto : Crypto} {r r' : Relay} {action : RelayAction} {received : Nat → List Event}

@[simp] theorem framesBy_append (c : Nat) (l l' : List Entry) : framesBy c (l ++ l') = framesBy c l ++ framesBy c l' :=
  List.filter_append ..

theorem framesBy_mono {c : Nat} {l l' : List Entry} (h : l <+: l') : framesBy c l <+: framesBy c l' := h.filter _

theorem framesBy_frame (c : Nat) (event : Event) : framesBy c [⟨.frame event, some c⟩] = [⟨.frame event, some c⟩] := by
  simp [framesBy, Message.isFrame]

theorem framesBy_other {c : Nat} {x : Entry} (h : x.message.isFrame = false ∨ x.author ≠ some c) : framesBy c [x] = [] := by
  rcases h with h | h <;> simp [framesBy, h]

theorem framesBy_stranger {c : Nat} {log : List Entry} (h : ∀ x ∈ log, x.author ≠ some c) : framesBy c log = [] := by
  rw [framesBy, List.filter_eq_nil_iff]
  intro x hx
  simp [h x hx]

/-! ## What the writers have sent -/

/-- What the writer of `c` has sent. -/
def sentOf (r : Relay) (c : Nat) : List Entry := ((r.peer c).map Peer.sent).getD []

theorem sentOf_begins (r : Relay) (c : Nat) : r.sentOf c <+: r.logOf c := by
  unfold sentOf logOf
  cases r.peer c with
  | none => exact List.nil_prefix
  | some p => exact List.prefix_append _ _

theorem sentOf_peer {d : Nat} {p : Peer} (h : r.peer d = some p) : r.sentOf d = p.sent := by simp [sentOf, h]

theorem sentOf_setPeer (r : Relay) (c : Nat) (p : Peer) (d : Nat) :
    (r.setPeer c p).sentOf d = if d = c then p.sent else r.sentOf d := by
  unfold sentOf Relay.setPeer
  by_cases hd : d = c
  · subst hd; simp
  · simp [hd]

theorem sentOf_putOn {q : Relay} {t : Nat} {entry : Entry} (h : r.putOn t entry = some q) (d : Nat) :
    q.sentOf d = r.sentOf d := by
  obtain ⟨p, hp, rfl⟩ := putOn_eq h
  rw [sentOf_setPeer]
  split
  · rename_i hd; rw [hd, sentOf_peer hp]; rfl
  · rfl

/-- Only a writer sends. -/
theorem StepCase.sends (hses : r.Sessions) (hstep : StepCase crypto r action r') (hw : ∀ c, action ≠ .write c) (d : Nat) :
    r'.sentOf d = r.sentOf d := by
  have hjoin : ∀ c p, (r.stage c).early = true → p.sent = [] → (r.setPeer c p).sentOf d = r.sentOf d := by
    intro c p he hp
    rw [sentOf_setPeer]
    split
    · rename_i hd; rw [hd, hp, sentOf, hses.early c he]; rfl
    · rfl
  have hsame : ∀ {c p} p', r.peer c = some p → p'.sent = p.sent → (r.setPeer c p').sentOf d = r.sentOf d := by
    intro c p p' hp hsent
    rw [sentOf_setPeer]
    split
    · rename_i hd; rw [hd, hsent, sentOf_peer hp]
    · rfl
  cases hstep with
  | idle | moved | inserted | locked | unlocked | committed | targetOut | controllerOut | detached | orphaned
  | orphanEnded => rfl
  | targetIn c name g owner hfree hs hn => exact hjoin c _ (by rw [hs]; rfl) rfl
  | controllerIn c name g t hs ht hn q hq =>
      exact (sentOf_putOn hq d).trans (hjoin c { role := .controller, name := name, generation := g } (by rw [hs]; rfl) rfl)
  | controllerFull c name g t hs ht hn => exact hjoin c _ (by rw [hs]; rfl) rfl
  | frame c p owner event t hs hp hrole ht hc q hq => exact sentOf_putOn hq d
  | outbound c p owner m m' e hs hp hrole hd hm q hq => exact sentOf_putOn hq d
  | completed c p owner g hs hp q hq => exact (sentOf_putOn hq d).trans (hsame { p with generation := g } hp rfl)
  | completedFull c p owner g hs hp => exact hsame { p with generation := g } hp rfl
  | wrote c p entry rest hp ho ha => exact absurd ha (hw c)
  | controllerGone c p t hs hp hrole hc ht q hq => exact sentOf_putOn hq d

theorem write_sends {c : Nat} {p : Peer} {entry : Entry} (hp : r.peer c = some p) (he : p.out.head? = some entry)
    (h : r.write c = some r') (d : Nat) : r'.sentOf d = if d = c then r.sentOf c ++ [entry] else r.sentOf d := by
  obtain ⟨p', entry', rest, hp', ho, rfl⟩ := write_eq h
  cases hp.symm.trans hp'
  rw [ho] at he
  cases he
  rw [sentOf_setPeer, sentOf_peer hp]

/-! ## One action -/

/-- At most one queue gets an entry. -/
theorem StepCase.touches (hses : r.Sessions) (hstep : StepCase crypto r action r') :
    ∃ d, ∀ t, t ≠ d → r'.logOf t = r.logOf t := by
  have hjoin : ∀ c p, (r.stage c).early = true → p.log = [] → ∀ d, (r.setPeer c p).logOf d = r.logOf d := by
    intro c p he hp d
    rw [logOf_setPeer]
    by_cases hd : d = c
    · subst hd; simp [hp, logOf, hses.early d he]
    · rw [if_neg hd]
  have hset : ∀ (q : Relay) (d : Nat) (p : Peer) (t : Nat), t ≠ d → (q.setPeer d p).logOf t = q.logOf t := by
    intro q d p t ht
    rw [logOf_setPeer, if_neg ht]
  cases hstep with
  | idle | moved | inserted | locked | unlocked | committed | targetOut | controllerOut | detached | orphaned
  | orphanEnded => exact ⟨0, fun _ _ => rfl⟩
  | targetIn c name g owner hfree hs hn => exact ⟨c, fun t ht => hset r c _ t ht⟩
  | controllerIn c name g t hs ht hn q hq =>
      have he : (r.stage c).early = true := by rw [hs]; rfl
      obtain ⟨pt, hpt, rfl⟩ := putOn_eq hq
      exact ⟨t, fun d hd => (hset _ t _ d hd).trans (hjoin c _ he rfl d)⟩
  | controllerFull c name g t hs ht hn => exact ⟨c, fun t ht => hset r c _ t ht⟩
  | frame c p owner event t hs hp hrole ht hc q hq ha =>
      obtain ⟨pt, hpt, rfl⟩ := putOn_eq hq
      exact ⟨t, fun d hd => hset r t _ d hd⟩
  | outbound c p owner m m' e hs hp hrole hd hm q hq ha =>
      obtain ⟨pe, hpe, rfl⟩ := putOn_eq hq
      exact ⟨e, fun d hd => hset r e _ d hd⟩
  | completed c p owner g hs hp q hq =>
      obtain ⟨p', hp', rfl⟩ := putOn_eq hq
      exact ⟨c, fun d hd => (hset _ c _ d hd).trans (hset r c _ d hd)⟩
  | completedFull c p owner g hs hp => exact ⟨c, fun d hd => hset r c _ d hd⟩
  | wrote c p entry rest hp ho => exact ⟨c, fun d hd => hset r c _ d hd⟩
  | controllerGone c p t hs hp hrole hc ht q hq =>
      obtain ⟨pt, hpt, rfl⟩ := putOn_eq hq
      exact ⟨t, fun d hd => hset r t _ d hd⟩

/-- A controller in the map was there before with the same target, or has just been admitted. -/
theorem StepCase.mapped (hses : r.Sessions) (hstep : StepCase crypto r action r') {n : String} {c t : Nat}
    (hc : r'.controllers n = some c) (ht : r'.targets n = some t) (ha : (r'.stage c).active = true) :
    r.controllers n = some c ∧ r.targets n = some t ∧ (r.stage c).active = true ∨ r.peer c = none := by
  have hstage : ∀ {q : Relay} {d : Nat} {st : Stage}, (∀ x, q.stage x = r.stage x) →
      (st.active = true → (r.stage d).active = true) → ((q.setStage d st).stage c).active = true →
      (r.stage c).active = true := by
    intro q d st hq hst hactive
    simp only [Relay.setStage, Function.update_apply] at hactive
    split at hactive
    · rename_i hcd; subst hcd; exact hst hactive
    · rw [← hq]; exact hactive
  have hkept : ∀ {cs : String → Option Nat} {name : String}, cs = Function.update r.controllers name none →
      cs n = some c → n ≠ name ∧ r.controllers n = some c := by
    intro cs name hcs hn
    rw [hcs, Function.update_apply] at hn
    split at hn
    · cases hn
    · rename_i hne; exact ⟨hne, hn⟩
  cases hstep with
  | idle => exact .inl ⟨hc, ht, ha⟩
  | moved d st hm => exact .inl ⟨hc, ht, hstage (fun _ => rfl) hm.active ha⟩
  | inserted => exact .inl ⟨hc, ht, hstage (fun _ => rfl) (by simp [Stage.active]) ha⟩
  | locked d st hfree hl hactive => exact .inl ⟨hc, ht, hstage (fun _ => rfl) hactive ha⟩
  | unlocked d st orphans hold hl hactive =>
      exact .inl ⟨hc, ht, hstage (q := { r with orphans := orphans }) (fun _ => rfl) (by rw [hactive]; simp) ha⟩
  | targetIn d name g owner hfree hs hn =>
      have hne : n ≠ name := by
        rintro rfl
        obtain ⟨t', ht', -⟩ := hses.paired n c hc
        rw [hn] at ht'
        cases ht'
      have ht' : r.targets n = some t := by simpa [Relay.setStage, Relay.setPeer, hne] using ht
      by_cases hcd : c = d
      · exact .inr (hses.early c (by rw [hcd, hs]; rfl))
      · exact .inl ⟨hc, ht', by simpa [Relay.setStage, Relay.setPeer, hcd] using ha⟩
  | controllerIn d name g t' hs ht' hn q hq =>
      obtain ⟨pt, hpt, rfl⟩ := putOn_eq hq
      by_cases hcd : c = d
      · exact .inr (hses.early c (by rw [hcd, hs]; rfl))
      · have hc' : r.controllers n = some c := by
          simp only [Relay.setStage, Relay.setPeer, Relay.release, Function.update_apply] at hc
          split at hc
          · cases hc; exact absurd rfl hcd
          · exact hc
        exact .inl ⟨hc', ht, by simpa [Relay.setStage, Relay.setPeer, Relay.release, hcd] using ha⟩
  | controllerFull d name g t' hs ht' hn =>
      by_cases hcd : c = d
      · exact .inr (hses.early c (by rw [hcd, hs]; rfl))
      · have hc' : r.controllers n = some c := by
          simp only [Relay.setStage, Relay.setPeer, Relay.release, Function.update_apply] at hc
          split at hc
          · cases hc; exact absurd rfl hcd
          · exact hc
        exact .inl ⟨hc', ht, by simpa [Relay.setStage, Relay.setPeer, Relay.release, hcd] using ha⟩
  | frame d p owner event t' hs hp hrole ht' hc' q hq =>
      obtain ⟨pt, hpt, rfl⟩ := putOn_eq hq
      exact .inl ⟨hc, ht, ha⟩
  | outbound d p owner m m' e hs hp hrole hd hm q hq =>
      obtain ⟨pe, hpe, rfl⟩ := putOn_eq hq
      exact .inl ⟨hc, ht, ha⟩
  | committed d p owner password rotationId salt g registry hs hp hr =>
      exact .inl ⟨hc, ht, hstage (q := { r with registry := registry }) (fun _ => rfl) (by rw [hs]; exact id) ha⟩
  | completed d p owner g hs hp q hq =>
      obtain ⟨p', hp', rfl⟩ := putOn_eq hq
      exact .inl ⟨(hkept rfl hc).2, ht, hstage (fun _ => rfl) (by rw [hs]; exact id) ha⟩
  | completedFull d p owner g hs hp =>
      exact .inl ⟨(hkept rfl hc).2, ht, hstage (fun _ => rfl) (by simp [Stage.active]) ha⟩
  | wrote d p entry rest hp ho => exact .inl ⟨hc, ht, ha⟩
  | targetOut d p hs hp hrole ht' =>
      obtain ⟨hne, hc'⟩ := hkept rfl hc
      refine .inl ⟨hc', ?_, hstage (fun _ => rfl) (by simp [Stage.active]) ha⟩
      simpa [Relay.setStage, hne] using ht
  | controllerOut d p hs hp hrole hc' =>
      exact .inl ⟨(hkept rfl hc).2, ht, hstage (fun _ => rfl) (by simp [Stage.active]) ha⟩
  | controllerGone d p t' hs hp hrole hc' ht' q hq =>
      obtain ⟨pt, hpt, rfl⟩ := putOn_eq hq
      exact .inl ⟨(hkept rfl hc).2, ht, hstage (fun _ => rfl) (by simp [Stage.active]) ha⟩
  | detached d p hs hp ht' hc' => exact .inl ⟨hc, ht, hstage (fun _ => rfl) (by simp [Stage.active]) ha⟩
  | orphaned | orphanEnded => exact .inl ⟨hc, ht, ha⟩

/-- The relay forwards a frame that it takes, or the connection ends. -/
theorem receive_frames {c : Nat} {m : Message} (h : r.receive c (some m) = some r') :
    (r.peer c).isSome = true ∧ (r.stage c).active = true ∧ ((r'.stage c).active = true → framesOf [m] ≠ [] →
      ∃ event p t, m = .frame event ∧ r.peer c = some p ∧ r.targets p.name = some t ∧
        r.putOn t ⟨.frame event, some c⟩ = some r') := by
  unfold receive at h
  split at h
  · rename_i owner p hs hp
    have hclose : (r.setStage c .closing).stage c = .closing := by simp [Relay.setStage]
    refine ⟨by rw [hp]; rfl, by rw [hs]; rfl, fun ha hne => ?_⟩
    have hframe : ∃ event, m = .frame event := by
      cases m with
      | frame event => exact ⟨event, rfl⟩
      | _ => exact absurd rfl hne
    obtain ⟨event, rfl⟩ := hframe
    split at h <;> cases h
    · unfold fromController at ha ⊢
      dsimp only at ha ⊢
      split at ha
      · rw [hclose] at ha; cases ha
      rename_i t ht
      split at ha
      · rw [hclose] at ha; cases ha
      rename_i hc
      cases hq : r.putOn t ⟨.frame event, some c⟩ with
      | none => rw [hq, Option.getD_none, hclose] at ha; cases ha
      | some q => exact ⟨event, p, t, rfl, hp, ht, by simp [hc, hq]⟩
    · rw [show r.fromTarget c p owner (some (.frame event)) = r.setStage c .closing from rfl, hclose] at ha
      cases ha
  · cases h

/-! ## Every queue -/

/-- The frames that an action takes from the connection `c`. -/
def framesIn (c : Nat) : RelayAction → List Event
  | .receive d (some m) => if d = c then framesOf [m] else []
  | _ => []

/-- `received` are the frames that the relay took from each connection. -/
structure Forwards (r : Relay) (received : Nat → List Event) : Prop where
  partly : ∀ c t, eventsOf (framesBy c (r.logOf t)) <+: received c
  whole : ∀ n c t, r.controllers n = some c → r.targets n = some t → (r.stage c).active = true →
    eventsOf (framesBy c (r.logOf t)) = received c
  once : ∀ c t t', ⟨.peerJoined, some c⟩ ∈ r.logOf t → ⟨.peerJoined, some c⟩ ∈ r.logOf t' → t = t'
  fresh : ∀ c, r.peer c = none → received c = []

theorem Forwards.start (registry : Registry) : Forwards { registry := registry } fun _ => [] :=
  ⟨fun _ _ => List.nil_prefix, by simp, by simp [logOf], fun _ _ => rfl⟩

theorem mem_logOf {d : Nat} {x : Entry} (h : x ∈ r.logOf d) : ∃ p, r.peer d = some p ∧ x ∈ p.log := by
  cases hp : r.peer d with
  | none => simp [logOf, hp] at h
  | some p => exact ⟨p, rfl, by rwa [logOf_peer hp] at h⟩

theorem framesIn_peer {c : Nat} (hs : r.step crypto action = some r') (hp : r.peer c = none) : framesIn c action = [] := by
  unfold framesIn
  split
  · rename_i d m
    split
    · rename_i hdc
      subst hdc
      have hsome := (receive_frames (m := m) hs).1
      rw [hp] at hsome
      cases hsome
    · rfl
  · rfl

/-- A controller that joins joins for the first time. -/
theorem Forwards.joins (h : r.Forwards received) (hses : r.Sessions) (haddr : r.Addressed) (hrot : r.Rotating)
    (hstep : StepCase crypto r action r') {c t t' : Nat} (ht : ⟨.peerJoined, some c⟩ ∈ r'.logOf t)
    (ht' : ⟨.peerJoined, some c⟩ ∈ r'.logOf t') : t = t' := by
  have hold : ∀ d, ⟨.peerJoined, some c⟩ ∈ r.logOf d → r.peer c ≠ none := by
    intro d hd hc
    obtain ⟨p, hp, hmem⟩ := mem_logOf hd
    have hsuits := haddr d p hp _ hmem
    cases hrole : p.role with
    | target => exact hses.stranger c hc d p hp hrole _ hmem rfl
    | controller => rw [hrole] at hsuits; cases hsuits
  have hnew : ∀ d, ⟨.peerJoined, some c⟩ ∈ r'.logOf d →
      ⟨.peerJoined, some c⟩ ∈ r.logOf d ∨ r.peer c = none ∧ r'.logOf d ≠ r.logOf d := by
    intro d hd
    rcases hstep.logs hses hrot d with hl | ⟨x, hx, hl⟩
    · exact .inl (hl ▸ hd)
    · rw [hl, List.mem_append, List.mem_singleton] at hd
      refine hd.imp_right fun he => ⟨?_, by rw [hl]; simp⟩
      subst he
      cases hx with
      | joined name c' _ hc he => cases he; exact hc
      | gone _ _ _ _ he => cases he
      | rotated _ _ _ _ _ _ he => cases he
      | frame _ _ _ _ _ _ he => cases he
      | outbound _ _ m m' _ hm _ he =>
          cases he
          have hsuits := outbound_suits hm
          cases hsuits
  rcases hnew t ht with ho | ⟨hc, hne⟩ <;> rcases hnew t' ht' with ho' | ⟨hc', hne'⟩
  · exact h.once c t t' ho ho'
  · exact absurd hc' (hold t ho)
  · exact absurd hc (hold t' ho')
  · obtain ⟨d, hd⟩ := hstep.touches hses
    have htd : t = d := by_contra fun hn => hne (hd t hn)
    have htd' : t' = d := by_contra fun hn => hne' (hd t' hn)
    rw [htd, htd']

/-- What is forwarded has been taken. -/
theorem Forwards.took (h : r.Forwards received) (hses : r.Sessions) (hrot : r.Rotating) (hs : r.step crypto action = some r')
    (c t : Nat) : eventsOf (framesBy c (r'.logOf t)) <+: received c ++ framesIn c action := by
  rcases (step_cases hs).logs hses hrot t with hl | ⟨x, hx, hl⟩
  · rw [hl]
    exact (h.partly c t).trans (List.prefix_append _ _)
  rw [hl, framesBy_append, eventsOf_append]
  have hother : x.message.isFrame = false ∨ x.author ≠ some c →
      eventsOf (framesBy c (r.logOf t)) ++ eventsOf (framesBy c [x]) <+: received c ++ framesIn c action := by
    intro hx
    rw [framesBy_other hx, eventsOf_nil, List.append_nil]
    exact (h.partly c t).trans (List.prefix_append _ _)
  cases hx with
  | joined _ _ _ _ he => subst he; exact hother (.inl rfl)
  | gone _ _ _ _ he => subst he; exact hother (.inl rfl)
  | rotated _ _ _ _ _ _ he => subst he; exact hother (.inl rfl)
  | outbound _ _ m m' _ hm _ he => subst he; exact hother (.inl (outbound_isFrame hm))
  | frame name d event ht hd ha he =>
      subst he ha
      by_cases hdc : d = c
      · subst hdc
        obtain ⟨-, hactive, -⟩ := receive_frames (m := .frame event) hs
        rw [h.whole name d t hd ht hactive, framesBy_frame, framesIn, if_pos rfl]
        exact List.prefix_refl _
      · exact hother (.inr (by simpa using hdc))

theorem Forwards.step (h : r.Forwards received) (hses : r.Sessions) (haddr : r.Addressed) (hrot : r.Rotating)
    (hs : r.step crypto action = some r') : r'.Forwards fun c => received c ++ framesIn c action := by
  have hstep := step_cases hs
  have hpartly := h.took hses hrot hs
  have hnone : ∀ c, r.peer c = none → received c ++ framesIn c action = [] := by
    intro c hc
    rw [h.fresh c hc, framesIn_peer hs hc, List.append_nil]
  refine ⟨hpartly, fun n c t hc ht ha => ?_, fun c t t' => h.joins hses haddr hrot hstep, fun c hc => hnone c ?_⟩
  · rcases hstep.mapped hses hc ht ha with ⟨hc0, ht0, ha0⟩ | hfresh
    · have hwhole := h.whole n c t hc0 ht0 ha0
      by_cases hf : framesIn c action = []
      · -- nothing was taken from `c`, and its frames on the queue stay
        have hgrows : eventsOf (framesBy c (r.logOf t)) <+: eventsOf (framesBy c (r'.logOf t)) := by
          refine eventsOf_mono (framesBy_mono ?_)
          rcases hstep.logs hses hrot t with hl | ⟨x, -, hl⟩
          · rw [hl]
          · rw [hl]; exact List.prefix_append _ _
        have hle := (hpartly c t).length_le
        rw [hf, List.append_nil] at hle ⊢
        rw [hwhole] at hgrows
        exact (hgrows.eq_of_length_le hle).symm
      · obtain ⟨m, rfl⟩ : ∃ m, action = .receive c (some m) := by
          unfold framesIn at hf
          split at hf
          · rename_i d m
            split at hf
            · rename_i hdc; exact ⟨m, by rw [hdc]⟩
            · exact absurd rfl hf
          · exact absurd rfl hf
        rw [framesIn, if_pos rfl] at hf ⊢
        obtain ⟨-, -, hforward⟩ := receive_frames (m := m) hs
        obtain ⟨event, p, t', rfl, hp, ht', hq⟩ := hforward ha hf
        obtain ⟨p', hp', -, rfl⟩ := hses.controller n c hc0
        cases hp.symm.trans hp'
        cases ht0.symm.trans ht'
        obtain ⟨pt, hpt, rfl⟩ := putOn_eq hq
        rw [logOf_setPeer, if_pos rfl, log_enqueue, ← logOf_peer hpt, framesBy_append, eventsOf_append, hwhole,
          framesBy_frame]
        rfl
    · have hnil := hpartly c t
      rw [hnone c hfresh] at hnil ⊢
      exact List.prefix_nil.mp hnil
  · cases hp : r.peer c with
    | none => rfl
    | some p =>
        obtain ⟨q, hq, -⟩ := hstep.peer_stays hses hp
        rw [hq] at hc
        cases hc

end Relay

end RemoteInput
