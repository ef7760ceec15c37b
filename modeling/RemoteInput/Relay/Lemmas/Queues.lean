import RemoteInput.Relay.Lemmas.Sessions

/-!
# What is put on which queue
-/

namespace RemoteInput

def Message.isFrame : Message → Bool
  | .frame _ => true
  | _ => false

namespace Relay

variable {crypto : Crypto} {r r' : Relay} {action : RelayAction}

/-! ## Only targets rotate -/

def Rotating (r : Relay) : Prop := ∀ c, (r.stage c).rotating = true → ∃ p, r.peer c = some p ∧ p.role = .target

theorem rotating_start (registry : Registry) : Rotating { registry := registry } := by
  intro c h; simp [Stage.rotating] at h

theorem Rotating.setStage (h : r.Rotating) {c : Nat} {st : Stage}
    (hst : st.rotating = true → ∃ p, r.peer c = some p ∧ p.role = .target) : (r.setStage c st).Rotating := by
  intro d hd
  by_cases hdc : d = c
  · subst hdc
    exact hst (by simpa [Relay.setStage] using hd)
  · exact h d (by simpa [Relay.setStage, hdc] using hd)

theorem Rotating.setPeer (h : r.Rotating) {c : Nat} {p : Peer}
    (hp : ∀ q, r.peer c = some q → q.role = .target → p.role = .target) : (r.setPeer c p).Rotating := by
  intro d hd
  obtain ⟨q, hq, hrole⟩ := h d hd
  by_cases hdc : d = c
  · subst hdc; exact ⟨p, by simp [Relay.setPeer], hp q hq hrole⟩
  · exact ⟨q, by simp [Relay.setPeer, hdc, hq], hrole⟩

theorem Rotating.enqueue (h : r.Rotating) {d : Nat} {p : Peer} (entry : Entry) (hp : r.peer d = some p) :
    (r.setPeer d (p.enqueue entry)).Rotating := by
  refine h.setPeer fun q hq hrole => ?_
  cases hp.symm.trans hq
  exact hrole

theorem Rotating.step (h : r.Rotating) (hses : r.Sessions) (hstep : StepCase crypto r action r') : r'.Rotating := by
  have hjoin : ∀ c p, (r.stage c).early = true → (r.setPeer c p).Rotating := by
    intro c p he
    refine h.setPeer fun q hq => ?_
    rw [hses.early c he] at hq; cases hq
  cases hstep with
  | idle => exact h
  | moved c st hm hf hw => exact h.setStage hw
  | inserted c owner password salt hs => exact h.setStage (by simp [Stage.rotating])
  | locked c st hfree hl hactive hatt hearly hf hc hw => exact h.setStage fun hst => h c (hw hst)
  | unlocked c st orphans hold hl hactive =>
      refine h.setStage fun hst => ?_
      cases st <;> simp [Stage.rotating, Stage.active] at hst hactive
  | targetIn c name g owner hfree hs hn =>
      exact (hjoin c _ (by rw [hs]; rfl)).setStage (by simp [Stage.rotating])
  | controllerIn c name g t hs ht hn q hq =>
      obtain ⟨pt, hpt, rfl⟩ := putOn_eq hq
      refine Rotating.setStage ?_ (by simp [Stage.rotating])
      exact Rotating.enqueue (hjoin c { role := .controller, name := name, generation := g } (by rw [hs]; rfl)) _ hpt
  | controllerFull c name g t hs ht hn =>
      exact (hjoin c _ (by rw [hs]; rfl)).setStage (by simp [Stage.rotating])
  | frame c p owner event t hs hp hrole ht hc q hq =>
      obtain ⟨pt, hpt, rfl⟩ := putOn_eq hq
      exact h.enqueue _ hpt
  | outbound c p owner m m' d hs hp hrole hd hm q hq =>
      obtain ⟨pd, hpd, rfl⟩ := putOn_eq hq
      exact h.enqueue _ hpd
  | committed c p owner password rotationId salt g registry hs hp hr =>
      exact h.setStage fun _ => h c (by rw [hs]; rfl)
  | completed c p owner g hs hp q hq =>
      obtain ⟨p', hp', rfl⟩ := putOn_eq hq
      have hset : (r.setPeer c { p with generation := g }).Rotating := by
        refine h.setPeer fun q hq hrole => ?_
        cases hp.symm.trans hq
        exact hrole
      exact Rotating.setStage (Rotating.enqueue hset _ hp') (by simp [Stage.rotating])
  | completedFull c p owner g hs hp =>
      have hset : (r.setPeer c { p with generation := g }).Rotating := by
        refine h.setPeer fun q hq hrole => ?_
        cases hp.symm.trans hq
        exact hrole
      exact hset.setStage (by simp [Stage.rotating])
  | wrote c p entry rest hp ho =>
      refine h.setPeer fun q hq hrole => ?_
      cases hp.symm.trans hq
      exact hrole
  | targetOut c p hs hp hrole ht => exact h.setStage (by simp [Stage.rotating])
  | controllerOut c p hs hp hrole hc => exact h.setStage (by simp [Stage.rotating])
  | controllerGone c p t hs hp hrole hc ht q hq =>
      obtain ⟨pt, hpt, rfl⟩ := putOn_eq hq
      exact Rotating.setStage (h.enqueue _ hpt) (by simp [Stage.rotating])
  | detached c p hs hp ht hc => exact h.setStage (by simp [Stage.rotating])
  | orphaned => exact h
  | orphanEnded => exact h

/-! ## One action puts at most one entry on a queue -/

def logOf (r : Relay) (c : Nat) : List Entry := ((r.peer c).map Peer.log).getD []

/-- `entry` may be put on the queue of `d`. -/
inductive Put (r : Relay) (action : RelayAction) (d : Nat) (entry : Entry) : Prop where
  | joined (name : String) (c : Nat) (ht : r.targets name = some d) (hc : r.peer c = none)
      (he : entry = ⟨.peerJoined, some c⟩)
  | gone (name : String) (c : Nat) (ht : r.targets name = some d) (hc : r.controllers name = some c)
      (he : entry = ⟨.peerGone, some c⟩)
  | rotated (p : Peer) (o : String) (g : Nat) (hp : r.peer d = some p) (hrole : p.role = .target)
      (hs : r.stage d = .serving o (.committed g)) (he : entry = ⟨.rotated g, r.controllers p.name⟩)
  | frame (name : String) (c : Nat) (event : Event) (ht : r.targets name = some d) (hc : r.controllers name = some c)
      (ha : action = .receive c (some (.frame event))) (he : entry = ⟨.frame event, some c⟩)
  | outbound (name : String) (t : Nat) (m m' : Message) (hd : r.controllers name = some d)
      (hm : Relay.outbound m = some m') (ha : action = .receive t (some m)) (he : entry = ⟨m', some t⟩)

theorem logOf_setPeer (r : Relay) (c : Nat) (p : Peer) (d : Nat) :
    (r.setPeer c p).logOf d = if d = c then p.log else r.logOf d := by
  unfold logOf Relay.setPeer
  by_cases hd : d = c
  · subst hd; simp
  · simp [hd]

theorem logOf_peer {d : Nat} {p : Peer} (h : r.peer d = some p) : r.logOf d = p.log := by simp [logOf, h]

theorem put_enqueue {r₁ : Relay} {t : Nat} {pt : Peer} {entry : Entry} (hlog : ∀ d, r₁.logOf d = r.logOf d)
    (hpt : r₁.peer t = some pt) (hput : r.Put action t entry) (d : Nat) :
    (r₁.setPeer t (pt.enqueue entry)).logOf d = r.logOf d ∨
      ∃ x, r.Put action d x ∧ (r₁.setPeer t (pt.enqueue entry)).logOf d = r.logOf d ++ [x] := by
  rw [logOf_setPeer]
  by_cases hd : d = t
  · subst hd
    refine .inr ⟨entry, hput, ?_⟩
    rw [if_pos rfl, log_enqueue, ← hlog, logOf_peer hpt]
  · rw [if_neg hd]; exact .inl (hlog d)

theorem StepCase.logs (hses : r.Sessions) (hrot : r.Rotating) (hstep : StepCase crypto r action r') (d : Nat) :
    r'.logOf d = r.logOf d ∨ ∃ x, r.Put action d x ∧ r'.logOf d = r.logOf d ++ [x] := by
  have hjoin : ∀ c p, (r.stage c).early = true → p.log = [] → ∀ d, (r.setPeer c p).logOf d = r.logOf d := by
    intro c p he hp d
    rw [logOf_setPeer]
    by_cases hd : d = c
    · subst hd; simp [hp, logOf, hses.early d he]
    · rw [if_neg hd]
  have hsame : ∀ {c p} p', r.peer c = some p → p'.log = p.log → ∀ d, (r.setPeer c p').logOf d = r.logOf d := by
    intro c p p' hp hlog d
    rw [logOf_setPeer]
    by_cases hd : d = c
    · subst hd; rw [if_pos rfl, hlog, logOf_peer hp]
    · rw [if_neg hd]
  cases hstep with
  | idle | moved | inserted | locked | unlocked | committed | targetOut | controllerOut | detached | orphaned
  | orphanEnded => exact .inl rfl
  | targetIn c name g owner hfree hs hn => exact .inl (hjoin c _ (by rw [hs]; rfl) rfl d)
  | controllerIn c name g t hs ht hn q hq =>
      have he : (r.stage c).early = true := by rw [hs]; rfl
      obtain ⟨pt, hpt, rfl⟩ := putOn_eq hq
      exact put_enqueue (hjoin c _ he rfl) hpt (.joined name c ht (hses.early c he) rfl) d
  | controllerFull c name g t hs ht hn => exact .inl (hjoin c _ (by rw [hs]; rfl) rfl d)
  | frame c p owner event t hs hp hrole ht hc q hq ha =>
      obtain ⟨pt, hpt, rfl⟩ := putOn_eq hq
      exact put_enqueue (fun _ => rfl) hpt (.frame p.name c event ht hc ha rfl) d
  | outbound c p owner m m' e hs hp hrole hd hm q hq ha =>
      obtain ⟨pe, hpe, rfl⟩ := putOn_eq hq
      exact put_enqueue (fun _ => rfl) hpe (.outbound p.name c m m' hd hm ha rfl) d
  | completed c p owner g hs hp q hq =>
      obtain ⟨p', hp', rfl⟩ := putOn_eq hq
      obtain ⟨p'', hp'', hrole⟩ := hrot c (by rw [hs]; rfl)
      cases hp.symm.trans hp''
      exact put_enqueue (hsame { p with generation := g } hp rfl) hp' (.rotated p owner g hp hrole hs rfl) d
  | completedFull c p owner g hs hp => exact .inl (hsame { p with generation := g } hp rfl d)
  | wrote c p entry rest hp ho => exact .inl (hsame _ hp (by simp [Peer.log, ho]) d)
  | controllerGone c p t hs hp hrole hc ht q hq =>
      obtain ⟨pt, hpt, rfl⟩ := putOn_eq hq
      exact put_enqueue (r := r) (fun _ => rfl) hpt (.gone p.name c ht hc rfl) d

/-! ## A controller that is not in the map -/

/-- The frames of `c` in `log`. -/
def framesBy (c : Nat) (log : List Entry) : List Entry :=
  log.filter fun x => x.message.isFrame && x.author = some c

theorem outbound_isFrame {m m' : Message} (h : Relay.outbound m = some m') : m'.isFrame = false := by
  cases m <;> simp only [Relay.outbound, Option.ite_none_right_eq_some, reduceCtorEq, Option.some.injEq] at h
  all_goals grind [Message.isFrame]

/-- Nothing is queued for a controller that is not in the map, and none of its frames is queued. -/
theorem StepCase.unmapped (hses : r.Sessions) (hrot : r.Rotating) (hstep : StepCase crypto r action r') {c : Nat} {p : Peer}
    (hp : r.peer c = some p) (hrole : p.role = .controller) (hc : r.controllers p.name ≠ some c) :
    r'.logOf c = r.logOf c ∧ ∀ t, framesBy c (r'.logOf t) = framesBy c (r.logOf t) := by
  have hmap : ∀ n, r.controllers n ≠ some c := by
    intro n hn
    obtain ⟨q, hq, _, rfl⟩ := hses.controller n c hn
    cases hp.symm.trans hq
    exact hc hn
  have htarget : ∀ n, r.targets n ≠ some c := by
    intro n hn
    obtain ⟨q, hq, hr, _⟩ := hses.target n c hn
    cases hp.symm.trans hq
    rw [hrole] at hr; cases hr
  constructor
  · rcases hstep.logs hses hrot c with h | ⟨x, hx, _⟩
    · exact h
    · cases hx with
      | joined name _ ht => exact absurd ht (htarget name)
      | gone name _ ht => exact absurd ht (htarget name)
      | rotated q _ g hq hr => cases hp.symm.trans hq; rw [hrole] at hr; cases hr
      | frame name _ _ ht => exact absurd ht (htarget name)
      | outbound name _ _ _ hd => exact absurd hd (hmap name)
  · intro t
    rcases hstep.logs hses hrot t with h | ⟨x, hx, h⟩
    · rw [h]
    · have hx : x.message.isFrame = false ∨ x.author ≠ some c := by
        cases hx with
        | joined _ _ _ _ he => subst he; exact .inl rfl
        | gone _ _ _ _ he => subst he; exact .inl rfl
        | rotated _ _ _ _ _ _ he => subst he; exact .inl rfl
        | frame name d _ _ hd _ he =>
            subst he
            exact .inr fun ha => hmap name (by cases ha; exact hd)
        | outbound _ _ m m' _ hm _ he => subst he; exact .inl (outbound_isFrame hm)
      rw [h, framesBy, framesBy, List.filter_append]
      rcases hx with hx | hx <;> simp [hx]

end Relay

end RemoteInput
