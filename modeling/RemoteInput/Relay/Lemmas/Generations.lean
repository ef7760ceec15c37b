import RemoteInput.Relay.Lemmas.Keys
import RemoteInput.Relay.Lemmas.Sessions

/-!
# Generations never fall behind a completed rotation
-/

namespace RemoteInput

/-! ## The registry -/

namespace Registry

variable {crypto : Crypto}

/-- Every generation of `r` is still known, or exceeded, in `r'`. -/
def Grows (r r' : Registry) : Prop :=
  ∀ name g, r.generation name = some g → ∃ g', r'.generation name = some g' ∧ g ≤ g'

theorem Grows.refl (r : Registry) : r.Grows r := fun _ g h => ⟨g, h, le_rfl⟩

/-- An update changes the row that it finds, and nothing else about the table. -/
theorem byNumber_update (r : Registry) (n m : Int) (salt hash : String) (g : Nat) (rotationId : String) :
    (r.update n salt hash g rotationId).byNumber m = (r.byNumber m).map fun row =>
      if (row.number : Int) = n then
        { row with salt := salt, passwordHash := hash, generation := g, rotationId := some rotationId }
      else row := by
  unfold byNumber update
  rw [List.find?_map]
  congr 2
  funext row
  simp only [Function.comp]
  split <;> rfl

theorem rotate_spec {r r' : Registry} {name owner password rotationId salt : String} {g : Nat}
    (h : r.rotate crypto name owner password rotationId salt = some (r', g)) :
    r.Grows r' ∧ r'.generation name = some g := by
  unfold rotate at h
  split at h
  · cases h
  rename_i row hrow
  split at h
  · cases h
  split at h
  · cases h
    exact ⟨.refl r, by simp [generation, hrow]⟩
  simp only [Option.some.injEq, Prod.mk.injEq] at h
  obtain ⟨rfl, rfl⟩ := h
  constructor
  · intro other g hg
    obtain ⟨x, hx, rfl⟩ := Option.map_eq_some_iff.mp hg
    unfold generation
    rw [byNumber_update, hx]
    refine ⟨_, rfl, ?_⟩
    dsimp only
    split
    · rename_i hxn
      -- the row of another name is the same row when it has the same number
      rw [← byNumber_number hx, hxn, hrow] at hx
      cases hx
      exact Nat.le_succ _
    · exact le_rfl
  · unfold generation
    rw [byNumber_update, hrow]
    simp [byNumber_number hrow]

theorem insert_grows (r : Registry) (owner password salt : String) :
    r.Grows (r.insert crypto owner password salt).1 := by
  unfold insert
  split
  · exact .refl r
  · intro name g hg
    refine ⟨g, ?_, le_rfl⟩
    obtain ⟨x, hx, rfl⟩ := Option.map_eq_some_iff.mp hg
    unfold generation byNumber
    rw [List.find?_append, show r.rows.find? _ = some x from hx]
    rfl

end Registry

/-! ## The invariant -/

namespace Relay

variable {crypto : Crypto} {r r' : Relay} {action : RelayAction}

structure Generations (r : Relay) : Prop where
  lock : ∀ c, (r.stage c).locked = true → r.pairLock = some c
  known : ∀ n g, (n, g) ∈ r.completed → ∃ x, r.registry.generation n = some x ∧ g ≤ x
  committed : ∀ c owner g p, r.stage c = .serving owner (.committed g) → r.peer c = some p →
    ∃ x, r.registry.generation p.name = some x ∧ g ≤ x
  fetched : ∀ c n g current, r.stage c = .fetched n g current → ∀ g', (n, g') ∈ r.completed →
    ∃ x, current = some x ∧ g' ≤ x
  mapped : ∀ n c p g, r.controllers n = some c → r.peer c = some p → (n, g) ∈ r.completed → g ≤ p.generation

theorem generations_start (registry : Registry) : Generations { registry := registry } where
  lock := by simp [Stage.locked]
  known := by simp
  committed := by simp
  fetched := by simp
  mapped := by simp

theorem Generations.grow (h : r.Generations) {registry : Registry} (hg : r.registry.Grows registry)
    (orphans : List Orphan) : { r with registry := registry, orphans := orphans }.Generations := by
  have hle : ∀ n g, (∃ x, r.registry.generation n = some x ∧ g ≤ x) → ∃ x, registry.generation n = some x ∧ g ≤ x := by
    rintro n g ⟨x, hx, hgx⟩
    obtain ⟨y, hy, hxy⟩ := hg n x hx
    exact ⟨y, hy, hgx.trans hxy⟩
  exact ⟨h.lock, fun n g hn => hle n g (h.known n g hn),
    fun c owner g p hs hp => hle p.name g (h.committed c owner g p hs hp), h.fetched, h.mapped⟩

/-- One handler goes on, perhaps with the lock changing hands. -/
theorem Generations.setStage (h : r.Generations) {c : Nat} {st : Stage} {lock : Option Nat}
    (hlock : st.locked = true → lock = some c)
    (hother : ∀ d, d ≠ c → (r.stage d).locked = true → lock = some d)
    (hcommitted : ∀ owner g, st = .serving owner (.committed g) → ∀ p, r.peer c = some p →
      ∃ x, r.registry.generation p.name = some x ∧ g ≤ x)
    (hfetched : ∀ n g current, st = .fetched n g current → current = r.registry.generation n) :
    { r.setStage c st with pairLock := lock }.Generations := by
  constructor <;> simp only [Relay.setStage, Function.update_apply]
  · intro d
    split
    · rename_i hd; subst hd; exact hlock
    · rename_i hd; exact hother d hd
  · exact h.known
  · intro d owner g p
    split
    · rename_i hd; subst hd; exact fun hs hp => hcommitted owner g hs p hp
    · exact h.committed d owner g p
  · intro d n g current
    split
    · intro hs g' hg'
      rw [hfetched n g current hs]
      exact h.known n g' hg'
    · exact h.fetched d n g current
  · exact h.mapped

/-- A queue changes, nothing else. -/
theorem Generations.setPeer (h : r.Generations) {d : Nat} {p p' : Peer} (hp : r.peer d = some p)
    (hname : p'.name = p.name) (hgen : p'.generation = p.generation) : (r.setPeer d p').Generations := by
  have hold : ∀ x q, Function.update r.peer d (some p') x = some q →
      ∃ q', r.peer x = some q' ∧ q'.name = q.name ∧ q'.generation = q.generation := by
    intro x q hq
    by_cases hx : x = d
    · subst hx
      obtain rfl : p' = q := by simpa using hq
      exact ⟨p, hp, hname.symm, hgen.symm⟩
    · exact ⟨q, by simpa [hx] using hq, rfl, rfl⟩
  constructor <;> simp only [Relay.setPeer]
  · exact h.lock
  · exact h.known
  · intro c owner g q hs hq
    obtain ⟨q', hq', hn, _⟩ := hold c q hq
    rw [← hn]; exact h.committed c owner g q' hs hq'
  · exact h.fetched
  · intro n c q g hc hq hg
    obtain ⟨q', hq', _, hge⟩ := hold c q hq
    rw [← hge]; exact h.mapped n c q' g hc hq' hg

theorem Generations.putOn (h : r.Generations) {d : Nat} {entry : Entry} {q : Relay} (hq : r.putOn d entry = some q) :
    q.Generations := by
  obtain ⟨p, hp, rfl⟩ := putOn_eq hq
  exact h.setPeer hp rfl rfl

/-- Controllers leave the map. -/
theorem Generations.unpair (h : r.Generations) (ts : String → Option Nat) (name : String) :
    { r with targets := ts, controllers := Function.update r.controllers name none }.Generations := by
  refine ⟨h.lock, h.known, h.committed, h.fetched, ?_⟩
  intro n c p g hc hp hg
  by_cases hn : n = name
  · subst hn; simp at hc
  · exact h.mapped n c p g (by simpa [hn] using hc) hp hg

/-- The lock is free for the others while one handler holds it. -/
theorem Generations.alone (h : r.Generations) {c : Nat} (hc : (r.stage c).locked = true) {d : Nat} (hd : d ≠ c)
    (hl : (r.stage d).locked = true) : False := by
  have := (h.lock c hc).symm.trans (h.lock d hl)
  exact hd (Option.some.inj this).symm

theorem Generations.moved (h : r.Generations) {c : Nat} {st : Stage} (hl : st.locked = (r.stage c).locked)
    (hc : ∀ owner g, st ≠ .serving owner (.committed g))
    (hf : ∀ n g current, st = .fetched n g current → current = r.registry.generation n) :
    (r.setStage c st).Generations := by
  show { r.setStage c st with pairLock := r.pairLock }.Generations
  exact h.setStage (fun hs => h.lock c (hl ▸ hs)) (fun d _ => h.lock d) (fun owner g hs => absurd hs (hc owner g)) hf

/-- The holder of the lock gives it back. -/
theorem Generations.released (h : r.Generations) {c : Nat} {st : Stage} (hold : (r.stage c).locked = true)
    (hl : st.locked = false) : (r.setStage c st).release.Generations := by
  refine h.setStage (by simp [hl]) (fun d hd hs => absurd hs fun hs => h.alone hold hd hs) ?_ ?_
  · rintro owner g rfl; simp [Stage.locked] at hl
  · rintro n g current rfl; simp [Stage.locked] at hl

/-- A peer joins under a fresh connection. -/
theorem Generations.joins (h : r.Generations) {c : Nat} {p : Peer} {ts cs : String → Option Nat}
    (hearly : (r.stage c).early = true)
    (hcs : ∀ n d, cs n = some d → d = c ∧ p.name = n ∨ d ≠ c ∧ r.controllers n = some d)
    (hgen : p.role = .controller → ∀ g, (p.name, g) ∈ r.completed → g ≤ p.generation)
    (hrole : ∀ n, cs n = some c → p.role = .controller) :
    { r with targets := ts, controllers := cs }.setPeer c p |>.Generations := by
  have hpeer : ∀ x q, x ≠ c → Function.update r.peer c (some p) x = some q → r.peer x = some q := by
    intro x q hx hq
    simpa [hx] using hq
  constructor <;> simp only [Relay.setPeer]
  · exact h.lock
  · exact h.known
  · intro d owner g q hs hq
    by_cases hd : d = c
    · subst hd; rw [hs] at hearly; cases hearly
    · exact h.committed d owner g q hs (hpeer d q hd hq)
  · exact h.fetched
  · intro n d q g hd hq hg
    rcases hcs n d hd with ⟨rfl, rfl⟩ | ⟨hne, hd'⟩
    · obtain rfl : p = q := by simpa using hq
      exact hgen (hrole _ hd) g hg
    · exact h.mapped n d q g hd' (hpeer d q hne hq) hg

/-- The admission of a controller whose generation is the current one. -/
theorem Generations.admits (h : r.Generations) (hses : r.Sessions) {c : Nat} {name : String} {g : Nat} (st : Stage)
    (hs : r.stage c = .fetched name g (some g)) (hl : st.locked = false) :
    ((({ r with controllers := Function.update r.controllers name (some c) }.setPeer c
      { role := .controller, name := name, generation := g }).setStage c st).release).Generations := by
  have hearly : (r.stage c).early = true := by rw [hs]; rfl
  have hjoin : ({ r with controllers := Function.update r.controllers name (some c) }.setPeer c
      { role := .controller, name := name, generation := g }).Generations := by
    refine h.joins hearly (fun n d hd => ?_) ?_ (fun _ _ => rfl)
    · by_cases hn : n = name
      · subst hn; exact .inl ⟨by simpa using hd.symm, rfl⟩
      · have hd' : r.controllers n = some d := by simpa [hn] using hd
        refine .inr ⟨?_, hd'⟩
        rintro rfl
        obtain ⟨p, hp, _⟩ := hses.controller n d hd'
        rw [hses.early d hearly] at hp; cases hp
    · intro _ g' hg'
      obtain ⟨x, hx, hle⟩ := h.fetched c name g _ hs g' hg'
      cases hx; exact hle
  refine hjoin.released ?_ hl
  show (r.stage c).locked = true
  rw [hs]; rfl

/-- The end of a rotation. -/
theorem Generations.completes (h : r.Generations) (hses : r.Sessions) {c : Nat} {p : Peer} {o : String} {g : Nat}
    (p' : Peer) (st : Stage) (hs : r.stage c = .serving o (.committed g)) (hp : r.peer c = some p) (hl : st.locked = false) :
    ((({ r with controllers := Function.update r.controllers p.name none,
                completed := r.completed ++ [(p.name, g)] }.setPeer c p').setStage c st).release).Generations := by
  have hold : (r.stage c).locked = true := by rw [hs]; rfl
  -- no other handler holds the lock
  have halone : ∀ d st', Function.update r.stage c st d = st' → st'.locked = true → False := by
    intro d st' hd hl'
    by_cases hdc : d = c
    · subst hdc
      rw [Function.update_self] at hd
      rw [← hd, hl] at hl'; cases hl'
    · rw [Function.update_of_ne hdc] at hd
      exact h.alone hold hdc (hd ▸ hl')
  constructor <;> simp only [Relay.setStage, Relay.setPeer, Relay.release]
  · intro d hd
    exact (halone d _ rfl hd).elim
  · intro n g' hg
    rcases List.mem_append.mp hg with hg | hg
    · exact h.known n g' hg
    · cases List.mem_singleton.mp hg
      exact h.committed c o g p hs hp
  · intro d o' g' q hd hq
    exact (halone d _ hd rfl).elim
  · intro d n g' x hd
    exact (halone d _ hd rfl).elim
  · intro n d q g' hd hq hg
    have hn : n ≠ p.name := by rintro rfl; simp at hd
    have hd : r.controllers n = some d := by simpa [hn] using hd
    obtain ⟨x, hx, _, hxn⟩ := hses.controller n d hd
    have hdc : d ≠ c := by
      rintro rfl
      cases hx.symm.trans hp
      exact hn hxn.symm
    rcases List.mem_append.mp hg with hg | hg
    · exact h.mapped n d q g' hd (by simpa [hdc] using hq) hg
    · cases List.mem_singleton.mp hg
      exact absurd rfl hn

theorem Generations.step (h : r.Generations) (hses : r.Sessions) (hstep : StepCase crypto r action r') : r'.Generations := by
  cases hstep with
  | idle => exact h
  | moved c st hm hf => exact h.moved hm.locked hm.uncommitted (fun n g current he => (hf n g current he).2)
  | inserted c o password salt hs =>
      refine Generations.moved (h.grow (Registry.insert_grows _ _ _ _) r.orphans) ?_ (by simp) (by simp)
      simp only [hs]; rfl
  | locked c st hfree hl hactive hatt hearly hf hc =>
      refine h.setStage (fun _ => rfl) ?_ (fun owner g hs => absurd hs (hc owner g)) (fun n g x hs => absurd hs (hf n g x))
      intro d _ hd
      have := h.lock d hd
      rw [hfree] at this; cases this
  | unlocked c st orphans hold hl =>
      have := h.released hold hl
      exact ⟨this.lock, this.known, this.committed, this.fetched, this.mapped⟩
  | targetIn c name g o hfree hs hn =>
      have hearly : (r.stage c).early = true := by rw [hs]; rfl
      have hjoin : ({ r with targets := Function.update r.targets name (some c) }.setPeer c
          { role := .target, name := name, generation := g }).Generations := by
        refine h.joins hearly (fun n d hd => .inr ⟨?_, hd⟩) (by simp) ?_
        · rintro rfl
          obtain ⟨p, hp, _⟩ := hses.controller n d hd
          rw [hses.early d hearly] at hp; cases hp
        · intro n hd
          obtain ⟨p, hp, _⟩ := hses.controller n c hd
          rw [hses.early c hearly] at hp; cases hp
      refine hjoin.moved ?_ (by simp) (by simp)
      show _ = (r.stage c).locked
      rw [hs]; rfl
  | controllerIn c name g t hs ht hn q hq =>
      obtain ⟨pt, hpt, rfl⟩ := putOn_eq hq
      exact (h.admits hses (.replying "") hs rfl).setPeer hpt rfl rfl
  | controllerFull c name g t hs ht hn => exact h.admits hses .closing hs rfl
  | frame c p o event t hs hp hrole ht hc q hq => exact h.putOn hq
  | outbound c p o m m' d hs hp hrole hd hm q hq => exact h.putOn hq
  | committed c p o password rotationId salt g registry hs hp hr =>
      obtain ⟨hg, hx⟩ := Registry.rotate_spec hr
      have hold : (r.stage c).locked = true := by rw [hs]; rfl
      have hgrow := h.grow hg r.orphans
      have hcommit : { { r with registry := registry }.setStage c (.serving o (.committed g)) with
          pairLock := r.pairLock }.Generations := by
        refine hgrow.setStage (fun _ => h.lock c hold) (fun d _ => h.lock d) ?_ (by simp)
        intro owner g' he p' hp'
        cases he
        cases hp.symm.trans hp'
        exact ⟨g, hx, le_rfl⟩
      exact hcommit
  | completed c p o g hs hp q hq =>
      obtain ⟨p', hp', rfl⟩ := putOn_eq hq
      exact (h.completes hses { p with generation := g } (.serving o .idle) hs hp rfl).setPeer hp' rfl rfl
  | completedFull c p o g hs hp => exact h.completes hses _ .closing hs hp rfl
  | wrote c p entry rest hp ho => exact h.setPeer hp rfl rfl
  | targetOut c p hs hp hrole ht =>
      refine Generations.moved (h.unpair _ p.name) ?_ (by simp) (by simp)
      show _ = (r.stage c).locked
      rw [hs]; rfl
  | controllerOut c p hs hp hrole hc =>
      refine Generations.moved (h.unpair r.targets p.name) ?_ (by simp) (by simp)
      show _ = (r.stage c).locked
      rw [hs]; rfl
  | controllerGone c p t hs hp hrole hc ht q hq =>
      have hput := (h.unpair r.targets p.name).putOn hq
      obtain ⟨pt, hpt, rfl⟩ := putOn_eq hq
      refine hput.moved ?_ (by simp) (by simp)
      show _ = (r.stage c).locked
      rw [hs]; rfl
  | detached c p hs hp ht hc => exact h.moved (by rw [hs]; rfl) (by simp) (by simp)
  | orphaned o orphans salt registry g ho _ hr => exact h.grow (Registry.rotate_spec hr).1 orphans
  | orphanEnded orphans => exact ⟨h.lock, h.known, h.committed, h.fetched, h.mapped⟩

end Relay

end RemoteInput
