import RemoteInput.Relay.Lemmas.Log

/-!
# What one action of the relay can do
-/

namespace RemoteInput

/-! ## Kinds of stages -/

/-- The handler holds `pair_lock`. -/
def Stage.locked : Stage → Bool
  | .fetching .. | .fetched .. | .rejecting | .serving _ (.hashing ..) | .serving _ (.committed _) => true
  | _ => false

/-- The handler has admitted its client and has not begun to leave. -/
def Stage.active : Stage → Bool
  | .replying _ | .serving .. => true
  | _ => false

/-- The handler has a peer that it will detach. -/
def Stage.attached : Stage → Bool
  | .replying _ | .serving .. | .closing => true
  | _ => false

/-- The handler has no peer yet. -/
def Stage.early : Stage → Bool
  | .replying _ | .serving .. | .closing | .closed => false
  | _ => true

/-- The reader is busy with a rotation. -/
def Stage.rotating : Stage → Bool
  | .serving _ .idle => false
  | .serving .. => true
  | _ => false

/-- From `st` to `st'` a handler neither takes nor gives back the lock and gets no peer. -/
structure Stage.Moves (st st' : Stage) : Prop where
  locked : st'.locked = st.locked
  active : st'.active = true → st.active = true
  attached : st'.attached = st.attached
  early : st'.early = true → st.early = true
  uncommitted : ∀ owner g, st' ≠ .serving owner (.committed g)

/-! ## What a handler was told -/

/-- The owner secret and the password that will be registered. -/
def Stage.registration : Stage → Option (String × String)
  | .registering owner password | .inserting owner password => some (owner, password)
  | _ => none

/-- The owner secret of a target, and the empty one of a controller. -/
def Stage.owner : Stage → Option String
  | .checkingOwner _ owner | .registering owner _ | .inserting owner _ | .waitingTarget _ _ owner | .replying owner
  | .serving owner _ => some owner
  | _ => none

/-- The password and the id of a rotation that has not been committed. -/
def Stage.rotation : Stage → Option (String × String)
  | .serving _ (.waiting password rotationId) | .serving _ (.hashing password rotationId) => some (password, rotationId)
  | _ => none

/-- From `st` to `st'` a handler was told nothing. -/
structure Stage.Carries (st st' : Stage) : Prop where
  registration : ∀ x, st'.registration = some x → st.registration = some x
  owner : ∀ x, st'.owner = some x → st.owner = some x
  rotation : ∀ x, st'.rotation = some x → st.rotation = some x

namespace Relay

variable {crypto : Crypto} {r r' : Relay} {action : RelayAction}

/-- Where a handler at `st` was told what it goes on with at `st'`. -/
inductive Told (action : RelayAction) (c : Nat) (st st' : Stage) : Prop where
  | before (h : st.Carries st')
  | hello (message : Hello) (ha : action = .hello c message) (he : st' = firstStage message)
  | rotate (owner password rotationId : String) (ha : action = .receive c (some (.rotate password rotationId)))
      (hst : st = .serving owner .idle) (he : st' = .serving owner (.waiting password rotationId))

theorem Told.silent {c : Nat} {st st' : Stage} (h1 : st'.registration = none) (h2 : st'.owner = none)
    (h3 : st'.rotation = none) : Told action c st st' := .before ⟨by simp [h1], by simp [h2], by simp [h3]⟩

/-! ## The cases of one action -/

/-- What is left of `r` by one action. -/
inductive StepCase (crypto : Crypto) (r : Relay) (action : RelayAction) : Relay → Prop where
  | idle : StepCase crypto r action r
  | moved (c : Nat) (st : Stage) (h : (r.stage c).Moves st)
      (hf : ∀ name g current, st = .fetched name g current →
        r.stage c = .fetching name g ∧ current = r.registry.generation name)
      (hw : st.rotating = true → ∃ p, r.peer c = some p ∧ p.role = .target) (ht : Told action c (r.stage c) st) :
      StepCase crypto r action (r.setStage c st)
  | inserted (c : Nat) (owner password salt : String) (h : r.stage c = .inserting owner password) :
      StepCase crypto r action ({ r with registry := (r.registry.insert crypto owner password salt).1 }.setStage c
        (.waitingTarget (r.registry.insert crypto owner password salt).2.1
          (r.registry.insert crypto owner password salt).2.2 owner))
  | locked (c : Nat) (st : Stage) (hfree : r.pairLock = none) (hl : st.locked = true)
      (hactive : st.active = true → (r.stage c).active = true) (hatt : st.attached = (r.stage c).attached)
      (hearly : st.early = true → (r.stage c).early = true) (hf : ∀ name g current, st ≠ .fetched name g current)
      (hc : ∀ owner g, st ≠ .serving owner (.committed g))
      (hw : st.rotating = true → (r.stage c).rotating = true) (ht : (r.stage c).Carries st) :
      StepCase crypto r action ({ r with pairLock := some c }.setStage c st)
  | unlocked (c : Nat) (st : Stage) (orphans : List Orphan) (hold : (r.stage c).locked = true)
      (hl : st.locked = false) (hactive : st.active = false) (hatt : st.attached = (r.stage c).attached)
      (hearly : st.early = false)
      (ho : ∀ o ∈ orphans, o ∈ r.orphans ∨ r.stage c = .serving o.owner (.hashing o.password o.rotationId)) :
      StepCase crypto r action ({ r with orphans := orphans }.setStage c st).release
  | targetIn (c : Nat) (name : String) (g : Nat) (owner : String) (hfree : r.pairLock = none)
      (h : r.stage c = .waitingTarget name g owner) (hn : r.targets name = none) :
      StepCase crypto r action (({ r with targets := Function.update r.targets name (some c) }.setPeer c
        { role := .target, name := name, generation := g }).setStage c (.replying owner))
  | controllerIn (c : Nat) (name : String) (g t : Nat) (h : r.stage c = .fetched name g (some g))
      (ht : r.targets name = some t) (hn : r.controllers name = none) (q : Relay)
      (hq : (({ r with controllers := Function.update r.controllers name (some c) }.setPeer c
        { role := .controller, name := name, generation := g }).release).putOn t ⟨.peerJoined, some c⟩ = some q) :
      StepCase crypto r action (q.setStage c (.replying ""))
  | controllerFull (c : Nat) (name : String) (g t : Nat) (h : r.stage c = .fetched name g (some g))
      (ht : r.targets name = some t) (hn : r.controllers name = none) :
      StepCase crypto r action ((({ r with controllers := Function.update r.controllers name (some c) }.setPeer c
        { role := .controller, name := name, generation := g }).release).setStage c .closing)
  | frame (c : Nat) (p : Peer) (owner : String) (event : Event) (t : Nat) (h : r.stage c = .serving owner .idle)
      (hp : r.peer c = some p) (hrole : p.role = .controller) (ht : r.targets p.name = some t)
      (hc : r.controllers p.name = some c) (q : Relay) (hq : r.putOn t ⟨.frame event, some c⟩ = some q)
      (ha : action = .receive c (some (.frame event))) : StepCase crypto r action q
  | outbound (c : Nat) (p : Peer) (owner : String) (m m' : Message) (d : Nat) (h : r.stage c = .serving owner .idle)
      (hp : r.peer c = some p) (hrole : p.role = .target) (hd : r.controllers p.name = some d)
      (hm : Relay.outbound m = some m') (q : Relay) (hq : r.putOn d ⟨m', some c⟩ = some q)
      (ha : action = .receive c (some m)) : StepCase crypto r action q
  | committed (c : Nat) (p : Peer) (owner password rotationId salt : String) (g : Nat) (registry : Registry)
      (h : r.stage c = .serving owner (.hashing password rotationId)) (hp : r.peer c = some p)
      (hr : r.registry.rotate crypto p.name owner password rotationId salt = some (registry, g)) :
      StepCase crypto r action ({ r with registry := registry }.setStage c (.serving owner (.committed g)))
  | completed (c : Nat) (p : Peer) (owner : String) (g : Nat) (h : r.stage c = .serving owner (.committed g))
      (hp : r.peer c = some p) (q : Relay)
      (hq : (({ r with controllers := Function.update r.controllers p.name none,
                       completed := r.completed ++ [(p.name, g)] }.setPeer c { p with generation := g }).release).putOn
        c ⟨.rotated g, r.controllers p.name⟩ = some q) : StepCase crypto r action (q.setStage c (.serving owner .idle))
  | completedFull (c : Nat) (p : Peer) (owner : String) (g : Nat) (h : r.stage c = .serving owner (.committed g))
      (hp : r.peer c = some p) :
      StepCase crypto r action ((({ r with controllers := Function.update r.controllers p.name none,
                                           completed := r.completed ++ [(p.name, g)] }.setPeer c
        { p with generation := g }).release).setStage c .closing)
  | wrote (c : Nat) (p : Peer) (entry : Entry) (rest : List Entry) (hp : r.peer c = some p)
      (ho : p.out = entry :: rest) (ha : action = .write c) :
      StepCase crypto r action (r.setPeer c { p with out := rest, sent := p.sent ++ [entry] })
  | targetOut (c : Nat) (p : Peer) (h : r.stage c = .closing) (hp : r.peer c = some p) (hrole : p.role = .target)
      (ht : r.targets p.name = some c) :
      StepCase crypto r action ({ r with targets := Function.update r.targets p.name none,
                                         controllers := Function.update r.controllers p.name none }.setStage c .closed)
  | controllerOut (c : Nat) (p : Peer) (h : r.stage c = .closing) (hp : r.peer c = some p)
      (hrole : p.role = .controller) (hc : r.controllers p.name = some c) :
      StepCase crypto r action ({ r with controllers := Function.update r.controllers p.name none }.setStage c .closed)
  | controllerGone (c : Nat) (p : Peer) (t : Nat) (h : r.stage c = .closing) (hp : r.peer c = some p)
      (hrole : p.role = .controller) (hc : r.controllers p.name = some c) (ht : r.targets p.name = some t) (q : Relay)
      (hq : { r with controllers := Function.update r.controllers p.name none }.putOn t ⟨.peerGone, some c⟩ = some q) :
      StepCase crypto r action (q.setStage c .closed)
  | detached (c : Nat) (p : Peer) (h : r.stage c = .closing) (hp : r.peer c = some p)
      (ht : p.role = .target → r.targets p.name ≠ some c) (hc : p.role = .controller → r.controllers p.name ≠ some c) :
      StepCase crypto r action (r.setStage c .closed)
  | orphaned (o : Orphan) (orphans : List Orphan) (salt : String) (registry : Registry) (g : Nat) (ho : o ∈ r.orphans)
      (hsub : orphans ⊆ r.orphans)
      (hr : r.registry.rotate crypto o.name o.owner o.password o.rotationId salt = some (registry, g)) :
      StepCase crypto r action { r with orphans := orphans, registry := registry }
  | orphanEnded (orphans : List Orphan) (hsub : orphans ⊆ r.orphans) : StepCase crypto r action { r with orphans := orphans }

/-! ## One inversion for each action -/

theorem StepCase.of_moves {c : Nat} {st st' : Stage} (hs : r.stage c = st) (h : st.Moves st')
    (hf : ∀ name g current, st' ≠ .fetched name g current) (hw : st'.rotating = false) (ht : Told action c st st') :
    StepCase crypto r action (r.setStage c st') :=
  .moved c st' (hs ▸ h) (fun name g current he => absurd he (hf name g current)) (by simp [hw]) (hs ▸ ht)

/-- Among the stages before admission and without the lock, any move is one. -/
theorem moves_early {st st' : Stage} (h : st.early = true) (hl : st.locked = false) (hl' : st'.locked = false)
    (hatt : st'.attached = false) : st.Moves st' := by
  cases st <;> simp [Stage.early, Stage.locked] at h hl <;> cases st' <;>
    simp [Stage.locked, Stage.attached] at hl' hatt <;>
    exact ⟨rfl, by simp [Stage.active], rfl, by simp [Stage.early], by simp⟩

/-- A handler with a peer may begin to leave whenever it does not hold the lock. -/
theorem moves_closing {st : Stage} (hatt : st.attached = true) (hl : st.locked = false) : st.Moves .closing := by
  refine ⟨hl.symm, by simp [Stage.active], hatt.symm, by simp [Stage.early], by simp⟩

theorem firstStage_calm (message : Hello) : (firstStage message).locked = false ∧ (firstStage message).attached = false ∧
    (∀ name g current, firstStage message ≠ .fetched name g current) ∧ (firstStage message).rotating = false := by
  have hclosed : Stage.closed.locked = false ∧ Stage.closed.attached = false ∧
      (∀ name g current, Stage.closed ≠ .fetched name g current) ∧ Stage.closed.rotating = false :=
    ⟨rfl, rfl, by simp, rfl⟩
  unfold firstStage
  cases message with
  | target owner id password =>
      dsimp only
      split
      · exact hclosed
      · split
        · split
          · exact ⟨rfl, rfl, by simp, rfl⟩
          · exact hclosed
        · split
          · exact ⟨rfl, rfl, by simp, rfl⟩
          · exact hclosed
  | controller id password =>
      dsimp only
      split
      · exact ⟨rfl, rfl, by simp, rfl⟩
      · exact hclosed
  | diagnostic => exact hclosed
  | other => exact hclosed

theorem hello_cases {c : Nat} {message : Hello} (h : r.hello c message = some r') :
    StepCase crypto r (.hello c message) r' := by
  unfold hello at h
  split at h
  · rename_i hs
    cases h
    have hfirst := firstStage_calm message
    exact .of_moves hs (moves_early rfl rfl hfirst.1 hfirst.2.1) hfirst.2.2.1 hfirst.2.2.2 (.hello message rfl rfl)
  · cases h

theorem refuse_cases {c : Nat} (h : r.refuse c = some r') : StepCase crypto r action r' := by
  unfold refuse at h
  split at h <;> rename_i hs <;> cases h
  case h_6 => exact .unlocked c .closed r.orphans (by rw [hs]; rfl) rfl rfl (by rw [hs]; rfl) rfl (fun _ ho => .inl ho)
  all_goals exact .of_moves hs (moves_early rfl rfl rfl rfl) (by simp) rfl (.silent rfl rfl rfl)

theorem transaction_cases {c : Nat} {salt : String} (h : r.transaction crypto c salt = some r') :
    StepCase crypto r action r' := by
  unfold transaction at h
  split at h
  · rename_i hs
    split at h <;> cases h
    · exact .of_moves hs (moves_early rfl rfl rfl rfl) (by simp) rfl (.silent rfl rfl rfl)
    · exact .of_moves hs (moves_early rfl rfl rfl rfl) (by simp) rfl
        (.before ⟨by simp [Stage.registration], fun _ => id, by simp [Stage.rotation]⟩)
  · rename_i hs
    split at h <;> cases h
    · exact .of_moves hs (moves_early rfl rfl rfl rfl) (by simp) rfl
        (.before ⟨fun _ => id, fun _ => id, by simp [Stage.rotation]⟩)
    · exact .of_moves hs (moves_early rfl rfl rfl rfl) (by simp) rfl
        (.before ⟨by simp [Stage.registration], fun _ => id, by simp [Stage.rotation]⟩)
  · rename_i owner password hs
    cases h; exact .inserted c owner password salt hs
  · rename_i hs
    split at h <;> cases h <;> exact .of_moves hs (moves_early rfl rfl rfl rfl) (by simp) rfl (.silent rfl rfl rfl)
  · rename_i name g hs
    cases h
    refine .moved c _ ?_ ?_ (by simp [Stage.rotating]) (.silent rfl rfl rfl)
    · rw [hs]; exact ⟨rfl, by simp [Stage.active], rfl, fun _ => rfl, by simp⟩
    · rintro name' g' current he; cases he; exact ⟨hs, rfl⟩
  · rename_i owner password rotationId hs
    obtain ⟨p, hp, he⟩ := Option.map_eq_some_iff.mp h
    split at he <;> cases he
    · exact .unlocked c .closing r.orphans (by rw [hs]; rfl) rfl rfl (by rw [hs]; rfl) rfl (fun _ ho => .inl ho)
    · rename_i registry g hr
      exact .committed c p owner password rotationId salt g registry hs hp hr
  · cases h

theorem acquire_cases {c : Nat} (h : r.acquire c = some r') : StepCase crypto r action r' := by
  unfold acquire at h
  split at h
  · cases h
  rename_i hfree
  have hfree : r.pairLock = none := not_not.mp hfree
  split at h
  · rename_i name g owner hs
    split at h <;> cases h
    · exact .locked c .rejecting hfree rfl (by simp [Stage.active]) (by rw [hs]; rfl) (by rw [hs]; simp [Stage.early])
        (by simp) (by simp) (by simp [Stage.rotating])
          ⟨by simp [Stage.registration], by simp [Stage.owner], by simp [Stage.rotation]⟩
    · rename_i hn
      exact .targetIn c name g owner hfree hs (by simpa using hn)
  · rename_i name g hs
    cases h
    exact .locked c _ hfree rfl (by simp [Stage.active]) (by rw [hs]; rfl) (by rw [hs]; simp [Stage.early])
      (by simp) (by simp) (by simp [Stage.rotating])
        ⟨by simp [Stage.registration], by simp [Stage.owner], by simp [Stage.rotation]⟩
  · rename_i owner password rotationId hs
    cases h
    exact .locked c _ hfree rfl (by rw [hs]; exact id) (by rw [hs]; rfl) (by simp [Stage.early]) (by simp) (by simp)
      (by rw [hs]; exact id) (by rw [hs]; exact ⟨fun _ => id, fun _ => id, fun _ => id⟩)
  · cases h

theorem admission_cases {c : Nat} (h : r.admission c = some r') : StepCase crypto r action r' := by
  unfold admission at h
  split at h
  · rename_i name g current hs
    have hreject : StepCase crypto r action (r.setStage c .rejecting) :=
      .of_moves hs ⟨rfl, by simp [Stage.active], rfl, fun _ => rfl, by simp⟩ (by simp) rfl (.silent rfl rfl rfl)
    split at h
    · cases h; exact hreject
    rename_i hg
    have hg : current = some g := not_not.mp hg
    subst hg
    split at h
    · cases h; exact hreject
    rename_i t ht
    split at h
    · cases h; exact hreject
    rename_i hn
    have hn : r.controllers name = none := by simpa using hn
    dsimp only at h
    split at h
    · rename_i q hq; cases h; exact .controllerIn c name g t hs ht hn q hq
    · cases h; exact .controllerFull c name g t hs ht hn
  · cases h

theorem rejected_cases {c : Nat} (h : r.rejected c = some r') : StepCase crypto r action r' := by
  unfold rejected at h
  split at h
  · rename_i hs
    cases h
    exact .unlocked c .closed r.orphans (by rw [hs]; rfl) rfl rfl (by rw [hs]; rfl) rfl (fun _ ho => .inl ho)
  · cases h

theorem replied_cases {c : Nat} (h : r.replied c = some r') : StepCase crypto r action r' := by
  unfold replied at h
  split at h
  · rename_i hs
    cases h
    exact .of_moves hs ⟨rfl, fun _ => rfl, rfl, by simp [Stage.early], by simp⟩ (by simp) rfl
      (.before ⟨by simp [Stage.registration], fun _ => id, by simp [Stage.rotation]⟩)
  · cases h

theorem receive_cases {c : Nat} {message : Option Message} (h : r.receive c message = some r') :
    StepCase crypto r (.receive c message) r' := by
  unfold receive at h
  split at h
  · rename_i owner p hs hp
    have hclose : StepCase crypto r (.receive c message) (r.setStage c .closing) :=
      .of_moves hs (moves_closing rfl rfl) (by simp) rfl (.silent rfl rfl rfl)
    split at h <;> rename_i hrole <;> cases h
    · unfold fromController
      split
      · rename_i event
        split
        · exact hclose
        rename_i t ht
        split
        · exact hclose
        rename_i hc
        cases hq : r.putOn t ⟨.frame event, some c⟩ with
        | none => exact hclose
        | some q => exact .frame c p owner event t hs hp hrole ht (not_not.mp hc) q hq rfl
      · exact hclose
    · unfold fromTarget
      split
      · split
        · exact .moved c _ (hs ▸ ⟨rfl, fun _ => rfl, rfl, by simp [Stage.early], by simp⟩) (by simp)
            (fun _ => ⟨p, hp, hrole⟩) (.rotate owner _ _ rfl hs rfl)
        · exact hclose
      · split
        · exact hclose
        rename_i m' hm
        split
        · exact .idle
        rename_i d hd
        obtain ⟨m, rfl, hm⟩ := Option.bind_eq_some_iff.mp hm
        cases hq : r.putOn d ⟨m', some c⟩ with
        | none => exact hclose
        | some q => exact .outbound c p owner m m' d hs hp hrole hd hm q hq rfl
  · cases h

theorem complete_cases {c : Nat} (h : r.complete c = some r') : StepCase crypto r action r' := by
  unfold complete at h
  split at h
  · rename_i owner g p hs hp
    dsimp only at h
    split at h
    · rename_i q hq; cases h; exact .completed c p owner g hs hp q hq
    · cases h; exact .completedFull c p owner g hs hp
  · cases h

theorem write_eq {c : Nat} (h : r.write c = some r') : ∃ p entry rest, r.peer c = some p ∧ p.out = entry :: rest ∧
    r' = r.setPeer c { p with out := rest, sent := p.sent ++ [entry] } := by
  unfold write at h
  split at h
  · rename_i p _ hp
    split at h <;> cases h
    rename_i entry rest ho
    exact ⟨p, entry, rest, hp, ho, rfl⟩
  · rename_i p _ hp
    split at h <;> cases h
    rename_i entry rest ho
    exact ⟨p, entry, rest, hp, ho, rfl⟩
  · cases h

theorem write_cases {c : Nat} (h : r.write c = some r') : StepCase crypto r (.write c) r' := by
  obtain ⟨p, entry, rest, hp, ho, rfl⟩ := write_eq h
  exact .wrote c p entry rest hp ho rfl

theorem fail_cases {c : Nat} {running : Bool} (h : r.fail c running = some r') : StepCase crypto r action r' := by
  unfold fail at h
  split at h
  · rename_i hs; cases h; exact .of_moves hs (moves_closing rfl rfl) (by simp) rfl (.silent rfl rfl rfl)
  · rename_i hs; cases h; exact .of_moves hs (moves_closing rfl rfl) (by simp) rfl (.silent rfl rfl rfl)
  · rename_i hs; cases h; exact .of_moves hs (moves_closing rfl rfl) (by simp) rfl (.silent rfl rfl rfl)
  · rename_i hs _
    cases h
    refine .unlocked c .closing _ (by rw [hs]; rfl) rfl rfl (by rw [hs]; rfl) rfl fun o ho => ?_
    rcases List.mem_append.mp ho with ho | ho
    · exact .inl ho
    · split at ho
      · rw [List.mem_singleton.mp ho]; exact .inr hs
      · cases ho
  · cases h

theorem detach_cases {c : Nat} (h : r.detach c = some r') : StepCase crypto r action r' := by
  unfold detach at h
  split at h
  · rename_i p hs hp
    cases h
    unfold detachPeer
    split
    · rename_i hrole
      split
      · rename_i ht; exact .targetOut c p hs hp hrole ht
      · rename_i ht; exact .detached c p hs hp (fun _ => ht) (by rw [hrole]; simp)
    · rename_i hrole
      split
      · rename_i hc
        dsimp only
        split
        · rename_i t ht
          cases hq : { r with controllers := Function.update r.controllers p.name none }.putOn t ⟨.peerGone, some c⟩ with
          | none => exact .controllerOut c p hs hp hrole hc
          | some q => exact .controllerGone c p t hs hp hrole hc ht q hq
        · exact .controllerOut c p hs hp hrole hc
      · rename_i hc; exact .detached c p hs hp (by rw [hrole]; simp) (fun _ => hc)
  · cases h

theorem orphan_cases {i : Nat} {salt : String} (h : r.orphan crypto i salt = some r') : StepCase crypto r action r' := by
  unfold orphan at h
  obtain ⟨o, ho, he⟩ := Option.map_eq_some_iff.mp h
  dsimp only at he
  split at he <;> cases he
  · exact .orphanEnded _ List.eraseIdx_subset
  · rename_i registry g hr
    exact .orphaned o _ salt registry g (List.mem_of_getElem? ho) List.eraseIdx_subset hr

theorem step_cases {action : RelayAction} (h : r.step crypto action = some r') : StepCase crypto r action r' := by
  cases action with
  | hello => exact hello_cases h
  | refuse => exact refuse_cases h
  | transaction => exact transaction_cases h
  | acquire => exact acquire_cases h
  | admission => exact admission_cases h
  | rejected => exact rejected_cases h
  | replied => exact replied_cases h
  | receive => exact receive_cases h
  | complete => exact complete_cases h
  | write => exact write_cases h
  | fail => exact fail_cases h
  | detach => exact detach_cases h
  | orphan => exact orphan_cases h

end Relay

end RemoteInput
