import RemoteInput.Relay.Lemmas.Sessions

/-!
# The names under which clients log in

The maps are keyed by the name as the client spelled it, the rows by the number that the name spells.
-/

namespace RemoteInput

/-- The name that a handler on its way to admission has been authenticated for. -/
def Stage.name : Stage → Option String
  | .waitingTarget name .. | .waitingController name _ | .fetching name _ | .fetched name .. => some name
  | _ => none

namespace Relay

/-- The names that `action` authenticates: a target's own with its owner secret, the one that registration returns, a
controller's with the password. -/
def authenticated (crypto : Crypto) (r : Relay) : RelayAction → List String
  | .transaction c salt =>
      match r.stage c with
      | .checkingOwner name owner => if (r.registry.owner crypto name owner).isSome then [name] else []
      | .registering owner _ => ((r.registry.registered crypto owner).map Prod.fst).toList
      | .inserting owner password => [(r.registry.insert crypto owner password salt).2.1]
      | .checkingPassword name password => if (r.registry.login crypto name password).isSome then [name] else []
      | _ => []
  | _ => []

/-- The names that a run authenticates. -/
def logins (crypto : Crypto) : Relay → List RelayAction → List String
  | _, [] => []
  | r, action :: actions =>
      r.authenticated crypto action ++ ((r.step crypto action).map fun r => r.logins crypto actions).getD []

/-- Every name that the relay works with is one of `names`. -/
structure Named (names : List String) (r : Relay) : Prop where
  stage : ∀ c n, (r.stage c).name = some n → n ∈ names
  peer : ∀ c p, r.peer c = some p → p.name ∈ names
  completed : ∀ n g, (n, g) ∈ r.completed → n ∈ names

variable {crypto : Crypto} {r r' : Relay} {names : List String}

theorem named_start (registry : Registry) : Named [] { registry := registry } :=
  ⟨by simp [Stage.name], by simp, by simp⟩

theorem Named.mono (h : Named names r) (more : List String) : Named (names ++ more) r :=
  ⟨fun c n hn => List.mem_append_left _ (h.stage c n hn), fun c p hp => List.mem_append_left _ (h.peer c p hp),
    fun n g hg => List.mem_append_left _ (h.completed n g hg)⟩

/-- Only the stages, the peers and the completed rotations matter. -/
theorem Named.congr (h : Named names r) (h1 : r'.stage = r.stage) (h2 : r'.peer = r.peer)
    (h3 : r'.completed = r.completed) : Named names r' := by
  constructor
  · rw [h1]; exact h.stage
  · rw [h2]; exact h.peer
  · rw [h3]; exact h.completed

theorem Named.setStage (h : Named names r) {c : Nat} {st : Stage} (hst : ∀ n, st.name = some n → n ∈ names) :
    Named names (r.setStage c st) := by
  refine ⟨fun d n hn => ?_, h.peer, h.completed⟩
  by_cases hd : d = c
  · subst hd; exact hst n (by simpa [Relay.setStage] using hn)
  · exact h.stage d n (by simpa [Relay.setStage, hd] using hn)

/-- A handler goes on to an await that has nothing to do with admission. -/
theorem Named.leave (h : Named names r) (c : Nat) (st : Stage) (hst : st.name = none) :
    Named names (r.setStage c st) := h.setStage (by simp [hst])

theorem Named.setPeer (h : Named names r) {c : Nat} {p : Peer} (hp : p.name ∈ names) : Named names (r.setPeer c p) := by
  refine ⟨h.stage, fun d q hq => ?_, h.completed⟩
  by_cases hd : d = c
  · subst hd
    obtain rfl : p = q := by simpa [Relay.setPeer] using hq
    exact hp
  · exact h.peer d q (by simpa [Relay.setPeer, hd] using hq)

theorem Named.putOn (h : Named names r) {d : Nat} {entry : Entry} {q : Relay} (hq : r.putOn d entry = some q) :
    Named names q := by
  obtain ⟨p, hp, rfl⟩ := putOn_eq hq
  exact h.setPeer (h.peer d p hp)

/-- A full queue sends the handler elsewhere. -/
theorem Named.putOn_getD (h : Named names r) (d : Nat) (entry : Entry) {q : Relay} (hq : Named names q) :
    Named names ((r.putOn d entry).getD q) := by
  cases hput : r.putOn d entry with
  | none => exact hq
  | some q' => exact h.putOn hput

/-! ## Every action -/

theorem firstStage_name (message : Hello) : (firstStage message).name = none := by
  unfold firstStage
  split
  · split
    · rfl
    · split <;> split <;> rfl
  · split <;> rfl
  · rfl
  · rfl

theorem Named.transaction (h : Named names r) {c : Nat} {salt : String}
    (hs : r.transaction crypto c salt = some r') : Named (names ++ r.authenticated crypto (.transaction c salt)) r' := by
  have h' := h.mono (r.authenticated crypto (.transaction c salt))
  unfold Relay.transaction at hs
  split at hs
  · rename_i name owner hst
    split at hs <;> cases hs
    · exact h'.leave c _ rfl
    · rename_i g hg
      refine h'.setStage fun n hn => ?_
      cases hn
      simp [authenticated, hst, hg]
  · rename_i owner password hst
    split at hs <;> cases hs
    · exact h'.leave c _ rfl
    · rename_i name g hg
      refine h'.setStage fun n hn => ?_
      cases hn
      simp [authenticated, hst, hg]
  · rename_i owner password hst
    cases hs
    refine Named.setStage ?_ fun n hn => ?_
    · exact h'.congr rfl rfl rfl
    · cases hn
      refine List.mem_append_right _ ?_
      rw [authenticated, hst]
      exact List.mem_singleton.mpr rfl
  · rename_i name password hst
    split at hs <;> cases hs
    · exact h'.leave c _ rfl
    · rename_i g hg
      refine h'.setStage fun n hn => ?_
      cases hn
      simp [authenticated, hst, hg]
  · rename_i name g hst
    cases hs
    refine h'.setStage fun n hn => ?_
    cases hn
    exact h'.stage c name (by rw [hst]; rfl)
  · obtain ⟨p, hp, hs⟩ := Option.map_eq_some_iff.mp hs
    split at hs <;> cases hs
    · exact (h'.leave c .closing rfl).congr rfl rfl rfl
    · refine Named.leave ?_ c _ rfl
      exact h'.congr rfl rfl rfl
  · cases hs

theorem Named.acquire (h : Named names r) {c : Nat} (hs : r.acquire c = some r') : Named names r' := by
  unfold Relay.acquire at hs
  split at hs
  · cases hs
  split at hs
  · rename_i name g owner hst
    split at hs <;> cases hs
    · refine Named.leave ?_ c _ rfl
      exact h.congr rfl rfl rfl
    · refine Named.leave (Named.setPeer ?_ ?_) c _ rfl
      · exact h.congr rfl rfl rfl
      · exact h.stage c name (by rw [hst]; rfl)
  · rename_i name g hst
    cases hs
    refine Named.setStage ?_ fun n hn => ?_
    · exact h.congr rfl rfl rfl
    · cases hn
      exact h.stage c name (by rw [hst]; rfl)
  · cases hs
    refine Named.leave ?_ c _ rfl
    exact h.congr rfl rfl rfl
  · cases hs

theorem Named.admission (h : Named names r) {c : Nat} (hs : r.admission c = some r') : Named names r' := by
  unfold Relay.admission at hs
  split at hs
  · rename_i name g current hst
    split at hs
    · cases hs; exact h.leave c _ rfl
    split at hs
    · cases hs; exact h.leave c _ rfl
    split at hs
    · cases hs; exact h.leave c _ rfl
    have hjoin : Named names ({ r with controllers := Function.update r.controllers name (some c) }.setPeer c
        { role := .controller, name := name, generation := g }).release := by
      refine (Named.setPeer (h.congr rfl rfl rfl) ?_).congr rfl rfl rfl
      exact h.stage c name (by rw [hst]; rfl)
    dsimp only at hs
    split at hs <;> cases hs
    · rename_i q hq
      exact (hjoin.putOn hq).leave c _ rfl
    · exact hjoin.leave c _ rfl
  · cases hs

theorem Named.receive (h : Named names r) {c : Nat} {message : Option Message} (hs : r.receive c message = some r') :
    Named names r' := by
  have hclose : Named names (r.setStage c .closing) := h.leave c _ rfl
  unfold Relay.receive at hs
  split at hs
  · split at hs <;> cases hs
    · unfold fromController
      split
      · split
        · exact hclose
        · split
          · exact hclose
          · exact h.putOn_getD _ _ hclose
      · exact hclose
    · unfold fromTarget
      split
      · split
        · exact h.leave c _ rfl
        · exact hclose
      · split
        · exact hclose
        · split
          · exact h
          · exact h.putOn_getD _ _ hclose
  · cases hs

theorem Named.complete (h : Named names r) {c : Nat} (hs : r.complete c = some r') : Named names r' := by
  unfold Relay.complete at hs
  split at hs
  · rename_i owner g p hst hp
    have hname : p.name ∈ names := h.peer c p hp
    have hdone : Named names ({ r with controllers := Function.update r.controllers p.name none,
                                       completed := r.completed ++ [(p.name, g)] }.setPeer c
        { p with generation := g }).release := by
      have hlist : Named names { r with completed := r.completed ++ [(p.name, g)] } := by
        refine ⟨h.stage, h.peer, fun n g' hg => ?_⟩
        rcases List.mem_append.mp hg with hg | hg
        · exact h.completed n g' hg
        · cases List.mem_singleton.mp hg
          exact hname
      exact (hlist.setPeer (p := { p with generation := g }) hname).congr rfl rfl rfl
    dsimp only at hs
    split at hs <;> cases hs
    · rename_i q hq
      exact (hdone.putOn hq).leave c _ rfl
    · exact hdone.leave c _ rfl
  · cases hs

theorem Named.fail (h : Named names r) {c : Nat} {running : Bool} (hs : r.fail c running = some r') :
    Named names r' := by
  unfold Relay.fail at hs
  split at hs <;> cases hs
  · exact h.leave c _ rfl
  · exact h.leave c _ rfl
  · exact h.leave c _ rfl
  · exact (h.leave c .closing rfl).congr rfl rfl rfl

theorem Named.detach (h : Named names r) {c : Nat} (hs : r.detach c = some r') : Named names r' := by
  unfold Relay.detach at hs
  split at hs
  · cases hs
    refine Named.leave ?_ c _ rfl
    unfold detachPeer
    split
    · split
      · exact h.congr rfl rfl rfl
      · exact h
    · split
      · rename_i p _ _ _ _ _
        have hout : Named names { r with controllers := Function.update r.controllers p.name none } := h.congr rfl rfl rfl
        dsimp only
        split
        · exact hout.putOn_getD _ _ hout
        · exact hout
      · exact h
  · cases hs

theorem Named.step (h : Named names r) {action : RelayAction} (hs : r.step crypto action = some r') :
    Named (names ++ r.authenticated crypto action) r' := by
  cases action with
  | transaction c salt => exact h.transaction hs
  | hello c message =>
      refine Named.mono ?_ _
      unfold Relay.step Relay.hello at hs
      dsimp only at hs
      split at hs <;> cases hs
      exact h.leave c _ (firstStage_name message)
  | refuse c =>
      refine Named.mono ?_ _
      unfold Relay.step Relay.refuse at hs
      dsimp only at hs
      split at hs <;> cases hs
      case h_6 => exact (h.leave c .closed rfl).congr rfl rfl rfl
      all_goals exact h.leave c _ rfl
  | acquire c => exact (h.acquire hs).mono _
  | admission c => exact (h.admission hs).mono _
  | rejected c =>
      refine Named.mono ?_ _
      unfold Relay.step Relay.rejected at hs
      dsimp only at hs
      split at hs <;> cases hs
      exact (h.leave c .closed rfl).congr rfl rfl rfl
  | replied c =>
      refine Named.mono ?_ _
      unfold Relay.step Relay.replied at hs
      dsimp only at hs
      split at hs <;> cases hs
      exact h.leave c _ rfl
  | receive c message => exact (h.receive hs).mono _
  | complete c => exact (h.complete hs).mono _
  | write c =>
      refine Named.mono ?_ _
      obtain ⟨p, entry, rest, hp, _, rfl⟩ := write_eq hs
      exact h.setPeer (h.peer c p hp)
  | fail c running => exact (h.fail hs).mono _
  | detach c => exact (h.detach hs).mono _
  | orphan i salt =>
      refine Named.mono ?_ _
      obtain ⟨o, ho, hs⟩ := Option.map_eq_some_iff.mp hs
      dsimp only at hs
      split at hs <;> cases hs <;> exact h.congr rfl rfl rfl

theorem Named.run (h : Named names r) (actions : List RelayAction) (hr : r.run crypto actions = some r') :
    Named (names ++ r.logins crypto actions) r' := by
  induction actions generalizing r names with
  | nil => cases hr; simpa [logins] using h
  | cons action actions ih =>
      obtain ⟨q, hq, hr⟩ := Option.bind_eq_some_iff.mp hr
      have hq' := ih (h.step hq) hr
      simpa [logins, hq] using hq'

end Relay

end RemoteInput
