import RemoteInput.Relay.Lemmas.RateLimit

/-!
# How many passwords can be tried on a row
-/

namespace RemoteInput

namespace Gate

variable {g g' : Gate} {action : GateAction} {actions : List GateAction} {start last : Time}

/-- The limiter of ids is the relay's, and remembers what it must about the calls of `login`. -/
structure Limited (g : Gate) : Prop where
  attempts : g.idLimit.attempts = 12
  seconds : g.idLimit.seconds = 60
  limits : g.idLimit.Limits g.clock g.logins

theorem Limited.login (h : g.Limited) (id password : String) : (g.login g.clock id password).Limited := by
  unfold Gate.login
  split
  · obtain ⟨ha, hs, hl⟩ := h.limits.allow id
    exact ⟨ha.trans h.attempts, hs.trans h.seconds, hl⟩
  · exact h

theorem Limited.hello (h : g.Limited) (address : String) (message : Hello) : (g.hello g.clock address message).Limited := by
  obtain ⟨h1, h2, h3⟩ := h
  cases message with
  | diagnostic | target | other => exact ⟨h1, h2, h3⟩
  | controller id password =>
      unfold Gate.hello
      dsimp only
      split
      · exact Limited.login (g := { g with authLimit := (g.authLimit.allow g.clock address).1 }) ⟨h1, h2, h3⟩ id password
      · exact ⟨h1, h2, h3⟩

theorem Limited.step (h : g.Limited) (hs : g.step action = some g') : g'.Limited := by
  unfold Gate.step at hs
  split at hs
  · cases hs
  rename_i hclock
  have hlater : Limited { g with clock := action.now } := ⟨h.attempts, h.seconds, h.limits.later (not_lt.mp hclock)⟩
  obtain ⟨h1, h2, h3⟩ := hlater
  dsimp only at hs
  split at hs
  · cases hs; exact ⟨h1, h2, h3⟩
  · split at hs <;> cases hs
    rename_i now address message _
    have hwait : Limited { g with clock := now, waiting := g.waiting.erase address } := ⟨h1, h2, h3⟩
    exact hwait.hello address message
  · split at hs <;> cases hs
    exact ⟨h1, h2, h3⟩

/-- Every call of `login` is for a first message. -/
def Asked (actions : List GateAction) (g : Gate) : Prop :=
  ∀ login ∈ g.logins, ∃ address password, .hello login.1 address (.controller login.2 password) ∈ actions

theorem Asked.step (h : g.Asked actions) (ha : action ∈ actions) (hs : g.step action = some g') : g'.Asked actions := by
  unfold Gate.step at hs
  split at hs
  · cases hs
  dsimp only at hs
  split at hs
  · cases hs; exact h
  · split at hs <;> cases hs
    rename_i now address message _ _
    cases message with
    | diagnostic | target | other => exact h
    | controller id password =>
        unfold Gate.hello login
        dsimp only
        split
        · split
          · intro login hl
            dsimp only at hl
            split at hl
            · rcases List.mem_append.mp hl with hl | hl
              · exact h login hl
              · rw [List.mem_singleton.mp hl]; exact ⟨address, password, ha⟩
            · exact h login hl
          · exact h
        · exact h
  · split at hs <;> cases hs
    exact h

/-- While the first messages of a window spell the number of a row alike, the passwords that are tried on the row in the
window are at most twelve. -/
theorem logins_limited (hs : run start actions = some g) (number : Nat) (last : Time) (name : String)
    (hname : ∀ now address id password, .hello now address (.controller id password) ∈ actions → last - 60 < now →
      now ≤ last → Registry.number id = number → id = name) : (g.comparisons number last).length ≤ 12 := by
  have hlimited : g.Limited := Runs.invariant ⟨rfl, rfl, .start rfl⟩ (fun _ _ _ h hs => h.step hs) hs
  have hmem : Runs.Before step { clock := start } (fun _ action => action ∈ actions) actions := by
    intro before action after t he _
    rw [he]
    exact List.mem_append_right _ List.mem_cons_self
  have hasked : g.Asked actions := hmem.invariant (by simp [Asked]) (fun _ _ _ h ha hs => h.step ha hs) hs
  have hbound := hlimited.limits.bounded name last
  rw [hlimited.attempts, hlimited.seconds] at hbound
  refine le_trans ?_ hbound
  rw [comparisons, Windows.within, RateLimit.allowedAt, List.filter_map, List.length_map, List.filter_filter,
    ← List.countP_eq_length_filter, ← List.countP_eq_length_filter]
  refine List.countP_mono_left fun login hl hw => ?_
  obtain ⟨⟨hlow, hhigh⟩, hn⟩ : (last - 60 < login.1 ∧ login.1 ≤ last) ∧ Registry.number login.2 = number := by simpa using hw
  obtain ⟨address, password, hello⟩ := hasked login hl
  have hid : login.2 = name := hname _ _ _ _ hello hlow hhigh hn
  simp [hlow, hhigh, hid]

/-! ## Two spellings -/

/-- Ten first messages from one address and three from another, at one moment. -/
def handshakes (first second : String) : List GateAction :=
  List.replicate 10 (.connect 0 "a") ++ List.replicate 10 (.hello 0 "a" (.controller first "guess")) ++
    List.replicate 3 (.connect 0 "b") ++ List.replicate 2 (.hello 0 "b" (.controller first "guess")) ++
    [.hello 0 "b" (.controller second "guess")]

theorem logins_limited_one_spelling :
    ∃ g, run 0 (handshakes "TARGET-001" "TARGET-001") = some g ∧ (g.comparisons 1 0).length = 12 ∧
      (g.comparisons 1 0).length ≤ 12 := by
  obtain ⟨g, hg⟩ : ∃ g, run 0 (handshakes "TARGET-001" "TARGET-001") = some g :=
    Option.isSome_iff_exists.mp (by decide +kernel)
  have hlen : ((run 0 (handshakes "TARGET-001" "TARGET-001")).map fun g => (g.comparisons 1 0).length) = some 12 := by
    decide +kernel
  rw [hg] at hlen
  refine ⟨g, hg, by simpa using hlen, logins_limited hg 1 0 "TARGET-001" fun now address id password h _ _ _ => ?_⟩
  simp only [handshakes, List.mem_append, List.mem_replicate, List.mem_singleton, GateAction.hello.injEq,
    Hello.controller.injEq, reduceCtorEq, and_false, or_false, false_or] at h
  rcases h with (h | h) | h
  · exact h.2.2.2.1
  · exact h.2.2.2.1
  · exact h.2.2.1

/-- A thirteenth password is tried under another spelling of the number. -/
theorem logins_unlimited :
    ¬ ∀ start actions g, run start actions = some g → ∀ number last, (g.comparisons number last).length ≤ 12 := by
  intro h
  obtain ⟨g, hg⟩ : ∃ g, run 0 (handshakes "TARGET-001" "TARGET-0001") = some g :=
    Option.isSome_iff_exists.mp (by decide +kernel)
  have hlen : ((run 0 (handshakes "TARGET-001" "TARGET-0001")).map fun g => (g.comparisons 1 0).length) = some 13 := by
    decide +kernel
  rw [hg] at hlen
  have hmany : (g.comparisons 1 0).length = 13 := by simpa using hlen
  exact absurd (h 0 _ g hg 1 0) (by omega)

end Gate

end RemoteInput
