import RemoteInput.Relay.Lemmas.Names
import RemoteInput.Relay.Theorems.Sessions

/-!
# One session per row of the registry
-/

namespace RemoteInput

/-- Both names authenticate to one row. -/
def Registry.SameRow (registry : Registry) (n m : String) : Prop :=
  ∃ row, registry.byNumber (Registry.number n) = some row ∧ registry.byNumber (Registry.number m) = some row

theorem Registry.SameRow.number_eq {registry : Registry} {n m : String} (h : registry.SameRow n m) :
    Registry.number n = Registry.number m ∧ Registry.number n ≠ -1 := by
  obtain ⟨row, hn, hm⟩ := h
  have hn := Registry.byNumber_number hn
  have hm := Registry.byNumber_number hm
  omega

/-- No number has two spellings among `names`. -/
def OneSpelling (names : List String) : Prop :=
  ∀ n ∈ names, ∀ m ∈ names, Registry.number n = Registry.number m → Registry.number n ≠ -1 → n = m

namespace Relay

/-- No row has two targets or two controllers, and a rotation of a row leaves no controller admitted before it. -/
structure OneSession (r : Relay) : Prop where
  targets : ∀ n m, (r.targets n).isSome → (r.targets m).isSome → r.registry.SameRow n m → n = m
  controllers : ∀ n m, (r.controllers n).isSome → (r.controllers m).isSome → r.registry.SameRow n m → n = m
  revoked : ∀ n g, (n, g) ∈ r.completed → ∀ m c p, r.controllers m = some c → r.peer c = some p →
    r.registry.SameRow n m → g ≤ p.generation

variable {crypto : Crypto} {registry : Registry} {r : Relay}

/-- A run has one session per row when no two of the names that log in spell the same number. -/
theorem one_session_of_one_spelling {actions : List RelayAction}
    (hr : Relay.run crypto { registry := registry } actions = some r)
    (hspelling : OneSpelling (logins crypto { registry := registry } actions)) : r.OneSession := by
  obtain ⟨hses, hgen, -⟩ := (Reachable.start.run actions hr).invariants
  have hnamed : Named (logins crypto { registry := registry } actions) r := (named_start registry).run actions hr
  have htarget : ∀ n, (r.targets n).isSome → n ∈ logins crypto { registry := registry } actions := by
    intro n hn
    obtain ⟨t, ht⟩ := Option.isSome_iff_exists.mp hn
    obtain ⟨p, hp, _, rfl⟩ := hses.target n t ht
    exact hnamed.peer t p hp
  have hcontroller : ∀ n, (r.controllers n).isSome → n ∈ logins crypto { registry := registry } actions := by
    intro n hn
    obtain ⟨c, hc⟩ := Option.isSome_iff_exists.mp hn
    obtain ⟨p, hp, _, rfl⟩ := hses.controller n c hc
    exact hnamed.peer c p hp
  refine ⟨?_, ?_, ?_⟩
  · intro n m hn hm hsame
    exact hspelling n (htarget n hn) m (htarget m hm) hsame.number_eq.1 hsame.number_eq.2
  · intro n m hn hm hsame
    exact hspelling n (hcontroller n hn) m (hcontroller m hm) hsame.number_eq.1 hsame.number_eq.2
  · intro n g hg m c p hc hp hsame
    have hm : m ∈ logins crypto { registry := registry } actions := hcontroller m (by simp [hc])
    obtain rfl := hspelling n (hnamed.completed n g hg) m hm hsame.number_eq.1 hsame.number_eq.2
    exact hgen.mapped n c p g hc hp hg

theorem one_session_of_one_spelling_revoking : ∃ r, Relay.run plain {} revoking = some r ∧ r.OneSession := by
  obtain ⟨r, hr⟩ := Option.isSome_iff_exists.mp (show (Relay.run plain {} revoking).isSome = true by decide +kernel)
  refine ⟨r, hr, one_session_of_one_spelling hr ?_⟩
  have hlogins : logins plain {} revoking = ["TARGET-001", "TARGET-001"] := by decide +kernel
  rw [hlogins]
  intro n hn m hm _ _
  simp only [List.mem_cons, List.not_mem_nil, or_false, or_self] at hn hm
  rw [hn, hm]

/-- The target of row 1 connects a second time, with one more zero in its name, and each connection has a controller. Then
the first one rotates the password. -/
def spelledTwice : List RelayAction :=
  registers 0 sampleOwner ++
    [.hello 1 (.target sampleOwner "TARGET-0001" ""), .transaction 1 "", .acquire 1, .replied 1] ++
    controls 2 "TARGET-001" ++ controls 3 "TARGET-0001"

theorem two_sessions_for_one_row :
    (∃ r, Relay.run plain {} spelledTwice = some r ∧ r.targets "TARGET-001" = some 0 ∧
      r.targets "TARGET-0001" = some 1 ∧ r.controllers "TARGET-001" = some 2 ∧ r.controllers "TARGET-0001" = some 3 ∧
      ¬ r.OneSession) ∧
    ∃ r, Relay.run plain {} (spelledTwice ++ rotates 0) = some r ∧ ("TARGET-001", 2) ∈ r.completed ∧
      r.controllers "TARGET-0001" = some 3 ∧ (r.peer 3).map Peer.generation = some 1 ∧
      r.registry.SameRow "TARGET-001" "TARGET-0001" := by
  constructor
  · obtain ⟨r, hr⟩ := Option.isSome_iff_exists.mp (show (Relay.run plain {} spelledTwice).isSome = true by decide +kernel)
    have hmaps : ((Relay.run plain {} spelledTwice).map fun r => (r.targets "TARGET-001", r.targets "TARGET-0001",
        r.controllers "TARGET-001", r.controllers "TARGET-0001")) = some (some 0, some 1, some 2, some 3) := by
      decide +kernel
    have hrows : ((Relay.run plain {} spelledTwice).map fun r =>
        (r.registry.byNumber (Registry.number "TARGET-001")).isSome &&
          r.registry.byNumber (Registry.number "TARGET-001") = r.registry.byNumber (Registry.number "TARGET-0001")) =
        some true := by decide +kernel
    rw [hr] at hmaps hrows
    simp only [Option.map_some, Option.some.injEq, Prod.mk.injEq] at hmaps
    obtain ⟨h0, h1, h2, h3⟩ := hmaps
    simp only [Option.map_some, Option.some.injEq, Bool.and_eq_true, decide_eq_true_eq] at hrows
    obtain ⟨row, hrow⟩ := Option.isSome_iff_exists.mp hrows.1
    have hsame : r.registry.SameRow "TARGET-001" "TARGET-0001" := ⟨row, hrow, hrows.2 ▸ hrow⟩
    refine ⟨r, hr, h0, h1, h2, h3, fun hone => ?_⟩
    have := hone.targets "TARGET-001" "TARGET-0001" (by simp [h0]) (by simp [h1]) hsame
    exact absurd this (by decide)
  · obtain ⟨r, hr⟩ := Option.isSome_iff_exists.mp
      (show (Relay.run plain {} (spelledTwice ++ rotates 0)).isSome = true by decide +kernel)
    have hmaps : ((Relay.run plain {} (spelledTwice ++ rotates 0)).map fun r => (r.completed, r.controllers "TARGET-0001",
        (r.peer 3).map Peer.generation)) = some ([("TARGET-001", 2)], some 3, some 1) := by decide +kernel
    have hrows : ((Relay.run plain {} (spelledTwice ++ rotates 0)).map fun r =>
        (r.registry.byNumber (Registry.number "TARGET-001")).isSome &&
          r.registry.byNumber (Registry.number "TARGET-001") = r.registry.byNumber (Registry.number "TARGET-0001")) =
        some true := by decide +kernel
    rw [hr] at hmaps hrows
    simp only [Option.map_some, Option.some.injEq, Prod.mk.injEq] at hmaps
    obtain ⟨hdone, h3, hgen⟩ := hmaps
    simp only [Option.map_some, Option.some.injEq, Bool.and_eq_true, decide_eq_true_eq] at hrows
    obtain ⟨row, hrow⟩ := Option.isSome_iff_exists.mp hrows.1
    exact ⟨r, hr, by simp [hdone], h3, hgen, row, hrow, hrows.2 ▸ hrow⟩

end Relay

end RemoteInput
