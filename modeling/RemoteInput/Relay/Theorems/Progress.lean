import RemoteInput.Relay.Lemmas.Server
import RemoteInput.Relay.Theorems.Sessions

/-!
# The relay is bounded and goes on by itself
-/

namespace RemoteInput

namespace RelayServer

variable {crypto : Crypto} {s t u : RelayServer} {c d : Nat}

/-! ## Bounds -/

/-- Each name in a map of sessions has a handler of its own. -/
theorem card_le_admitted (m : String → Option Nat) (names : Finset String)
    (hin : ∀ n ∈ names, ∃ c ∈ s.admitted, m n = some c) (hinj : ∀ n n' c, m n = some c → m n' = some c → n = n') :
    names.card ≤ s.admitted.length := by
  refine le_trans ?_ (List.toFinset_card_le s.admitted)
  have hget : ∀ n ∈ names, (m n).getD 0 ∈ s.admitted.toFinset := by
    intro n hn
    obtain ⟨c, hc, he⟩ := hin n hn
    simpa [he] using hc
  refine Finset.card_le_card_of_injOn (fun n => (m n).getD 0) hget ?_
  intro n hn n' hn' he
  obtain ⟨c, -, hc⟩ := hin n hn
  obtain ⟨c', -, hc'⟩ := hin n' hn'
  simp only [hc, hc', Option.getD_some] at he
  exact hinj n n' c hc (he ▸ hc')

theorem Sound.attached (h : s.Sound) (hc : (s.relay.stage c).attached = true) : c ∈ s.admitted := by
  refine h.entered c ?_ ?_
  · intro he; rw [he] at hc; cases hc
  · intro he; rw [he] at hc; cases hc

/-- What the relay holds has a bound, however many clients there are and whatever they do: at most 512 handlers get past the
first check and at most four of them hash, there are at most 512 sessions of each kind, and at most 256 messages wait for
each peer. -/
theorem resources_bounded (registry : Registry) (actions : List ServerAction)
    (h : RelayServer.run crypto { relay := { registry := registry } } actions = some s) :
    s.connections = s.admitted.length + s.turned.length ∧
    s.admitted.length ≤ connectionLimit ∧
    (s.hashSlots.Nodup ∧ s.hashSlots.length ≤ slotLimit ∧ ∀ c ∈ s.hashSlots, c ∈ s.admitted) ∧
    (∀ names : Finset String, (∀ n ∈ names, s.relay.targets n ≠ none) → names.card ≤ connectionLimit) ∧
    (∀ names : Finset String, (∀ n ∈ names, s.relay.controllers n ≠ none) → names.card ≤ connectionLimit) ∧
    ((s.admitted.filterMap s.relay.peer).map fun p => p.out.length).sum ≤ connectionLimit * outCapacity := by
  have hs := sound_run h
  refine ⟨hs.counted, hs.few, ⟨hs.slotsNodup, hs.slots, ?_⟩, ?_, ?_, ?_⟩
  · intro c hc
    have hh := hs.hashes c hc
    refine hs.entered c ?_ ?_
    · intro he; rw [he] at hh; cases hh
    · intro he; rw [he] at hh; cases hh
  · intro names hn
    refine (card_le_admitted s.relay.targets names ?_ ?_).trans hs.few
    · intro n hnn
      obtain ⟨t, ht⟩ := Option.ne_none_iff_exists'.mp (hn n hnn)
      exact ⟨t, hs.attached (hs.kept.target n t ht), ht⟩
    · intro n n' t ht ht'
      obtain ⟨p, hp, -, hname⟩ := hs.sessions.target n t ht
      obtain ⟨p', hp', -, hname'⟩ := hs.sessions.target n' t ht'
      cases hp.symm.trans hp'
      exact hname.symm.trans hname'
  · intro names hn
    refine (card_le_admitted s.relay.controllers names ?_ ?_).trans hs.few
    · intro n hnn
      obtain ⟨c, hc⟩ := Option.ne_none_iff_exists'.mp (hn n hnn)
      exact ⟨c, hs.attached (hs.kept.controller n c hc), hc⟩
    · intro n n' c hc hc'
      obtain ⟨p, hp, -, hname⟩ := hs.sessions.controller n c hc
      obtain ⟨p', hp', -, hname'⟩ := hs.sessions.controller n' c hc'
      cases hp.symm.trans hp'
      exact hname.symm.trans hname'
  · have hsum : ∀ l : List Nat, ((l.filterMap s.relay.peer).map fun p => p.out.length).sum ≤ l.length * outCapacity := by
      intro l
      induction l with
      | nil => simp
      | cons c l ih =>
          cases hp : s.relay.peer c with
          | none =>
              simp only [List.filterMap_cons, hp, List.length_cons]
              exact ih.trans (Nat.mul_le_mul_right _ (Nat.le_succ _))
          | some p =>
              have := hs.small c p hp
              simp only [List.filterMap_cons, hp, List.map_cons, List.sum_cons, List.length_cons, Nat.add_mul, Nat.one_mul]
              omega
    exact (hsum s.admitted).trans (Nat.mul_le_mul_right _ hs.few)

/-- A target is registered, one controller is being admitted under the lock, and another waits for it. -/
def crowded : List ServerAction :=
  [.connect 0 true, .act (.hello 0 (.target Relay.sampleOwner "" Relay.samplePassword)), .slot 0, .act (.transaction 0 ""),
   .act (.transaction 0 "salt"), .act (.acquire 0), .act (.replied 0), .connect 3 false,
   .connect 1 true, .act (.hello 1 (.controller "TARGET-001" Relay.samplePassword)), .slot 1, .act (.transaction 1 ""),
   .connect 2 true, .act (.hello 2 (.controller "TARGET-001" Relay.samplePassword)), .slot 2, .act (.transaction 2 ""),
   .act (.acquire 1)]

theorem resources_bounded_crowded : ∃ s, RelayServer.run Relay.plain {} crowded = some s ∧ s.connections = 4 ∧
    s.connections = s.admitted.length + s.turned.length ∧ s.hashSlots.length ≤ slotLimit := by
  obtain ⟨s, hs⟩ := Option.isSome_iff_exists.mp
    (show (RelayServer.run Relay.plain {} crowded).isSome = true by decide +kernel)
  have hcount : (RelayServer.run Relay.plain {} crowded).map (fun s => s.connections) = some 4 := by decide +kernel
  rw [hs] at hcount
  have hb := resources_bounded {} crowded hs
  exact ⟨s, hs, Option.some.inj hcount, hb.1, hb.2.2.1.2.1⟩

/-! ## Going on -/

/-- Some own actions lead there, and no handler that waits for the lock meanwhile moves. -/
def Goes (crypto : Crypto) (n : Nat) (s : RelayServer) (Q : RelayServer → Prop) : Prop :=
  Runs.Leads (step crypto) ServerAction.own n s fun t =>
    t.Sound ∧ (∀ d, (s.relay.stage d).waits = true → t.relay.stage d = s.relay.stage d) ∧ Q t

namespace Goes

variable {n m : Nat} {P Q : RelayServer → Prop}

theorem here (h : s.Sound) (hQ : Q s) : Goes crypto n s Q :=
  Runs.Leads.here ⟨h, fun _ _ => rfl, hQ⟩

theorem mono (h : Goes crypto n s P) (hn : n ≤ m) (hQ : ∀ t, P t → Q t) : Goes crypto m s Q :=
  Runs.Leads.mono h hn fun t ht => ⟨ht.1, ht.2.1, hQ t ht.2.2⟩

theorem trans (h : Goes crypto n s P) (hnext : ∀ t, t.Sound → P t → Goes crypto m t Q) : Goes crypto (n + m) s Q := by
  refine Runs.Leads.trans h ?_
  rintro t ⟨ht, hwait, hP⟩
  refine Runs.Leads.mono (hnext t ht hP) le_rfl ?_
  rintro u ⟨hu, hwait', hQ⟩
  refine ⟨hu, fun d hd => ?_, hQ⟩
  rw [← hwait d hd]
  exact hwait' d (by rw [hwait d hd]; exact hd)

/-- One own action of a handler that does not wait for the lock. -/
theorem act (h : s.Sound) (action : RelayAction) (c : Nat) {r : Relay} (hown : ServerAction.own (.act action))
    (hc : action.handler = some c) (hin : c ∈ s.admitted) (hslot : action.works → (s.relay.stage c).hashes → c ∈ s.hashSlots)
    (hwait : (s.relay.stage c).waits = false) (hr : s.relay.step crypto action = some r)
    (hQ : ∀ t, t.relay = r → t.admitted = s.admitted → t.hashSlots = s.hashSlots.filter (fun c => (r.stage c).hashes) →
      Q t) :
    Goes crypto 1 s Q := by
  have hmay : s.mayAct action := by
    intro d hd
    cases hc.symm.trans hd
    exact ⟨hin, hslot⟩
  have hstep : s.step crypto (.act action) =
      some { s with relay := r, hashSlots := s.hashSlots.filter fun c => (r.stage c).hashes } := by
    simp [step, RelayServer.act, hmay, hr]
  refine Runs.Leads.cons hown hstep (Runs.Leads.here ⟨h.step _ hstep, ?_, hQ _ rfl rfl rfl⟩)
  intro d hd
  refine Relay.step_other hr ?_
  intro hdc
  cases hc.symm.trans hdc
  rw [hd] at hwait
  cases hwait

end Goes

theorem Sound.in_of_hashes (h : s.Sound) (hc : (s.relay.stage c).hashes = true) : c ∈ s.admitted := by
  refine h.entered c ?_ ?_
  · intro he; rw [he] at hc; cases hc
  · intro he; rw [he] at hc; cases hc

/-- A worker thread that has begun ends: the handler goes on, or to the second transaction of a registration. -/
theorem transaction_possible (crypto : Crypto) (h : s.Sound) (hc : (s.relay.stage c).hashes = true) :
    ∃ r, s.relay.step crypto (.transaction c "") = some r ∧
      ((r.stage c).hashes = false ∨
        ∃ owner password, s.relay.stage c = .registering owner password ∧ r.stage c = .inserting owner password) := by
  show ∃ r, s.relay.transaction crypto c "" = some r ∧ _
  unfold Relay.transaction
  cases hs : s.relay.stage c with
  | serving owner reader =>
      obtain ⟨p, hp, -⟩ := h.sessions.attached c (by rw [hs]; rfl)
      cases reader with
      | hashing password rotationId =>
          simp only [hp, Option.map_some, Option.some.injEq, exists_eq_left']
          split
          · exact .inl (by simp [Relay.release_stage, Relay.stage_setStage, Stage.hashes])
          · exact .inl (by simp [Relay.stage_setStage, Stage.hashes])
      | _ => rw [hs] at hc; cases hc
  | checkingOwner name owner =>
      dsimp only
      split
      · exact ⟨_, rfl, .inl (by simp [Relay.stage_setStage, Stage.hashes])⟩
      · exact ⟨_, rfl, .inl (by simp [Relay.stage_setStage, Stage.hashes])⟩
  | registering owner password =>
      dsimp only
      split
      · exact ⟨_, rfl, .inr ⟨owner, password, rfl, by simp [Relay.stage_setStage]⟩⟩
      · exact ⟨_, rfl, .inl (by simp [Relay.stage_setStage, Stage.hashes])⟩
  | inserting owner password => exact ⟨_, rfl, .inl (by simp [Relay.stage_setStage, Stage.hashes])⟩
  | checkingPassword name password =>
      dsimp only
      split
      · exact ⟨_, rfl, .inl (by simp [Relay.stage_setStage, Stage.hashes])⟩
      · exact ⟨_, rfl, .inl (by simp [Relay.stage_setStage, Stage.hashes])⟩
  | _ => rw [hs] at hc; cases hc

theorem hashes_not_waits {st : Stage} (h : st.hashes = true) : st.waits = false := by
  cases st with
  | serving owner reader => cases reader <;> first | rfl | cases h
  | _ => first | rfl | cases h

/-- The other handlers stay where they are and keep their slots. -/
def Others (s t : RelayServer) (c : Nat) : Prop :=
  ∀ d, d ≠ c → t.relay.stage d = s.relay.stage d ∧ (d ∈ t.hashSlots ↔ d ∈ s.hashSlots)

theorem Others.trans (h : Others s t c) (h' : Others t u c) : Others s u c := by
  intro d hd
  obtain ⟨h1, h2⟩ := h d hd
  obtain ⟨h1', h2'⟩ := h' d hd
  exact ⟨h1'.trans h1, h2'.trans h2⟩

/-- The thread of a handler with a slot performs a transaction. -/
theorem works (h : s.Sound) (hc : c ∈ s.hashSlots) :
    Goes crypto 1 s fun t => Others s t c ∧
      ((t.relay.stage c).hashes = false ∧ t.hashSlots.length < s.hashSlots.length ∨
        ∃ owner password, s.relay.stage c = .registering owner password ∧ t.relay.stage c = .inserting owner password ∧
          c ∈ t.hashSlots ∧ t.hashSlots.length ≤ s.hashSlots.length) := by
  have hhash := h.hashes c hc
  obtain ⟨r, hr, hcase⟩ := transaction_possible crypto h hhash
  have hother : ∀ d, d ≠ c → r.stage d = s.relay.stage d := fun d hd =>
    Relay.step_other hr (by simpa [RelayAction.handler] using hd.symm)
  refine Goes.act h (.transaction c "") c trivial rfl (h.in_of_hashes hhash) (fun _ _ => hc) (hashes_not_waits hhash) hr ?_
  intro t ht hadmitted hslots
  constructor
  · intro d hd
    refine ⟨by rw [ht, hother d hd], ?_⟩
    rw [hslots, List.mem_filter, hother d hd]
    exact ⟨And.left, fun hin => ⟨hin, h.hashes d hin⟩⟩
  · rcases hcase with hdone | ⟨owner, password, hs, hr'⟩
    · left
      refine ⟨by rw [ht]; exact hdone, ?_⟩
      rw [hslots, List.length_filter_lt_length_iff_exists]
      exact ⟨c, hc, by simp [hdone]⟩
    · right
      refine ⟨owner, password, hs, by rw [ht]; exact hr', ?_, ?_⟩
      · rw [hslots, List.mem_filter]
        exact ⟨hc, by simp [hr', Stage.hashes]⟩
      · rw [hslots]
        exact List.length_filter_le _ _

end RelayServer

end RemoteInput
