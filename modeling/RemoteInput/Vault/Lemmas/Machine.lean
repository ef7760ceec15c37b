import RemoteInput.Vault.Lemmas.File

/-!
# Processes around one vault
-/

namespace RemoteInput

namespace ProcessPoint

variable {point : ProcessPoint} {save : Save} {identity : Fields}

/-- Within `with SingleInstance`. -/
def Inside : ProcessPoint → Prop
  | .outside | .refused => False
  | _ => True

/-- The save in progress. -/
def save? : ProcessPoint → Option Save
  | .creating save | .saving _ save => some save
  | _ => none

/-- The identity of the program. -/
def identity? : ProcessPoint → Option Fields
  | .running identity | .saving identity _ => some identity
  | _ => none

theorem inside_of_save (h : point.save? = some save) : point.Inside := by
  cases point with
  | creating | saving => trivial
  | _ => cases h

theorem Inside.ne_outside (h : point.Inside) : point ≠ .outside := by
  rintro rfl
  exact h

end ProcessPoint

namespace Machine

variable {windows : Windows} {m m' : Machine} {action : MachineAction} {p q : Nat} {point : ProcessPoint}
  {identity v : Fields} {save : Save}

/-- What the vault gives to a program that starts now. -/
def vault (windows : Windows) (m : Machine) : Option (Option Fields) :=
  Vault.load windows.unprotect windows.depth windows.account m.disk

/-! ## What a step does -/

/-- The steps. -/
inductive StepCase (windows : Windows) (m : Machine) : MachineAction → Machine → Prop where
  | entered (p : Nat) (hp : m.process p = .outside) : StepCase windows m (.enter p)
      ({ m with handles := p :: m.handles }.goTo p (if m.handles = [] then .starting else .refused))
  | left (action : MachineAction) (p : Nat) (hp : m.process p ≠ .outside) : StepCase windows m action (m.leave p)
  | created (p : Nat) (owner password token : String) (hp : m.process p = .starting)
      (hload : m.vault windows = some none ∨ m.vault windows = some (some [])) :
      StepCase windows m (.load p owner password token) (m.save p .creating (Vault.newIdentity owner password) token)
  | loaded (p : Nat) (owner password token : String) (identity : Fields) (hp : m.process p = .starting)
      (hload : m.vault windows = some (some identity)) :
      StepCase windows m (.load p owner password token) (m.goTo p (.running identity))
  | wentOn (p : Nat) (ok : Bool) (count salt : Nat) (save next : Save) (disk : Disk UInt8) (point : ProcessPoint)
      (hs : save.step windows ok count salt m.disk = (disk, .inl next))
      (hp : (m.process p = .creating save ∧ point = .creating next) ∨
        ∃ identity, m.process p = .saving identity save ∧ point = .saving identity next) :
      StepCase windows m (.write p ok count salt) ({ m with disk := disk }.goTo p point)
  | returned (p : Nat) (ok : Bool) (count salt : Nat) (save : Save) (disk : Disk UInt8)
      (hs : save.step windows ok count salt m.disk = (disk, .inr true)) (hp : (m.process p).save? = some save) :
      StepCase windows m (.write p ok count salt) ({ m with disk := disk }.goTo p (.running save.value))
  | failed (p : Nat) (ok : Bool) (count salt : Nat) (identity : Fields) (save : Save) (disk : Disk UInt8)
      (hs : save.step windows ok count salt m.disk = (disk, .inr false)) (hp : m.process p = .saving identity save) :
      StepCase windows m (.write p ok count salt) ({ m with disk := disk }.goTo p (.running identity))
  | gaveUp (p : Nat) (ok : Bool) (count salt : Nat) (save : Save) (disk : Disk UInt8)
      (hs : save.step windows ok count salt m.disk = (disk, .inr false)) (hp : m.process p = .creating save) :
      StepCase windows m (.write p ok count salt) ({ m with disk := disk }.leave p)
  | greeted (p : Nat) (identity : Fields) (hp : m.process p = .running identity) : StepCase windows m (.hello p)
      { m with hellos := m.hellos ++ [Json.get (codePoints "owner_secret") identity] }
  | saves (action : MachineAction) (p : Nat) (token : String) (identity identity' value : Fields)
    (hp : m.process p = .running identity)
      (hsane : Vault.Sane identity → Vault.Sane identity' ∧ Vault.Sane value) (hbehind : Vault.Behind identity' value)
      (hkept : ∀ v, Vault.Behind identity v → Vault.Behind identity' v) :
      StepCase windows m action (m.save p (.saving identity') value token)
  | lost (back : Nat) (garbage : Nat → List UInt8) (disk : Disk UInt8) (hd : m.disk.lose back garbage = some disk) :
      StepCase windows m (.power back garbage) { m with disk := disk, handles := [], process := fun _ => .outside }

theorem step_cases (h : m.step windows action = some m') : StepCase windows m action m' := by
  cases action with
  | enter p =>
      simp only [step] at h
      split at h
      · cases h
        exact .entered p ‹_›
      · cases h
  | leave p =>
      simp only [step] at h
      split at h
      · cases h
      · cases h
        exact .left _ p ‹_›
  | load p owner password token =>
      simp only [step] at h
      split at h
      · rename_i hp
        split at h
        · cases h
          exact .left _ p (by rw [hp]; simp)
        · cases h
          exact .created p owner password token hp (.inl ‹_›)
        · cases h
          exact .created p owner password token hp (.inr ‹_›)
        · cases h
          exact .loaded p owner password token _ hp ‹_›
      · cases h
  | write p ok count salt =>
      simp only [step] at h
      split at h
      · rename_i save hp
        split at h
        · cases h
          exact .wentOn p ok count salt save _ _ _ ‹_› (.inl ⟨hp, rfl⟩)
        · cases h
          exact .returned p ok count salt save _ ‹_› (by rw [hp]; rfl)
        · cases h
          exact .gaveUp p ok count salt save _ ‹_› hp
      · rename_i identity save hp
        split at h
        · cases h
          exact .wentOn p ok count salt save _ _ _ ‹_› (.inr ⟨identity, hp, rfl⟩)
        · cases h
          exact .returned p ok count salt save _ ‹_› (by rw [hp]; rfl)
        · cases h
          exact .failed p ok count salt identity save _ ‹_› hp
      · cases h
  | hello p =>
      simp only [step] at h
      split at h
      · cases h
        exact .greeted p _ ‹_›
      · cases h
  | registered p name token =>
      simp only [step] at h
      split at h
      · cases h
        exact .saves _ p token _ _ _ ‹_› (fun hs => ⟨hs.registered name, hs.registered name⟩) (.refl _) fun v hv =>
          hv.registered name
      · cases h
  | beginRotation p drawn token =>
      simp only [step] at h
      split at h
      · split at h
        · cases h
        · cases h
          refine .saves _ p token _ _ _ ‹_› (fun hs => ⟨hs, hs.beginRotation drawn⟩) ?_ fun v hv => hv
          exact Vault.behind_beginRotation (Bool.eq_false_iff.mpr ‹_›)
      · cases h
  | finishRotation p token =>
      simp only [step] at h
      split at h
      · obtain ⟨value, hvalue, rfl⟩ := Option.map_eq_some_iff.mp h
        exact .saves _ p token _ _ _ ‹_› (fun hs => ⟨hs, hs.finishRotation hvalue⟩) (Vault.behind_finishRotation hvalue)
          fun v hv => hv
      · cases h
  | power back garbage =>
      obtain ⟨disk, hd, rfl⟩ := Option.map_eq_some_iff.mp h
      exact .lost back garbage disk hd

/-! ## Nobody reads a torn file -/

/-- At most one process is within `with SingleInstance`, and the name of the vault leads only to whole files. -/
structure Sound (windows : Windows) (m : Machine) : Prop where
  handles : ∀ p, m.process p ≠ .outside → p ∈ m.handles
  single : ∀ p q, (m.process p).Inside → (m.process q).Inside → p = q
  tidy : m.disk.Tidy
  keeps : m.disk.Keeps (Save.Written windows m.saved) (Vault.path windows.account)
  sane : ∀ value ∈ m.saved, Vault.Sane value
  identities : ∀ p identity, (m.process p).identity? = some identity → Vault.Sane identity
  saves : ∀ p save, (m.process p).save? = some save → save.value ∈ m.saved ∧ save.Underway windows m.disk

theorem Sound.start : Sound windows {} where
  handles := fun p hp => absurd rfl hp
  single := fun p q hp => hp.elim
  tidy := Disk.tidy_start
  keeps := Disk.keeps_start
  sane := by simp
  identities := by rintro p identity ⟨⟩
  saves := by rintro p save ⟨⟩

/-- The vault is empty or gives an identity that a process saved. -/
theorem Sound.load (h : m.Sound windows) (hpos : 0 < windows.depth) :
    m.vault windows = some none ∨ ∃ value ∈ m.saved, Vault.Sane value ∧ m.vault windows = some (some value) := by
  cases hread : m.disk.read (Vault.path windows.account) with
  | none =>
      left
      unfold vault Vault.load
      rw [hread]
  | some encrypted =>
      obtain ⟨value, hvalue, hbytes⟩ := h.keeps.read hread
      have hsane := h.sane value hvalue
      exact .inr ⟨value, hvalue, hsane, Vault.load_of_read hread hbytes hsane hpos⟩

/-- A process within goes to another point within, or ends. -/
theorem Sound.goesOn (h : m.Sound windows) (hp : (m.process p).Inside)
    (hprocess : m'.process = Function.update m.process p point)
    (hhandles : point = .outside ∧ m'.handles = m.handles.erase p ∨ m'.handles = m.handles) (htidy : m'.disk.Tidy)
    (hkeeps : m'.disk.Keeps (Save.Written windows m'.saved) (Vault.path windows.account))
    (hsane : ∀ value ∈ m'.saved, Vault.Sane value)
    (hidentity : ∀ identity, point.identity? = some identity → Vault.Sane identity)
    (hsave : ∀ save, point.save? = some save → save.value ∈ m'.saved ∧ save.Underway windows m'.disk) :
    m'.Sound windows := by
  have hother : ∀ q, q ≠ p → ¬ (m.process q).Inside := fun q hq hin => hq (h.single q p hin hp)
  have hinside : ∀ q, (m'.process q).Inside → q = p := by
    intro q hq
    by_contra hne
    rw [hprocess, Function.update_of_ne hne] at hq
    exact hother q hne hq
  refine ⟨fun q hq => ?_, fun q r hq hr => (hinside q hq).trans (hinside r hr).symm, htidy, hkeeps, hsane,
    fun q identity hq => ?_, fun q save hq => ?_⟩
  · rw [hprocess, Function.update_apply] at hq
    split at hq
    · rename_i hqp
      rcases hhandles with ⟨hout, -⟩ | hh
      · exact absurd hout hq
      · rw [hh, hqp]
        exact h.handles p hp.ne_outside
    · rename_i hqp
      have hmem := h.handles q hq
      rcases hhandles with ⟨-, hh⟩ | hh
      · rw [hh]
        exact (List.mem_erase_of_ne hqp).mpr hmem
      · rw [hh]
        exact hmem
  · rw [hprocess, Function.update_apply] at hq
    split at hq
    · exact hidentity identity hq
    · exact h.identities q identity hq
  · rw [hprocess, Function.update_apply] at hq
    split at hq
    · exact hsave save hq
    · rename_i hqp
      exact absurd (ProcessPoint.inside_of_save hq) (hother q hqp)

/-- A process creates the mutex. It is within only when nobody else has a handle. -/
theorem Sound.enter (h : m.Sound windows)
    (hprocess : m'.process = Function.update m.process p (if m.handles = [] then .starting else .refused))
    (hhandles : m'.handles = p :: m.handles) (hdisk : m'.disk = m.disk) (hsaved : m'.saved = m.saved) :
    m'.Sound windows := by
  have hself : m'.process p = if m.handles = [] then .starting else .refused := by rw [hprocess, Function.update_self]
  have hsame : ∀ q, q ≠ p → m'.process q = m.process q := fun q hq => by rw [hprocess, Function.update_of_ne hq]
  have hinside : ∀ q, (m'.process q).Inside → q = p ∧ m.handles = [] ∨ (m.process q).Inside := by
    intro q hq
    by_cases hqp : q = p
    · rw [hqp, hself] at hq
      split at hq
      · exact .inl ⟨hqp, ‹_›⟩
      · exact hq.elim
    · rw [hsame q hqp] at hq
      exact .inr hq
  have hempty : ∀ q, m.handles = [] → ¬ (m.process q).Inside := by
    intro q he hq
    have hmem := h.handles q hq.ne_outside
    rw [he] at hmem
    cases hmem
  have hidle : (m'.process p).identity? = none ∧ (m'.process p).save? = none := by
    rw [hself]
    split <;> exact ⟨rfl, rfl⟩
  refine ⟨fun q hq => ?_, fun q r hq hr => ?_, hdisk ▸ h.tidy, ?_, hsaved ▸ h.sane, fun q identity hq => ?_,
    fun q save hq => ?_⟩
  · rw [hhandles]
    by_cases hqp : q = p
    · rw [hqp]
      exact List.mem_cons_self
    · rw [hsame q hqp] at hq
      exact List.mem_cons_of_mem _ (h.handles q hq)
  · rcases hinside q hq with ⟨hqp, he⟩ | hq
    · rcases hinside r hr with ⟨hrp, -⟩ | hr
      · rw [hqp, hrp]
      · exact absurd hr (hempty r he)
    · rcases hinside r hr with ⟨-, he⟩ | hr
      · exact absurd hq (hempty q he)
      · exact h.single q r hq hr
  · rw [hdisk, hsaved]
    exact h.keeps
  · by_cases hqp : q = p
    · rw [hqp, hidle.1] at hq
      cases hq
    · rw [hsame q hqp] at hq
      exact h.identities q identity hq
  · by_cases hqp : q = p
    · rw [hqp, hidle.2] at hq
      cases hq
    · rw [hsame q hqp] at hq
      rw [hdisk, hsaved]
      exact h.saves q save hq

/-- A process ends. -/
theorem Sound.leave (h : m.Sound windows) (p : Nat) : (m.leave p).Sound windows := by
  have hsame : ∀ q, ((m.leave p).process q) = .outside ∨ q ≠ p ∧ (m.leave p).process q = m.process q := by
    intro q
    by_cases hq : q = p
    · left
      rw [hq]
      exact Function.update_self ..
    · exact .inr ⟨hq, Function.update_of_ne hq ..⟩
  refine ⟨fun q hq => ?_, fun q r hq hr => ?_, h.tidy, h.keeps, h.sane, fun q identity hq => ?_, fun q save hq => ?_⟩
  · rcases hsame q with ho | ⟨hne, he⟩
    · exact absurd ho hq
    · exact (List.mem_erase_of_ne hne).mpr (h.handles q (he ▸ hq))
  · rcases hsame q with ho | ⟨-, hq'⟩
    · exact absurd ho hq.ne_outside
    · rcases hsame r with ho | ⟨-, hr'⟩
      · exact absurd ho hr.ne_outside
      · exact h.single q r (hq' ▸ hq) (hr' ▸ hr)
  · rcases hsame q with ho | ⟨-, he⟩
    · rw [ho] at hq
      cases hq
    · exact h.identities q identity (he ▸ hq)
  · rcases hsame q with ho | ⟨-, he⟩
    · rw [ho] at hq
      cases hq
    · exact h.saves q save (he ▸ hq)

/-- A save begins. -/
theorem Sound.saveBegun {p : Nat} {start : Save → ProcessPoint} {value : Fields} {token : String} (h : m.Sound windows)
    (hp : (m.process p).Inside) (hvalue : Vault.Sane value) (hstart : ∀ save, (start save).save? = some save)
    (hidentity : ∀ save identity, (start save).identity? = some identity → Vault.Sane identity) :
    (m.save p start value token).Sound windows := by
  refine h.goesOn hp rfl (.inr rfl) h.tidy (h.keeps.mono fun data hd => ?_) (fun w hw => ?_) (hidentity _)
    fun save hsave => ?_
  · obtain ⟨w, hw, hd⟩ := hd
    exact ⟨w, List.mem_append_left _ hw, hd⟩
  · rcases List.mem_append.mp hw with hw | hw
    · exact h.sane w hw
    · rw [List.mem_singleton.mp hw]
      exact hvalue
  · rw [hstart] at hsave
    cases hsave
    exact ⟨List.mem_append_right _ (List.mem_singleton_self _), trivial⟩

theorem Sound.step (h : m.Sound windows) (hprotect : ∀ salt raw, windows.unprotect (windows.protect salt raw) = some raw)
    (hpos : 0 < windows.depth) (hm : m.step windows action = some m') : m'.Sound windows := by
  have hcalled : ∀ {p : Nat} {save : Save} {disk : Disk UInt8} {result : Save ⊕ Bool} {ok : Bool} {count salt : Nat},
      (m.process p).save? = some save → save.step windows ok count salt m.disk = (disk, result) →
      save.Called windows m.saved m.disk disk result := by
    intro p save disk result ok count salt hp hs
    obtain ⟨hv, hu⟩ := h.saves p save hp
    exact save.called hprotect h.tidy h.keeps hv hu hs
  cases step_cases hm with
  | entered p hp => exact h.enter rfl rfl rfl rfl
  | left _ p hp => exact h.leave p
  | created p owner password token hp hload =>
      exact h.saveBegun (by rw [hp]; trivial) (Vault.sane_newIdentity owner password) (fun _ => rfl) (by rintro _ _ ⟨⟩)
  | loaded p owner password token identity hp hload =>
      have hsane : Vault.Sane identity := by
        rcases h.load hpos with hl | ⟨value, -, hsane, hl⟩
        · rw [hl] at hload
          cases hload
        · rw [hl] at hload
          cases hload
          exact hsane
      refine h.goesOn (by rw [hp]; trivial) rfl (.inr rfl) h.tidy h.keeps h.sane ?_ (by rintro _ ⟨⟩)
      rintro _ ⟨⟩
      exact hsane
  | wentOn p ok count salt save next disk point hs hp =>
      have hsave : (m.process p).save? = some save := by
        rcases hp with ⟨hp, -⟩ | ⟨_, hp, -⟩ <;> rw [hp] <;> rfl
      have hc := hcalled hsave hs
      obtain ⟨hv, hu⟩ := hc.goesOn next rfl
      have hpoint : point.save? = some next ∧ point.identity? = (m.process p).identity? := by
        rcases hp with ⟨hp, rfl⟩ | ⟨_, hp, rfl⟩ <;> rw [hp] <;> exact ⟨rfl, rfl⟩
      refine h.goesOn (ProcessPoint.inside_of_save hsave) rfl (.inr rfl) hc.tidy hc.keeps h.sane
        (fun identity hi => h.identities p identity (hpoint.2 ▸ hi)) fun save' hsave' => ?_
      rw [hpoint.1] at hsave'
      cases hsave'
      exact ⟨hv ▸ (h.saves p save hsave).1, hu⟩
  | returned p ok count salt save disk hs hp =>
      have hc := hcalled hp hs
      refine h.goesOn (ProcessPoint.inside_of_save hp) rfl (.inr rfl) hc.tidy hc.keeps h.sane ?_ (by rintro _ ⟨⟩)
      rintro _ ⟨⟩
      exact h.sane _ (h.saves p save hp).1
  | failed p ok count salt identity save disk hs hp =>
      have hc := hcalled (p := p) (by rw [hp]; rfl) hs
      refine h.goesOn (by rw [hp]; trivial) rfl (.inr rfl) hc.tidy hc.keeps h.sane ?_ (by rintro _ ⟨⟩)
      rintro _ ⟨⟩
      exact h.identities p identity (by rw [hp]; rfl)
  | gaveUp p ok count salt save disk hs hp =>
      have hc := hcalled (p := p) (by rw [hp]; rfl) hs
      exact h.goesOn (by rw [hp]; trivial) rfl (.inl ⟨rfl, rfl⟩) hc.tidy hc.keeps h.sane (by rintro _ ⟨⟩) (by rintro _ ⟨⟩)
  | greeted p identity hp => exact ⟨h.handles, h.single, h.tidy, h.keeps, h.sane, h.identities, h.saves⟩
  | saves _ p token identity identity' value hp hsane hbehind hkept =>
      have hboth := hsane (h.identities p identity (by rw [hp]; rfl))
      refine h.saveBegun (by rw [hp]; trivial) hboth.2 (fun _ => rfl) ?_
      rintro _ _ ⟨⟩
      exact hboth.1
  | lost back garbage disk hd =>
      exact ⟨fun p hp => absurd rfl hp, fun p q hp => hp.elim, h.tidy.lose hd, h.keeps.lose hd, h.sane, by rintro p _ ⟨⟩,
        by rintro p _ ⟨⟩⟩

end Machine

end RemoteInput
