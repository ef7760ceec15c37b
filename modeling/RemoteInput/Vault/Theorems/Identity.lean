import RemoteInput.Vault.Lemmas.Machine

/-!
# One identity for one target

However often the program is started and killed, its identity is whole. As long as power is not lost, it is the one that was
saved last, and the relay is never told another owner secret.
-/

namespace RemoteInput

namespace Machine

variable {windows : Windows} {m m' : Machine} {action : MachineAction} {actions : List MachineAction} {p : Nat}
  {point : ProcessPoint} {identity v : Fields} {save : Save}

theorem sound_run (hprotect : ∀ salt raw, windows.unprotect (windows.protect salt raw) = some raw) (hpos : 0 < windows.depth)
    (hm : run windows {} actions = some m) : m.Sound windows :=
  Runs.invariant (I := fun m => m.Sound windows) .start (fun _ _ _ h hs => h.step hprotect hpos hs) hm

/-- All calls of a save. -/
def writes (p : Nat) : List MachineAction := List.replicate 7 (.write p true 200 7)

/-- A process is killed while it saves, and power is lost while another one does. -/
def lost : List MachineAction :=
  [.enter 1, .load 1 "owner" "secret" "a", .write 1 true 0 7, .write 1 true 0 7, .write 1 true 0 7,
    .write 1 true 5 7, .leave 1, .enter 2, .load 2 "another" "secret" "b"] ++ writes 2 ++
    [.beginRotation 2 ("pending", "rotation") "c"] ++ (writes 2).dropLast ++ [.power 1 fun _ => [1, 2, 3]]

/-- What a process has to do with the vault. -/
def Fits (windows : Windows) (m : Machine) : ProcessPoint → Prop
  | .creating save => m.hellos = [] ∧ (save.point = .unlinking true → m.vault windows = some (some save.value))
  | .running identity => ∃ v, m.vault windows = some (some v) ∧ Vault.Behind identity v
  | .saving identity save =>
      Vault.Behind identity save.value ∧ ∃ v, m.vault windows = some (some v) ∧ Vault.Behind identity v ∧
      (save.point = .unlinking true → v = save.value)
  | _ => True

structure Agrees (windows : Windows) (m : Machine) : Prop where
  points : ∀ p, m.Fits windows (m.process p)
  hellos : ∀ o ∈ m.hellos, ∃ v, m.vault windows = some (some v) ∧ Json.get (codePoints "owner_secret") v = o

theorem Agrees.start : Agrees windows {} := ⟨fun _ => trivial, by simp⟩

theorem fits_of_not_inside (h : ¬ point.Inside) : m.Fits windows point := by
  cases point with
  | outside | refused | starting => trivial
  | _ => exact absurd trivial h

/-- A process comes or goes. -/
theorem Agrees.comes (h : m.Agrees windows) (hprocess : m'.process = Function.update m.process p point)
    (hpoint : m'.Fits windows point) (hhellos : m'.hellos = m.hellos) (hdisk : m'.disk = m.disk) : m'.Agrees windows := by
  have hvault : m'.vault windows = m.vault windows := by rw [vault, hdisk, vault]
  have hfits : ∀ point, m.Fits windows point → m'.Fits windows point := by
    intro point hpoint
    cases point with
    | creating save =>
        rw [Fits, hhellos, hvault]
        exact hpoint
    | running identity =>
        rw [Fits, hvault]
        exact hpoint
    | saving identity save =>
        rw [Fits, hvault]
        exact hpoint
    | outside | refused | starting => trivial
  refine ⟨fun q => ?_, fun o ho => ?_⟩
  · rw [hprocess, Function.update_apply]
    split
    · exact hpoint
    · exact hfits _ (h.points q)
  · rw [hvault]
    exact h.hellos o (hhellos ▸ ho)

/-- The process that is within goes to another point. -/
theorem agrees_of_inside (hsound : m.Sound windows) (hp : (m.process p).Inside)
    (hprocess : m'.process = Function.update m.process p point) (hpoint : m'.Fits windows point)
    (hhellos : ∀ o ∈ m'.hellos, ∃ v, m'.vault windows = some (some v) ∧ Json.get (codePoints "owner_secret") v = o) :
    m'.Agrees windows := by
  refine ⟨fun q => ?_, hhellos⟩
  rw [hprocess, Function.update_apply]
  split
  · exact hpoint
  · rename_i hq
    exact fits_of_not_inside fun hin => hq (hsound.single q p hin hp)

theorem Agrees.step (h : m.Agrees windows) (hsound : m.Sound windows)
    (hprotect : ∀ salt raw, windows.unprotect (windows.protect salt raw) = some raw) (hpos : 0 < windows.depth)
    (hpower : ∀ back garbage, action ≠ .power back garbage) (hm : m.step windows action = some m') : m'.Agrees windows := by
  have hcalled : ∀ {p : Nat} {save : Save} {disk : Disk UInt8} {result : Save ⊕ Bool} {ok : Bool} {count salt : Nat},
      (m.process p).save? = some save → save.step windows ok count salt m.disk = (disk, result) →
      save.Called windows m.saved m.disk disk result := by
    intro p save disk result ok count salt hp hs
    obtain ⟨hv, hu⟩ := hsound.saves p save hp
    exact save.called hprotect hsound.tidy hsound.keeps hv hu hs
  cases step_cases hm with
  | entered p hp => exact h.comes rfl (by split <;> trivial) rfl rfl
  | left _ p hp => exact h.comes rfl trivial rfl rfl
  | created p owner password token hp hload =>
      have hempty : m.hellos = [] := by
        refine List.eq_nil_iff_forall_not_mem.mpr fun o ho => ?_
        obtain ⟨v, hv, -⟩ := h.hellos o ho
        rcases hsound.load hpos with hl | ⟨value, -, hsane, hl⟩
        · rw [hl] at hv
          cases hv
        · rw [hl] at hload
          rcases hload with hload | hload <;> cases hload
          exact hsane.ne_nil rfl
      exact agrees_of_inside hsound (by rw [hp]; trivial) rfl ⟨hempty, by rintro ⟨⟩⟩ h.hellos
  | loaded p owner password token identity hp hload =>
      exact agrees_of_inside hsound (by rw [hp]; trivial) rfl ⟨identity, hload, .refl identity⟩ h.hellos
  | wentOn p ok count salt save next disk point hs hp =>
      have hsave : (m.process p).save? = some save := by
        rcases hp with ⟨hp, -⟩ | ⟨_, hp, -⟩ <;> rw [hp] <;> rfl
      have hc := hcalled hsave hs
      have hinside := ProcessPoint.inside_of_save hsave
      have hfits := h.points p
      have hvalue := (hc.goesOn next rfl).1
      rcases hc.read with ⟨hread, hnext, -⟩ | ⟨⟨encrypted, hread, hbytes⟩, hnext⟩
      · have hvault : vault windows ({ m with disk := disk }.goTo p point) = m.vault windows := Vault.load_congr hread
        refine agrees_of_inside hsound hinside rfl ?_ fun o ho => by rw [hvault]; exact h.hellos o ho
        rcases hp with ⟨hp, rfl⟩ | ⟨identity, hp, rfl⟩
        · rw [hp] at hfits
          exact ⟨hfits.1, fun hpoint => absurd hpoint (hnext next rfl)⟩
        · rw [hp] at hfits
          obtain ⟨hbehind, v, hv, hfits, -⟩ := hfits
          exact ⟨hvalue ▸ hbehind, v, hvault.trans hv, hfits, fun hpoint => absurd hpoint (hnext next rfl)⟩
      · cases hnext
        have hsane := hsound.sane save.value (hsound.saves p save hsave).1
        have hvault : vault windows ({ m with disk := disk }.goTo p point) = some (some save.value) :=
          Vault.load_of_read hread hbytes hsane hpos
        rcases hp with ⟨hp, rfl⟩ | ⟨identity, hp, rfl⟩
        · rw [hp] at hfits
          refine agrees_of_inside hsound hinside rfl ⟨hfits.1, fun _ => hvault⟩ fun o ho => ?_
          exact absurd ho (by rw [show _ = ([] : List (Option Json)) from hfits.1]; exact List.not_mem_nil)
        · rw [hp] at hfits
          obtain ⟨hbehind, v, hv, hold, -⟩ := hfits
          refine agrees_of_inside hsound hinside rfl ⟨hbehind, save.value, hvault, hbehind, fun _ => rfl⟩ fun o ho => ?_
          obtain ⟨w, hw, ho⟩ := h.hellos o ho
          rw [hv] at hw
          cases hw
          exact ⟨save.value, hvault, by rw [← ho, ← hold.owner, hbehind.owner]⟩
  | returned p ok count salt save disk hs hp =>
      have hc := hcalled hp hs
      have hinside := ProcessPoint.inside_of_save hp
      have hfits := h.points p
      rcases hc.read with ⟨hread, -, hdone⟩ | ⟨-, hnext⟩
      · have hvault : vault windows ({ m with disk := disk }.goTo p (.running save.value)) = m.vault windows :=
          Vault.load_congr hread
        have hsaved : m.vault windows = some (some save.value) := by
          cases hpoint : m.process p with
          | creating save' =>
              rw [hpoint] at hp hfits
              cases hp
              exact hfits.2 (hdone rfl)
          | saving identity save' =>
              rw [hpoint] at hp hfits
              cases hp
              obtain ⟨-, v, hv, -, hlast⟩ := hfits
              rw [hv, hlast (hdone rfl)]
          | _ =>
              rw [hpoint] at hp
              cases hp
        refine agrees_of_inside hsound hinside rfl ⟨save.value, hvault.trans hsaved, .refl _⟩ fun o ho => ?_
        rw [hvault]
        exact h.hellos o ho
      · cases hnext
  | failed p ok count salt identity save disk hs hp =>
      have hc := hcalled (p := p) (by rw [hp]; rfl) hs
      have hfits := h.points p
      rw [hp] at hfits
      obtain ⟨-, v, hv, hbehind, -⟩ := hfits
      rcases hc.read with ⟨hread, -, -⟩ | ⟨-, hnext⟩
      · have hvault : vault windows ({ m with disk := disk }.goTo p (.running identity)) = m.vault windows :=
          Vault.load_congr hread
        refine agrees_of_inside hsound (by rw [hp]; trivial) rfl ⟨v, hvault.trans hv, hbehind⟩ fun o ho => ?_
        rw [hvault]
        exact h.hellos o ho
      · cases hnext
  | gaveUp p ok count salt save disk hs hp =>
      have hc := hcalled (p := p) (by rw [hp]; rfl) hs
      rcases hc.read with ⟨hread, -, -⟩ | ⟨-, hnext⟩
      · have hvault : vault windows ({ m with disk := disk }.leave p) = m.vault windows := Vault.load_congr hread
        refine agrees_of_inside hsound (by rw [hp]; trivial) rfl trivial fun o ho => ?_
        rw [hvault]
        exact h.hellos o ho
      · cases hnext
  | greeted p identity hp =>
      have hfits := h.points p
      rw [hp] at hfits
      obtain ⟨v, hv, hbehind⟩ := hfits
      have hsame : m.process = Function.update m.process p (.running identity) := by
        rw [← hp]
        exact (Function.update_eq_self p _).symm
      refine agrees_of_inside hsound (by rw [hp]; trivial) hsame ⟨v, hv, hbehind⟩ fun o ho => ?_
      · rcases List.mem_append.mp ho with ho | ho
        · exact h.hellos o ho
        · rw [List.mem_singleton.mp ho]
          exact ⟨v, hv, hbehind.owner.symm⟩
  | saves _ p token identity identity' value hp hsane hbehind hkept =>
      have hfits := h.points p
      rw [hp] at hfits
      obtain ⟨v, hv, hold⟩ := hfits
      exact agrees_of_inside hsound (by rw [hp]; trivial) rfl ⟨hbehind, v, hv, hkept v hold, by rintro ⟨⟩⟩ h.hellos
  | lost back garbage disk hd => exact absurd rfl (hpower back garbage)

/-- A program is killed within a rotation and started again. -/
def restarted : List MachineAction :=
  [.enter 1, .load 1 "owner" "secret" "a"] ++ writes 1 ++ [.hello 1, .registered 1 "TARGET-001" "b"] ++ writes 1 ++
    [.beginRotation 1 ("pending", "rotation") "c", .write 1 true 0 7, .write 1 true 0 7, .leave 1, .enter 2,
      .load 2 "another" "secret" "d", .hello 2]

end Machine

end RemoteInput
