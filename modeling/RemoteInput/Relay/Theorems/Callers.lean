import RemoteInput.Relay.Callers
import RemoteInput.Relay.Lemmas.Keys

/-!
# Registration without collisions
-/

namespace RemoteInput

namespace Callers

variable {crypto : Crypto} {s s' u : Callers} {action : CallersAction} {actions more : List CallersAction}

/-! ## What one action does -/

/-- How an action changes the table. -/
inductive StepCase (crypto : Crypto) (s : Callers) : CallersAction → Callers → Prop where
  | started (i : Nat) (call : RegistryCall) (h : s.point i = .unused) :
      StepCase crypto s (.call i call) (s.moveTo i (.started call))
  | moved (i : Nat) (action : CallersAction) (point : CallPoint) (h : (s.point i).call = point.call)
      (hr : ∀ owner password name g, point = .returned (.register owner password) (.registered name g) →
        s.registry.registered crypto owner = some (name, g)) : StepCase crypto s action (s.moveTo i point)
  | inserted (i : Nat) (salt owner password : String) (r : Registry) (name : String) (g : Nat)
      (h : s.point i = .hashing owner password)
      (hi : s.registry.insert crypto owner password salt = (r, name, g)) :
      StepCase crypto s (.transaction i salt)
        ({ s with registry := r }.moveTo i (.returned (.register owner password) (.registered name g)))
  | rotated (i : Nat) (salt name owner password rotationId : String) (r : Registry) (g : Nat)
      (h : s.point i = .started (.rotate name owner password rotationId))
      (hr : s.registry.rotate crypto name owner password rotationId salt = some (r, g)) :
      StepCase crypto s (.transaction i salt)
        ({ s with registry := r, rotations := s.rotations ++ [(Registry.number name, rotationId)] }.moveTo i
          (.returned (.rotate name owner password rotationId) (.rotated g)))

theorem step_cases (hs : s.step crypto action = some s') : StepCase crypto s action s' := by
  cases action with
  | call i call =>
      unfold step at hs
      dsimp only at hs
      split at hs <;> cases hs
      rename_i h
      exact .started i call h
  | transaction i salt =>
      unfold step transaction at hs
      dsimp only at hs
      split at hs
      · rename_i owner password h
        split at hs <;> cases hs
        · rename_i name g hreg
          refine .moved i _ _ (by rw [h]; rfl) ?_
          rintro _ _ _ _ ⟨⟩
          exact hreg
        · exact .moved i _ _ (by rw [h]; rfl) (by simp)
      · rename_i owner password h
        cases hs
        exact .inserted i salt owner password _ _ _ h rfl
      · rename_i h; cases hs; exact .moved i _ _ (by rw [h]; rfl) (by simp)
      · rename_i h; cases hs; exact .moved i _ _ (by rw [h]; rfl) (by simp)
      · rename_i name owner password rotationId h
        split at hs <;> cases hs
        · exact .moved i _ _ (by rw [h]; rfl) (by simp)
        · rename_i r g hr
          exact .rotated i salt name owner password rotationId r g h hr
      · cases hs
  | lose i =>
      unfold step lose at hs
      dsimp only at hs
      split at hs <;> cases hs
      · rename_i h; exact .moved i _ _ (by rw [h]; rfl) (by simp)
      · rename_i h; exact .moved i _ _ (by rw [h]; rfl) (by simp)
      · rename_i h; exact .moved i _ _ (by rw [h]; rfl) (by simp)

theorem point_moveTo (s : Callers) (i j : Nat) (point : CallPoint) :
    (s.moveTo i point).point j = if j = i then point else s.point j := by
  by_cases h : j = i
  · subst h; simp [moveTo]
  · simp [moveTo, h]

/-! ## The invariant -/

/-- Rows belong to secrets of the run, and a name that was returned is the name of its owner's row. -/
structure Sound (crypto : Crypto) (actions : List CallersAction) (s : Callers) : Prop where
  keyed : s.registry.Keyed
  owners : ∀ row ∈ s.registry.rows, ∃ owner ∈ secrets actions, row.ownerHash = crypto.digest owner
  calls : ∀ i call, (s.point i).call = some call → ∃ j, .call j call ∈ actions
  named : ∀ i owner password name g, s.point i = .returned (.register owner password) (.registered name g) →
    ∃ row ∈ s.registry.rows, row.ownerHash = crypto.digest owner ∧ name = Registry.name row.number

/-- Every row is still there, under its number and its owner. -/
def Stays (r r' : Registry) : Prop :=
  ∀ row ∈ r.rows, ∃ row' ∈ r'.rows, row'.number = row.number ∧ row'.ownerHash = row.ownerHash

/-- One row is as before, or is rotated. -/
theorem rotate_stays {r r' : Registry} {name owner password rotationId salt : String} {g : Nat} (hk : r.Keyed)
    (hr : r.rotate crypto name owner password rotationId salt = some (r', g)) : r'.Keyed ∧ Stays r r' ∧ Stays r' r := by
  have hc := Registry.rotate_cases crypto hk name owner password rotationId salt
  rw [hr] at hc
  cases hc with
  | again => exact ⟨hk, fun row h => ⟨row, h, rfl, rfl⟩, fun row h => ⟨row, h, rfl, rfl⟩⟩
  | set row =>
      have hnumber :
          ∀ x : Row, (if x.number = row.number then Registry.rotated crypto x password rotationId salt else x).number =
          x.number := by intro x; split <;> rfl
      have howner :
          ∀ x : Row, (if x.number = row.number then Registry.rotated crypto x password rotationId salt else x).ownerHash =
          x.ownerHash := by intro x; split <;> rfl
      refine ⟨hk.map hnumber howner, fun x hx => ⟨_, List.mem_map_of_mem hx, hnumber x, howner x⟩, fun x hx => ?_⟩
      obtain ⟨y, hy, rfl⟩ := List.mem_map.mp hx
      exact ⟨y, hy, (hnumber y).symm, (howner y).symm⟩

theorem Sound.step (h : s.Sound crypto actions) (ha : action ∈ actions) (hs : s.step crypto action = some s') :
    s'.Sound crypto actions := by
  -- a call that moves keeps its own, and the others stand where they stood
  have hcalls : ∀ {t : Callers} {i : Nat} {point : CallPoint}, t.point = s.point →
      (∀ call, point.call = some call → ∃ j, .call j call ∈ actions) →
      ∀ j call, ((t.moveTo i point).point j).call = some call → ∃ j, .call j call ∈ actions := by
    intro t i point ht hp j call hj
    rw [point_moveTo] at hj
    split at hj
    · exact hp call hj
    · rw [ht] at hj; exact h.calls j call hj
  have hnamed : ∀ {t : Callers} {i : Nat} {point : CallPoint}, t.point = s.point → Stays s.registry t.registry →
      (∀ owner password name g, point = .returned (.register owner password) (.registered name g) →
        ∃ row ∈ t.registry.rows, row.ownerHash = crypto.digest owner ∧ name = Registry.name row.number) →
      ∀ j owner password name g, (t.moveTo i point).point j = .returned (.register owner password) (.registered name g) →
        ∃ row ∈ t.registry.rows, row.ownerHash = crypto.digest owner ∧ name = Registry.name row.number := by
    intro t i point ht hstay hp j owner password name g hj
    rw [point_moveTo] at hj
    split at hj
    · exact hp owner password name g hj
    · rw [ht] at hj
      obtain ⟨row, hr, ho, rfl⟩ := h.named j owner password name g hj
      obtain ⟨row', hr', hn, ho'⟩ := hstay row hr
      exact ⟨row', hr', ho'.trans ho, by rw [hn]⟩
  have hsame : Stays s.registry s.registry := fun row h => ⟨row, h, rfl, rfl⟩
  cases step_cases hs with
  | started i call =>
      refine ⟨h.keyed, h.owners, hcalls rfl fun x hx => ?_, hnamed rfl hsame (by simp)⟩
      cases hx
      exact ⟨i, ha⟩
  | moved i _ point hp hreg =>
      refine ⟨h.keyed, h.owners, hcalls rfl fun x hx => h.calls i x (hp.trans hx), hnamed rfl hsame ?_⟩
      intro owner password name g he
      obtain ⟨row, hr, ho, hn⟩ := Registry.registered_mem (hreg owner password name g he)
      cases hn
      exact ⟨row, hr, ho, rfl⟩
  | inserted i salt owner password r name g hp hi =>
      obtain ⟨j, hj⟩ := h.calls i (.register owner password) (by rw [hp]; rfl)
      have hkeyed := h.keyed.insert crypto owner password salt
      have hc := s.registry.insert_cases crypto owner password salt
      rw [hi] at hkeyed hc
      have hcall : ∀ call, (CallPoint.returned (.register owner password) (.registered name g)).call = some call →
          ∃ j, .call j call ∈ actions := by
        intro call hcall
        cases hcall
        exact ⟨j, hj⟩
      cases hc with
      | found row hr ho =>
          refine ⟨h.keyed, h.owners, hcalls rfl hcall, hnamed rfl hsame ?_⟩
          rintro _ _ _ _ ⟨⟩
          exact ⟨row, hr, ho, rfl⟩
      | new row hn ho =>
          refine ⟨hkeyed, fun x hx => ?_, hcalls rfl hcall, hnamed rfl ?_ ?_⟩
          · rcases List.mem_append.mp hx with hx | hx
            · exact h.owners x hx
            · rw [List.mem_singleton.mp hx]; exact ⟨owner, ⟨j, _, hj, rfl⟩, ho⟩
          · exact fun x hx => ⟨x, List.mem_append_left _ hx, rfl, rfl⟩
          · rintro _ _ _ _ ⟨⟩
            exact ⟨row, by simp, ho, rfl⟩
  | rotated i salt name owner password rotationId r g hp hr =>
      obtain ⟨hkeyed, hstay, hback⟩ := rotate_stays h.keyed hr
      refine ⟨hkeyed, fun x hx => ?_, hcalls rfl fun x hx => ?_, hnamed rfl hstay (by simp)⟩
      · obtain ⟨y, hy, _, ho⟩ := hback x hx
        rw [← ho]; exact h.owners y hy
      · cases hx
        exact h.calls i _ (by rw [hp]; rfl)

theorem sound (hs : run crypto actions = some s) : s.Sound crypto actions := by
  have hmem : Runs.Before (Callers.step crypto) {} (fun _ action => action ∈ actions) actions := by
    intro before action after t he _
    rw [he]
    exact List.mem_append_right _ List.mem_cons_self
  refine hmem.invariant ⟨.empty, by simp, by simp [CallPoint.call], by simp⟩ (fun _ _ _ h ha hs => h.step ha hs) hs

/-! ## Names -/

/-- Calls that registered got one name exactly when they gave one secret. -/
theorem Sound.same_name (h : s.Sound crypto actions) (hinj : Set.InjOn crypto.digest (secrets actions)) {i j : Nat}
    {owner owner' password password' name name' : String} {g g' : Nat}
    (hi : s.point i = .returned (.register owner password) (.registered name g))
    (hj : s.point j = .returned (.register owner' password') (.registered name' g')) : name = name' ↔ owner = owner' := by
  obtain ⟨row, hr, ho, hn⟩ := h.named i owner password name g hi
  obtain ⟨row', hr', ho', hn'⟩ := h.named j owner' password' name' g' hj
  constructor
  · intro he
    have hnumber : row.number = row'.number := Registry.name_injective (hn.symm.trans (he.trans hn'))
    have hrow : row = row' := h.keyed.eq_of_number hr hr' hnumber
    have hused : ∀ {k o p n x}, s.point k = .returned (.register o p) (.registered n x) → o ∈ secrets actions := by
      intro k o p n x hk
      obtain ⟨m, hm⟩ := h.calls k (.register o p) (by rw [hk]; rfl)
      exact ⟨m, _, hm, rfl⟩
    exact hinj (hused hi) (hused hj) (ho.symm.trans ((congrArg _ hrow).trans ho'))
  · rintro rfl
    rw [hn, hn', h.keyed.eq_of_owner hr hr' (ho.trans ho'.symm)]

/-- A transaction of `register` leaves the rows as they are. -/
theorem register_keeps {i : Nat} {salt owner password : String} (hp : (s.point i).call = some (.register owner password))
    (hs : s.transaction crypto i salt = some s') : s.registry.rows <+: s'.registry.rows := by
  have hc : StepCase crypto s (.transaction i salt) s' := step_cases hs
  cases hc with
  | moved => exact List.prefix_rfl
  | inserted i salt owner password r name g _ hi =>
      have hc := s.registry.insert_cases crypto owner password salt
      rw [hi] at hc
      cases hc with
      | found => exact List.prefix_rfl
      | new => exact List.prefix_append _ _
  | rotated i salt name o p rotationId r g h => rw [h] at hp; cases hp

/-- A registration goes on: its first transaction answers it or leaves it to hash, and its second answers it. -/
theorem register_goes_on {i : Nat} {salt owner password : String} :
    (s.point i = .started (.register owner password) → ∃ s', s.transaction crypto i salt = some s' ∧
      (s'.point i = .hashing owner password ∨
        ∃ name g, s'.point i = .returned (.register owner password) (.registered name g))) ∧
    (s.point i = .hashing owner password → ∃ s' name g, s.transaction crypto i salt = some s' ∧
      s'.point i = .returned (.register owner password) (.registered name g)) := by
  constructor
  · intro hp
    unfold transaction
    rw [hp]
    dsimp only
    split
    · rename_i name g _
      exact ⟨_, rfl, .inr ⟨name, g, by rw [point_moveTo, if_pos rfl]⟩⟩
    · exact ⟨_, rfl, .inl (by rw [point_moveTo, if_pos rfl])⟩
  · intro hp
    unfold transaction
    rw [hp]
    exact ⟨_, _, _, rfl, by rw [point_moveTo, if_pos rfl]⟩

/-- The name of a rotation is of no row, or of a row that another secret owns. -/
def Wrong (crypto : Crypto) (actions : List CallersAction) (s : Callers) (name owner : String) : Prop :=
  ∀ row, s.registry.byNumber (Registry.number name) = some row →
    ∃ secret ∈ secrets actions, secret ≠ owner ∧ row.ownerHash = crypto.digest secret

/-- A rotation that is not of the owner raises and changes nothing. -/
theorem Sound.wrong_raises (h : s.Sound crypto actions) (hinj : Set.InjOn crypto.digest (secrets actions)) {i : Nat}
    {salt name owner password rotationId : String} (hp : s.point i = .started (.rotate name owner password rotationId))
    (hw : s.Wrong crypto actions name owner) (hs : s.transaction crypto i salt = some s') :
    s'.registry = s.registry ∧ s'.rotations = s.rotations ∧
    s'.point i = .raised (.rotate name owner password rotationId) := by
  obtain ⟨j, hj⟩ := h.calls i (.rotate name owner password rotationId) (by rw [hp]; rfl)
  have hc := Registry.rotate_cases crypto h.keyed name owner password rotationId salt
  have hraises : s.registry.rotate crypto name owner password rotationId salt = none := by
    have howner : ∀ row, s.registry.byNumber (Registry.number name) = some row → row.ownerHash ≠ crypto.digest owner := by
      intro row hr ho
      obtain ⟨secret, hu, hne, he⟩ := hw row hr
      exact hne (hinj hu ⟨j, _, hj, rfl⟩ (he.symm.trans ho))
    generalize s.registry.rotate crypto name owner password rotationId salt = result at hc
    cases hc with
    | unknown | wrong => rfl
    | again row hr ho | set row hr ho => exact absurd ho (howner row hr)
  unfold transaction at hs
  rw [hp] at hs
  dsimp only at hs
  rw [hraises] at hs
  cases hs
  exact ⟨rfl, rfl, by rw [point_moveTo, if_pos rfl]⟩

/-! ## Rotations -/

/-- A rotation of the owner commits: it is recorded, its row has the id, and it returns the generation that the row then
has. -/
theorem Sound.owner_commits (h : s.Sound crypto actions) {i : Nat} {salt name owner password rotationId : String} {row : Row}
    (hp : s.point i = .started (.rotate name owner password rotationId))
    (hr : s.registry.byNumber (Registry.number name) = some row) (ho : row.ownerHash = crypto.digest owner) :
    ∃ s' row', s.transaction crypto i salt = some s' ∧
      s'.rotations = s.rotations ++ [(Registry.number name, rotationId)] ∧
      s'.registry.byNumber (Registry.number name) = some row' ∧
      s'.point i = .returned (.rotate name owner password rotationId) (.rotated row'.generation) ∧
      row'.rotationId = some rotationId ∧
      row'.generation = row.generation + if row.rotationId = some rotationId then 0 else 1 := by
  have hc := Registry.rotate_cases crypto h.keyed name owner password rotationId salt
  unfold transaction
  rw [hp]
  dsimp only
  generalize hrot : s.registry.rotate crypto name owner password rotationId salt = result at hc
  cases hc with
  | unknown hn =>
      rw [hn] at hr
      cases hr
  | wrong x hx hxo =>
      cases hx.symm.trans hr
      exact absurd ho hxo
  | again x hx _ hid =>
      cases hx.symm.trans hr
      exact ⟨_, row, rfl, rfl, hr, by rw [point_moveTo, if_pos rfl], hid, by rw [if_pos hid, Nat.add_zero]⟩
  | set x hx _ hid =>
      cases hx.symm.trans hr
      refine ⟨_, Registry.rotated crypto row password rotationId salt, rfl, rfl,
        ?_, by rw [point_moveTo, if_pos rfl]; rfl, rfl, ?_⟩
      · have hn : (row.number : Int) = Registry.number name := Registry.byNumber_number hr
        rw [← hn]
        refine (rotate_stays h.keyed hrot).1.byNumber_iff.mpr ⟨?_, rfl⟩
        exact List.mem_map.mpr ⟨row, List.mem_of_find?_eq_some hr, if_pos rfl⟩
      · rw [if_neg hid]
        rfl

/-- What one action does to a row: nothing, or a rotation that it has not had last. -/
theorem step_row (hk : s.registry.Keyed) (hs : s.step crypto action = some s') {n : Nat} {row : Row}
    (hr : s.registry.byNumber n = some row) :
    ∃ new row', s'.rotations = s.rotations ++ new ∧ s'.registry.byNumber n = some row' ∧
      ((∀ id, ((n : Int), id) ∈ new → row.rotationId = some id) ∧ row' = row ∨
        ∃ id, new = [((n : Int), id)] ∧ row.rotationId ≠ some id ∧ row'.rotationId = some id ∧
          row'.generation = row.generation + 1) := by
  have hquiet : s'.rotations = s.rotations → s'.registry.byNumber n = some row →
      ∃ new row', s'.rotations = s.rotations ++ new ∧ s'.registry.byNumber n = some row' ∧
        ((∀ id, ((n : Int), id) ∈ new → row.rotationId = some id) ∧ row' = row ∨
          ∃ id, new = [((n : Int), id)] ∧ row.rotationId ≠ some id ∧ row'.rotationId = some id ∧
            row'.generation = row.generation + 1) :=
    fun h h' => ⟨[], row, by simpa using h, h', .inl ⟨by simp, rfl⟩⟩
  cases step_cases hs with
  | started | moved => exact hquiet rfl hr
  | inserted i salt owner password r name g _ hi =>
      have hc := s.registry.insert_cases crypto owner password salt
      rw [hi] at hc
      refine hquiet rfl ?_
      cases hc with
      | found => exact hr
      | new x =>
          show List.find? _ (s.registry.rows ++ [x]) = _
          rw [List.find?_append, show s.registry.rows.find? _ = some row from hr]
          rfl
  | rotated i salt name owner password rotationId r g _ hrot =>
      have hc := Registry.rotate_cases crypto hk name owner password rotationId salt
      rw [hrot] at hc
      refine ⟨[(Registry.number name, rotationId)], ?_⟩
      cases hc with
      | again x hx _ hid =>
          refine ⟨row, rfl, hr, .inl ⟨fun id hm => ?_, rfl⟩⟩
          obtain ⟨hn, rfl⟩ := Prod.mk.injEq .. ▸ List.mem_singleton.mp hm
          rw [← hn, hr] at hx
          cases hx
          exact hid
      | set x hx _ hid =>
          obtain ⟨hxm, hxn⟩ : x ∈ s.registry.rows ∧ (x.number : Int) = Registry.number name :=
            ⟨List.mem_of_find?_eq_some hx, Registry.byNumber_number hx⟩
          obtain ⟨hrm, hrn⟩ := Registry.byNumber_mem hr
          have hkeyed' := (rotate_stays hk hrot).1
          by_cases he : row.number = x.number
          · obtain rfl : row = x := hk.eq_of_number hrm hxm he
            refine ⟨Registry.rotated crypto row password rotationId salt, rfl, hkeyed'.byNumber_iff.mpr ⟨?_, hrn⟩,
              .inr ⟨rotationId, by rw [← hxn, hrn], hid, rfl, rfl⟩⟩
            exact List.mem_map.mpr ⟨row, hrm, if_pos rfl⟩
          · refine ⟨row, rfl, hkeyed'.byNumber_iff.mpr ⟨List.mem_map.mpr ⟨row, hrm, if_neg he⟩, hrn⟩,
              .inl ⟨fun id hm => ?_, rfl⟩⟩
            obtain ⟨hn, rfl⟩ := Prod.mk.injEq .. ▸ List.mem_singleton.mp hm
            rw [← hxn, ← hrn] at hn
            exact absurd (by exact_mod_cast hn) he

/-- Rotations of a row that all have one id raise its generation once, unless the row had that id before. -/
theorem Sound.rotated_once (h : s.Sound crypto actions) (hu : Runs.exec (Callers.step crypto) s more = some u) {n : Nat}
    {row : Row} (hr : s.registry.byNumber n = some row) {id : String} {new : List (Int × String)}
    (hnew : u.rotations = s.rotations ++ new) (hid : ∀ rotation ∈ new, rotation.1 = n → rotation.2 = id) :
    ∃ row', u.registry.byNumber n = some row' ∧
      row'.generation = row.generation + (if ((n : Int), id) ∈ new ∧ row.rotationId ≠ some id then 1 else 0) ∧
      row'.rotationId = if ((n : Int), id) ∈ new then some id else row.rotationId := by
  induction more using List.reverseRecOn generalizing u new with
  | nil =>
      cases hu
      obtain rfl : new = [] := by simpa using hnew
      exact ⟨row, hr, by simp, by simp⟩
  | append_singleton more action ih =>
      obtain ⟨t, ht, hs⟩ := Runs.exec_concat.mp hu
      have hkeyed : t.registry.Keyed := by
        refine Runs.invariant (I := fun s => s.registry.Keyed) h.keyed (fun x a y hk hstep => ?_) ht
        cases step_cases hstep with
        | started | moved => exact hk
        | inserted i salt owner password r name g _ hi =>
            have := hk.insert crypto owner password salt
            rwa [hi] at this
        | rotated i salt name owner password rotationId r g _ hrot => exact (rotate_stays hk hrot).1
      obtain ⟨before, hbefore⟩ : ∃ before, t.rotations = s.rotations ++ before := by
        refine Runs.invariant (I := fun t => ∃ before, t.rotations = s.rotations ++ before) ⟨[], by simp⟩
          (fun x a y hx hstep => ?_) ht
        obtain ⟨before, hx⟩ := hx
        cases step_cases hstep with
        | started | moved | inserted => exact ⟨before, hx⟩
        | rotated i salt name owner password rotationId =>
            exact ⟨before ++ [(Registry.number name, rotationId)], by simp [moveTo, hx]⟩
      have hmore : ∃ last, u.rotations = t.rotations ++ last := by
        cases step_cases hs with
        | started | moved | inserted => exact ⟨[], by simp [moveTo]⟩
        | rotated i salt name owner password rotationId => exact ⟨[(Registry.number name, rotationId)], rfl⟩
      obtain ⟨last, hlast⟩ := hmore
      obtain rfl : new = before ++ last := by
        rw [hlast, hbefore, List.append_assoc] at hnew
        exact (List.append_cancel_left hnew).symm
      obtain ⟨rowt, hrt, hg, hi⟩ := ih ht hbefore fun x hx => hid x (List.mem_append_left _ hx)
      obtain ⟨added, row', hadded, hr', hcase⟩ := step_row hkeyed hs hrt
      obtain rfl : last = added := List.append_cancel_left (hlast.symm.trans hadded)
      refine ⟨row', hr', ?_⟩
      rcases hcase with ⟨hsame, rfl⟩ | ⟨id', rfl, hne, hid', hgen⟩
      · by_cases hin : ((n : Int), id) ∈ last
        · have hhas := hsame id hin
          rw [hi] at hhas
          by_cases hb : ((n : Int), id) ∈ before
          · simp [hg, hi, hb, hin]
          · rw [if_neg hb] at hhas hi
            simp [hg, hi, hb, hin, hhas]
        · simp [hg, hi, hin]
      · obtain rfl : id' = id := hid (n, id') (by simp) rfl
        by_cases hb : ((n : Int), id') ∈ before
        · rw [if_pos hb] at hi
          exact absurd hi hne
        · rw [if_neg hb] at hi
          rw [hi] at hne
          simp [hgen, hg, hid', hb, hne]

/-! ## The registry under concurrent calls -/

/-- In every interleaving: one name for one secret, `register` keeps the rows and is answered, a rotation that is not of the
owner changes nothing, one that is commits, and rotations with one id raise the generation once. -/
theorem registry_sound (hs : run crypto actions = some s) (hinj : Set.InjOn crypto.digest (secrets actions)) :
    (∀ i j owner owner' password password' name name' g g',
      s.point i = .returned (.register owner password) (.registered name g) →
      s.point j = .returned (.register owner' password') (.registered name' g') → (name = name' ↔ owner = owner')) ∧
    (∀ i salt owner password s', (s.point i).call = some (.register owner password) →
      s.transaction crypto i salt = some s' → s.registry.rows <+: s'.registry.rows) ∧
    (∀ i salt name owner password rotationId s', s.point i = .started (.rotate name owner password rotationId) →
      s.Wrong crypto actions name owner → s.transaction crypto i salt = some s' →
      s'.registry = s.registry ∧ s'.rotations = s.rotations ∧
      s'.point i = .raised (.rotate name owner password rotationId)) ∧
    (∀ i salt name owner password rotationId row, s.point i = .started (.rotate name owner password rotationId) →
      s.registry.byNumber (Registry.number name) = some row → row.ownerHash = crypto.digest owner →
      ∃ s' row', s.transaction crypto i salt = some s' ∧
        s'.rotations = s.rotations ++ [(Registry.number name, rotationId)] ∧
        s'.registry.byNumber (Registry.number name) = some row' ∧
        s'.point i = .returned (.rotate name owner password rotationId) (.rotated row'.generation) ∧
        row'.rotationId = some rotationId ∧
        row'.generation = row.generation + if row.rotationId = some rotationId then 0 else 1) ∧
    (∀ i salt owner password,
      (s.point i = .started (.register owner password) → ∃ s', s.transaction crypto i salt = some s' ∧
        (s'.point i = .hashing owner password ∨
          ∃ name g, s'.point i = .returned (.register owner password) (.registered name g))) ∧
      (s.point i = .hashing owner password → ∃ s' name g, s.transaction crypto i salt = some s' ∧
        s'.point i = .returned (.register owner password) (.registered name g))) ∧
    ∀ more u (n : Nat) row id new, Runs.exec (Callers.step crypto) s more = some u → s.registry.byNumber n = some row →
      u.rotations = s.rotations ++ new → (∀ rotation ∈ new, rotation.1 = n → rotation.2 = id) →
      ∃ row', u.registry.byNumber n = some row' ∧
        row'.generation = row.generation + if ((n : Int), id) ∈ new ∧ row.rotationId ≠ some id then 1 else 0 := by
  have h := sound hs
  refine ⟨?_, ?_, ?_, ?_, ?_, ?_⟩
  · intro i j owner owner' password password' name name' g g' hi hj
    exact h.same_name hinj hi hj
  · intro i salt owner password s' hp hs
    exact register_keeps hp hs
  · intro i salt name owner password rotationId s' hp hw hs
    exact h.wrong_raises hinj hp hw hs
  · intro i salt name owner password rotationId row hp hr ho
    exact h.owner_commits hp hr ho
  · intro i salt owner password
    exact register_goes_on
  · intro more u n row id new hu hr hnew hid
    obtain ⟨row', hr', hg, _⟩ := h.rotated_once hu hr hnew hid
    exact ⟨row', hr', hg⟩

/-- Two first registrations of one owner between whose transactions the other's come, and one of another owner. Then the
first begins a rotation. -/
def firstRegistrations : List CallersAction :=
  [.call 0 (.register "alice" "one"), .call 1 (.register "alice" "two"), .call 2 (.register "bob" "three"),
    .transaction 0 "s", .transaction 1 "s", .transaction 2 "s", .transaction 1 "t", .transaction 0 "u", .transaction 2 "v",
    .call 3 (.rotate "TARGET-001" "alice" "four" "id")]

theorem registry_sound_first :
    ∃ s, run ⟨id, (· ++ ·)⟩ firstRegistrations = some s ∧
      s.point 0 = .returned (.register "alice" "one") (.registered "TARGET-001" 1) ∧
      s.point 2 = .returned (.register "bob" "three") (.registered "TARGET-002" 1) ∧
      ("TARGET-001" = "TARGET-002" ↔ "alice" = "bob") ∧
      ∃ s', s.transaction ⟨id, (· ++ ·)⟩ 3 "w" = some s' ∧ s'.rotations = [(1, "id")] ∧
        s'.point 3 = .returned (.rotate "TARGET-001" "alice" "four" "id") (.rotated 2) := by
  obtain ⟨s, hs⟩ : ∃ s, run ⟨id, (· ++ ·)⟩ firstRegistrations = some s := Option.isSome_iff_exists.mp (by decide +kernel)
  have h0 : ((run ⟨id, (· ++ ·)⟩ firstRegistrations).map fun s => s.point 0) =
      some (.returned (.register "alice" "one") (.registered "TARGET-001" 1)) := by decide +kernel
  have h2 : ((run ⟨id, (· ++ ·)⟩ firstRegistrations).map fun s => s.point 2) =
      some (.returned (.register "bob" "three") (.registered "TARGET-002" 1)) := by decide +kernel
  have h3 : ((run ⟨id, (· ++ ·)⟩ firstRegistrations).map fun s => s.point 3) =
      some (.started (.rotate "TARGET-001" "alice" "four" "id")) := by decide +kernel
  have hrow : ((run ⟨id, (· ++ ·)⟩ firstRegistrations).bind fun s => s.registry.byNumber (Registry.number "TARGET-001")) =
      some { number := 1, ownerHash := "alice", salt := "t", passwordHash := "twot" } := by decide +kernel
  have hnone : ((run ⟨id, (· ++ ·)⟩ firstRegistrations).map fun s => s.rotations) = some [] := by decide +kernel
  rw [hs, Option.map_some, Option.some.injEq] at h0 h2 h3 hnone
  rw [hs, Option.bind_some] at hrow
  have hinj : Set.InjOn (id : String → String) (secrets firstRegistrations) := Set.injOn_id _
  refine ⟨s, hs, h0, h2, (registry_sound hs hinj).1 0 2 _ _ _ _ _ _ _ _ h0 h2, ?_⟩
  obtain ⟨s', row', hs', hrotations, -, hpoint, -, hg⟩ := (registry_sound hs hinj).2.2.2.1 3 "w" _ _ _ _ _ h3 hrow rfl
  refine ⟨s', hs', ?_, ?_⟩
  · rw [hrotations, hnone]
    decide +kernel
  · rw [hpoint, hg]
    rfl

end Callers

end RemoteInput
