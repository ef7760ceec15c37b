import RemoteInput.Relay.Registry

/-!
# The keys of the table
-/

namespace RemoteInput

namespace Registry

variable {crypto : Crypto} {r r' : Registry} {row : Row} {n : Nat} {name owner password rotationId salt : String} {g : Nat}

/-- The digits of a name spell its number. -/
theorem digitsValue_name (n : Nat) : digitsValue ((Registry.name n).toList.drop 7) = n := by
  have hlist : (Registry.name n).toList =
      "TARGET-".toList ++ (List.replicate (3 - (toString n).length) '0' ++ Nat.toDigits 10 n) := by
    simp [Registry.name]
  have hdrop : (Registry.name n).toList.drop 7 = List.replicate (3 - (toString n).length) '0' ++ Nat.toDigits 10 n := by
    rw [hlist]; rfl
  have hdigits : digitsValue = fun l => Nat.ofDigitChars 10 l 0 := rfl
  rw [hdrop, hdigits]
  dsimp only
  rw [Nat.ofDigitChars_append, Nat.ofDigitChars_replicate_zero, Nat.mul_zero,
    Nat.ofDigitChars_toDigits (by norm_num) (by norm_num)]

/-- Distinct numbers call for distinct names. -/
theorem name_injective : Function.Injective Registry.name := by
  intro n m h
  rw [← digitsValue_name n, h, digitsValue_name m]

/-- A name that the registry gave out spells its number, or has too many digits and spells none. -/
theorem number_name (n : Nat) : Registry.number (Registry.name n) = n ∨ Registry.number (Registry.name n) = -1 := by
  unfold Registry.number
  split
  · dsimp only
    split
    · exact .inl (congrArg _ (digitsValue_name n))
    · exact .inr rfl
  · exact .inr rfl

/-- Numbers and owners are keys, and `AUTOINCREMENT` has given out the numbers. -/
structure Keyed (r : Registry) : Prop where
  numbers : (r.rows.map Row.number).Nodup
  given : ∀ row ∈ r.rows, row.number ≤ r.last
  owners : (r.rows.map Row.ownerHash).Nodup

theorem Keyed.empty : Keyed {} := ⟨List.nodup_nil, by simp, List.nodup_nil⟩

theorem Keyed.eq_of_number (h : r.Keyed) {row' : Row} (hr : row ∈ r.rows) (hr' : row' ∈ r.rows)
    (he : row.number = row'.number) : row = row' := List.inj_on_of_nodup_map h.numbers hr hr' he

theorem Keyed.eq_of_owner (h : r.Keyed) {row' : Row} (hr : row ∈ r.rows) (hr' : row' ∈ r.rows)
    (he : row.ownerHash = row'.ownerHash) : row = row' := List.inj_on_of_nodup_map h.owners hr hr' he

theorem byNumber_number {n : Int} (h : r.byNumber n = some row) : (row.number : Int) = n := by
  simpa using List.find?_some h

theorem byNumber_mem (h : r.byNumber n = some row) : row ∈ r.rows ∧ row.number = n :=
  ⟨List.mem_of_find?_eq_some h, by simpa using List.find?_some h⟩

theorem Keyed.byNumber_iff (h : r.Keyed) : r.byNumber n = some row ↔ row ∈ r.rows ∧ row.number = n := by
  refine ⟨byNumber_mem, ?_⟩
  rintro ⟨hr, rfl⟩
  cases hf : r.byNumber row.number with
  | none => simpa using List.find?_eq_none.mp hf row hr
  | some found => rw [h.eq_of_number (byNumber_mem hf).1 hr (byNumber_mem hf).2]

/-! ## The second transaction of `register` -/

/-- What the transaction finds or inserts. -/
inductive InsertCase (crypto : Crypto) (r : Registry) (owner password salt : String) : Registry × String × Nat → Prop where
  | found (row : Row) (hr : row ∈ r.rows) (ho : row.ownerHash = crypto.digest owner) :
      InsertCase crypto r owner password salt (r, Registry.name row.number, row.generation)
  | new (row : Row) (hn : row.number = r.last + 1) (ho : row.ownerHash = crypto.digest owner)
      (hnone : ∀ row ∈ r.rows, row.ownerHash ≠ crypto.digest owner) :
      InsertCase crypto r owner password salt (⟨r.rows ++ [row], r.last + 1⟩, Registry.name row.number, 1)

theorem byOwner_mem (h : r.byOwner owner = some row) : row ∈ r.rows ∧ row.ownerHash = owner :=
  ⟨List.mem_of_find?_eq_some h, by simpa using List.find?_some h⟩

theorem registered_mem {found : String × Nat} (h : r.registered crypto owner = some found) :
    ∃ row ∈ r.rows, row.ownerHash = crypto.digest owner ∧ found = (Registry.name row.number, row.generation) := by
  obtain ⟨row, hr, rfl⟩ := Option.map_eq_some_iff.mp h
  exact ⟨row, (byOwner_mem hr).1, (byOwner_mem hr).2, rfl⟩

theorem insert_cases (crypto : Crypto) (r : Registry) (owner password salt : String) :
    InsertCase crypto r owner password salt (r.insert crypto owner password salt) := by
  unfold insert
  split
  · rename_i found h
    obtain ⟨row, hr, ho, rfl⟩ := registered_mem h
    exact .found row hr ho
  · rename_i h
    refine .new _ rfl rfl fun row hr ho => ?_
    rw [registered, Option.map_eq_none_iff, byOwner, List.find?_eq_none] at h
    exact absurd ho (by simpa using h row hr)

theorem Keyed.insert (h : r.Keyed) (crypto : Crypto) (owner password salt : String) :
    (r.insert crypto owner password salt).1.Keyed := by
  have hc := r.insert_cases crypto owner password salt
  generalize r.insert crypto owner password salt = result at hc
  cases hc with
  | found => exact h
  | new row hn ho hnone =>
      refine ⟨?_, fun x hx => ?_, ?_⟩
      · rw [List.map_append, List.map_singleton, List.nodup_append]
        refine ⟨h.numbers, List.nodup_singleton _, ?_⟩
        rintro m hm _ hm' rfl
        obtain ⟨x, hx, rfl⟩ := List.mem_map.mp hm
        have := h.given x hx
        rw [List.mem_singleton, hn] at hm'
        omega
      · rcases List.mem_append.mp hx with hx | hx
        · exact (h.given x hx).trans (Nat.le_succ _)
        · rw [List.mem_singleton.mp hx, hn]
      · rw [List.map_append, List.map_singleton, List.nodup_append]
        refine ⟨h.owners, List.nodup_singleton _, ?_⟩
        rintro m hm _ hm' rfl
        obtain ⟨x, hx, rfl⟩ := List.mem_map.mp hm
        exact hnone x hx ((List.mem_singleton.mp hm').trans ho)

/-! ## The transaction of `rotate` -/

/-- The row with the number of `name` gets a new password. -/
def rotated (crypto : Crypto) (row : Row) (password rotationId salt : String) : Row :=
  { row with salt := salt, passwordHash := crypto.passwordHash password salt, generation := row.generation + 1,
             rotationId := some rotationId }

/-- How the transaction ends. -/
inductive RotateCase (crypto : Crypto) (r : Registry) (name owner password rotationId salt : String) :
    Option (Registry × Nat) → Prop where
  | unknown (h : r.byNumber (number name) = none) : RotateCase crypto r name owner password rotationId salt none
  | wrong (row : Row) (h : r.byNumber (number name) = some row) (ho : row.ownerHash ≠ crypto.digest owner) :
      RotateCase crypto r name owner password rotationId salt none
  | again (row : Row) (h : r.byNumber (number name) = some row) (ho : row.ownerHash = crypto.digest owner)
      (hi : row.rotationId = some rotationId) :
      RotateCase crypto r name owner password rotationId salt (some (r, row.generation))
  | set (row : Row) (h : r.byNumber (number name) = some row) (ho : row.ownerHash = crypto.digest owner)
      (hi : row.rotationId ≠ some rotationId) :
      RotateCase crypto r name owner password rotationId salt
        (some ({ r with rows := r.rows.map fun x => if x.number = row.number then rotated crypto x password rotationId salt
                        else x }, row.generation + 1))

theorem rotate_cases (crypto : Crypto) (hk : r.Keyed) (name owner password rotationId salt : String) :
    RotateCase crypto r name owner password rotationId salt (r.rotate crypto name owner password rotationId salt) := by
  unfold rotate
  split
  · rename_i h; exact .unknown h
  rename_i row h
  split
  · rename_i ho; exact .wrong row h ho
  rename_i ho
  split
  · rename_i hi; exact .again row h (not_not.mp ho) hi
  · rename_i hi
    have hnum : (row.number : Int) = number name := byNumber_number h
    have hupdate : r.update (number name) salt (crypto.passwordHash password salt) (row.generation + 1) rotationId =
        { r with rows := r.rows.map fun x => if x.number = row.number then rotated crypto x password rotationId salt
                         else x } := by
      unfold update
      refine congrArg (fun rows => ({ r with rows := rows } : Registry)) (List.map_congr_left fun x hx => ?_)
      rw [← hnum]
      by_cases he : x.number = row.number
      · rw [if_pos (by exact_mod_cast he), if_pos he, hk.eq_of_number hx (List.mem_of_find?_eq_some h) he]
        rfl
      · rw [if_neg (by exact_mod_cast he), if_neg he]
    rw [hupdate]
    exact .set row h (not_not.mp ho) hi

/-- An update of rows that keeps the keys. -/
theorem Keyed.map (h : r.Keyed) {f : Row → Row} (hn : ∀ row, (f row).number = row.number)
    (ho : ∀ row, (f row).ownerHash = row.ownerHash) : Keyed { r with rows := r.rows.map f } := by
  refine ⟨?_, fun row hr => ?_, ?_⟩
  · rw [List.map_map, show Row.number ∘ f = Row.number from funext hn]; exact h.numbers
  · obtain ⟨x, hx, rfl⟩ := List.mem_map.mp hr
    rw [hn]; exact h.given x hx
  · rw [List.map_map, show Row.ownerHash ∘ f = Row.ownerHash from funext ho]; exact h.owners

theorem Keyed.rotate (h : r.Keyed) (hr : r.rotate crypto name owner password rotationId salt = some (r', g)) : r'.Keyed := by
  have hc := rotate_cases crypto h name owner password rotationId salt
  rw [hr] at hc
  cases hc with
  | again => exact h
  | set row => exact h.map (fun x => by split <;> rfl) (fun x => by split <;> rfl)

/-! ## The row of an owner -/

theorem Keyed.byOwner_iff (h : r.Keyed) : r.byOwner owner = some row ↔ row ∈ r.rows ∧ row.ownerHash = owner := by
  refine ⟨byOwner_mem, ?_⟩
  rintro ⟨hr, rfl⟩
  cases hf : r.byOwner row.ownerHash with
  | none => simpa using List.find?_eq_none.mp hf row hr
  | some found => rw [h.eq_of_owner (byOwner_mem hf).1 hr (byOwner_mem hf).2]

/-- Registration leaves the rows that there are, and adds one for an owner who has none. -/
theorem insert_byOwner (crypto : Crypto) (r : Registry) (owner password salt hash : String) :
    (r.insert crypto owner password salt).1.byOwner hash = r.byOwner hash ∨
      r.byOwner hash = none ∧ hash = crypto.digest owner ∧ ∃ row,
        (r.insert crypto owner password salt).1.byOwner hash = some row ∧
          row.passwordHash = crypto.passwordHash password row.salt ∧ row.rotationId = none := by
  unfold insert
  split
  · exact .inl rfl
  · rename_i hnone
    rw [registered, Option.map_eq_none_iff] at hnone
    dsimp only
    unfold byOwner
    rw [List.find?_append]
    by_cases ho : hash = crypto.digest owner
    · subst ho
      right
      rw [show r.rows.find? _ = none from hnone]
      refine ⟨rfl, rfl, ⟨r.last + 1, crypto.digest owner, salt, crypto.passwordHash password salt, 1, none⟩, ?_, rfl, rfl⟩
      rw [Option.none_or, List.find?_cons_of_pos (by simp)]
    · left
      rw [List.find?_cons_of_neg (by simpa using Ne.symm ho), List.find?_nil, Option.or_none]

/-- A rotation by another owner leaves the row; one by the owner is a repetition or sets the new password. -/
theorem Keyed.rotate_byOwner (h : r.Keyed) (hr : r.rotate crypto name owner password rotationId salt = some (r', g))
    (hash : String) :
    r'.byOwner hash = r.byOwner hash ∧ hash ≠ crypto.digest owner ∨
      hash = crypto.digest owner ∧ ∃ row, r.byOwner hash = some row ∧
        (row.rotationId = some rotationId ∧ r'.byOwner hash = some row ∨
          row.rotationId ≠ some rotationId ∧ r'.byOwner hash = some (rotated crypto row password rotationId salt)) := by
  have hkeyed := h.rotate hr
  have hc := rotate_cases crypto h name owner password rotationId salt
  rw [hr] at hc
  by_cases ho : hash = crypto.digest owner
  · right
    subst ho
    cases hc with
    | again row hn ho hi =>
        have hrow : r.byOwner (crypto.digest owner) = some row := h.byOwner_iff.mpr ⟨List.mem_of_find?_eq_some hn, ho⟩
        exact ⟨rfl, row, hrow, .inl ⟨hi, hrow⟩⟩
    | set row hn ho hi =>
        have hm : row ∈ r.rows := List.mem_of_find?_eq_some hn
        refine ⟨rfl, row, h.byOwner_iff.mpr ⟨hm, ho⟩, .inr ⟨hi, hkeyed.byOwner_iff.mpr ⟨?_, ho⟩⟩⟩
        exact List.mem_map.mpr ⟨row, hm, if_pos rfl⟩
  · left
    refine ⟨?_, ho⟩
    cases hc with
    | again => rfl
    | set row hn ho' hi =>
        have hmem : ∀ x ∈ r.rows, x.ownerHash = hash → x.number ≠ row.number := by
          rintro x hx rfl he
          exact ho (h.eq_of_number hx (List.mem_of_find?_eq_some hn) he ▸ ho')
        cases hf : r.byOwner hash with
        | some x =>
            obtain ⟨hx, hxo⟩ := byOwner_mem hf
            exact hkeyed.byOwner_iff.mpr ⟨List.mem_map.mpr ⟨x, hx, if_neg (hmem x hx hxo)⟩, hxo⟩
        | none =>
            rw [byOwner, List.find?_eq_none] at hf ⊢
            intro y hy
            obtain ⟨x, hx, rfl⟩ := List.mem_map.mp hy
            have := hf x hx
            split
            · exact this
            · exact this

end Registry

end RemoteInput
