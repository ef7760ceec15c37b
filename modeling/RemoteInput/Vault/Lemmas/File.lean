import RemoteInput.Vault.Lemmas.Identity

/-!
# The file of the vault
-/

namespace RemoteInput

variable {windows : Windows} {disk disk' : Disk UInt8} {save save' : Save} {value : Fields}
  {result : Save ⊕ Bool} {ok : Bool} {count salt i : Nat} {encrypted : List UInt8}

namespace Vault

theorem path_ne_temporary (account token : String) : path account ≠ temporary account token := by
  intro h
  have hlength := congrArg String.length h
  simp only [path, temporary, String.length_append] at hlength
  have h1 : ".bin".length = 4 := rfl
  have h2 : ".".length = 1 := rfl
  have h3 : ".tmp".length = 4 := rfl
  omega

/-! ## What was saved is loaded -/

theorem decode_encode {depth : Nat} (h : Sane value) (hpos : 0 < depth) :
    decode depth (encode value) = some (.obj value) := by
  have hplain := h.plain
  have hbyte : ∀ c : Char, Json.Printable c → Char.ofNat (UInt8.ofNat c.toNat).toNat = c := by
    rintro c ⟨-, hc⟩
    rw [UInt8.toNat_ofNat_of_lt' (by show c.toNat < 256; omega), Char.ofNat_toNat]
  have hchars : (encode value).map (fun b => Char.ofNat b.toNat) = Json.dumps (.obj value) := by
    rw [encode, List.map_map]
    exact (List.map_congr_left fun c hc => hbyte c (Json.printable_dumps _ hplain c hc)).trans (List.map_id _)
  rw [decode, hchars, Json.loads_dumps hplain (by rw [h.depth]; exact hpos)]

theorem encode_ne_nil : encode value ≠ [] := by
  intro h
  have hempty : Json.dumps (.obj value) = [] := List.map_eq_nil_iff.mp h
  cases value with
  | nil => cases hempty
  | cons p value => cases hempty

theorem load_of_read (hread : disk.read (path windows.account) = some encrypted)
    (hbytes : windows.unprotect encrypted = some (encode value)) (h : Sane value) (hpos : 0 < windows.depth) :
    load windows.unprotect windows.depth windows.account disk = some (some value) := by
  unfold load
  rw [hread]
  dsimp only
  rw [hbytes, Option.bind_some, if_neg encode_ne_nil, decode_encode h hpos]

theorem load_congr (hread : disk'.read (path windows.account) = disk.read (path windows.account)) :
    load windows.unprotect windows.depth windows.account disk' =
      load windows.unprotect windows.depth windows.account disk := by
  unfold load
  rw [hread]

end Vault

namespace Save

/-- The bytes are an identity of `values`. -/
def Written (windows : Windows) (values : List Fields) (encrypted : List UInt8) : Prop :=
  ∃ value ∈ values, windows.unprotect encrypted = some (Vault.encode value)

/-- The temporary file is still its own. -/
structure Own (windows : Windows) (disk : Disk UInt8) (save : Save) (i : Nat) (data : List UInt8) (synced : Bool) :
    Prop where
  directory : disk.directory (Vault.temporary windows.account save.token) = some i
  fresh : ¬ disk.Refers (Vault.path windows.account) i
  inode : disk.inodes[i]? = some ⟨data, synced⟩

/-- How far a save has come. -/
def Underway (windows : Windows) (disk : Disk UInt8) (save : Save) : Prop :=
  match save.point with
  | .protecting | .unlinking _ => True
  | .directory encrypted | .opening encrypted => windows.unprotect encrypted = some (Vault.encode save.value)
  | .writing i rest => ∃ data synced, save.Own windows disk i data synced ∧
      windows.unprotect (data ++ rest) = some (Vault.encode save.value)
  | .syncing i =>
      ∃ data synced, save.Own windows disk i data synced ∧ windows.unprotect data = some (Vault.encode save.value)
  | .replacing i => ∃ data, save.Own windows disk i data true ∧ windows.unprotect data = some (Vault.encode save.value)

/-- What one call does. -/
structure Called (windows : Windows) (values : List Fields) (disk : Disk UInt8) (save : Save) (disk' : Disk UInt8)
    (result : Save ⊕ Bool) : Prop where
  tidy : disk'.Tidy
  keeps : disk'.Keeps (Written windows values) (Vault.path windows.account)
  goesOn : ∀ save', result = .inl save' → save'.value = save.value ∧ save'.Underway windows disk'
  /-- The file stays as it is, or it has been replaced and the save goes on with `unlinking`. -/
  read : (disk'.read (Vault.path windows.account) = disk.read (Vault.path windows.account) ∧
      (∀ save', result = .inl save' → save'.point ≠ .unlinking true) ∧ (result = .inr true → save.point = .unlinking true)) ∨
    (∃ encrypted, disk'.read (Vault.path windows.account) = some encrypted ∧
      windows.unprotect encrypted = some (Vault.encode save.value)) ∧ result = .inl { save with point := .unlinking true }

variable {values : List Fields}

/-- A call that does nothing to the disk. -/
theorem Called.still (ht : disk.Tidy) (hk : disk.Keeps (Written windows values) (Vault.path windows.account))
    (point : WritePoint)
    (hpoint : point ≠ .unlinking true) (hunderway : Underway windows disk { save with point := point }) :
    Called windows values disk save disk (.inl { save with point := point }) where
  tidy := ht
  keeps := hk
  goesOn := by
    rintro _ ⟨⟩
    exact ⟨rfl, hunderway⟩
  read := .inl ⟨rfl, by rintro _ ⟨⟩; exact hpoint, by rintro ⟨⟩⟩

theorem Called.failed (ht : disk.Tidy) (hk : disk.Keeps (Written windows values) (Vault.path windows.account)) :
    Called windows values disk save disk (.inr false) where
  tidy := ht
  keeps := hk
  goesOn := by rintro _ ⟨⟩
  read := .inl ⟨rfl, by rintro _ ⟨⟩, by rintro ⟨⟩⟩

/-- Every call keeps what the file of the vault leads to, and only `replace` puts the value there. -/
theorem called (hprotect : ∀ salt raw, windows.unprotect (windows.protect salt raw) = some raw) (ht : disk.Tidy)
    (hk : disk.Keeps (Written windows values) (Vault.path windows.account)) (hv : save.value ∈ values)
    (hu : save.Underway windows disk) (h : save.step windows ok count salt disk = (disk', result)) :
    Called windows values disk save disk' result := by
  have hne := Vault.path_ne_temporary windows.account save.token
  have hclean : Called windows values disk save disk (.inl { save with point := .unlinking false }) :=
    .still ht hk (.unlinking false) (by simp) trivial
  obtain ⟨value, token, point⟩ := save
  cases point with
  | protecting =>
      cases ok with
      | true => cases h; exact .still ht hk _ (by simp) (hprotect salt _)
      | false => cases h; exact .failed ht hk
  | directory encrypted =>
      cases ok with
      | true => cases h; exact .still ht hk _ (by simp) hu
      | false => cases h; exact .failed ht hk
  | opening encrypted =>
      dsimp only [step] at h
      split at h
      · rename_i opened hopened
        cases h
        have hcreate : disk.create (Vault.temporary windows.account token) = some disk' :=
          (Option.ite_none_right_eq_some.mp hopened).2
        refine ⟨ht.create hcreate, hk.create ht hcreate hne, ?_, .inl ⟨Disk.read_create hcreate hne ht, ?_, by rintro ⟨⟩⟩⟩
        · rintro _ ⟨⟩
          refine ⟨rfl, [], false, ⟨Disk.directory_create hcreate, fun hi => ?_, Disk.getElem?_create hcreate⟩, hu⟩
          exact absurd (ht _ _ (Disk.refers_create hcreate hne hi)) (lt_irrefl _)
        · rintro _ ⟨⟩
          simp
      · cases h
        exact hclean
  | writing i rest =>
      obtain ⟨data, synced, hown, hdata⟩ := hu
      have hafter :
          Own windows (disk.append i (rest.take count)) ⟨value, token, .writing i rest⟩ i
          (data ++ rest.take count) false :=
        ⟨hown.directory, hown.fresh, Disk.getElem?_append hown.inode⟩
      have hbytes : windows.unprotect (data ++ rest.take count ++ rest.drop count) = some (Vault.encode value) := by
        rwa [List.append_assoc, List.take_append_drop]
      have hread : (disk.append i (rest.take count)).read _ = disk.read _ := Disk.read_append hown.fresh
      cases h
      refine ⟨ht.append, hk.append hown.fresh, fun save' hsave' => ?_, .inl ⟨hread, fun save' hsave' => ?_, fun htrue => ?_⟩⟩
      · split_ifs at hsave' with hok hrest <;> cases hsave'
        · rw [hrest, List.append_nil] at hbytes
          exact ⟨rfl, _, _, ⟨hafter.directory, hafter.fresh, hafter.inode⟩, hbytes⟩
        · exact ⟨rfl, _, _, ⟨hafter.directory, hafter.fresh, hafter.inode⟩, hbytes⟩
        · exact ⟨rfl, trivial⟩
      · split_ifs at hsave' with hok hrest <;> cases hsave' <;> simp
      · split_ifs at htrue
  | syncing i =>
      obtain ⟨data, synced, hown, hdata⟩ := hu
      cases ok with
      | true =>
          cases h
          refine ⟨ht.sync, hk.sync, ?_, .inl ⟨Disk.read_sync, ?_, by rintro ⟨⟩⟩⟩
          · rintro _ ⟨⟩
            exact ⟨rfl, data, ⟨hown.directory, hown.fresh, Disk.getElem?_sync hown.inode⟩, hdata⟩
          · rintro _ ⟨⟩
            simp
      | false => cases h; exact hclean
  | replacing i =>
      obtain ⟨data, hown, hdata⟩ := hu
      dsimp only [step] at h
      split at h
      · rename_i replaced hreplaced
        cases h
        have hreplace : disk.replace (Vault.temporary windows.account token) (Vault.path windows.account) = some disk' :=
          (Option.ite_none_right_eq_some.mp hreplaced).2
        have hread := Disk.read_replace hreplace hown.directory
        rw [hown.inode] at hread
        refine ⟨ht.replace hreplace, hk.replace hreplace hown.directory hown.inode ⟨value, hv, hdata⟩, ?_,
          .inr ⟨⟨data, hread, hdata⟩, rfl⟩⟩
        rintro _ ⟨⟩
        exact ⟨rfl, trivial⟩
      · cases h
        exact hclean
  | unlinking replaced =>
      cases ok with
      | true =>
          cases h
          refine ⟨ht.unlink, hk.unlink, by rintro _ ⟨⟩, .inl ⟨Disk.read_unlink hne, by rintro _ ⟨⟩, ?_⟩⟩
          rintro ⟨⟩
          rfl
      | false => cases h; exact .failed ht hk

end Save

end RemoteInput
