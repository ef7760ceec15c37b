import RemoteInput.Vault.Semantics
import RemoteInput.Wire.Lemmas.Control

/-!
# Identities as dictionaries
-/

namespace RemoteInput

namespace Vault

variable {identity value v w : Fields} {key name : String} {drawn : String × String}

/-! ## Dictionaries that the vault may hold -/

/-- A dictionary of strings with an owner secret. -/
structure Sane (identity : Fields) : Prop where
  nodup : (identity.map Prod.fst).Nodup
  strings : ∀ p ∈ identity, CodePoint.Joined p.1 ∧ ∃ s, p.2 = .str s ∧ CodePoint.Joined s
  owner : (Json.get (codePoints "owner_secret") identity).isSome = true

theorem Sane.plain (h : Sane identity) : (Json.obj identity).Plain := by
  refine ⟨h.nodup, ?_⟩
  have hstrings := h.strings
  clear h
  induction identity with
  | nil => trivial
  | cons p identity ih =>
      obtain ⟨hk, s, hs, hj⟩ := hstrings p List.mem_cons_self
      refine ⟨hk, ?_, ih fun q hq => hstrings q (List.mem_cons_of_mem p hq)⟩
      rw [hs]
      exact hj

theorem Sane.depth (h : Sane identity) : (Json.obj identity).depth = 1 := by
  have hstrings := h.strings
  have hzero : Json.depthPairs identity = 0 := by
    clear h
    induction identity with
    | nil => rfl
    | cons p identity ih =>
        obtain ⟨-, s, hs, -⟩ := hstrings p List.mem_cons_self
        have hp : p.2.depth = 0 := by rw [hs]; rfl
        rw [Json.depthPairs, hp, ih fun q hq => hstrings q (List.mem_cons_of_mem p hq)]
        rfl
  rw [Json.depth, hzero]

theorem Sane.ne_nil (h : Sane identity) : identity ≠ [] := by
  rintro rfl
  exact absurd h.owner (by simp [Json.get])

theorem sane_newIdentity (owner password : String) : Sane (newIdentity owner password) := by
  have hne : "owner_secret" ≠ "password" := by decide
  refine ⟨?_, ?_, by simp [newIdentity]⟩
  · simp [newIdentity]
  · simp only [newIdentity, List.mem_cons, List.not_mem_nil, or_false, forall_eq_or_imp, forall_eq]
    exact ⟨⟨joined_codePoints _, _, rfl, joined_codePoints _⟩, joined_codePoints _, _, rfl, joined_codePoints _⟩

theorem Sane.assign {k : List CodePoint} {x : Json} (h : Sane identity) (hk : CodePoint.Joined k)
    (hx : ∃ s, x = .str s ∧ CodePoint.Joined s) : Sane (Json.assign k x identity) := by
  refine ⟨Json.nodup_assign h.nodup, fun p hp => ?_, ?_⟩
  · rcases Json.mem_assign hp with rfl | hp
    · exact ⟨hk, hx⟩
    · exact h.strings p hp
  · rw [Json.get_assign]
    split
    · rfl
    · exact h.owner

theorem Sane.registered (h : Sane identity) (name : String) : Sane (registered name identity) :=
  h.assign (joined_codePoints _) ⟨_, rfl, joined_codePoints _⟩

theorem Sane.beginRotation (h : Sane identity) (drawn : String × String) : Sane (beginRotation drawn identity) :=
  (h.assign (joined_codePoints _) ⟨_, rfl, joined_codePoints _⟩).assign (joined_codePoints _) ⟨_, rfl, joined_codePoints _⟩

theorem erase_eq (h : erase key identity = some v) : v = identity.filter fun p => p.1 ≠ codePoints key := by
  unfold erase at h
  split at h
  · exact (Option.some.inj h).symm
  · cases h

theorem Sane.erase (h : Sane identity) (hne : key ≠ "owner_secret") (he : erase key identity = some v) : Sane v := by
  rw [erase_eq he]
  refine ⟨?_, fun p hp => h.strings p (List.mem_of_mem_filter hp), ?_⟩
  · exact h.nodup.sublist (List.filter_sublist.map _)
  · rw [Json.get_filter, if_neg (by rwa [codePoints_inj])]
    exact h.owner

theorem finishRotation_eq (h : finishRotation identity = some v) :
    ∃ x w, Json.get (codePoints "pending_password") identity = some x ∧
      erase "pending_password" (Json.assign (codePoints "password") x identity) = some w ∧
      erase "rotation_id" w = some v := by
  obtain ⟨x, hx, h⟩ := Option.bind_eq_some_iff.mp h
  obtain ⟨w, hw, hv⟩ := Option.bind_eq_some_iff.mp h
  exact ⟨x, w, hx, hw, hv⟩

theorem Sane.finishRotation (h : Sane identity) (hv : finishRotation identity = some v) : Sane v := by
  obtain ⟨x, w, hx, hw, hv⟩ := finishRotation_eq hv
  have hstring := (h.strings _ (Json.mem_of_get hx)).2
  exact ((h.assign (joined_codePoints _) hstring).erase (by decide) hw).erase (by decide) hv

/-! ## Values of keys -/

theorem get_registered : Json.get (codePoints key) (registered name identity) =
    if key = "id" then some (.str (codePoints name)) else Json.get (codePoints key) identity := by
  rw [registered, Json.get_assign]
  simp only [codePoints_inj, eq_comm (a := "id")]

theorem get_beginRotation : Json.get (codePoints key) (beginRotation drawn identity) =
    if key = "rotation_id" then some (.str (codePoints drawn.2))
    else if key = "pending_password" then some (.str (codePoints drawn.1))
    else Json.get (codePoints key) identity := by
  rw [beginRotation, Json.get_assign, Json.get_assign]
  simp only [codePoints_inj, eq_comm (a := "rotation_id"), eq_comm (a := "pending_password")]

theorem get_erase (h : erase name identity = some v) :
    Json.get (codePoints key) v = if key = name then none else Json.get (codePoints key) identity := by
  rw [erase_eq h, Json.get_filter]
  simp only [codePoints_inj, eq_comm (a := name)]

theorem get_finishRotation (h : finishRotation identity = some v) : Json.get (codePoints key) v =
    if key = "rotation_id" ∨ key = "pending_password" then none
    else if key = "password" then Json.get (codePoints "pending_password") identity
    else Json.get (codePoints key) identity := by
  obtain ⟨x, w, hx, hw, hv⟩ := finishRotation_eq h
  rw [get_erase hv, get_erase hw, Json.get_assign, hx]
  simp only [codePoints_inj, eq_comm (a := "password")]
  split_ifs <;> first | rfl | tauto

/-- It raises unless both keys are there. -/
theorem finishRotation_isSome : (finishRotation identity).isSome = true ↔
    (Json.get (codePoints "pending_password") identity).isSome = true ∧
    (Json.get (codePoints "rotation_id") identity).isSome = true := by
  have hpending : ∀ x, Json.get (codePoints "pending_password") (Json.assign (codePoints "password") x identity) =
      Json.get (codePoints "pending_password") identity := fun x => by
    rw [Json.get_assign, if_neg (by rw [codePoints_inj]; decide)]
  have hrotation : ∀ x w, erase "pending_password" (Json.assign (codePoints "password") x identity) = some w →
      Json.get (codePoints "rotation_id") w = Json.get (codePoints "rotation_id") identity := fun x w hw => by
    rw [get_erase hw, if_neg (by decide), Json.get_assign, if_neg (by rw [codePoints_inj]; decide)]
  constructor
  · intro h
    obtain ⟨v, hv⟩ := Option.isSome_iff_exists.mp h
    obtain ⟨x, w, hx, hw, hv⟩ := finishRotation_eq hv
    refine ⟨by rw [hx]; rfl, ?_⟩
    unfold erase at hv
    split at hv
    · rename_i hsome
      rwa [hrotation x w hw] at hsome
    · cases hv
  · rintro ⟨h1, h2⟩
    obtain ⟨x, hx⟩ := Option.isSome_iff_exists.mp h1
    have hw : erase "pending_password" (Json.assign (codePoints "password") x identity) = some _ :=
      if_pos (by rw [hpending]; exact h1)
    have hv : erase "rotation_id" _ = some _ := if_pos (by rw [hrotation x _ hw]; exact h2)
    rw [finishRotation, hx]
    exact Option.isSome_iff_exists.mpr ⟨_, by rw [Option.bind_eq_bind, Option.bind_some, hw]; exact hv⟩

/-! ## The vault beside the program -/

/-- The same identity, perhaps before or after its registration. -/
def Similar (identity v : Fields) : Prop :=
  ∀ key, key ≠ "id" → Json.get (codePoints key) identity = Json.get (codePoints key) v

/-- The vault has the identity of the program, or what it becomes by a step of a rotation. -/
def Behind (identity v : Fields) : Prop :=
  Similar identity v ∨ (rotating identity = false ∧ ∃ drawn, Similar (beginRotation drawn identity) v) ∨
    ∃ w, finishRotation identity = some w ∧ Similar w v

theorem Behind.refl (identity : Fields) : Behind identity identity := .inl fun _ _ => rfl

theorem behind_beginRotation (h : rotating identity = false) : Behind identity (beginRotation drawn identity) :=
  .inr (.inl ⟨h, drawn, fun _ _ => rfl⟩)

theorem behind_finishRotation (h : finishRotation identity = some v) : Behind identity v :=
  .inr (.inr ⟨v, h, fun _ _ => rfl⟩)

/-- The owner secret is never changed. -/
theorem Behind.owner (h : Behind identity v) :
    Json.get (codePoints "owner_secret") identity = Json.get (codePoints "owner_secret") v := by
  have hid : "owner_secret" ≠ "id" := by decide
  rcases h with h | ⟨-, drawn, h⟩ | ⟨w, hw, h⟩
  · exact h _ hid
  · rw [← h _ hid, get_beginRotation, if_neg (by decide), if_neg (by decide)]
  · rw [← h _ hid, get_finishRotation hw, if_neg (by decide), if_neg (by decide)]

theorem similar_registered : Similar (registered name identity) identity :=
  fun key hkey => by rw [get_registered, if_neg hkey]

theorem rotating_registered : rotating (registered name identity) = rotating identity := by
  unfold rotating
  rw [similar_registered _ (by decide)]

/-- A registration changes only the id. -/
theorem Behind.registered (h : Behind identity v) (name : String) : Behind (registered name identity) v := by
  rcases h with h | ⟨hr, drawn, h⟩ | ⟨w, hw, h⟩
  · exact .inl fun key hkey => by rw [get_registered, if_neg hkey, h key hkey]
  · refine .inr (.inl ⟨by rw [rotating_registered, hr], drawn, fun key hkey => ?_⟩)
    rw [← h key hkey, get_beginRotation, get_beginRotation, get_registered, if_neg hkey]
  · have hsome : (finishRotation (Vault.registered name identity)).isSome = true := by
      have hw := finishRotation_isSome.mp (Option.isSome_iff_exists.mpr ⟨w, hw⟩)
      rw [finishRotation_isSome, similar_registered _ (by decide), similar_registered _ (by decide)]
      exact hw
    obtain ⟨x, hx⟩ := Option.isSome_iff_exists.mp hsome
    refine .inr (.inr ⟨x, hx, fun key hkey => ?_⟩)
    rw [← h key hkey, get_finishRotation hx, get_finishRotation hw, similar_registered key hkey,
      similar_registered _ (by decide)]

end Vault

end RemoteInput
