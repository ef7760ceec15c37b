import RemoteInput.Lib.Json

/-!
# What is written is read back
-/

/-! ## Strings -/

namespace CodePoint

variable {c d : CodePoint} {s : List CodePoint}

theorem units_of_lt (h : c.val < 0x10000) : c.units = [c] := if_pos h

theorem join_cons_of_not (h : ∀ d ∈ s.head?, ¬ (c.High ∧ d.Low)) : join (c :: s) = c :: join s := by
  cases s with
  | nil => rfl
  | cons d s => rw [join, dif_neg (h d rfl)]

/-- A character outside the first plane is joined from its units again. -/
theorem join_units_append (h : 0x10000 ≤ c.val) : join (c.units ++ s) = c :: join s := by
  have hlt := c.isLt
  rw [units, if_neg (by omega), List.cons_append, List.singleton_append, join, dif_pos]
  · refine congrArg (· :: join s) (Fin.ext ?_)
    show 0x10000 + (0xD800 + (c.val - 0x10000) / 0x400 - 0xD800) * 0x400 +
      (0xDC00 + (c.val - 0x10000) % 0x400 - 0xDC00) = c.val
    omega
  · refine ⟨⟨?_, ?_⟩, ?_, ?_⟩ <;> dsimp only <;> omega

/-- The first unit is not low, unless the character is. -/
theorem low_of_head_units (h : d ∈ (s.flatMap units).head?) (hd : d.Low) : ∃ c ∈ s.head?, c = d := by
  cases s with
  | nil => cases h
  | cons c s =>
      refine ⟨c, rfl, ?_⟩
      rw [List.flatMap_cons] at h
      by_cases hc : c.val < 0x10000
      · rw [units_of_lt hc] at h
        exact (Option.some.inj h)
      · rw [units, if_neg hc] at h
        cases Option.some.inj h
        obtain ⟨h1, -⟩ := hd
        have := c.isLt
        dsimp only at h1
        omega

theorem join_flatMap_units (h : Joined s) : join (s.flatMap units) = s := by
  induction s with
  | nil => rfl
  | cons c s ih =>
      rw [List.flatMap_cons]
      have ht := ih h.tail
      by_cases hc : c.val < 0x10000
      · rw [units_of_lt hc, List.singleton_append, join_cons_of_not, ht]
        rintro d hd ⟨hhigh, hlow⟩
        obtain ⟨e, he, rfl⟩ := low_of_head_units hd hlow
        cases s with
        | nil => cases he
        | cons b s =>
            cases Option.some.inj he
            exact List.isChain_cons_cons.mp h |>.1 ⟨hhigh, hlow⟩
      · rw [join_units_append (by omega), ht]

end CodePoint

namespace Json

variable {c : CodePoint} {s : List CodePoint} {text rest : List Char} {v : Json}

theorem hexValue_digitChar : ∀ n < 16, hexValue n.digitChar = some n := by decide

theorem hexUnit_digitChar {n : Nat} (h : n < 0x10000) :
    hexUnit (n / 4096 % 16).digitChar (n / 256 % 16).digitChar (n / 16 % 16).digitChar (n % 16).digitChar =
      some ⟨n, by omega⟩ := by
  have hvalue : ∀ m, hexValue (m % 16).digitChar = some (m % 16) := fun m => hexValue_digitChar _ (Nat.mod_lt _ (by decide))
  have hsum : ((n / 4096 % 16 * 16 + n / 256 % 16) * 16 + n / 16 % 16) * 16 + n % 16 = n := by omega
  simp only [hexUnit, hvalue, Option.bind_eq_bind, Option.bind_some, hsum]
  rw [dif_pos (by omega)]

theorem scanUnits_escapeUnit {n : Nat} (h : n < 0x10000) :
    scanUnits (escapeUnit n ++ rest) = (scanUnits rest).map fun r => (⟨n, by omega⟩ :: r.1, r.2) := by
  simp only [escapeUnit, List.cons_append, List.nil_append]
  rw [scanUnits]
  simp only [Char.reduceEq, if_false, if_true, hexUnit_digitChar h, Option.bind_some]

theorem scanUnits_short {e : Char} (he : shortEscape e = some c) :
    scanUnits ('\\' :: e :: rest) = (scanUnits rest).map fun r => (c :: r.1, r.2) := by
  rw [scanUnits]
  simp only [Char.reduceEq, if_false, if_true]
  · rw [he, Option.bind_some]
  · rintro a b c d text rfl
    cases he

/-- A printable character stands for itself. -/
theorem scanUnits_char {a : Char} (hq : a ≠ '"') (hb : a ≠ '\\') (hs : ¬ a.toNat < 0x20) :
    scanUnits (a :: rest) = (scanUnits rest).map fun r => (CodePoint.ofChar a :: r.1, r.2) := by
  rw [scanUnits.eq_def]
  dsimp only
  rw [if_neg hq, if_neg hb, if_neg hs]

theorem scanUnits_escape (c : CodePoint) (rest : List Char) :
    scanUnits (escape c ++ rest) = (scanUnits rest).map fun r => (c.units ++ r.1, r.2) := by
  have hshort : ∀ e n, n < 0x10000 → shortEscape e = some n →
      scanUnits (['\\', e] ++ rest) = (scanUnits rest).map fun r => (n.units ++ r.1, r.2) := by
    intro e n hn he
    rw [CodePoint.units_of_lt hn]
    exact scanUnits_short he
  unfold escape
  split_ifs with h1 h2 h3 h4 h5 h6 h7 h8
  · subst h1; exact hshort _ _ (by decide) rfl
  · subst h2; exact hshort _ _ (by decide) rfl
  · subst h3; exact hshort _ _ (by decide) rfl
  · subst h4; exact hshort _ _ (by decide) rfl
  · subst h5; exact hshort _ _ (by decide) rfl
  · subst h6; exact hshort _ _ (by decide) rfl
  · subst h7; exact hshort _ _ (by decide) rfl
  · have hnat : (Char.ofNat c.val).toNat = c.val := by
      rw [Char.toNat_ofNat, if_pos (Or.inl (by omega))]
    have hne : ∀ a : Char, c.val ≠ a.toNat → Char.ofNat c.val ≠ a := fun a ha he => ha (by rw [← he, hnat])
    rw [List.singleton_append, scanUnits_char (hne _ fun h => h1 (Fin.ext h)) (hne _ fun h => h2 (Fin.ext h)) (by omega),
      CodePoint.units_of_lt (by omega)]
    have hof : CodePoint.ofChar (Char.ofNat c.val) = c := Fin.ext hnat
    rw [hof]
    rfl
  · by_cases hlt : c.val < 0x10000
    · rw [CodePoint.units_of_lt hlt, List.flatMap_singleton, scanUnits_escapeUnit hlt]
      rfl
    · have hc := c.isLt
      rw [CodePoint.units, if_neg hlt]
      simp only [List.flatMap_cons, List.flatMap_nil, List.append_nil, List.append_assoc]
      rw [scanUnits_escapeUnit (by omega), scanUnits_escapeUnit (by omega), Option.map_map]
      rfl

theorem scanUnits_dumpString (s : List CodePoint) (rest : List Char) :
    scanUnits (s.flatMap escape ++ '"' :: rest) = some (s.flatMap CodePoint.units, rest) := by
  induction s with
  | nil =>
      rw [List.flatMap_nil, List.nil_append, scanUnits.eq_def]
      rfl
  | cons c s ih =>
      rw [List.flatMap_cons, List.append_assoc, scanUnits_escape, ih]
      rfl

theorem scanString_dumpString (h : CodePoint.Joined s) (rest : List Char) :
    scanString (s.flatMap escape ++ '"' :: rest) = some (s, rest) := by
  rw [scanString, scanUnits_dumpString, Option.map_some, CodePoint.join_flatMap_units h]

/-! ## Numbers -/

/-- The text behind a value: no number goes on there. -/
def Ends (rest : List Char) : Prop := ∀ c ∈ rest.head?, c.isDigit = false ∧ c ≠ '.' ∧ c ≠ 'e' ∧ c ≠ 'E'

theorem ends_nil : Ends [] := by rintro c ⟨⟩

theorem takeWhile_digits {digits : List Char} (hd : ∀ c ∈ digits, c.isDigit = true) (hr : Ends rest) :
    (digits ++ rest).takeWhile Char.isDigit = digits ∧ (digits ++ rest).dropWhile Char.isDigit = rest := by
  have hrest : rest.takeWhile Char.isDigit = [] ∧ rest.dropWhile Char.isDigit = rest := by
    cases rest with
    | nil => exact ⟨rfl, rfl⟩
    | cons c rest =>
        have hc := (hr c rfl).1
        exact ⟨by simp [hc], by simp [hc]⟩
  rw [List.takeWhile_append_of_pos hd, List.dropWhile_append_of_pos hd, hrest.1, hrest.2, List.append_nil]
  exact ⟨rfl, rfl⟩

/-- The digits of a number start with a zero only if there is no other. -/
theorem toDigits_head (n : Nat) : ∃ c ds, Nat.toDigits 10 n = c :: ds ∧ c.isDigit = true ∧ (c = '0' → ds = []) := by
  induction n using Nat.strong_induction_on with
  | _ n ih =>
      by_cases hn : n < 10
      · have hdigit : ∀ m < 10, m.digitChar.isDigit = true := by decide
        exact ⟨n.digitChar, [], Nat.toDigits_of_lt_base hn, hdigit n hn, fun _ => rfl⟩
      · obtain ⟨c, ds, he, hc, hz⟩ := ih (n / 10) (by omega)
        refine ⟨c, ds ++ [(n % 10).digitChar], ?_, hc, fun h0 => ?_⟩
        · rw [Nat.toDigits_of_base_le (by omega) (by omega), he, List.cons_append]
        · -- the number in front is zero then
          exfalso
          have hvalue : Nat.ofDigitChars 10 (Nat.toDigits 10 (n / 10)) 0 = n / 10 := Nat.ofDigitChars_ten_toDigits
          rw [he, hz h0, h0] at hvalue
          have : Nat.ofDigitChars 10 ['0'] 0 = 0 := rfl
          omega

theorem scanDigits_toDigits (n : Nat) (hr : Ends rest) :
    scanDigits (Nat.toDigits 10 n ++ rest) = some (Nat.toDigits 10 n, rest) := by
  obtain ⟨c, ds, he, hc, hz⟩ := toDigits_head n
  have hall : ∀ a ∈ ds, a.isDigit = true := fun a ha =>
    Nat.isDigit_of_mem_toDigits (b := 10) (n := n) (by decide) (by decide) (he ▸ List.mem_cons_of_mem _ ha)
  rw [he, List.cons_append, scanDigits]
  by_cases h0 : c = '0'
  · rw [if_pos h0, hz h0]
    rfl
  · obtain ⟨ht, hd⟩ := takeWhile_digits hall hr
    rw [if_neg h0, if_pos hc, ht, hd]

theorem scanFraction_ends (hr : Ends rest) : scanFraction rest = none := by
  cases rest with
  | nil => rfl
  | cons c rest =>
      have hc := (hr c rfl).2.1
      rw [scanFraction]
      rintro r ⟨⟩
      exact hc rfl

theorem scanExponent_ends (hr : Ends rest) : scanExponent rest = none := by
  cases rest with
  | nil => rfl
  | cons c rest =>
      obtain ⟨-, -, h1, h2⟩ := hr c rfl
      rw [scanExponent.eq_def]
      exact if_neg (not_or.mpr ⟨h1, h2⟩)

theorem scanUnsigned_toDigits (negative : Bool) (n : Nat) (hn : (Nat.toDigits 10 n).length ≤ maxDigits) (hr : Ends rest) :
    scanUnsigned negative (Nat.toDigits 10 n ++ rest) = some (.int (if negative then -(n : Int) else n), rest) := by
  rw [scanUnsigned, scanDigits_toDigits n hr, Option.bind_some]
  simp only [scanFraction_ends hr, scanExponent_ends hr, Option.getD_none, and_self, if_true]
  rw [if_neg (by omega), Nat.ofDigitChars_ten_toDigits]

theorem scanFlat_digit {c : Char} (hc : c.isDigit = true) : scanFlat (c :: text) = scanUnsigned false (c :: text) := by
  have hne : c ≠ '-' := by rintro rfl; cases hc
  have hnumber : scanNumber (c :: text) = scanUnsigned false (c :: text) := by
    rw [scanNumber]
    rintro r ⟨⟩
    exact hne rfl
  rw [← hnumber]
  unfold scanFlat
  split <;> first | rfl | (rename_i heq; cases heq; cases hc)

theorem scanFlat_minus {c : Char} (hc : c.isDigit = true) : scanFlat ('-' :: c :: text) = scanUnsigned true (c :: text) := by
  unfold scanFlat
  split <;> first | rfl | (rename_i heq; cases heq; cases hc) | (rename_i heq; cases heq)

theorem scanFlat_dumpInt {i : Int} (hi : (Nat.toDigits 10 i.natAbs).length ≤ maxDigits) (hr : Ends rest) :
    scanFlat (dumpInt i ++ rest) = some (.int i, rest) := by
  obtain ⟨c, ds, he, hc, -⟩ := toDigits_head i.natAbs
  have hscan : ∀ negative, scanUnsigned negative (c :: ds ++ rest) =
      some (.int (if negative then -(i.natAbs : Int) else i.natAbs), rest) := fun negative =>
    he ▸ scanUnsigned_toDigits negative i.natAbs hi hr
  rw [dumpInt, he]
  by_cases hneg : i < 0
  · rw [if_pos hneg]
    simp only [List.cons_append, List.nil_append]
    rw [scanFlat_minus hc, ← List.cons_append, hscan, if_pos rfl]
    congr 3
    omega
  · rw [if_neg hneg, List.nil_append, List.cons_append, scanFlat_digit hc, ← List.cons_append, hscan,
      if_neg Bool.false_ne_true]
    congr 3
    omega

/-! ## Values -/

/-- A character that a value may begin with: `skip` stops there, it closes nothing, and it is no byte order mark. -/
def Opens (c : Char) : Prop := (c ≠ ' ' ∧ c ≠ '\t' ∧ c ≠ '\n' ∧ c ≠ '\r') ∧ c ≠ ']' ∧ c ≠ '\uFEFF'

instance (c : Char) : Decidable (Opens c) := inferInstanceAs (Decidable (_ ∧ _))

theorem skip_of_ne {c : Char} (h : c ≠ ' ' ∧ c ≠ '\t' ∧ c ≠ '\n' ∧ c ≠ '\r') : skip (c :: text) = c :: text := by
  simp [skip, h]

theorem dumpInt_head (i : Int) : ∃ c t, dumpInt i = c :: t ∧ (c = '-' ∨ c.isDigit = true) := by
  obtain ⟨c, ds, he, hc, -⟩ := toDigits_head i.natAbs
  by_cases hneg : i < 0
  · exact ⟨'-', c :: ds, by rw [dumpInt, if_pos hneg, he]; rfl, .inl rfl⟩
  · exact ⟨c, ds, by rw [dumpInt, if_neg hneg, he]; rfl, .inr hc⟩

theorem dumps_head (h : Plain v) : ∃ c t, dumps v = c :: t ∧ Opens c := by
  cases v with
  | null => exact ⟨_, _, rfl, by decide⟩
  | bool b => cases b <;> exact ⟨_, _, rfl, by decide⟩
  | float literal => exact h.elim
  | str s => exact ⟨_, _, rfl, by decide⟩
  | arr vs => cases vs <;> exact ⟨_, _, rfl, by decide⟩
  | obj ps => rcases ps with _ | ⟨⟨k, v⟩, ps⟩ <;> exact ⟨_, _, rfl, by decide⟩
  | int i =>
      obtain ⟨c, t, he, hc⟩ := dumpInt_head i
      refine ⟨c, t, he, ⟨?_, ?_, ?_, ?_⟩, ?_, ?_⟩ <;> rintro rfl <;> simp at hc

theorem ends_dumpItems (vs : List Json) (rest : List Char) : Ends (dumpItems vs ++ rest) := by
  cases vs <;> rintro c ⟨⟩ <;> decide

theorem ends_dumpPairs (ps : List (List CodePoint × Json)) (rest : List Char) : Ends (dumpPairs ps ++ rest) := by
  rcases ps with _ | ⟨⟨k, v⟩, ps⟩ <;> rintro c ⟨⟩ <;> decide

theorem skip_dumps (h : Plain v) (rest : List Char) : skip (dumps v ++ rest) = dumps v ++ rest := by
  obtain ⟨c, t, he, hc⟩ := dumps_head h
  rw [he, List.cons_append, skip_of_ne hc.1]

theorem assign_of_notMem {k : List CodePoint} {d : List (List CodePoint × Json)} (h : k ∉ d.map Prod.fst) :
    assign k v d = d ++ [(k, v)] := by
  induction d with
  | nil => rfl
  | cons p d ih =>
      simp only [List.map_cons, List.mem_cons, not_or] at h
      rw [assign, if_neg (Ne.symm h.1), ih h.2, List.cons_append]

/-- The pairs of a dictionary are its pairs. -/
theorem dict_of_nodup {ps : List (List CodePoint × Json)} (h : (ps.map Prod.fst).Nodup) : dict ps = ps := by
  suffices hfold : ∀ d, ((d ++ ps).map Prod.fst).Nodup → ps.foldl (fun d p => assign p.1 p.2 d) d = d ++ ps from
    (hfold [] h).trans (List.nil_append ps)
  intro d
  induction ps generalizing d with
  | nil => intro _; exact (List.append_nil d).symm
  | cons p ps ih =>
      intro hd
      have hp : p.1 ∉ d.map Prod.fst := by
        rw [List.map_append, List.map_cons, List.nodup_append] at hd
        exact fun hm => hd.2.2 _ hm _ List.mem_cons_self rfl
      rw [List.foldl_cons, assign_of_notMem hp, ih h.of_cons (d ++ [p])]
      · rw [List.append_assoc, List.singleton_append]
      · rwa [List.append_assoc, List.singleton_append]

theorem get_assign {k l : List CodePoint} {d : List (List CodePoint × Json)} :
    get k (assign l v d) = if l = k then some v else get k d := by
  induction d with
  | nil => simp [assign, get]
  | cons p d ih =>
      unfold assign
      split_ifs with h1 h2 h2
      · simp [get, h2]
      · simp [get, h2, h1]
      · rw [if_pos h2] at ih
        subst h2
        rw [← ih]
        simp [get, h1]
      · rw [if_neg h2] at ih
        by_cases hp : p.1 = k
        · simp [get, hp]
        · simpa [get, hp] using ih

theorem get_filter {k l : List CodePoint} {d : List (List CodePoint × Json)} :
    get k (d.filter fun p => p.1 ≠ l) = if l = k then none else get k d := by
  rw [get, get, List.find?_filter]
  split_ifs with h
  · subst h
    simp
  · refine congrArg _ (congrFun (congrArg List.find? (funext fun p => ?_)) d)
    by_cases hp : p.1 = k
    · simp [hp, Ne.symm h]
    · simp [hp]

theorem mem_of_get {k : List CodePoint} {d : List (List CodePoint × Json)} (h : get k d = some v) : (k, v) ∈ d := by
  obtain ⟨p, hp, rfl⟩ := Option.map_eq_some_iff.mp h
  have hk : p.1 = k := by simpa using List.find?_some hp
  rw [← hk]
  exact List.mem_of_find?_eq_some hp

theorem mem_assign {k : List CodePoint} {d : List (List CodePoint × Json)} {p : List CodePoint × Json}
    (h : p ∈ assign k v d) :
    p = (k, v) ∨ p ∈ d := by
  induction d with
  | nil => exact .inl (List.mem_singleton.mp h)
  | cons q d ih =>
      rw [assign] at h
      split at h
      · exact (List.mem_cons.mp h).imp_right (List.mem_cons_of_mem _)
      · rcases List.mem_cons.mp h with rfl | h
        · exact .inr List.mem_cons_self
        · exact (ih h).imp_right (List.mem_cons_of_mem _)

theorem map_fst_assign {k : List CodePoint} {d : List (List CodePoint × Json)} :
    (assign k v d).map Prod.fst = if k ∈ d.map Prod.fst then d.map Prod.fst else d.map Prod.fst ++ [k] := by
  induction d with
  | nil => rfl
  | cons p d ih =>
      unfold assign
      by_cases hp : p.1 = k
      · simp [hp]
      · rw [if_neg hp, List.map_cons, ih, List.map_cons]
        by_cases hk : k ∈ d.map Prod.fst
        · rw [if_pos hk, if_pos (List.mem_cons_of_mem _ hk)]
        · have hnot : k ∉ p.1 :: d.map Prod.fst := by
            rw [List.mem_cons, not_or]
            exact ⟨Ne.symm hp, hk⟩
          rw [if_neg hk, if_neg hnot, List.cons_append]

theorem nodup_assign {k : List CodePoint} {d : List (List CodePoint × Json)} (h : (d.map Prod.fst).Nodup) :
    ((assign k v d).map Prod.fst).Nodup := by
  rw [map_fst_assign]
  split_ifs with hk
  · exact h
  · rw [List.nodup_append]
    refine ⟨h, List.nodup_singleton k, fun a ha b hb => ?_⟩
    rw [List.mem_singleton.mp hb]
    rintro rfl
    exact hk ha

theorem length_dumpItems (vs : List Json) : vs.length < (dumpItems vs).length := by
  induction vs with
  | nil => simp [dumpItems]
  | cons v vs ih => simp only [dumpItems, List.length_cons, List.length_append]; omega

theorem length_dumpPairs (ps : List (List CodePoint × Json)) : ps.length < (dumpPairs ps).length := by
  induction ps with
  | nil => simp [dumpPairs]
  | cons p ps ih =>
      obtain ⟨k, v⟩ := p
      simp only [dumpPairs, List.length_cons, List.length_append]; omega

theorem scan_of_ne {c : Char} {d : Nat} (h1 : c ≠ '[') (h2 : c ≠ '{') : scan d (c :: text) = scanFlat (c :: text) := by
  cases d with
  | zero => rfl
  | succ d =>
      rw [scan]
      · rintro _ r - ⟨⟩
        exact h1 rfl
      · rintro _ r - ⟨⟩
        exact h2 rfl

theorem behind_comma {β : Type} {close : Char} {more last : List Char → Option β} :
    behind close more last (',' :: text) = more (skip text) := by
  rw [behind, skip_of_ne (by decide)]
  exact if_pos rfl

theorem behind_close {β : Type} {close : Char} {more last : List Char → Option β}
    (h : close ≠ ' ' ∧ close ≠ '\t' ∧ close ≠ '\n' ∧ close ≠ '\r') (hc : close ≠ ',') :
    behind close more last (close :: text) = last text := by
  rw [behind, skip_of_ne h]
  exact (if_neg hc).trans (if_pos rfl)

/-- An array is read when its items are. -/
theorem scan_bracket {d : Nat} {vs : List Json} (hv : Plain v)
    (hitems : scanItems (scan d) (dumps v ++ (dumpItems vs ++ rest)).length (dumps v ++ (dumpItems vs ++ rest)) =
      some (v :: vs, rest)) :
    scan (d + 1) (dumps (.arr (v :: vs)) ++ rest) = some (.arr (v :: vs), rest) := by
  obtain ⟨c, t, he, hc⟩ := dumps_head hv
  simp only [dumps, List.cons_append, List.append_assoc]
  rw [scan, skip_dumps hv]
  rw [he, List.cons_append] at hitems ⊢
  split
  · rename_i heq
    exact absurd (List.cons.inj heq).1 hc.2.1
  · rw [hitems, Option.map_some]

/-- The text of a pair. -/
def dumpPair (k : List CodePoint) (v : Json) (rest : List Char) : List Char :=
  '"' :: (k.flatMap escape ++ '"' :: ':' :: (dumps v ++ rest))

/-- An object is read when its pairs are. -/
theorem scan_brace {d : Nat} {k : List CodePoint} {ps : List (List CodePoint × Json)}
    (hk : (((k, v) :: ps).map Prod.fst).Nodup)
    (hpairs : scanPairs (scan d) (dumpPair k v (dumpPairs ps ++ rest)).length (dumpPair k v (dumpPairs ps ++ rest)) =
      some ((k, v) :: ps, rest)) :
    scan (d + 1) (dumps (.obj ((k, v) :: ps)) ++ rest) = some (.obj ((k, v) :: ps), rest) := by
  have hstart : dumps (.obj ((k, v) :: ps)) ++ rest = '{' :: dumpPair k v (dumpPairs ps ++ rest) := by
    simp only [dumps, dumpString, dumpPair, List.cons_append, List.append_assoc, List.nil_append]
  rw [hstart, scan, dumpPair, skip_of_ne (by decide)]
  rw [dumpPair] at hpairs
  show (scanPairs (scan d) _ _).map _ = _
  rw [hpairs, Option.map_some, dict_of_nodup hk]

/-- The key and the value of a pair are read, and then what comes behind them. -/
theorem scanPairs_dumpPair {d fuel : Nat} {k : List CodePoint} (hk : CodePoint.Joined k) (hp : Plain v)
    (hv : scan d (dumps v ++ rest) = some (v, rest)) :
    scanPairs (scan d) (fuel + 1) (dumpPair k v rest) =
      behind '}' (fun rest => (scanPairs (scan d) fuel rest).map fun ps => ((k, v) :: ps.1, ps.2))
        (fun rest => some ([(k, v)], rest)) rest := by
  rw [dumpPair, scanPairs, scanString_dumpString hk, Option.bind_some, skip_of_ne (by decide)]
  show (scan d (skip (dumps v ++ rest))).bind _ = _
  rw [skip_dumps hp, hv, Option.bind_some]

mutual
theorem scan_dumps : ∀ (v : Json) (d : Nat) (rest : List Char), Plain v → v.depth ≤ d → Ends rest →
    scan d (dumps v ++ rest) = some (v, rest)
  | .null, d, rest, _, _, _ => by cases d <;> rfl
  | .bool true, d, rest, _, _, _ => by cases d <;> rfl
  | .bool false, d, rest, _, _, _ => by cases d <;> rfl
  | .int i, d, rest, hp, _, hr => by
      have hflat := scanFlat_dumpInt hp hr
      obtain ⟨c, t, he, hc⟩ := dumpInt_head i
      rw [dumps, he, List.cons_append, scan_of_ne (by rintro rfl; simp at hc) (by rintro rfl; simp at hc)]
      rwa [he, List.cons_append] at hflat
  | .float _, _, _, hp, _, _ => hp.elim
  | .str s, d, rest, hp, _, _ => by
      have hs : scanFlat (dumps (.str s) ++ rest) = some (.str s, rest) := by
        have hstring := scanString_dumpString hp rest
        simp only [dumps, dumpString, List.cons_append, List.append_assoc, List.nil_append, scanFlat, hstring,
          Option.map_some]
      cases d <;> exact hs
  | .arr [], d + 1, rest, _, _, _ => rfl
  | .arr (v :: vs), d + 1, rest, hp, hd, _ => by
      have hd' : max (depth v) (depthItems vs) ≤ d := Nat.le_of_succ_le_succ hd
      have hv := scan_dumps v d
      refine scan_bracket hp.1 ?_
      refine scanItems_dumps vs d _ v rest (fun rest hr => hv rest hp.1 (le_of_max_le_left hd') hr) hp.2
        (le_of_max_le_right hd') ?_
      rw [List.length_append, List.length_append]
      have := length_dumpItems vs
      omega
  | .obj [], d + 1, rest, _, _, _ => rfl
  | .obj ((k, v) :: ps), d + 1, rest, hp, hd, _ => by
      have hd' : max (depth v) (depthPairs ps) ≤ d := Nat.le_of_succ_le_succ hd
      have hv := scan_dumps v d
      obtain ⟨hkeys, hk, hpv, hps⟩ := hp
      refine scan_brace hkeys ?_
      refine scanPairs_dumps ps d _ k v rest (fun rest hr => hv rest hpv (le_of_max_le_left hd') hr) hk hpv hps
        (le_of_max_le_right hd') ?_
      simp only [dumpPair, List.length_cons, List.length_append]
      have := length_dumpPairs ps
      omega
  | .arr _, 0, _, _, hd, _ => absurd hd (by simp [depth])
  | .obj _, 0, _, _, hd, _ => absurd hd (by simp [depth])

theorem scanItems_dumps : ∀ (vs : List Json) (d fuel : Nat) (v : Json) (rest : List Char),
    (∀ rest, Ends rest → scan d (dumps v ++ rest) = some (v, rest)) → PlainItems vs → depthItems vs ≤ d → vs.length < fuel →
    scanItems (scan d) fuel (dumps v ++ (dumpItems vs ++ rest)) = some (v :: vs, rest)
  | [], d, fuel + 1, v, rest, hv, _, _, _ => by
      rw [scanItems, hv _ (ends_dumpItems [] rest), Option.bind_some]
      exact behind_close (by decide) (by decide)
  | w :: ws, d, fuel + 1, v, rest, hv, hp, hd, hf => by
      have hw := scan_dumps w d
      have hws := scanItems_dumps ws d fuel w rest (fun rest hr => hw rest hp.1 (le_of_max_le_left hd) hr) hp.2
        (le_of_max_le_right hd) (by simpa using hf)
      rw [scanItems, hv _ (ends_dumpItems (w :: ws) rest), Option.bind_some]
      simp only [dumpItems, List.cons_append, List.append_assoc]
      rw [behind_comma, skip_dumps hp.1, hws, Option.map_some]
  | _, _, 0, _, _, _, _, _, hf => absurd hf (Nat.not_lt_zero _)

theorem scanPairs_dumps :
    ∀ (ps : List (List CodePoint × Json)) (d fuel : Nat) (k : List CodePoint) (v : Json) (rest : List Char),
    (∀ rest, Ends rest → scan d (dumps v ++ rest) = some (v, rest)) → CodePoint.Joined k → Plain v → PlainPairs ps →
    depthPairs ps ≤ d → ps.length < fuel →
    scanPairs (scan d) fuel (dumpPair k v (dumpPairs ps ++ rest)) = some ((k, v) :: ps, rest)
  | [], d, fuel + 1, k, v, rest, hv, hk, hp, _, _, _ => by
      have hr := ends_dumpPairs [] rest
      rw [scanPairs_dumpPair hk hp (hv _ hr)]
      exact behind_close (by decide) (by decide)
  | (l, w) :: ps, d, fuel + 1, k, v, rest, hv, hk, hp, ⟨hl, hpw, hps⟩, hd, hf => by
      have hw := scan_dumps w d
      have hrest := scanPairs_dumps ps d fuel l w rest (fun rest hr => hw rest hpw (le_of_max_le_left hd) hr) hl hpw hps
        (le_of_max_le_right hd) (by simpa using hf)
      have hr := ends_dumpPairs ((l, w) :: ps) rest
      have hstart : dumpPairs ((l, w) :: ps) ++ rest = ',' :: dumpPair l w (dumpPairs ps ++ rest) := by
        simp only [dumpPairs, dumpString, dumpPair, List.cons_append, List.append_assoc, List.nil_append]
      rw [scanPairs_dumpPair hk hp (hv _ hr), hstart, behind_comma, dumpPair, skip_of_ne (by decide), ← dumpPair, hrest,
        Option.map_some]
  | _, _, 0, _, _, _, _, _, _, _, _, hf => absurd hf (Nat.not_lt_zero _)
end

/-- A value that was written is read back. -/
theorem loads_dumps {d : Nat} (hp : Plain v) (hd : v.depth ≤ d) : loads d (dumps v) = some v := by
  have hscan := scan_dumps v d [] hp hd ends_nil
  have hskip := skip_dumps hp []
  rw [List.append_nil] at hscan hskip
  obtain ⟨c, t, he, hc⟩ := dumps_head hp
  rw [loads, if_neg, hskip, hscan, Option.bind_some]
  · rfl
  · rw [he]
    exact fun hbom => hc.2.2 (Option.some.inj hbom)

/-! ## The characters of a text -/

/-- Printable ASCII. -/
def Printable (c : Char) : Prop := 0x20 ≤ c.toNat ∧ c.toNat < 0x7F

instance (c : Char) : Decidable (Printable c) := inferInstanceAs (Decidable (_ ∧ _))

theorem printable_of_all (h : text.all (fun c => decide (Printable c)) = true) : ∀ a ∈ text, Printable a := by
  simpa using h

theorem printable_digitChar : ∀ n < 16, Printable n.digitChar := by decide

theorem printable_escapeUnit (n : Nat) : ∀ c ∈ escapeUnit n, Printable c := by
  have hdigit : ∀ m, Printable (m % 16).digitChar := fun m => printable_digitChar _ (Nat.mod_lt _ (by decide))
  intro c hc
  simp only [escapeUnit, List.mem_cons, List.not_mem_nil, or_false] at hc
  rcases hc with rfl | rfl | rfl | rfl | rfl | rfl
  · decide
  · decide
  · exact hdigit _
  · exact hdigit _
  · exact hdigit _
  · exact hdigit _

theorem printable_escape (c : CodePoint) : ∀ a ∈ escape c, Printable a := by
  unfold escape
  split_ifs with h1 h2 h3 h4 h5 h6 h7 h8
  iterate 7 exact printable_of_all rfl
  · intro a ha
    rw [List.mem_singleton.mp ha, Printable, Char.toNat_ofNat, if_pos (Or.inl (by omega))]
    omega
  · intro a ha
    obtain ⟨unit, -, ha⟩ := List.mem_flatMap.mp ha
    exact printable_escapeUnit _ a ha

theorem printable_dumpString (s : List CodePoint) : ∀ a ∈ dumpString s, Printable a := by
  intro a ha
  simp only [dumpString, List.cons_append, List.mem_cons, List.mem_append, List.mem_flatMap, List.not_mem_nil,
    or_false] at ha
  rcases ha with rfl | ⟨c, -, ha⟩ | rfl
  · decide
  · exact printable_escape c a ha
  · decide

theorem printable_dumpInt (i : Int) : ∀ a ∈ dumpInt i, Printable a := by
  have hdigits : ∀ a ∈ Nat.toDigits 10 i.natAbs, Printable a := by
    intro a ha
    have hd := Nat.isDigit_of_mem_toDigits (b := 10) (by decide) (by decide) ha
    have hzero : '0'.toNat = 48 := rfl
    have hnine : '9'.toNat = 57 := rfl
    rw [Char.isDigit_iff_toNat] at hd
    exact ⟨by omega, by omega⟩
  intro a ha
  rw [dumpInt] at ha
  rcases List.mem_append.mp ha with ha | ha
  · split at ha
    · cases List.mem_singleton.mp ha
      decide
    · cases ha
  · exact hdigits a ha

mutual
/-- Nothing but printable ASCII is written. -/
theorem printable_dumps : ∀ v : Json, Plain v → ∀ a ∈ dumps v, Printable a
  | .null, _ => printable_of_all rfl
  | .bool true, _ => printable_of_all rfl
  | .bool false, _ => printable_of_all rfl
  | .int i, _ => printable_dumpInt i
  | .float _, h => h.elim
  | .str s, _ => printable_dumpString s
  | .arr [], _ => printable_of_all rfl
  | .arr (v :: vs), h => by
      have hv := printable_dumps v h.1
      have hvs := printable_dumpItems vs h.2
      intro a ha
      simp only [dumps, List.cons_append, List.mem_cons, List.mem_append] at ha
      rcases ha with rfl | ha | ha
      · decide
      · exact hv a ha
      · exact hvs a ha
  | .obj [], _ => printable_of_all rfl
  | .obj ((k, v) :: ps), h => by
      have hv := printable_dumps v h.2.2.1
      have hps := printable_dumpPairs ps h.2.2.2
      intro a ha
      simp only [dumps, List.cons_append, List.append_assoc, List.mem_cons, List.mem_append] at ha
      rcases ha with rfl | ha | rfl | ha | ha
      · decide
      · exact printable_dumpString k a ha
      · decide
      · exact hv a ha
      · exact hps a ha

theorem printable_dumpItems : ∀ vs : List Json, PlainItems vs → ∀ a ∈ dumpItems vs, Printable a
  | [], _ => printable_of_all rfl
  | v :: vs, h => by
      have hv := printable_dumps v h.1
      have hvs := printable_dumpItems vs h.2
      intro a ha
      simp only [dumpItems, List.cons_append, List.mem_cons, List.mem_append] at ha
      rcases ha with rfl | ha | ha
      · decide
      · exact hv a ha
      · exact hvs a ha

theorem printable_dumpPairs : ∀ ps : List (List CodePoint × Json), PlainPairs ps → ∀ a ∈ dumpPairs ps, Printable a
  | [], _ => printable_of_all rfl
  | (k, v) :: ps, h => by
      have hv := printable_dumps v h.2.1
      have hps := printable_dumpPairs ps h.2.2
      intro a ha
      simp only [dumpPairs, List.cons_append, List.append_assoc, List.mem_cons, List.mem_append] at ha
      rcases ha with rfl | ha | rfl | ha | ha
      · decide
      · exact printable_dumpString k a ha
      · decide
      · exact hv a ha
      · exact hps a ha
end

end Json
