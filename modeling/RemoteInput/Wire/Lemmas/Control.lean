import RemoteInput.Wire.Control

/-!
# Control messages and acknowledgements are read back
-/

theorem CodePoint.ofChar_injective : Function.Injective CodePoint.ofChar := by
  intro c d h
  have hnat : c.toNat = d.toNat := Fin.mk.inj_iff.mp h
  exact Char.toNat_inj.mp hnat

theorem CodePoint.not_high_ofChar (c : Char) : ¬ (CodePoint.ofChar c).High := by
  rintro ⟨h1, h2⟩
  have hval : (CodePoint.ofChar c).val = c.val.toNat := rfl
  rcases c.valid with h | ⟨h, -⟩ <;> omega

namespace RemoteInput

variable {depth : Nat} {kind : String} {fields : List (String × Json)} {text : List Char} {data : List UInt8} {a : Ack}
  {name : String} {n : Nat}

/-! ## Strings -/

theorem codePoints_injective : Function.Injective codePoints := fun _ _ h =>
  String.toList_injective (CodePoint.ofChar_injective.list_map h)

@[simp] theorem codePoints_inj {s t : String} : codePoints s = codePoints t ↔ s = t := codePoints_injective.eq_iff

theorem joined_codePoints (s : String) : CodePoint.Joined (codePoints s) := by
  unfold codePoints
  induction s.toList with
  | nil => exact .nil
  | cons c cs ih =>
      cases cs with
      | nil => exact .singleton _
      | cons d cs => exact .cons_cons (fun h => CodePoint.not_high_ofChar c h.1) ih

theorem length_codePoints (s : String) : (codePoints s).length = s.length := by
  rw [codePoints, List.length_map, String.length_toList]

/-! ## Fields -/

@[simp] theorem get_cons_self {k : List CodePoint} {v : Json} {pairs : Fields} : Json.get k ((k, v) :: pairs) = some v := by
  simp [Json.get]

theorem get_cons_of_ne {k l : List CodePoint} {v : Json} {pairs : Fields} (h : l ≠ k) :
    Json.get k ((l, v) :: pairs) = Json.get k pairs := by
  simp [Json.get, h]

/-- The fields are those that were given. -/
theorem controlFields_eq (h : ("type" :: fields.map Prod.fst).Nodup) :
    controlFields kind fields =
      (codePoints "type", .str (codePoints kind)) :: fields.map fun f => (codePoints f.1, f.2) := by
  refine Json.dict_of_nodup ?_
  have hmap := h.map codePoints_injective
  rw [List.map_cons, List.map_map] at hmap ⊢
  exact hmap

theorem plainPairs_map (hv : ∀ f ∈ fields, f.2.Plain) : Json.PlainPairs (fields.map fun f => (codePoints f.1, f.2)) := by
  induction fields with
  | nil => trivial
  | cons f fields ih =>
      exact ⟨joined_codePoints _, hv f List.mem_cons_self, ih fun g hg => hv g (List.mem_cons_of_mem f hg)⟩

theorem depthPairs_map (hd : ∀ f ∈ fields, f.2.depth < depth) (hpos : 0 < depth) :
    Json.depthPairs (fields.map fun f => (codePoints f.1, f.2)) < depth := by
  induction fields with
  | nil => exact hpos
  | cons f fields ih =>
      exact max_lt (hd f List.mem_cons_self) (ih fun g hg => hd g (List.mem_cons_of_mem f hg))

/-! ## Texts -/

theorem encodedLength_of_printable (h : ∀ c ∈ text, Json.Printable c) : encodedLength text = text.length := by
  have hone : text.map Char.utf8Size = text.map fun _ => 1 := by
    refine List.map_congr_left fun c hc => ?_
    have hlt := (h c hc).2
    refine Char.utf8Size_eq_one_iff.mpr (UInt32.le_iff_toNat_le.mpr ?_)
    show c.toNat ≤ 127
    omega
  rw [encodedLength, hone]
  simp

/-- Fields whose values can be written, in brackets that are not too deep. -/
structure Sendable (depth : Nat) (fields : List (String × Json)) : Prop where
  names : ("type" :: fields.map Prod.fst).Nodup
  plain : ∀ f ∈ fields, f.2.Plain
  shallow : ∀ f ∈ fields, f.2.depth < depth

namespace Sendable

theorem plain_obj (h : Sendable depth fields) : (Json.obj (controlFields kind fields)).Plain := by
  refine ⟨?_, ?_⟩
  · rw [controlFields_eq h.names]
    have hmap := h.names.map codePoints_injective
    rw [List.map_cons, List.map_map] at hmap ⊢
    exact hmap
  · rw [controlFields_eq h.names]
    exact ⟨joined_codePoints _, joined_codePoints _, plainPairs_map h.plain⟩

theorem depth_le (h : Sendable depth fields) (hpos : 0 < depth) : (Json.obj (controlFields kind fields)).depth ≤ depth := by
  rw [controlFields_eq h.names]
  exact Nat.succ_le_of_lt (max_lt hpos (depthPairs_map h.shallow hpos))

/-- A control message that is not too long is parsed to its fields. -/
theorem parse (h : Sendable depth fields) (hpos : 0 < depth)
    (hsize : (Json.dumps (.obj (controlFields kind fields))).length ≤ maxFrame) :
    parseControl depth (control kind fields) =
      some (codePoints kind, (codePoints "type", .str (codePoints kind)) :: fields.map fun f => (codePoints f.1, f.2)) := by
  have hplain : (Json.obj (controlFields kind fields)).Plain := h.plain_obj
  rw [control, parseControl, if_neg, Json.loads_dumps hplain (h.depth_le hpos)]
  · dsimp only
    rw [controlFields_eq h.names, get_cons_self]
  · rw [encodedLength_of_printable (Json.printable_dumps _ hplain)]
    omega

end Sendable

/-! ## Lengths -/

/-- Nothing in the string is escaped. -/
def Clean (s : String) : Prop := ∀ c ∈ s.toList, Json.Printable c ∧ c ≠ '"' ∧ c ≠ '\\'

instance (s : String) : Decidable (Clean s) := inferInstanceAs (Decidable (∀ c ∈ s.toList, _))

theorem escape_ofChar {c : Char} (h : Json.Printable c ∧ c ≠ '"' ∧ c ≠ '\\') : Json.escape (CodePoint.ofChar c) = [c] := by
  obtain ⟨⟨hlow, hhigh⟩, hquote, hslash⟩ := h
  have hval : (CodePoint.ofChar c).val = c.toNat := rfl
  have hne : ∀ d : Char, c ≠ d → ∀ n : CodePoint, n.val = d.toNat → CodePoint.ofChar c ≠ n := by
    rintro d hd n hn rfl
    exact hd (Char.toNat_inj.mp (hval.symm.trans hn))
  have hctrl : ∀ n : CodePoint, n.val < 0x20 → CodePoint.ofChar c ≠ n := by
    rintro n hn rfl
    omega
  unfold Json.escape
  rw [if_neg (hne _ hquote _ rfl), if_neg (hne _ hslash _ rfl), if_neg (hctrl _ (by decide)), if_neg (hctrl _ (by decide)),
    if_neg (hctrl _ (by decide)), if_neg (hctrl _ (by decide)), if_neg (hctrl _ (by decide)),
    if_pos ⟨by omega, by omega⟩, hval, Char.ofNat_toNat]

theorem length_dumpString {s : String} (h : Clean s) : (Json.dumpString (codePoints s)).length = s.length + 2 := by
  have hbody : (codePoints s).flatMap Json.escape = s.toList := by
    rw [codePoints, List.flatMap_map]
    refine (List.flatMap_congr fun c hc => ?_).trans (List.flatMap_singleton' s.toList)
    exact escape_ofChar (h c hc)
  rw [Json.dumpString, hbody, List.length_append, List.length_cons, String.length_toList]
  rfl

theorem length_dumpInt_le (h : n < 2 ^ 64) : (Json.dumpInt n).length ≤ 20 := by
  have hdigits : (Nat.toDigits 10 n).length ≤ 20 :=
    (Nat.length_toDigits_le_iff (by decide) (by decide)).mpr (h.trans (by norm_num))
  rwa [Json.dumpInt, if_neg (by omega), List.nil_append, Int.natAbs_natCast]

/-! ## Messages with one number -/

/-- The length of the text is that of the names, of twenty digits and of the punctuation at most. -/
theorem length_number (hk : Clean kind) (hn : Clean name) (hname : name ≠ "type") (h : n < 2 ^ 64) :
    (Json.dumps (.obj (controlFields kind [(name, .int n)]))).length ≤ kind.length + name.length + 35 := by
  have htype : Clean "type" := by simp [Clean, Json.Printable]
  have hlen := length_dumpInt_le h
  rw [controlFields_eq (by simpa using hname.symm)]
  simp only [List.map_cons, List.map_nil, Json.dumps, Json.dumpPairs, List.length_cons, List.length_append,
    length_dumpString htype, length_dumpString hk, length_dumpString hn, List.length_nil]
  have htypeLength : "type".length = 4 := rfl
  omega

theorem sendable_number (hname : name ≠ "type") (h : n < 2 ^ 64) (hpos : 0 < depth) : Sendable depth [(name, .int n)] where
  names := by simpa using hname.symm
  plain := by
    rintro f hf
    cases List.mem_singleton.mp hf
    have hdigits : (Nat.toDigits 10 n).length ≤ 20 :=
      (Nat.length_toDigits_le_iff (by decide) (by decide)).mpr (h.trans (by norm_num))
    exact hdigits.trans (by decide)
  shallow := by
    rintro f hf
    cases List.mem_singleton.mp hf
    exact hpos

/-- A message with one number is parsed to its type and its number. -/
theorem parse_number (hk : Clean kind) (hn : Clean name) (hname : name ≠ "type") (hl : kind.length + name.length ≤ 30)
    (h : n < 2 ^ 64) (hpos : 0 < depth) :
    parseControl depth (control kind [(name, .int n)]) =
      some (codePoints kind, [(codePoints "type", .str (codePoints kind)), (codePoints name, .int n)]) := by
  refine (sendable_number hname h hpos).parse hpos ((length_number hk hn hname h).trans ?_)
  rw [maxFrame]
  omega

/-! ## Acknowledgements -/

theorem fields_ack (data : List UInt8) : BigEndian.fields ackWidths data =
    [data.take 1, (data.drop 1).take 1, (data.drop 2).take 8, (data.drop 10).take 8, (data.drop 18).take 8,
      (data.drop 26).take 4, (data.drop 30).take 4] := by
  simp [BigEndian.fields, ackWidths, List.drop_drop]

/-- The acknowledgement that bytes spell. -/
def Ack.spelled (data : List UInt8) : Ack where
  op := BigEndian.value ((data.drop 1).take 1)
  epoch := BigEndian.value ((data.drop 2).take 8)
  seq := BigEndian.value ((data.drop 10).take 8)
  stamp := BigEndian.value ((data.drop 18).take 8)
  queueUs := BigEndian.value ((data.drop 26).take 4)
  injectionUs := BigEndian.value ((data.drop 30).take 4)

/-- What the relay and the controller check of an acknowledgement. -/
def AckBytes (data : List UInt8) : Prop := data.length = ackSize ∧ data.head?.map UInt8.toNat = some ackCode

theorem Ack.unpack_eq (h : AckBytes data) : Ack.unpack data = some (.spelled data) := by
  rw [Ack.unpack, if_neg (by rw [not_or, not_not, not_not]; exact h), fields_ack]
  rfl

/-- What bytes spell packs to them. -/
theorem Ack.pack_spelled (h : AckBytes data) : (Ack.spelled data).pack = some data := by
  have hsize : data.length = 34 := h.1
  have hwidth : ∀ start width, start + width ≤ 34 → ((data.drop start).take width).length = width := by
    intro start width hle
    rw [List.length_take, List.length_drop]
    omega
  have hvalue : ∀ start width, start + width ≤ 34 → BigEndian.value ((data.drop start).take width) < 256 ^ width := by
    intro start width hle
    have hlt := BigEndian.value_lt ((data.drop start).take width)
    rwa [hwidth start width hle] at hlt
  have hbytes : ∀ start width, start + width ≤ 34 →
      BigEndian.bytes width (BigEndian.value ((data.drop start).take width)) = (data.drop start).take width := by
    intro start width hle
    have hb := BigEndian.bytes_value ((data.drop start).take width)
    rwa [hwidth start width hle] at hb
  have hfits : (Ack.spelled data).fits :=
    ⟨(hvalue 1 1 (by decide)).trans_le (by decide), (hvalue 2 8 (by decide)).trans_le (by decide),
      (hvalue 10 8 (by decide)).trans_le (by decide), (hvalue 18 8 (by decide)).trans_le (by decide),
      (hvalue 26 4 (by decide)).trans_le (by decide), (hvalue 30 4 (by decide)).trans_le (by decide)⟩
  have hcode : BigEndian.bytes 1 ackCode = data.take 1 := by
    have hb := hbytes 0 1 (by decide)
    rw [List.drop_zero] at hb
    rw [← hb]
    cases data with
    | nil => cases hsize
    | cons byte rest =>
        have hbyte : byte.toNat = ackCode := Option.some.inj h.2
        simp [BigEndian.value, hbyte]
  have hparts : (Ack.spelled data).parts = BigEndian.fields ackWidths data := by
    rw [fields_ack, Ack.parts]
    simp only [Ack.spelled]
    rw [hcode, hbytes 1 1 (by decide), hbytes 2 8 (by decide), hbytes 10 8 (by decide), hbytes 18 8 (by decide),
      hbytes 26 4 (by decide), hbytes 30 4 (by decide)]
  rw [Ack.pack, if_pos hfits, hparts, BigEndian.flatten_fields h.1]

/-- What is packed passes the check and spells the same numbers. -/
theorem Ack.spelled_pack (h : a.pack = some data) : AckBytes data ∧ Ack.spelled data = a := by
  unfold Ack.pack at h
  split at h
  · rename_i hfits
    cases h
    obtain ⟨h1, h2, h3, h4, h5, h6⟩ := hfits
    have hwidths : a.parts.map List.length = ackWidths := by simp [Ack.parts, ackWidths]
    have hlength : a.parts.flatten.length = ackSize := by rw [List.length_flatten, hwidths]; rfl
    have hfields : BigEndian.fields ackWidths a.parts.flatten = a.parts := by rw [← hwidths, BigEndian.fields_flatten]
    have hb : AckBytes a.parts.flatten := ⟨hlength, rfl⟩
    refine ⟨hb, ?_⟩
    have hunpack : Ack.unpack a.parts.flatten = some a := by
      have hvalue : ∀ width n, n < 256 ^ width → BigEndian.value (BigEndian.bytes width n) = n := fun _ _ =>
        BigEndian.value_bytes_of_lt
      rw [Ack.unpack, if_neg (by rw [not_or, not_not, not_not]; exact hb), hfields, Ack.parts]
      dsimp only
      rw [hvalue 1 _ (by norm_num; exact h1), hvalue 8 _ (by norm_num at h2 ⊢; exact h2),
        hvalue 8 _ (by norm_num at h3 ⊢; exact h3),
        hvalue 8 _ (by norm_num at h4 ⊢; exact h4), hvalue 4 _ (by norm_num at h5 ⊢; exact h5),
        hvalue 4 _ (by norm_num at h6 ⊢; exact h6)]
    rw [Ack.unpack_eq hb] at hunpack
    exact Option.some.inj hunpack
  · cases h

/-- Every acknowledgement that the target makes of a legal frame can be packed. -/
theorem ack_raw {event : Event} (h : event.legal) (queueUs injectionUs : ℚ) :
    ∃ raw, (ack event queueUs injectionUs).raw = some raw := by
  have hfield : ∀ us, ackField us < 2 ^ 32 := fun us => (min_le_right _ _).trans_lt (by norm_num)
  have hcode : event.op.code < 2 ^ 8 := by cases event.op <;> decide
  obtain ⟨h1, h2, h3, -, -⟩ := h
  refine ⟨_, by rw [ack, Message.raw, Ack.pack, if_pos ⟨hcode, h1, h2, h3, hfield queueUs, hfield injectionUs⟩]; rfl⟩

end RemoteInput
