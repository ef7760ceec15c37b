import RemoteInput.Wire.Frame

/-!
# The grammar of a frame
-/

namespace RemoteInput

variable {e : Event} {data : List UInt8} {op : Op}

theorem Op.code_of_ofCode {n : Nat} (h : Op.ofCode n = some op) : op.code = n := by
  unfold Op.ofCode at h
  split at h <;> cases h <;> rfl

namespace Event

theorem check_ok {e' : Event} (h : e.check = .ok e') : e' = e ∧ arguments e.op e.a e.b := by
  have he : e' = e := by
    unfold check at h
    repeat' split at h
    all_goals cases h
    rfl
  subst he
  exact ⟨rfl, check_ok_iff.mp h⟩

end Event

/-- The first argument of a frame. -/
def firstArgument (data : List UInt8) : Int := BigEndian.signed ((data.drop 33).take 4)

/-- The second argument of a frame. -/
def secondArgument (data : List UInt8) : Int := BigEndian.signed ((data.drop 37).take 4)

/-- The event that the fields of a frame spell. -/
def spelled (op : Op) (data : List UInt8) : Event where
  op := op
  epoch := BigEndian.value ((data.drop 1).take 8)
  seq := BigEndian.value ((data.drop 9).take 8)
  stamp := BigEndian.value ((data.drop 17).take 8)
  lease := BigEndian.value ((data.drop 25).take 8)
  a := firstArgument data
  b := secondArgument data

theorem fields_frame (data : List UInt8) : BigEndian.fields frameWidths data =
    [data.take 1, (data.drop 1).take 8, (data.drop 9).take 8, (data.drop 17).take 8, (data.drop 25).take 8,
      (data.drop 33).take 4, (data.drop 37).take 4] := by
  simp [BigEndian.fields, frameWidths, List.drop_drop]

/-- `unpack` on the bytes of a frame. -/
theorem unpack_eq (hlen : data.length = frameSize) : unpack data =
    match Op.ofCode (BigEndian.value (data.take 1)) with
    | none => .error s!"{BigEndian.value (data.take 1)} is not a valid Op"
    | some op => (spelled op data).check := by
  unfold unpack
  rw [if_neg (not_not.mpr hlen), fields_frame]
  rfl

theorem unpack_ok_iff : unpack data = .ok e ↔ data.length = frameSize ∧
    ∃ op, Op.ofCode (BigEndian.value (data.take 1)) = some op ∧ e = spelled op data ∧
      Event.arguments op (firstArgument data) (secondArgument data) := by
  by_cases hlen : data.length = frameSize
  · rw [unpack_eq hlen]
    cases hop : Op.ofCode (BigEndian.value (data.take 1)) with
    | none => simp
    | some op =>
        constructor
        · intro h
          obtain ⟨he, harg⟩ := Event.check_ok h
          exact ⟨hlen, op, rfl, he, harg⟩
        · rintro ⟨_, op', hop', rfl, harg⟩
          cases hop'
          exact Event.check_ok_iff.mpr harg
  · constructor
    · intro h
      unfold unpack at h
      rw [if_pos hlen] at h
      cases h
    · exact fun h => absurd h.1 hlen

/-- What the fields spell packs to them. -/
theorem pack_spelled (hlen : data.length = frameSize) (hop : Op.ofCode (BigEndian.value (data.take 1)) = some op)
    (harg : Event.arguments op (firstArgument data) (secondArgument data)) :
    (spelled op data).legal ∧ (spelled op data).pack = some data := by
  have hsize : data.length = 41 := hlen
  have hwidth : ∀ start width, start + width ≤ 41 → ((data.drop start).take width).length = width := by
    intro start width h
    rw [List.length_take, List.length_drop]
    omega
  have hvalue : ∀ start, start + 8 ≤ 41 → BigEndian.value ((data.drop start).take 8) < 2 ^ 64 := by
    intro start h
    have := BigEndian.value_lt ((data.drop start).take 8)
    rw [hwidth start 8 h] at this
    exact this.trans_le (by norm_num)
  have hlegal : (spelled op data).legal :=
    ⟨hvalue 1 (by norm_num), hvalue 9 (by norm_num), hvalue 17 (by norm_num), hvalue 25 (by norm_num), harg⟩
  refine ⟨hlegal, ?_⟩
  -- each field is the one that the event is made of
  have hbytes : ∀ start width, start + width ≤ 41 →
      BigEndian.bytes width (BigEndian.value ((data.drop start).take width)) = (data.drop start).take width := by
    intro start width h
    have := BigEndian.bytes_value ((data.drop start).take width)
    rwa [hwidth start width h] at this
  have hsigned : ∀ start width, start + width ≤ 41 →
      BigEndian.signedBytes width (BigEndian.signed ((data.drop start).take width)) = (data.drop start).take width := by
    intro start width h
    have := BigEndian.signedBytes_signed ((data.drop start).take width)
    rwa [hwidth start width h] at this
  have hcode : BigEndian.bytes 1 op.code = data.take 1 := by
    rw [Op.code_of_ofCode hop]
    exact hbytes 0 1 (by norm_num)
  have hparts : (spelled op data).parts = BigEndian.fields frameWidths data := by
    rw [fields_frame, Event.parts]
    simp only [spelled, firstArgument, secondArgument]
    rw [hcode, hbytes 1 8 (by norm_num), hbytes 9 8 (by norm_num), hbytes 17 8 (by norm_num), hbytes 25 8 (by norm_num),
      hsigned 33 4 (by norm_num), hsigned 37 4 (by norm_num)]
  obtain ⟨h1, h2, h3, h4, _⟩ := hlegal
  rw [Event.pack, if_pos ⟨h1, h2, h3, h4, harg.fits⟩, hparts, BigEndian.flatten_fields hlen]

/-- `pack` and `unpack` are inverse between the legal events and the frames of the grammar, and nothing else is accepted. -/
theorem wire_bijection :
    (∀ e : Event, e.legal → ∃ data, e.pack = some data ∧ data.length = 41 ∧ unpack data = .ok e) ∧
    (∀ data : List UInt8, (∃ e : Event, unpack data = .ok e ∧ e.legal ∧ e.pack = some data) ∨
      ∃ message, unpack data = .error message) ∧
    ∀ data : List UInt8, (∃ e, unpack data = .ok e) ↔ data.length = 41 ∧
      ∃ op, Op.ofCode (BigEndian.value (data.take 1)) = some op ∧
        Event.arguments op (firstArgument data) (secondArgument data) := by
  refine ⟨fun e he => ?_, fun data => ?_, fun data => ?_⟩
  · obtain ⟨data, hpack, hunpack⟩ := Event.survives_iff.mpr he
    exact ⟨data, hpack, (unpack_ok_iff.mp hunpack).1, hunpack⟩
  · cases h : unpack data with
    | error message => exact .inr ⟨message, rfl⟩
    | ok e =>
        obtain ⟨hlen, op, hop, rfl, harg⟩ := unpack_ok_iff.mp h
        exact .inl ⟨_, rfl, pack_spelled hlen hop harg⟩
  · constructor
    · rintro ⟨e, he⟩
      obtain ⟨hlen, op, hop, _, harg⟩ := unpack_ok_iff.mp he
      exact ⟨hlen, op, hop, harg⟩
    · rintro ⟨hlen, op, hop, harg⟩
      exact ⟨_, unpack_ok_iff.mpr ⟨hlen, op, hop, rfl, harg⟩⟩

end RemoteInput
