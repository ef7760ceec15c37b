import RemoteInput.Relay.Semantics
import RemoteInput.Wire.Lemmas.Control
import RemoteInput.Wire.Theorems.Frame

/-!
# What the programs say to each other is understood

The messages of the model are those that the text and the bytes on the wire stand for, and a target has no other way to say
anything to a controller.
-/

namespace RemoteInput

variable {depth : Nat} {m : Message} {raw out : Raw} {data : List UInt8} {text : List Char} {n : Nat}

theorem clean_challenge : Clean "challenge" ∧ Clean "nonce" := by constructor <;> simp [Clean, Json.Printable]

theorem clean_epoch : Clean "activated" ∧ Clean "paused" ∧ Clean "epoch" := by
  refine ⟨?_, ?_, ?_⟩ <;> simp [Clean, Json.Printable]

theorem parse_challenge (h : n < 2 ^ 64) (hpos : 0 < depth) :
    parseControl depth (control "challenge" [("nonce", .int n)]) =
      some (codePoints "challenge", [(codePoints "type", .str (codePoints "challenge")), (codePoints "nonce", .int n)]) :=
  parse_number clean_challenge.1 clean_challenge.2 (by decide) (by decide) h hpos

theorem parse_epoch {kind : String} (hk : kind = "activated" ∨ kind = "paused") (h : n < 2 ^ 64) (hpos : 0 < depth) :
    parseControl depth (control kind [("epoch", .int n)]) =
      some (codePoints kind, [(codePoints "type", .str (codePoints kind)), (codePoints "epoch", .int n)]) := by
  rcases hk with rfl | rfl
  · exact parse_number clean_epoch.1 clean_epoch.2.2 (by decide) (by decide) h hpos
  · exact parse_number clean_epoch.2.1 clean_epoch.2.2 (by decide) (by decide) h hpos

/-- How many bytes a message takes. -/
def Raw.size : Raw → Nat
  | .text chars => encodedLength chars
  | .bytes data => data.length

theorem size_number {kind name : String} (hk : Clean kind) (hn : Clean name) (hname : name ≠ "type") (h : n < 2 ^ 64) :
    (control kind [(name, .int n)]).size ≤ kind.length + name.length + 35 := by
  rw [control, Raw.size, encodedLength_of_printable]
  · exact length_number hk hn hname h
  · exact Json.printable_dumps _ (sendable_number hname h Nat.one_pos).plain_obj

theorem fromTarget_challenge (hn : 0 < n) (h : n < 2 ^ 64) (hpos : 0 < depth) :
    fromTarget depth (control "challenge" [("nonce", .int n)]) =
      some (.forward (control "challenge" [("nonce", .int n)])) := by
  have hparse : parseControl depth _ = _ := parse_challenge h hpos
  rw [control] at hparse ⊢
  rw [fromTarget, hparse, Option.bind_some]
  simpa [get_cons_of_ne, control, forwardNonce] using ⟨hn, h⟩

theorem fromTarget_epoch {kind : String} (hk : kind = "activated" ∨ kind = "paused") (h : n < 2 ^ 64) (hpos : 0 < depth) :
    fromTarget depth (control kind [("epoch", .int n)]) = some (.forward (control kind [("epoch", .int n)])) := by
  have hparse : parseControl depth _ = _ := parse_epoch hk h hpos
  rw [control] at hparse ⊢
  rw [fromTarget, hparse, Option.bind_some]
  rcases hk with rfl | rfl <;> simpa [get_cons_of_ne, control, forwardEpoch] using h

theorem forController_challenge (h : n < 2 ^ 64) (hpos : 0 < depth) :
    forController depth (control "challenge" [("nonce", .int n)]) = some (.challenge n) := by
  have hparse : parseControl depth _ = _ := parse_challenge h hpos
  rw [control] at hparse ⊢
  rw [forController, hparse, Option.bind_some]
  simp [number, get_cons_of_ne]

theorem forController_epoch {kind : String} (hk : kind = "activated" ∨ kind = "paused") (h : n < 2 ^ 64) (hpos : 0 < depth) :
    forController depth (control kind [("epoch", .int n)]) =
      some (if kind = "activated" then .activated n else .paused n) := by
  have hparse : parseControl depth _ = _ := parse_epoch hk h hpos
  rw [control] at hparse ⊢
  rw [forController, hparse, Option.bind_some]
  rcases hk with rfl | rfl <;> simp [number, get_cons_of_ne]

/-- What the relay and the controller make of a message of the model that the relay forwards. -/
theorem forwarded (hm : Relay.outbound m = some m) (hr : m.raw = some raw) (hpos : 0 < depth) :
    fromTarget depth raw = some (.forward raw) ∧ forController depth raw = some m ∧ raw.size ≤ 64 := by
  cases m with
  | ack op epoch seq stamp queueUs injectionUs =>
      rw [Message.raw] at hr
      cases hp : Ack.pack ⟨op, epoch, seq, stamp, queueUs, injectionUs⟩ with
      | none => rw [hp] at hr; cases hr
      | some data =>
          rw [hp] at hr
          cases hr
          obtain ⟨hb, hs⟩ := Ack.spelled_pack hp
          refine ⟨?_, ?_, ?_⟩
          · rw [fromTarget, if_neg (by rw [not_or, not_not, not_not]; exact hb)]
          · rw [forController, Ack.unpack_eq hb, hs]
            rfl
          · rw [Raw.size, hb.1]
            decide
  | challenge nonce =>
      rw [Relay.outbound] at hm
      split at hm
      · rename_i hn
        cases hr
        exact ⟨fromTarget_challenge hn.1 hn.2 hpos, forController_challenge hn.2 hpos,
          (size_number clean_challenge.1 clean_challenge.2 (by decide) hn.2).trans (by decide)⟩
      · cases hm
  | activated epoch =>
      rw [Relay.outbound] at hm
      split at hm
      · rename_i he
        cases hr
        exact ⟨fromTarget_epoch (.inl rfl) he hpos, forController_epoch (.inl rfl) he hpos,
          (size_number clean_epoch.1 clean_epoch.2.2 (by decide) he).trans (by decide)⟩
      · cases hm
  | paused epoch =>
      rw [Relay.outbound] at hm
      split at hm
      · rename_i he
        cases hr
        exact ⟨fromTarget_epoch (.inr rfl) he hpos, forController_epoch (.inr rfl) he hpos,
          (size_number clean_epoch.2.1 clean_epoch.2.2 (by decide) he).trans (by decide)⟩
      · cases hm
  | frame event => cases hm
  | rotate password rotationId => cases hm
  | rotated generation => cases hm
  | peerJoined => cases hm
  | peerGone => cases hm

theorem forwards_nonce {nonce : Option Json} (h : forwardNonce nonce = some (.forward out)) :
    ∃ m, Relay.outbound m = some m ∧ m.raw = some out := by
  unfold forwardNonce at h
  split at h
  · split at h
    · rename_i hn
      cases h
      obtain ⟨k, rfl⟩ := Int.eq_ofNat_of_zero_le hn.1.le
      have hk : 0 < k ∧ k < 2 ^ 64 := ⟨by omega, by exact_mod_cast hn.2⟩
      exact ⟨.challenge k, if_pos hk, rfl⟩
    · cases h
  · cases h

theorem forwards_epoch {kind : String} {epoch : Json} (message : Nat → Message)
    (hraw : ∀ k, (message k).raw = some (control kind [("epoch", .int k)]))
    (hout : ∀ k < 2 ^ 64, Relay.outbound (message k) = some (message k))
    (h : forwardEpoch kind epoch = some (.forward out)) :
    ∃ m, Relay.outbound m = some m ∧ m.raw = some out := by
  unfold forwardEpoch at h
  split at h
  · split at h
    · rename_i he
      cases h
      obtain ⟨k, rfl⟩ := Int.eq_ofNat_of_zero_le he.1
      exact ⟨message k, hout k (by exact_mod_cast he.2), hraw k⟩
    · cases h
  · cases h

/-- Whatever a target sends, what the relay forwards stands for a message of the model. -/
theorem forwards (h : fromTarget depth raw = some (.forward out)) : ∃ m, Relay.outbound m = some m ∧ m.raw = some out := by
  cases raw with
  | bytes data =>
      rw [fromTarget] at h
      split at h
      · cases h
      · rename_i hb
        cases h
        rw [not_or, not_not, not_not] at hb
        refine ⟨(Ack.spelled data).message, rfl, ?_⟩
        have hp := Ack.pack_spelled hb
        rw [Ack.message, Message.raw, hp]
        rfl
  | text chars =>
      obtain ⟨⟨kind, fields⟩, -, h⟩ := Option.bind_eq_some_iff.mp h
      dsimp only at h
      split_ifs at h with h1 h2 h3
      · obtain ⟨password, -, h⟩ := Option.bind_eq_some_iff.mp h
        obtain ⟨rotationId, -, h⟩ := Option.map_eq_some_iff.mp h
        cases h
      · exact forwards_nonce h
      · exact forwards_epoch .activated (fun _ => rfl) (fun _ hk => if_pos hk) h
      · exact forwards_epoch .paused (fun _ => rfl) (fun _ hk => if_pos hk) h

/-- There is no data channel from a target to its controller. Whatever raw data a target sends, the relay forwards at most 64
bytes that spell an acknowledgement, a challenge or an epoch, which the controller reads as that message. -/
theorem target_says_no_more (depth : Nat) (hpos : 0 < depth) (out : Raw) :
    (∃ raw, fromTarget depth raw = some (.forward out)) ↔
      ∃ m, Relay.outbound m = some m ∧ m.raw = some out ∧ forController depth out = some m ∧ out.size ≤ 64 := by
  constructor
  · rintro ⟨raw, h⟩
    obtain ⟨m, hm, hr⟩ := forwards h
    obtain ⟨-, hread, hsize⟩ := forwarded hm hr hpos
    exact ⟨m, hm, hr, hread, hsize⟩
  · rintro ⟨m, hm, hr, -, -⟩
    exact ⟨out, (forwarded hm hr hpos).1⟩

/-- A target adds a note to a message. -/
def chatty : Raw := .text "\x7b\"type\": \"paused\", \"epoch\": 7, \"note\": \"hello\"\x7d".toList

/-- The relay forwards the message without the note, and never the empty text. -/
theorem target_says_no_more_text :
    fromTarget 1 chatty = some (.forward (control "paused" [("epoch", .int 7)])) ∧
    (∃ m, Relay.outbound m = some m ∧ m.raw = some (control "paused" [("epoch", .int 7)]) ∧
      forController 1 (control "paused" [("epoch", .int 7)]) = some m ∧
      (control "paused" [("epoch", .int 7)]).size ≤ 64) ∧
    ¬ ∃ raw, fromTarget 1 raw = some (.forward (.text [])) := by
  have hforward : fromTarget 1 chatty = some (.forward (control "paused" [("epoch", .int 7)])) := by decide +kernel
  refine ⟨hforward, (target_says_no_more 1 (by decide) _).mp ⟨chatty, hforward⟩, ?_⟩
  rw [target_says_no_more 1 (by decide)]
  rintro ⟨m, -, -, h, -⟩
  cases h

/-! ## The messages of a session -/

theorem parse_plain {kind : String} (hk : Clean kind) (hl : kind.length ≤ 30) (hpos : 0 < depth) :
    parseControl depth (control kind []) = some (codePoints kind, [(codePoints "type", .str (codePoints kind))]) := by
  have hsend : Sendable depth [] := ⟨by simp, by simp, by simp⟩
  refine hsend.parse hpos ?_
  have htype : Clean "type" := by simp [Clean, Json.Printable]
  have htypeLength : "type".length = 4 := rfl
  rw [controlFields_eq (by simp)]
  simp only [List.map_nil, Json.dumps, Json.dumpPairs, List.length_cons, List.length_append, length_dumpString htype,
    length_dumpString hk, List.length_nil, maxFrame]
  omega

theorem forTarget_plain {kind : String} (hk : Clean kind) (hl : kind.length ≤ 30) (hpos : 0 < depth) :
    forTarget depth (control kind []) =
      if kind = "peer_joined" then some .peerJoined
      else if kind = "peer_gone" then some .peerGone
      else if kind = "rotated" then some (.rotated 0)
      else none := by
  have hparse : parseControl depth _ = _ := parse_plain hk hl hpos
  rw [control] at hparse ⊢
  rw [forTarget, hparse, Option.bind_some]
  simp [number, Json.get]

theorem forTarget_rotated (h : n < 2 ^ 64) (hpos : 0 < depth) :
    forTarget depth (control "rotated" [("generation", .int n)]) = some (.rotated n) := by
  have hk : Clean "rotated" := by simp [Clean, Json.Printable]
  have hn : Clean "generation" := by simp [Clean, Json.Printable]
  have hparse : parseControl depth _ = _ := parse_number hk hn (by decide) (by decide) h hpos
  rw [control] at hparse ⊢
  rw [forTarget, hparse, Option.bind_some]
  simp [number, get_cons_of_ne]

theorem field_str {fields : Fields} {name value : String} {minimum maximum : Nat} (hv : validField value minimum maximum)
    (h : Json.get (codePoints name) fields = some (.str (codePoints value))) :
    field fields name minimum maximum = some (codePoints value) := by
  rw [field, h]
  dsimp only
  rw [length_codePoints]
  exact if_pos hv

/-- The request of a rotation, in strings that need no escapes. -/
theorem fromTarget_rotate {password rotationId : String} (hp : Clean password) (hr : Clean rotationId)
    (hpl : validField password 24 128) (hrl : validField rotationId 24 64) (hpos : 0 < depth) :
    fromTarget depth
      (control "rotate" [("password", .str (codePoints password)), ("rotation_id", .str (codePoints rotationId))]) =
      some (.rotate (codePoints password) (codePoints rotationId)) := by
  have hclean : Clean "type" ∧ Clean "rotate" ∧ Clean "password" ∧ Clean "rotation_id" := by
    refine ⟨?_, ?_, ?_, ?_⟩ <;> simp [Clean, Json.Printable]
  obtain ⟨htype, hrotate, hpassword, hrotation⟩ := hclean
  have hsend : Sendable depth [("password", .str (codePoints password)), ("rotation_id", .str (codePoints rotationId))] := by
    refine ⟨by simp, ?_, ?_⟩
    · simp only [List.mem_cons, List.not_mem_nil, or_false, forall_eq_or_imp, forall_eq]
      exact ⟨joined_codePoints _, joined_codePoints _⟩
    · simp only [List.mem_cons, List.not_mem_nil, or_false, forall_eq_or_imp, forall_eq]
      exact ⟨hpos, hpos⟩
  have hparse : parseControl depth (control "rotate" _) = _ := hsend.parse hpos (by
    have hlengths : "type".length = 4 ∧ "rotate".length = 6 ∧ "password".length = 8 ∧ "rotation_id".length = 11 := by decide
    obtain ⟨-, h1⟩ := hpl
    obtain ⟨-, h2⟩ := hrl
    rw [controlFields_eq hsend.names]
    simp only [List.map_cons, List.map_nil, Json.dumps, Json.dumpPairs, List.length_cons, List.length_append,
      length_dumpString htype,
      length_dumpString hrotate, length_dumpString hpassword, length_dumpString hrotation, length_dumpString hp,
      length_dumpString hr, List.length_nil, maxFrame]
    omega)
  rw [control] at hparse ⊢
  rw [fromTarget, hparse, Option.bind_some]
  simp only [List.map_cons, List.map_nil, if_true]
  rw [field_str hpl (by rw [get_cons_of_ne (by simp), get_cons_self]), Option.bind_some,
    field_str hrl (by rw [get_cons_of_ne (by simp), get_cons_of_ne (by simp), get_cons_self]), Option.map_some]

/-- The messages of a session are read by the program that gets them as what was meant: frames at the target, what the relay
tells the target after its registration, what the engine tells the controller, and the request of a rotation. The messages of
a handshake (`target`, `controller`, `registered`, `connected`, `error`) are not among them. -/
theorem messages_understood (depth : Nat) (hpos : 0 < depth) :
    (∀ event : Event, event.legal → ∃ raw, (Message.frame event).raw = some raw ∧
      forTarget depth raw = some (.frame event)) ∧
    (∀ m, m = .peerJoined ∨ m = .peerGone ∨ (∃ generation < 2 ^ 64, m = .rotated generation) →
      ∃ raw, m.raw = some raw ∧ forTarget depth raw = some m) ∧
    (∀ m, (∃ nonce, 0 < nonce ∧ nonce < 2 ^ 64 ∧ m = .challenge nonce) ∨
        (∃ epoch < 2 ^ 64, m = .activated epoch ∨ m = .paused epoch) ∨
        (∃ event : Event, event.legal ∧ ∃ queueUs injectionUs, m = ack event queueUs injectionUs) →
      ∃ raw, m.raw = some raw ∧ fromTarget depth raw = some (.forward raw) ∧ forController depth raw = some m) ∧
    ∀ password rotationId : String, Clean password → Clean rotationId → validField password 24 128 →
    validField rotationId 24 64 →
      ∃ raw, (Message.rotate password rotationId).raw = some raw ∧
        fromTarget depth raw = some (.rotate (codePoints password) (codePoints rotationId)) := by
  refine ⟨fun event he => ?_, ?_, ?_,
    fun password rotationId hp hr hpl hrl => ⟨_, rfl, fromTarget_rotate hp hr hpl hrl hpos⟩⟩
  · obtain ⟨data, hpack, -, hunpack⟩ := wire_bijection.1 event he
    refine ⟨.bytes data, by rw [Message.raw, hpack]; rfl, ?_⟩
    rw [forTarget, hunpack]
    rfl
  · have hclean : Clean "peer_joined" ∧ Clean "peer_gone" := by constructor <;> simp [Clean, Json.Printable]
    rintro m (rfl | rfl | ⟨generation, hg, rfl⟩)
    · exact ⟨_, rfl, forTarget_plain hclean.1 (by decide) hpos⟩
    · exact ⟨_, rfl, forTarget_plain hclean.2 (by decide) hpos⟩
    · exact ⟨_, rfl, forTarget_rotated hg hpos⟩
  · have hread : ∀ {m : Message} {raw : Raw}, m.raw = some raw → Relay.outbound m = some m →
        ∃ raw, m.raw = some raw ∧ fromTarget depth raw = some (.forward raw) ∧ forController depth raw = some m := by
      intro m raw hraw hout
      obtain ⟨hforward, hcontroller, -⟩ := forwarded hout hraw hpos
      exact ⟨raw, hraw, hforward, hcontroller⟩
    rintro m (⟨nonce, h1, h2, rfl⟩ | ⟨epoch, he, rfl | rfl⟩ | ⟨event, he, queueUs, injectionUs, rfl⟩)
    · exact hread rfl (if_pos ⟨h1, h2⟩)
    · exact hread rfl (if_pos he)
    · exact hread rfl (if_pos he)
    · obtain ⟨raw, hraw⟩ := ack_raw he queueUs injectionUs
      exact hread hraw rfl

theorem messages_understood_paused :
    ∃ raw, (Message.paused 7).raw = some raw ∧ fromTarget 1 raw = some (.forward raw) ∧
    forController 1 raw = some (.paused 7) :=
  (messages_understood 1 (by decide)).2.2.1 (.paused 7) (.inr (.inl ⟨7, by decide, .inr rfl⟩))

end RemoteInput
