import RemoteInput.Engine.Lemmas.Threads
import RemoteInput.Relay.Lemmas.Outstanding
import RemoteInput.Target.Semantics

/-!
# What the handlers of the target do to a rotation
-/

namespace RemoteInput

/-- What the engine emits is routine, or says that an epoch is active. -/
theorem EngineThreads.step_emits {p p' : EngineThreads} {op : ThreadOp} (h : p.step op = some p') {m : Message}
    (hm : m ∈ messages p'.engine.out) : m.isRoutine = true ∨ ∃ epoch, m = .activated epoch := by
  refine or_iff_not_imp_left.mpr fun hr => ?_
  have hmem : m ∈ announced p'.engine.out := mem_announced.mpr ⟨mem_messages.mp hm, by simpa using hr⟩
  have hann : announced p'.engine.out = [] ∨ ∃ epoch, announced p'.engine.out = [.activated epoch] := by
    cases EngineThreads.step_cases h with
    | received _ _ _ _ _ _ _ hs => exact .inl hs.announced
    | popped _ _ _ hs => exact .inl hs.announced
    | processed _ _ _ _ _ _ _ _ _ hann => exact hann.imp id fun ⟨_, _, _, he⟩ => ⟨_, he⟩
    | other _ _ _ _ hann => exact .inl hann
  rcases hann with he | ⟨epoch, he⟩
  · rw [he] at hmem; cases hmem
  · rw [he, List.mem_singleton] at hmem
    exact ⟨epoch, hmem⟩

/-- The engine emits no requests for rotations. -/
theorem EngineThreads.step_requests {p p' : EngineThreads} {op : ThreadOp} (h : p.step op = some p') :
    ∀ m ∈ messages p'.engine.out, m.isRotate = false := by
  intro m hm
  rcases EngineThreads.step_emits h hm with hr | ⟨epoch, rfl⟩
  · cases m <;> simp [Message.isRoutine] at hr <;> rfl
  · rfl

/-- The request for the pending password. -/
def Identity.request (i : Identity) : List Message := (i.pending.map fun pending => .rotate pending.1 pending.2).toList

theorem Identity.beginRotation_pending (drawn : String × String) (i : Identity) :
    (i.beginRotation drawn).pending.isSome = true := by
  unfold Identity.beginRotation
  split
  · rfl
  · rename_i h; exact Option.isSome_iff_ne_none.mpr h

theorem Identity.beginRotation_keeps (drawn : String × String) (i : Identity) :
    (i.beginRotation drawn).ownerSecret = i.ownerSecret ∧ (i.beginRotation drawn).id = i.id ∧
      (i.beginRotation drawn).password = i.password := by
  unfold Identity.beginRotation
  split <;> exact ⟨rfl, rfl, rfl⟩

theorem Identity.finishRotation_eq {i i' : Identity} (h : i.finishRotation = some i') :
    ∃ pending, i.pending = some pending ∧ i' = { i with password := pending.1, pending := none } := by
  obtain ⟨pending, hp, rfl⟩ := Option.map_eq_some_iff.mp h
  exact ⟨pending, hp, rfl⟩

namespace Target

variable {t t' : Target} {env : Env} {drawn : String × String}

/-- The messages that wait in the outbox. -/
def waiting (t : Target) : List Message := (t.outbox.map Outbox.waiting).getD []

/-- The requests for rotations among them. -/
def requests (t : Target) : List Message := t.waiting.filter Message.isRotate

theorem emit_waiting (now : Time) (message : Message) (t : Target) :
    (t.emit now message).waiting.Sublist (t.waiting ++ [message]) := by
  unfold waiting emit
  cases t.outbox with
  | none => exact List.nil_sublist _
  | some outbox => exact outbox.put_waiting now message

theorem emit_requests (now : Time) (message : Message) (t : Target) :
    (t.emit now message).requests.Sublist (t.requests ++ [message].filter Message.isRotate) := by
  unfold requests
  rw [← List.filter_append]
  exact (emit_waiting now message t).filter _

/-- From `t` to `t'` nothing is requested and the identity stays. -/
structure Quiet (t t' : Target) : Prop where
  vault : t'.vault = t.vault
  identity : t'.identity = t.identity
  rotating : t'.rotating = t.rotating
  online : t'.outbox.isSome = t.outbox.isSome
  requests : t'.requests.Sublist t.requests

theorem Quiet.refl (t : Target) : Quiet t t := ⟨rfl, rfl, rfl, rfl, List.Sublist.refl _⟩

theorem Quiet.trans {u : Target} (h : Quiet t t') (h' : Quiet t' u) : Quiet t u :=
  ⟨h'.vault.trans h.vault, h'.identity.trans h.identity, h'.rotating.trans h.rotating, h'.online.trans h.online,
    h'.requests.trans h.requests⟩

theorem emit_quiet (now : Time) {message : Message} (hm : message.isRotate = false) (t : Target) :
    Quiet t (t.emit now message) := by
  refine ⟨rfl, rfl, rfl, by simp [emit], ?_⟩
  have h := emit_requests now message t
  rwa [List.filter_singleton, hm, cond_false, List.append_nil] at h

theorem thread_quiet {op : ThreadOp} (h : t.thread op = some t') : Quiet t t' := by
  obtain ⟨threads, hs, rfl⟩ := Option.map_eq_some_iff.mp h
  dsimp only
  have hfold : ∀ (ms : List Message) (u : Target), (∀ m ∈ ms, m.isRotate = false) →
      Quiet u (ms.foldl (fun u message => u.emit op.env.now message) u) := by
    intro ms
    induction ms with
    | nil => exact fun u _ => .refl u
    | cons m ms ih =>
        exact fun u hm => (emit_quiet _ (hm m (by simp)) u).trans (ih _ fun x hx => hm x (by simp [hx]))
  have hset : Quiet t { t with threads := threads, done := t.done ++ [(t.threads.engine.epoch, threads.engine.out)] } :=
    ⟨rfl, rfl, rfl, rfl, List.Sublist.refl _⟩
  exact hset.trans (hfold _ _ (EngineThreads.step_requests hs))

/-! ## Requests -/

/-- From `t` to `t'` the target has begun, or begun again, to change its password, and requested it. -/
structure Requests (drawn : String × String) (t t' : Target) : Prop where
  vault : t'.vault = t'.identity
  identity : t'.identity = t.identity.beginRotation drawn
  rotating : t'.rotating = true
  online : t'.outbox.isSome = t.outbox.isSome
  requests : t'.requests.Sublist (t.requests ++ Identity.request t'.identity)

theorem request_requests (now : Time) (drawn : String × String) (t : Target) : Requests drawn t (t.request now drawn) := by
  obtain ⟨pending, hp⟩ := Option.isSome_iff_exists.mp (Identity.beginRotation_pending drawn t.identity)
  have heq : t.request now drawn =
      ({ t with rotating := true }.save (t.identity.beginRotation drawn)).emit now (.rotate pending.1 pending.2) := by
    unfold request save
    dsimp only
    rw [hp]
  rw [heq]
  refine ⟨rfl, rfl, rfl, by simp [emit, save], ?_⟩
  have h :=
    emit_requests now (.rotate pending.1 pending.2) ({ t with rotating := true }.save (t.identity.beginRotation drawn))
  have hreq : Identity.request (t.identity.beginRotation drawn) = [.rotate pending.1 pending.2] := by
    rw [Identity.request, hp]; rfl
  show (emit now _ _).requests.Sublist (_ ++ Identity.request (t.identity.beginRotation drawn))
  rw [hreq]
  exact h

theorem rotate_requests (h : t.rotate env drawn = some t') : Requests drawn t t' := by
  obtain ⟨u, hu, rfl⟩ := Option.map_eq_some_iff.mp h
  have hq := thread_quiet hu
  obtain ⟨hv, hi, hr, ho, hreq⟩ := request_requests env.now drawn u
  exact ⟨hv, by rw [hi, hq.identity], hr, ho.trans hq.online, hreq.trans (hq.requests.append_right _)⟩

/-- The target has registered: it is online, and has requested its pending password. -/
theorem registered_cases {name : String} (h : t.registered env drawn name = some t') :
    t'.outbox.isSome = true ∧
      (t.rotating = false ∧ t'.rotating = false ∧ t'.identity = { t.identity with id := some name } ∧ t'.requests = [] ∧
          t'.vault = t'.identity ∨
        t.rotating = true ∧ t'.rotating = true ∧ t'.vault = t'.identity ∧
          t'.identity = ({ t.identity with id := some name } : Identity).beginRotation drawn ∧
          t'.requests.Sublist (Identity.request t'.identity)) := by
  unfold registered at h
  dsimp only at h
  obtain ⟨u, hu, h⟩ := Option.bind_eq_some_iff.mp h
  have hq := thread_quiet hu
  have hnone : u.requests = [] := List.sublist_nil.mp hq.requests
  have hrot : u.rotating = t.rotating := hq.rotating
  split at h
  · rename_i hr
    obtain ⟨hv, hi, hr', ho, hreq⟩ := rotate_requests h
    rw [hnone, List.nil_append] at hreq
    exact ⟨ho.trans hq.online, .inr ⟨hrot ▸ hr, hr', hv, by rw [hi, hq.identity]; rfl, hreq⟩⟩
  · rename_i hr
    cases h
    refine ⟨hq.online, .inl ⟨?_, ?_, hq.identity, hnone, hq.vault.trans hq.identity.symm⟩⟩
    · rw [← hrot]; simpa using hr
    · simpa using hr

/-- A message that the target takes: the reply to a rotation, or one that changes nothing. -/
theorem read_cases {entry : Entry} (h : t.read env entry = some t') :
    entry.message.isRotated = false ∧ Quiet t t' ∨
      entry.message.isRotated = true ∧ t.rotating = true ∧ t'.rotating = false ∧ t'.vault = t'.identity ∧
        t'.outbox = t.outbox ∧ t.identity.finishRotation = some t'.identity := by
  unfold Target.read at h
  split at h
  · rename_i event he
    refine .inl ⟨by rw [he]; rfl, ?_⟩
    split at h
    · cases h; exact .refl t
    · have hq := thread_quiet h
      have hpassed : Quiet t { t with passed := t.passed ++ [entry] } := ⟨rfl, rfl, rfl, rfl, List.Sublist.refl _⟩
      exact hpassed.trans hq
  · rename_i he; exact .inl ⟨by rw [he]; rfl, thread_quiet h⟩
  · rename_i he; exact .inl ⟨by rw [he]; rfl, thread_quiet h⟩
  · rename_i he
    split at h
    · rename_i hr
      obtain ⟨identity, hi, rfl⟩ := Option.map_eq_some_iff.mp h
      exact .inr ⟨by rw [he]; rfl, hr, rfl, rfl, rfl, hi⟩
    · cases h
  · cases h

end Target

end RemoteInput
