import RemoteInput.Target.Lemmas.Rotation
import RemoteInput.Target.Lemmas.Share
import RemoteInput.Relay.Lemmas.Forward

/-!
# What the target program makes of the frames that it gets

Its engine gets the frames one by one. Between two of them the program runs operations of its threads and saves its
identity.
-/

namespace RemoteInput

theorem Heard.mono {e : Nat} {done done' : List (Nat × List Out)} (h : Heard e done) (hd : done <+: done') :
    Heard e done' := by
  obtain ⟨x, hx, hm⟩ := h
  exact ⟨x, hd.subset hx, hm⟩

theorem Message.isFrame_of_routine {m : Message} (h : m.isRoutine = true) : m.isFrame = false := by
  cases m <;> simp [Message.isRoutine] at h <;> rfl

namespace Target

variable {t t' u v : Target} {env : Env} {drawn : String × String} {e : Nat} {op : ThreadOp}

/-! ## One operation -/

/-- What an operation of the engine leaves. -/
structure Operates (op : ThreadOp) (t t' : Target) : Prop where
  step : t.threads.step op = some t'.threads
  done : t'.done = t.done ++ [(t.threads.engine.epoch, t'.threads.engine.out)]
  passed : t'.passed = t.passed
  waiting : t'.waiting ⊆ t.waiting ++ messages t'.threads.engine.out

theorem thread_operates (h : t.thread op = some t') : Operates op t t' := by
  obtain ⟨threads, hs, rfl⟩ := Option.map_eq_some_iff.mp h
  dsimp only
  have hfold : ∀ (ms : List Message) (u : Target), let v := ms.foldl (fun u message => u.emit op.env.now message) u
      v.threads = u.threads ∧ v.done = u.done ∧ v.passed = u.passed ∧ v.waiting ⊆ u.waiting ++ ms := by
    intro ms
    induction ms with
    | nil => exact fun u => ⟨rfl, rfl, rfl, by simp⟩
    | cons m ms ih =>
        intro u
        obtain ⟨h1, h2, h3, h4⟩ := ih (u.emit op.env.now m)
        refine ⟨h1, h2, h3, fun x hx => ?_⟩
        rcases List.mem_append.mp (h4 hx) with hx | hx
        · have hx := (emit_waiting op.env.now m u).subset hx
          simp only [List.mem_append, List.mem_cons] at hx ⊢
          tauto
        · simp [hx]
  obtain ⟨h1, h2, h3, h4⟩ := hfold (messages threads.engine.out)
    { t with threads := threads, done := t.done ++ [(t.threads.engine.epoch, threads.engine.out)] }
  refine ⟨by rw [h1]; exact hs, by rw [h2, h1], h3, ?_⟩
  rw [h1]
  exact h4

/-! ## What the handlers do -/

/-- From `t` to `t'` the threads go on without a new frame, and the program saves and asks. -/
inductive Works (t : Target) : Target → Prop where
  | refl : Works t t
  | thread {u v : Target} {op : ThreadOp} (h : Works t u) (hop : ∀ env event, op ≠ .receive env event)
      (hs : Operates op u v) : Works t v
  | save {u v : Target} (h : Works t u) (hthreads : v.threads = u.threads) (hdone : v.done = u.done)
      (hpassed : v.passed = u.passed) (hwaiting : ∀ m ∈ v.waiting, m ∈ u.waiting ∨ m.isRotate = true) : Works t v

theorem Works.trans (h : Works t u) (h' : Works u v) : Works t v := by
  induction h' with
  | refl => exact h
  | thread _ hop hs ih => exact .thread ih hop hs
  | save _ h1 h2 h3 h4 ih => exact .save ih h1 h2 h3 h4

theorem Works.done (h : Works t t') : t.done <+: t'.done := by
  induction h with
  | refl => exact List.prefix_refl _
  | thread _ _ hs ih => rw [hs.done]; exact ih.trans (List.prefix_append _ _)
  | save _ _ hd _ _ ih => rw [hd]; exact ih

theorem Works.passed (h : Works t t') : t'.passed = t.passed := by
  induction h with
  | refl => rfl
  | thread _ _ hs ih => exact hs.passed.trans ih
  | save _ _ _ hp _ ih => exact hp.trans ih

theorem thread_works (hop : ∀ env event, op ≠ .receive env event) (h : t.thread op = some t') : Works t t' :=
  .thread .refl hop (thread_operates h)

theorem rotateOffline_works (drawn : String × String) (t : Target) : Works t (t.rotateOffline drawn) :=
  .save .refl rfl rfl rfl fun _ hm => .inl hm

theorem request_works (now : Time) (drawn : String × String) (t : Target) : Works t (t.request now drawn) := by
  unfold request
  dsimp only
  split
  · rename_i password rotationId _
    refine .save .refl rfl rfl rfl fun m hm => ?_
    have hmem := (emit_waiting now (.rotate password rotationId)
      (({ t with rotating := true } : Target).save (t.identity.beginRotation drawn))).subset hm
    rcases List.mem_append.mp hmem with hmem | hmem
    · exact .inl hmem
    · rw [List.mem_singleton.mp hmem]; exact .inr rfl
  · exact .save .refl rfl rfl rfl fun _ hm => .inl hm

theorem rotate_works (h : t.rotate env drawn = some t') : Works t t' := by
  obtain ⟨u, hu, rfl⟩ := Option.map_eq_some_iff.mp h
  exact (thread_works (by simp) hu).trans (request_works env.now drawn u)

theorem registered_works {name : String} (h : t.registered env drawn name = some t') : Works t t' := by
  unfold registered at h
  dsimp only at h
  obtain ⟨u, hu, h⟩ := Option.bind_eq_some_iff.mp h
  have hopened : Works t u := by
    have hthread := thread_works (by simp) hu
    refine Works.trans ?_ hthread
    refine .save .refl rfl rfl rfl fun m hm => ?_
    cases hm
  split at h
  · exact hopened.trans (rotate_works h)
  · cases h; exact hopened

theorem disconnect_works (h : t.disconnect env = some t') : Works t t' := by
  obtain ⟨u, hu, rfl⟩ := Option.map_eq_some_iff.mp h
  refine (thread_works (by simp) hu).trans (.save .refl rfl rfl rfl fun m hm => ?_)
  cases hm

/-- The target passes a frame to its engine while no rotation is under way. -/
theorem read_works {entry : Entry} (h : t.read env entry = some t') :
    (∃ event, entry.message = .frame event ∧ t.rotating = false ∧
      Operates (.receive env event) { t with passed := t.passed ++ [entry] } t') ∨
    ((entry.message.isFrame = true → t.rotating = true) ∧ Works t t') := by
  unfold Target.read at h
  split at h
  · rename_i event he
    split at h
    · rename_i hr
      cases h
      exact .inr ⟨fun _ => hr, .refl⟩
    · rename_i hr
      exact .inl ⟨event, he, by simpa using hr, thread_operates h⟩
  · rename_i he
    exact .inr ⟨by rw [he]; simp [Message.isFrame], thread_works (by simp) h⟩
  · rename_i he
    exact .inr ⟨by rw [he]; simp [Message.isFrame], thread_works (by simp) h⟩
  · rename_i g he
    refine .inr ⟨by rw [he]; simp [Message.isFrame], ?_⟩
    split at h
    · obtain ⟨identity, -, rfl⟩ := Option.map_eq_some_iff.mp h
      exact .save .refl rfl rfl rfl fun _ hm => .inl hm
    · cases h
  · cases h

/-! ## What the target says -/

/-- The target sends no frames, and says that an epoch is active only when it is. -/
structure Speaks (t : Target) : Prop where
  plain : ∀ m ∈ t.waiting, m.isFrame = false
  heard : ∀ e, .activated e ∈ t.waiting → Heard e t.done

theorem Speaks.offline (h : t.outbox = none) : t.Speaks := by
  have hnone : t.waiting = [] := by rw [waiting, h]; rfl
  exact ⟨by simp [hnone], by simp [hnone]⟩

theorem Speaks.operates (h : t.Speaks) (hs : Operates op t t') : t'.Speaks := by
  refine ⟨fun m hm => ?_, fun e he => ?_⟩
  · rcases List.mem_append.mp (hs.waiting hm) with hm | hm
    · exact h.plain m hm
    · rcases EngineThreads.step_emits hs.step hm with hr | ⟨epoch, rfl⟩
      · exact Message.isFrame_of_routine hr
      · rfl
  · rw [hs.done, heard_concat]
    exact (List.mem_append.mp (hs.waiting he)).imp (h.heard e) mem_messages.mp

theorem Speaks.works (h : t.Speaks) (hw : Works t t') : t'.Speaks := by
  induction hw with
  | refl => exact h
  | thread _ _ hs ih => exact ih.operates hs
  | save _ _ hd _ hwaiting ih =>
      refine ⟨fun m hm => ?_, fun e he => ?_⟩
      · rcases hwaiting m hm with hm | hm
        · exact ih.plain m hm
        · cases m <;> simp [Message.isRotate] at hm; rfl
      · rw [hd]
        rcases hwaiting _ he with he | he
        · exact ih.heard e he
        · cases he

/-! ## What the engine gets of one epoch -/

/-- The frames of epoch `e` that the engine got. -/
def got (e : Nat) (t : Target) : List Event := ofEpoch e (eventsOf t.passed)

/-- The engine has its share of the frames that came. -/
def Shares (e : Nat) (t : Target) : Prop := t.threads.Share e (t.got e) t.done

theorem Shares.start (he : e ≠ 0) (vault : Identity) : Shares e (Target.start vault) := EngineThreads.Share.start he

theorem Shares.restart (h : t.Shares e) (he : e ≠ 0) : t.restart.Shares e := EngineThreads.Share.restart h he

theorem Shares.works (h : t.Shares e) (he : e ≠ 0) (hp : Proper (t.got e) (Heard e t.done)) (hw : Works t t') :
    t'.Shares e := by
  induction hw with
  | refl => exact h
  | @thread u v op hw hop hs ih =>
      have hgot : v.got e = t.got e := by rw [got, hs.passed, hw.passed, got]
      have hgot' : u.got e = t.got e := by rw [got, hw.passed, got]
      have hproper : Proper (u.got e ++ EngineThreads.brings e op) (Heard e u.done) := by
        rw [EngineThreads.brings_other hop, List.append_nil, hgot']
        exact ⟨hp.single, hp.sorted, fun hn => (hp.told hn).mono hw.done⟩
      have hstep := EngineThreads.Share.step ih he hproper hs.step
      rw [EngineThreads.brings_other hop, List.append_nil, ← hs.done, hgot', ← hgot] at hstep
      exact hstep
  | save _ hthreads hdone hpassed _ ih =>
      unfold Shares got at ih ⊢
      rw [hthreads, hdone, hpassed]
      exact ih

/-- The engine gets a frame. -/
theorem Shares.receives {entry : Entry} {event : Event} (h : t.Shares e) (he : e ≠ 0) (hm : entry.message = .frame event)
    (hs : Operates (.receive env event) { t with passed := t.passed ++ [entry] } t')
    (hp : Proper (t'.got e) (Heard e t.done)) : t'.Shares e := by
  have hgot : t'.got e = t.got e ++ ofEpoch e [event] := by
    have hevent : eventsOf [entry] = [event] := by simp [eventsOf, framesOf, hm]
    rw [got, hs.passed, eventsOf_append, ofEpoch_append, hevent, got]
  rw [hgot] at hp
  have hstep :=
    EngineThreads.Share.step h he
      (show Proper (t.got e ++ EngineThreads.brings e (.receive env event)) _ from hp) hs.step
  unfold Shares
  rw [hgot, hs.done]
  exact hstep

end Target

end RemoteInput
