import Mathlib

/-!
# A secret that is changed through a journal

A writer changes a secret that a server checks. It notes the new secret with an id in its journal, asks the server for the
change, perhaps several times, and takes the new secret over when a reply comes that does not name the change. The server
takes a request with the id of its last change for a repetition.
-/

/-- The writer's secret and its journal, what the server accepts and the id of its last change, the requests that the server
may still get to, and whether a reply is there or on its way. -/
structure Journal (V I : Type*) where
  value : V
  pending : Option (V × I)
  accepts : V → Prop
  last : Option I
  asks : V × I → Prop
  replied : Prop

namespace Journal

variable {V I : Type*} {j j' : Journal V I}

/-- One step. A change begins only when all requests and replies of the changes before it are gone. -/
inductive Step (j j' : Journal V I) : Prop where
  | quiet (hvalue : j'.value = j.value) (hpending : j'.pending = j.pending) (haccepts : ∀ v, j.accepts v → j'.accepts v)
      (hlast : j'.last = j.last) (hasks : ∀ x, j'.asks x → j.asks x ∨ j.pending = some x) (hreplied : j'.replied → j.replied)
  | begun (x : V × I) (hnone : j.pending = none) (hclear : ∀ y, ¬ j.asks y) (hnew : j.last ≠ some x.2)
      (hvalue : j'.value = j.value) (hpending : j'.pending = some x) (haccepts : ∀ v, j.accepts v → j'.accepts v)
      (hlast : j'.last = j.last) (hasks : ∀ y, j'.asks y → y = x) (hreplied : ¬ j'.replied)
  | repeated (x : V × I) (hx : j.asks x) (hold : j.last = some x.2) (hvalue : j'.value = j.value)
      (hpending : j'.pending = j.pending) (haccepts : ∀ v, j.accepts v → j'.accepts v) (hlast : j'.last = j.last)
      (hasks : ∀ y, j'.asks y → j.asks y)
  | committed (x : V × I) (hx : j.asks x) (hnew : j.last ≠ some x.2) (hvalue : j'.value = j.value)
      (hpending : j'.pending = j.pending) (haccepts : j'.accepts x.1) (hlast : j'.last = some x.2)
      (hasks : ∀ y, j'.asks y → j.asks y)
  | finished (x : V × I) (hx : j.pending = some x) (hreplied : j.replied) (hvalue : j'.value = x.1)
      (hpending : j'.pending = none) (haccepts : ∀ v, j.accepts v → j'.accepts v) (hlast : j'.last = j.last)
      (hasks : ∀ y, j'.asks y → j.asks y)

/-- Writer and server agree. Without a change the server accepts the secret, and may only get to repetitions. During a change
it gets to this change only, and accepts the old secret before it and the new one after it. -/
structure Agrees (j : Journal V I) : Prop where
  settled : j.pending = none → j.accepts j.value
  stale : j.pending = none → ∀ x, j.asks x → j.last = some x.2
  asked : ∀ x, j.pending = some x → ∀ y, j.asks y → y = x
  before : ∀ x, j.pending = some x → j.last ≠ some x.2 → j.accepts j.value
  after : ∀ x, j.pending = some x → j.last = some x.2 → j.accepts x.1
  replied : ∀ x, j.pending = some x → j.replied → j.last = some x.2

theorem Agrees.step (h : j.Agrees) (hs : Step j j') : j'.Agrees := by
  cases hs with
  | quiet hvalue hpending haccepts hlast hasks hreplied =>
      constructor
      · intro hn
        rw [hvalue]; exact haccepts _ (h.settled (hpending ▸ hn))
      · intro hn x hx
        rw [hpending] at hn
        rcases hasks x hx with hx | hx
        · rw [hlast]; exact h.stale hn x hx
        · rw [hn] at hx; cases hx
      · intro x hp y hy
        rw [hpending] at hp
        rcases hasks y hy with hy | hy
        · exact h.asked x hp y hy
        · exact Option.some.inj (hy.symm.trans hp)
      · intro x hp hne
        rw [hvalue]; exact haccepts _ (h.before x (hpending ▸ hp) (hlast ▸ hne))
      · exact fun x hp he => haccepts _ (h.after x (hpending ▸ hp) (hlast ▸ he))
      · exact fun x hp hr => hlast ▸ h.replied x (hpending ▸ hp) (hreplied hr)
  | begun x hnone hclear hnew hvalue hpending haccepts hlast hasks hreplied =>
      have hone : ∀ y, j'.pending = some y → x = y := fun y hy => Option.some.inj (hpending.symm.trans hy)
      have hsettled : j'.accepts j'.value := by rw [hvalue]; exact haccepts _ (h.settled hnone)
      constructor
      · exact fun _ => hsettled
      · intro hn; rw [hpending] at hn; cases hn
      · intro y hy z hz; rw [← hone y hy]; exact hasks z hz
      · exact fun _ _ _ => hsettled
      · intro y hy he
        rw [← hone y hy, hlast] at he
        exact absurd he hnew
      · exact fun _ _ hr => absurd hr hreplied
  | repeated x hx hold hvalue hpending haccepts hlast hasks =>
      constructor
      · intro hn
        rw [hvalue]; exact haccepts _ (h.settled (hpending ▸ hn))
      · intro hn y hy
        rw [hlast]; exact h.stale (hpending ▸ hn) y (hasks y hy)
      · exact fun y hp z hz => h.asked y (hpending ▸ hp) z (hasks z hz)
      · intro y hp hne
        rw [hvalue]; exact haccepts _ (h.before y (hpending ▸ hp) (hlast ▸ hne))
      · exact fun y hp he => haccepts _ (h.after y (hpending ▸ hp) (hlast ▸ he))
      · intro y hp _
        rw [hlast, hold, h.asked y (hpending ▸ hp) x hx]
  | committed x hx hnew hvalue hpending haccepts hlast hasks =>
      -- the request is of the change that is under way
      have hone : ∀ y, j'.pending = some y → x = y := fun y hp => h.asked y (hpending ▸ hp) x hx
      have hsome : j'.pending ≠ none := fun hn => hnew (h.stale (hpending ▸ hn) x hx)
      constructor
      · exact fun hn => absurd hn hsome
      · exact fun hn => absurd hn hsome
      · exact fun y hp z hz => h.asked y (hpending ▸ hp) z (hasks z hz)
      · intro y hp hne
        rw [← hone y hp] at hne
        exact absurd hlast hne
      · intro y hp _; rw [← hone y hp]; exact haccepts
      · intro y hp _; rw [← hone y hp]; exact hlast
  | finished x hx hreplied hvalue hpending haccepts hlast hasks =>
      have hdone : j.last = some x.2 := h.replied x hx hreplied
      have hnone : ∀ y, j'.pending ≠ some y := fun y hy => by rw [hpending] at hy; cases hy
      constructor
      · intro _
        rw [hvalue]; exact haccepts _ (h.after x hx hdone)
      · intro _ y hy
        rw [hlast, h.asked x hx y (hasks y hy)]; exact hdone
      · exact fun y hy => absurd hy (hnone y)
      · exact fun y hy => absurd hy (hnone y)
      · exact fun y hy => absurd hy (hnone y)
      · exact fun y hy => absurd hy (hnone y)

/-! ## Which secrets there are -/

variable {S : V → Prop}

/-- Every secret that the writer and the server deal with is one of `S`. -/
structure Within (S : V → Prop) (j : Journal V I) : Prop where
  value : S j.value
  pending : ∀ x, j.pending = some x → S x.1
  asks : ∀ x, j.asks x → S x.1
  accepts : ∃ v, S v ∧ j.accepts v

theorem Within.step (h : j.Within S) (hs : Step j j') (hpending : ∀ x, j'.pending = some x → S x.1) : j'.Within S := by
  obtain ⟨v, hv, haccepted⟩ := h.accepts
  cases hs with
  | quiet hvalue _ haccepts _ hasks _ =>
      exact ⟨hvalue ▸ h.value, hpending, fun x hx => (hasks x hx).elim (h.asks x) (h.pending x), v, hv, haccepts v haccepted⟩
  | begun x _ _ _ hvalue hp haccepts _ hasks _ =>
      exact ⟨hvalue ▸ h.value, hpending, fun y hy => hasks y hy ▸ hpending x hp, v, hv, haccepts v haccepted⟩
  | repeated x _ _ hvalue _ haccepts _ hasks =>
      exact ⟨hvalue ▸ h.value, hpending, fun y hy => h.asks y (hasks y hy), v, hv, haccepts v haccepted⟩
  | committed x hx _ hvalue _ haccepts _ hasks =>
      exact ⟨hvalue ▸ h.value, hpending, fun y hy => h.asks y (hasks y hy), x.1, h.asks x hx, haccepts⟩
  | finished x hx _ hvalue _ haccepts _ hasks =>
      exact ⟨hvalue ▸ h.pending x hx, hpending, fun y hy => h.asks y (hasks y hy), v, hv, haccepts v haccepted⟩

end Journal
