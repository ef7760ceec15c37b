import RemoteInput.Lib.History
import RemoteInput.Relay.Semantics

/-!
# The order of messages on a target's queue

The owner of a queue is the controller whose `peer_joined` was put last, until its `peer_gone` or a `rotated`. A queue is
orderly when every frame comes from the owner and every controller joins as a stranger.
-/

namespace RemoteInput

/-- The owner after one more entry. -/
def nextOwner (owner : Option Nat) (entry : Entry) : Option Nat :=
  match entry.message with
  | .peerJoined => entry.author
  | .peerGone | .rotated _ => none
  | _ => owner

/-- The controller that may put frames after `log`. -/
def owner (log : List Entry) : Option Nat := log.foldl nextOwner none

/-- `entry` may come after `log`. -/
def Follows (log : List Entry) (entry : Entry) : Prop :=
  match entry.message with
  | .frame _ => ∃ c, entry.author = some c ∧ owner log = some c
  | .peerJoined => ∃ c, entry.author = some c ∧ ∀ x ∈ log, x.author ≠ some c
  | _ => True

def Orderly (log : List Entry) : Prop := Lawful Follows log

@[simp] theorem owner_concat (log : List Entry) (entry : Entry) :
    owner (log ++ [entry]) = nextOwner (owner log) entry := by simp [owner]

theorem orderly_nil : Orderly [] := lawful_nil

theorem Orderly.concat {log : List Entry} {entry : Entry} (h : Orderly log) (he : Follows log entry) :
    Orderly (log ++ [entry]) := Lawful.concat h he

/-- A new owner has joined in between. -/
theorem joined_of_owner (log more : List Entry) {c : Nat} (h : owner (log ++ more) = some c)
    (hne : owner log ≠ some c) : ∃ l r, more = l ++ ⟨.peerJoined, some c⟩ :: r := by
  induction more using List.reverseRecOn with
  | nil => exact absurd (by simpa using h) hne
  | append_singleton more entry ih =>
      rw [← List.append_assoc, owner_concat] at h
      by_cases ho : owner (log ++ more) = some c
      · obtain ⟨l, r, rfl⟩ := ih ho
        exact ⟨l, r ++ [entry], by simp⟩
      · obtain ⟨message, author⟩ := entry
        unfold nextOwner at h
        cases message with
        | peerJoined => exact ⟨more, [], by simpa using h⟩
        | peerGone => simp at h
        | rotated => simp at h
        | _ => exact absurd h ho

/-- The frames of one controller come right after its `peer_joined`, and end for good with its `peer_gone` or the
`rotated` that revoked it. -/
structure Separated (log : List Entry) : Prop where
  joined : ∀ before event c after, log = before ++ ⟨.frame event, some c⟩ :: after →
    ⟨.peerJoined, some c⟩ ∈ before
  between : ∀ before e c mid e' c' after, c ≠ c' →
    log = before ++ ⟨.frame e, some c⟩ :: mid ++ ⟨.frame e', some c'⟩ :: after → ⟨.peerJoined, some c'⟩ ∈ mid
  gone : ∀ before c after event, log = before ++ ⟨.peerGone, some c⟩ :: after → ⟨.frame event, some c⟩ ∉ after
  revoked : ∀ before g c after event, log = before ++ ⟨.rotated g, some c⟩ :: after → ⟨.frame event, some c⟩ ∉ after
  owned : ∀ event author, ⟨.frame event, author⟩ ∈ log → ∃ c, author = some c

theorem Orderly.frame {log before : List Entry} {c : Nat} (h : Orderly log) (event : Event) (after : List Entry)
    (hs : log = before ++ ⟨.frame event, some c⟩ :: after) : owner before = some c := by
  obtain ⟨c', he, ho⟩ := h _ _ _ hs
  cases he; exact ho

/-- After an entry about `c` that leaves no owner, `c` puts no frame. -/
theorem Orderly.ended {log before after : List Entry} {x : Entry} {c : Nat} (h : Orderly log)
    (hs : log = before ++ x :: after) (hx : x.author = some c) (hn : ∀ o, nextOwner o x = none) (event : Event) :
    ⟨.frame event, some c⟩ ∉ after := by
  intro hmem
  obtain ⟨mid, rest, rfl⟩ := List.append_of_mem hmem
  have howner : owner (before ++ x :: mid) = some c := h.frame event rest (by simp [hs])
  rw [List.append_cons] at howner
  obtain ⟨l, r, rfl⟩ := joined_of_owner _ _ howner (by simp [hn])
  -- `c` joins although an entry about it is there
  obtain ⟨c', he, hfresh⟩ := h (before ++ x :: l) ⟨.peerJoined, some c⟩ (r ++ ⟨.frame event, some c⟩ :: rest) (by simp [hs])
  cases he
  exact hfresh x (by simp) hx

theorem Orderly.separated {log : List Entry} (h : Orderly log) : Separated log where
  joined := by
    intro before event c after hs
    obtain ⟨l, r, hl⟩ := joined_of_owner [] before (by simpa using h.frame _ _ hs) (by simp [owner])
    simp [hl]
  between := by
    intro before e c mid e' c' after hne hs
    have ho : owner (before ++ ⟨.frame e, some c⟩ :: mid) = some c' := h.frame _ _ hs
    have ho' : owner before = some c := h.frame e (mid ++ ⟨.frame e', some c'⟩ :: after) (by simp [hs])
    rw [List.append_cons] at ho
    obtain ⟨l, r, hl⟩ := joined_of_owner _ _ ho (by simpa [nextOwner, ho'] using hne)
    simp [hl]
  gone := fun _ _ _ event hs => h.ended hs rfl (fun _ => rfl) event
  revoked := fun _ _ _ _ event hs => h.ended hs rfl (fun _ => rfl) event
  owned := by
    intro event author hmem
    obtain ⟨before, after, hs⟩ := List.append_of_mem hmem
    obtain ⟨c, he, _⟩ := h _ _ _ hs
    exact ⟨c, he⟩

end RemoteInput
