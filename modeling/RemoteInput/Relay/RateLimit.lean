import RemoteInput.Lib.Runs
import RemoteInput.Relay.Semantics
import RemoteInput.Wire.Config

/-!
# The limits of the relay (`registry.py`, `relay.py`)

`RateLimit` with its buckets in the order of the dictionary, and the part of `Relay.handler` that asks the three limiters
before it calls the registry. A bucket is never empty, since every limit is positive.
-/

namespace RemoteInput

/-- The attempts that a key has made, oldest first. -/
structure Bucket where
  times : List Time
  nonempty : times ≠ []

def Bucket.last (b : Bucket) : Time := b.times.getLast b.nonempty

/-- `RateLimit`. -/
structure RateLimit where
  attempts : Nat
  positive : 0 < attempts
  seconds : Time := 60
  capacity : Nat := 10000
  buckets : List (String × Bucket) := []

namespace RateLimit

/-- The loop that evicts. Active buckets stay: varying ids must not reset an attacker's limits. -/
def evict (now : Time) (l : RateLimit) : List (String × Bucket) :=
  l.buckets.dropWhile fun entry => entry.2.last ≤ now - l.seconds

/-- `buckets.get(key, ())`. -/
def timesOf (buckets : List (String × Bucket)) (key : String) : List Time :=
  match buckets.find? fun entry => entry.1 = key with
  | some entry => entry.2.times
  | none => []

/-- `buckets[key] = bucket` and `buckets.move_to_end(key)`. -/
def store (buckets : List (String × Bucket)) (key : String) (bucket : Bucket) : List (String × Bucket) :=
  (buckets.filter fun entry => entry.1 ≠ key) ++ [(key, bucket)]

/-- `allow(key)` at clock reading `now`. -/
def allow (now : Time) (key : String) (l : RateLimit) : RateLimit × Bool :=
  let buckets := l.evict now
  if (∀ entry ∈ buckets, entry.1 ≠ key) ∧ buckets.length ≥ l.capacity then ({ l with buckets := buckets }, false)
  else
    let times := (timesOf buckets key).dropWhile fun t => t ≤ now - l.seconds
    if h : times.length < l.attempts then
      ({ l with buckets := store buckets key ⟨times ++ [now], by simp⟩ }, true)
    else
      ({ l with buckets := store buckets key ⟨times, fun hn => h (by rw [hn]; exact l.positive)⟩ }, false)

end RateLimit

/-! ## Deques that may be empty -/

/-- What `bucket[-1]` raises. -/
inductive IndexError where
  | emptyDeque
deriving DecidableEq, Repr

/-- `RateLimit` before anything is known about its fields. -/
structure PlainLimit where
  attempts : Nat
  seconds : Time := 60
  capacity : Nat := 10000
  buckets : List (String × List Time) := []
deriving DecidableEq, Repr

namespace PlainLimit

/-- The loop that evicts looks at the last attempt of the first bucket. -/
def evict (horizon : Time) : List (String × List Time) → Except IndexError (List (String × List Time))
  | [] => .ok []
  | (key, bucket) :: buckets =>
      match bucket.getLast? with
      | none => .error .emptyDeque
      | some last => if last ≤ horizon then evict horizon buckets else .ok ((key, bucket) :: buckets)

/-- `buckets.setdefault(key, deque())`. -/
def bucketOf (buckets : List (String × List Time)) (key : String) : List Time :=
  match buckets.find? fun entry => entry.1 = key with
  | some entry => entry.2
  | none => []

/-- `allow(key)` at clock reading `now`. -/
def allow (now : Time) (key : String) (l : PlainLimit) : Except IndexError (PlainLimit × Bool) := do
  let buckets ← evict (now - l.seconds) l.buckets
  if (∀ entry ∈ buckets, entry.1 ≠ key) ∧ buckets.length ≥ l.capacity then
    return ({ l with buckets := buckets }, false)
  let bucket := (bucketOf buckets key).dropWhile fun t => t ≤ now - l.seconds
  let allowed := decide (bucket.length < l.attempts)
  let bucket := if allowed then bucket ++ [now] else bucket
  return ({ l with buckets := buckets.filter (fun entry => entry.1 ≠ key) ++ [(key, bucket)] }, allowed)

/-- The calls one after another, with what each returns. -/
def run : PlainLimit → List (Time × String) → Except IndexError (PlainLimit × List Bool)
  | l, [] => .ok (l, [])
  | l, (now, key) :: calls => do
      let (l, allowed) ← l.allow now key
      let (l, answers) ← run l calls
      return (l, allowed :: answers)

/-- The calls for a key in the window that ends at `last` that returned `True`. -/
def admissions (seconds : Time) (calls : List (Time × String)) (answers : List Bool) (key : String) (last : Time) :
    List ((Time × String) × Bool) :=
  (calls.zip answers).filter fun call =>
    call.1.2 = key ∧ call.2 = true ∧ last - seconds < call.1.1 ∧ call.1.1 ≤ last

/-- The keys, other than this one, with a call in the window that ends at `last` that returned `True`. -/
def busyOthers (seconds : Time) (calls : List (Time × String)) (answers : List Bool) (key : String) (last : Time) :
    Finset String :=
  (calls.map Prod.snd).toFinset.filter fun other => other ≠ key ∧ admissions seconds calls answers other last ≠ []

/-- There is a cause to refuse the key at `now`: its own attempts, or as many other keys as there is room for. -/
def Caused (attempts : Nat) (seconds : Time) (capacity : Nat) (calls : List (Time × String)) (answers : List Bool)
    (key : String) (now : Time) : Prop :=
  attempts ≤ (admissions seconds calls answers key now).length ∨ capacity ≤ (busyOthers seconds calls answers key now).card
deriving Decidable

/-- The last attempt of a bucket no longer counts. -/
def Expired (horizon : Time) (entry : String × List Time) : Prop := ∃ last ∈ entry.2.getLast?, last ≤ horizon
deriving Decidable

/-- A key without a bucket finds every place taken, and the first bucket counts while one behind it no longer does. -/
def Clogged (l : PlainLimit) (now : Time) (key : String) : Prop :=
  (∀ entry ∈ l.buckets, entry.1 ≠ key) ∧ l.capacity ≤ l.buckets.length ∧
    (∀ entry ∈ l.buckets.head?, ¬ Expired (now - l.seconds) entry) ∧ ∃ entry ∈ l.buckets, Expired (now - l.seconds) entry
deriving Decidable

end PlainLimit

/-! ## Handshakes -/

/-- The limiters of `Relay`. `clock` is the last reading; `waiting` has the addresses of the connections whose first message
is awaited, and `logins` every call of `registry.login`, with the reading and the name that it was given. -/
structure Gate where
  connectLimit : RateLimit := { attempts := 60, positive := by decide }
  authLimit : RateLimit := { attempts := 10, positive := by decide }
  idLimit : RateLimit := { attempts := 12, positive := by decide }
  clock : Time
  waiting : List String := []
  logins : List (Time × String) := []

/-- What happens to a connection, at a reading of the clock. -/
inductive GateAction where
  | connect (now : Time) (address : String)
  | hello (now : Time) (address : String) (message : Hello)
  | lost (now : Time) (address : String)

namespace GateAction

def now : GateAction → Time
  | .connect now _ | .hello now _ _ | .lost now _ => now

end GateAction

namespace Gate

/-- A connection is accepted, or turned away. -/
def connect (now : Time) (address : String) (g : Gate) : Gate :=
  let (limit, allowed) := g.connectLimit.allow now address
  { g with connectLimit := limit, waiting := if allowed then g.waiting ++ [address] else g.waiting }

/-- The branch of the handler for a controller, up to the call of `registry.login`. The wait of `hash_call` for a slot is
left out: the comparison that `login` makes is dated by its handshake, also when it begins later. -/
def login (now : Time) (id password : String) (g : Gate) : Gate :=
  if validField id 10 32 ∧ validField password 1 128 then
    let (limit, allowed) := g.idLimit.allow now id
    { g with idLimit := limit, logins := if allowed then g.logins ++ [(now, id)] else g.logins }
  else g

/-- The handler gets the first message. -/
def hello (now : Time) (address : String) (message : Hello) (g : Gate) : Gate :=
  match message with
  | .diagnostic => g
  | .target .. | .other => { g with authLimit := (g.authLimit.allow now address).1 }
  | .controller id password =>
      let (limit, allowed) := g.authLimit.allow now address
      let g := { g with authLimit := limit }
      if allowed then g.login now id password else g

/-- One action; `none` when the clock would go back or no such connection waits. -/
def step (g : Gate) (action : GateAction) : Option Gate :=
  if action.now < g.clock then none
  else
    let g := { g with clock := action.now }
    match action with
    | .connect now address => some (g.connect now address)
    | .hello now address message =>
        if address ∈ g.waiting then some ({ g with waiting := g.waiting.erase address }.hello now address message) else none
    | .lost _ address => if address ∈ g.waiting then some { g with waiting := g.waiting.erase address } else none

/-- The state after a run that starts with empty limiters. -/
def run (start : Time) (actions : List GateAction) : Option Gate := Runs.exec step { clock := start } actions

/-- The calls of `login` in the window that ends at `last` that look up the row with this number. -/
def comparisons (g : Gate) (number : Nat) (last : Time) : List (Time × String) :=
  g.logins.filter fun login => (last - 60 < login.1 ∧ login.1 ≤ last) ∧ Registry.number login.2 = number

end Gate

end RemoteInput
