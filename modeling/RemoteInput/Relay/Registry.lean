import Mathlib

/-!
# The relay's database (`registry.py`)

Each definition is one transaction, so that calls of several threads interleave between transactions. The two hash
functions are parameters.
-/

namespace RemoteInput

/-- `digest` and `password_hash`. -/
structure Crypto where
  digest : String → String
  passwordHash : String → String → String

/-- `field(obj, name, minimum, maximum)`; a missing field is the empty string. -/
def validField (value : String) (minimum maximum : Nat) : Prop := minimum ≤ value.length ∧ value.length ≤ maximum

instance (value : String) (minimum maximum : Nat) : Decidable (validField value minimum maximum) :=
  inferInstanceAs (Decidable (_ ∧ _))

/-- One row of the table `targets`. -/
structure Row where
  number : Nat
  ownerHash : String
  salt : String
  passwordHash : String
  generation : Nat := 1
  rotationId : Option String := none
  deriving DecidableEq, Repr

/-- The table and the last number that `AUTOINCREMENT` has given out. -/
structure Registry where
  rows : List Row := []
  last : Nat := 0
  deriving DecidableEq, Repr

namespace Registry

/-- `f"TARGET-{number:03d}"`. -/
def name (number : Nat) : String :=
  let digits := toString number
  "TARGET-" ++ String.ofList (List.replicate (3 - digits.length) '0') ++ digits

/-- `int(tail)` for decimal digits. -/
def digitsValue (tail : List Char) : Nat := tail.foldl (fun n c => 10 * n + (c.toNat - 48)) 0

/-- `number(name)`: -1 when the name is not of a target. -/
def number (name : String) : Int :=
  if "TARGET-".toList.isPrefixOf name.toList then
    let tail := name.toList.drop 7
    if tail ≠ [] ∧ tail.all Char.isDigit ∧ tail.length ≤ 12 then (digitsValue tail : Int) else -1
  else -1

/-- `SELECT ... WHERE number=?`. -/
def byNumber (r : Registry) (number : Int) : Option Row := r.rows.find? (fun row => (row.number : Int) = number)

/-- `SELECT ... WHERE owner_hash=?`. -/
def byOwner (r : Registry) (ownerHash : String) : Option Row := r.rows.find? (fun row => row.ownerHash = ownerHash)

/-- `UPDATE targets SET salt=?,password_hash=?,generation=?,rotation_id=? WHERE number=?`. -/
def update (r : Registry) (number : Int) (salt passwordHash : String) (generation : Nat) (rotationId : String) :
    Registry :=
  let set (row : Row) : Row :=
    if (row.number : Int) = number then
      { row with salt := salt, passwordHash := passwordHash, generation := generation, rotationId := some rotationId }
    else row
  { r with rows := r.rows.map set }

variable (crypto : Crypto)

/-- The first transaction of `register`. -/
def registered (r : Registry) (owner : String) : Option (String × Nat) :=
  (r.byOwner (crypto.digest owner)).map (fun row => (name row.number, row.generation))

/-- The second transaction of `register`; the unique index resolves simultaneous first registration. -/
def insert (r : Registry) (owner password salt : String) : Registry × String × Nat :=
  match r.registered crypto owner with
  | some found => (r, found)
  | none =>
      let row : Row :=
        { number := r.last + 1, ownerHash := crypto.digest owner, salt := salt,
          passwordHash := crypto.passwordHash password salt }
      ({ rows := r.rows ++ [row], last := r.last + 1 }, name (r.last + 1), 1)

/-- `owner(name, secret)`. -/
def owner (r : Registry) (name secret : String) : Option Nat :=
  match r.byNumber (number name) with
  | some row => if row.ownerHash = crypto.digest secret then some row.generation else none
  | none => none

/-- `login(name, password)`. -/
def login (r : Registry) (name password : String) : Option Nat :=
  match r.byNumber (number name) with
  | some row => if crypto.passwordHash password row.salt = row.passwordHash then some row.generation else none
  | none => none

/-- `generation(name)`. -/
def generation (r : Registry) (name : String) : Option Nat := (r.byNumber (number name)).map Row.generation

/-- The transaction of `rotate(name, owner, password, rotation_id)`; `none` when it raises. -/
def rotate (r : Registry) (name owner password rotationId salt : String) : Option (Registry × Nat) :=
  match r.byNumber (number name) with
  | none => none
  | some row =>
      if row.ownerHash ≠ crypto.digest owner then none
      else if row.rotationId = some rotationId then some (r, row.generation)
      else
        some (r.update (number name) salt (crypto.passwordHash password salt) (row.generation + 1) rotationId,
          row.generation + 1)

end Registry

end RemoteInput
