import RemoteInput.Lib.Disk
import RemoteInput.Lib.Runs
import RemoteInput.Wire.Control

/-!
# The target's identity on a Windows computer (`vault.py`, `instance.py`)

Processes that are started and killed at any moment, the mutex that lets one of them in, and the file of the vault. A step is
one call of the operating system, which may fail. A process that ends, in whatever way, loses its handles.
-/

namespace RemoteInput

/-! ## The identity as a dictionary -/

namespace Vault

/-- What `target_identity` draws. -/
def newIdentity (owner password : String) : Fields :=
  [(codePoints "owner_secret", .str (codePoints owner)), (codePoints "password", .str (codePoints password))]

/-- `self.identity["id"] = name`. -/
def registered (name : String) (identity : Fields) : Fields :=
  Json.assign (codePoints "id") (.str (codePoints name)) identity

/-- `"pending_password" in identity`. -/
def rotating (identity : Fields) : Bool := (Json.get (codePoints "pending_password") identity).isSome

/-- The identity that `begin_rotation` saves. -/
def beginRotation (drawn : String × String) (identity : Fields) : Fields :=
  Json.assign (codePoints "rotation_id") (.str (codePoints drawn.2))
    (Json.assign (codePoints "pending_password") (.str (codePoints drawn.1)) identity)

/-- `del identity[key]`; `none` is the `KeyError`. -/
def erase (key : String) (identity : Fields) : Option Fields :=
  if (Json.get (codePoints key) identity).isSome then some (identity.filter fun p => p.1 ≠ codePoints key) else none

/-- The identity that `finish_rotation` saves. -/
def finishRotation (identity : Fields) : Option Fields := do
  let pending ← Json.get (codePoints "pending_password") identity
  let identity ← erase "pending_password" (Json.assign (codePoints "password") pending identity)
  erase "rotation_id" identity

/-! ## The file -/

/-- `json.dumps(value, separators=(",", ":")).encode()`. -/
def encode (identity : Fields) : List UInt8 := (Json.dumps (.obj identity)).map fun c => UInt8.ofNat c.toNat

/-- `json.loads(raw)` of bytes that are ASCII, as all that the vault writes. -/
def decode (depth : Nat) (raw : List UInt8) : Option Json := Json.loads depth (raw.map fun b => Char.ofNat b.toNat)

/-- `DPAPI.path`. -/
def path (account : String) : String := account ++ ".bin"

/-- The name of a file that is written before it replaces the other. -/
def temporary (account token : String) : String := account ++ "." ++ token ++ ".tmp"

/-- `Vault.load()`; `none` when it raises. The code returns JSON of any kind. Here JSON that is no object counts as raising,
which is not reached: the vault saves objects only. -/
def load (unprotect : List UInt8 → Option (List UInt8)) (depth : Nat) (account : String) (disk : Disk UInt8) :
    Option (Option Fields) :=
  match disk.read (path account) with
  | none => some none
  | some encrypted =>
      (unprotect encrypted).bind fun raw =>
        if raw = [] then some none
        else match decode depth raw with
          | some (.obj identity) => some (some identity)
          | _ => none

end Vault

/-! ## Saving -/

/-- The next call of `DPAPI.write`. -/
inductive WritePoint where
  | protecting
  | directory (encrypted : List UInt8)
  | opening (encrypted : List UInt8)
  | writing (inode : Nat) (rest : List UInt8)
  | syncing (inode : Nat)
  | replacing (inode : Nat)
  | unlinking (replaced : Bool)
  deriving DecidableEq

/-- `save(value)` in progress. `token` is what `secrets.token_hex` draws. -/
structure Save where
  value : Fields
  token : String
  point : WritePoint := .protecting

/-- Windows, as far as the file of a vault goes. -/
structure Windows where
  account : String
  depth : Nat
  protect : Nat → List UInt8 → List UInt8
  unprotect : List UInt8 → Option (List UInt8)

namespace Save

variable (windows : Windows)

/-- One call of the operating system. When it fails, a write may have done a part of its work. The second component is the
save as it goes on, or whether `save` has returned. -/
def step (ok : Bool) (count salt : Nat) (disk : Disk UInt8) (save : Save) : Disk UInt8 × (Save ⊕ Bool) :=
  let tmp := Vault.temporary windows.account save.token
  let next (point : WritePoint) : Save ⊕ Bool := .inl { save with point := point }
  match save.point with
  | .protecting => (disk, if ok then next (.directory (windows.protect salt (Vault.encode save.value))) else .inr false)
  | .directory encrypted => (disk, if ok then next (.opening encrypted) else .inr false)
  | .opening encrypted =>
      match if ok then disk.create tmp else none with
      | some opened => (opened, next (.writing disk.inodes.length encrypted))
      | none => (disk, next (.unlinking false))
  | .writing inode rest =>
      (disk.append inode (rest.take count),
        if ok then next (if rest.drop count = [] then .syncing inode else .writing inode (rest.drop count))
        else next (.unlinking false))
  | .syncing inode => if ok then (disk.sync inode, next (.replacing inode)) else (disk, next (.unlinking false))
  | .replacing _ =>
      match if ok then disk.replace tmp (Vault.path windows.account) else none with
      | some replaced => (replaced, next (.unlinking true))
      | none => (disk, next (.unlinking false))
  | .unlinking replaced => if ok then (disk.unlink tmp, .inr replaced) else (disk, .inr false)

end Save

/-! ## Processes -/

/-- Where a process stands. From `starting` on it is within `with SingleInstance`. -/
inductive ProcessPoint where
  | outside
  | refused
  | starting
  | creating (save : Save)
  | running (identity : Fields)
  | saving (identity : Fields) (save : Save)

/-- The computer. The last two fields are there for the reader of the model: what processes began to save, and the owner
secrets in the first messages to the relay. -/
structure Machine where
  disk : Disk UInt8 := {}
  /-- The processes that have a handle of the mutex. -/
  handles : List Nat := []
  process : Nat → ProcessPoint := fun _ => .outside
  saved : List Fields := []
  hellos : List (Option Json) := []

inductive MachineAction where
  | enter (p : Nat)
  | leave (p : Nat)
  | load (p : Nat) (owner password token : String)
  | write (p : Nat) (ok : Bool) (count salt : Nat)
  | hello (p : Nat)
  | registered (p : Nat) (name token : String)
  | beginRotation (p : Nat) (drawn : String × String) (token : String)
  | finishRotation (p : Nat) (token : String)
  | power (back : Nat) (garbage : Nat → List UInt8)

namespace Machine

variable (windows : Windows)

def goTo (p : Nat) (point : ProcessPoint) (m : Machine) : Machine := { m with process := Function.update m.process p point }

/-- The process ends, and Windows closes its handles. -/
def leave (p : Nat) (m : Machine) : Machine := { m with handles := m.handles.erase p }.goTo p .outside

/-- `vault.save(value)` begins. -/
def save (p : Nat) (point : Save → ProcessPoint) (value : Fields) (token : String) (m : Machine) : Machine :=
  { m with saved := m.saved ++ [value] }.goTo p (point { value := value, token := token })

/-- One action; `none` when it is not possible. -/
def step (m : Machine) : MachineAction → Option Machine
  | .enter p =>
      match m.process p with
      | .outside => some ({ m with handles := p :: m.handles }.goTo p (if m.handles = [] then .starting else .refused))
      | _ => none
  | .leave p =>
      match m.process p with
      | .outside => none
      | _ => some (m.leave p)
  | .load p owner password token =>
      match m.process p with
      | .starting =>
          match Vault.load windows.unprotect windows.depth windows.account m.disk with
          | none => some (m.leave p)
          | some none | some (some []) => some (m.save p .creating (Vault.newIdentity owner password) token)
          | some (some identity) => some (m.goTo p (.running identity))
      | _ => none
  | .write p ok count salt =>
      match m.process p with
      | .creating save =>
          match save.step windows ok count salt m.disk with
          | (disk, .inl save) => some ({ m with disk := disk }.goTo p (.creating save))
          | (disk, .inr true) => some ({ m with disk := disk }.goTo p (.running save.value))
          | (disk, .inr false) => some ({ m with disk := disk }.leave p)
      | .saving identity save =>
          match save.step windows ok count salt m.disk with
          | (disk, .inl save) => some ({ m with disk := disk }.goTo p (.saving identity save))
          | (disk, .inr true) => some ({ m with disk := disk }.goTo p (.running save.value))
          | (disk, .inr false) => some ({ m with disk := disk }.goTo p (.running identity))
      | _ => none
  | .hello p =>
      match m.process p with
      | .running identity => some { m with hellos := m.hellos ++ [Json.get (codePoints "owner_secret") identity] }
      | _ => none
  | .registered p name token =>
      match m.process p with
      | .running identity =>
          some (m.save p (.saving (Vault.registered name identity)) (Vault.registered name identity) token)
      | _ => none
  | .beginRotation p drawn token =>
      match m.process p with
      | .running identity =>
          if Vault.rotating identity then none
          else some (m.save p (.saving identity) (Vault.beginRotation drawn identity) token)
      | _ => none
  | .finishRotation p token =>
      match m.process p with
      | .running identity => (Vault.finishRotation identity).map fun value => m.save p (.saving identity) value token
      | _ => none
  | .power back garbage =>
      (m.disk.lose back garbage).map fun disk => { m with disk := disk, handles := [], process := fun _ => .outside }

/-- The machine after a run. -/
def run (m : Machine) (actions : List MachineAction) : Option Machine := Runs.exec (step windows) m actions

end Machine

end RemoteInput
