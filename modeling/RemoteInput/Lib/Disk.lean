import Mathlib

/-!
# Files on a disk

A directory leads from names to files. `sync` puts the bytes of a file on the disk for good; a change of the directory gets
there at some later time. When power is lost, the directory is as it was at some moment since the last loss, and the files
that were not synced hold anything.
-/

variable {β : Type*}

/-- A file. -/
structure Inode (β : Type*) where
  data : List β := []
  synced : Bool := false
  deriving DecidableEq

abbrev Directory := String → Option Nat

structure Disk (β : Type*) where
  directory : Directory := fun _ => none
  /-- What the directory was before, since power was lost. -/
  past : List Directory := []
  inodes : List (Inode β) := []

namespace Disk

variable {P : List β → Prop} {d d' : Disk β} {name source : String} {i k : Nat} {bytes : List β} {directory : Directory}

/-! ## Operations -/

def read (name : String) (d : Disk β) : Option (List β) := (d.directory name).bind fun i => d.inodes[i]?.map Inode.data

def change (directory : Directory) (d : Disk β) : Disk β := { d with directory := directory, past := d.directory :: d.past }

/-- A new file; `none` when there is one of that name. -/
def create (name : String) (d : Disk β) : Option (Disk β) :=
  if d.directory name = none then
    some (change (Function.update d.directory name (some d.inodes.length)) { d with inodes := d.inodes ++ [{}] })
  else none

def append (i : Nat) (bytes : List β) (d : Disk β) : Disk β :=
  { d with inodes := d.inodes.modify i fun f => { data := f.data ++ bytes } }

def sync (i : Nat) (d : Disk β) : Disk β := { d with inodes := d.inodes.modify i fun f => { f with synced := true } }

/-- The file of one name gets another, in place of the file that had it; `none` when there is no such file. -/
def replace (source name : String) (d : Disk β) : Option (Disk β) :=
  (d.directory source).map fun i => d.change (Function.update (Function.update d.directory source none) name (some i))

def unlink (name : String) (d : Disk β) : Disk β := d.change (Function.update d.directory name none)

/-- Power is lost: the directory is the one `back` changes ago. -/
def lose (back : Nat) (garbage : Nat → List β) (d : Disk β) : Option (Disk β) :=
  (d.directory :: d.past)[back]?.map fun directory =>
    { directory := directory, inodes := d.inodes.mapIdx fun i f => if f.synced then f else ⟨garbage i, true⟩ }

/-! ## Where a name may lead -/

/-- The name leads to the file, or may do so when power is lost. -/
def Refers (d : Disk β) (name : String) (i : Nat) : Prop := ∃ directory ∈ d.directory :: d.past, directory name = some i

theorem refers_of_directory (h : d.directory name = some i) : d.Refers name i := ⟨d.directory, List.mem_cons_self, h⟩

theorem refers_change : (d.change directory).Refers name i ↔ directory name = some i ∨ d.Refers name i := by
  simp [Refers, change]

theorem create_eq (h : d.create name = some d') :
    d' = change (Function.update d.directory name (some d.inodes.length)) { d with inodes := d.inodes ++ [{}] } := by
  unfold create at h
  split at h
  · exact (Option.some.inj h).symm
  · cases h

theorem refers_create (h : d.create source = some d') (hne : name ≠ source) (hi : d'.Refers name i) : d.Refers name i := by
  rw [create_eq h] at hi
  rcases refers_change.mp hi with hi | hi
  · rw [Function.update_of_ne hne] at hi
    exact refers_of_directory hi
  · exact hi

theorem refers_replace (h : d.replace source name = some d') (hi : d'.Refers name i) :
    d.directory source = some i ∨ d.Refers name i := by
  obtain ⟨k, hk, rfl⟩ := Option.map_eq_some_iff.mp h
  rcases refers_change.mp hi with hi | hi
  · rw [Function.update_self] at hi
    exact .inl (hk.trans hi)
  · exact .inr hi

theorem refers_unlink {other : String} (hi : (d.unlink other).Refers name i) : d.Refers name i := by
  rcases refers_change.mp hi with hi | hi
  · rw [Function.update_apply] at hi
    split at hi
    · cases hi
    · exact refers_of_directory hi
  · exact hi

theorem refers_lose {garbage : Nat → List β} (h : d.lose k garbage = some d') (hi : d'.Refers name i) : d.Refers name i := by
  obtain ⟨directory, hd, rfl⟩ := Option.map_eq_some_iff.mp h
  obtain ⟨_, hmem, hi⟩ := hi
  rw [List.mem_singleton.mp hmem] at hi
  exact ⟨directory, List.mem_of_getElem? hd, hi⟩

/-- Every name leads to a file. -/
def Tidy (d : Disk β) : Prop := ∀ name i, d.Refers name i → i < d.inodes.length

theorem tidy_start : ({} : Disk β).Tidy := by
  rintro name i ⟨_, hmem, hi⟩
  rw [List.mem_singleton.mp hmem] at hi
  cases hi

theorem Tidy.create (h : d.Tidy) (hc : d.create name = some d') : d'.Tidy := by
  intro other i hi
  rw [create_eq hc] at hi ⊢
  rw [change, List.length_append, List.length_singleton]
  rcases refers_change.mp hi with hi | hi
  · rw [Function.update_apply] at hi
    split at hi
    · cases hi
      exact Nat.lt_succ_self _
    · exact Nat.lt_succ_of_lt (h other i (refers_of_directory hi))
  · exact Nat.lt_succ_of_lt (h other i hi)

theorem Tidy.append (h : d.Tidy) : (d.append i bytes).Tidy := fun name k hk => by
  rw [Disk.append, List.length_modify]
  exact h name k hk

theorem Tidy.sync (h : d.Tidy) : (d.sync i).Tidy := fun name k hk => by
  rw [Disk.sync, List.length_modify]
  exact h name k hk

theorem Tidy.replace (h : d.Tidy) (hr : d.replace source name = some d') : d'.Tidy := by
  obtain ⟨k, hk, rfl⟩ := Option.map_eq_some_iff.mp hr
  intro other i hi
  rcases refers_change.mp hi with hi | hi
  · simp only [Function.update_apply] at hi
    split_ifs at hi with h1 h2
    · cases hi
      exact h source k (refers_of_directory hk)
    · exact h other i (refers_of_directory hi)
  · exact h other i hi

theorem Tidy.unlink (h : d.Tidy) : (d.unlink name).Tidy := fun other i hi => h other i (refers_unlink hi)

theorem Tidy.lose {garbage : Nat → List β} (h : d.Tidy) (hl : d.lose k garbage = some d') : d'.Tidy := by
  intro name i hi
  have hlt := h name i (refers_lose hl hi)
  obtain ⟨directory, -, rfl⟩ := Option.map_eq_some_iff.mp hl
  rwa [List.length_mapIdx]

/-! ## A new file -/

theorem directory_create (h : d.create name = some d') : d'.directory name = some d.inodes.length := by
  rw [create_eq h]
  exact Function.update_self ..

theorem getElem?_create (h : d.create name = some d') : d'.inodes[d.inodes.length]? = some {} := by
  rw [create_eq h]
  exact List.getElem?_concat_length

theorem getElem?_append {f : Inode β} (h : d.inodes[i]? = some f) :
    (d.append i bytes).inodes[i]? = some ⟨f.data ++ bytes, false⟩ := by
  rw [append, List.getElem?_modify_eq, h]
  rfl

theorem getElem?_sync {f : Inode β} (h : d.inodes[i]? = some f) : (d.sync i).inodes[i]? = some ⟨f.data, true⟩ := by
  rw [sync, List.getElem?_modify_eq, h]
  rfl

/-! ## What a name keeps -/

/-- Whatever happens, the name leads to no file but to one that has `P` and is on the disk for good. -/
def Keeps (P : List β → Prop) (name : String) (d : Disk β) : Prop :=
  ∀ i, d.Refers name i → ∃ data, d.inodes[i]? = some ⟨data, true⟩ ∧ P data

theorem keeps_start : ({} : Disk β).Keeps P name := by
  rintro i ⟨_, hmem, hi⟩
  rw [List.mem_singleton.mp hmem] at hi
  cases hi

theorem Keeps.mono {Q : List β → Prop} (h : d.Keeps P name) (hPQ : ∀ data, P data → Q data) : d.Keeps Q name :=
  fun i hi => by
  obtain ⟨data, hd, hp⟩ := h i hi
  exact ⟨data, hd, hPQ data hp⟩

theorem Keeps.read (h : d.Keeps P name) (hr : d.read name = some bytes) : P bytes := by
  obtain ⟨i, hi, hr⟩ := Option.bind_eq_some_iff.mp hr
  obtain ⟨data, hd, hp⟩ := h i (refers_of_directory hi)
  rw [hd] at hr
  cases hr
  exact hp

theorem Keeps.create (h : d.Keeps P name) (ht : d.Tidy) (hc : d.create source = some d') (hne : name ≠ source) :
    d'.Keeps P name := by
  intro i hi
  have hi := refers_create hc hne hi
  rw [create_eq hc, change, List.getElem?_append_left (ht name i hi)]
  exact h i hi

theorem Keeps.append (h : d.Keeps P name) (hi : ¬ d.Refers name i) : (d.append i bytes).Keeps P name := by
  intro k hk
  have hne : i ≠ k := by
    rintro rfl
    exact hi hk
  rw [show (d.append i bytes).inodes[k]? = d.inodes[k]? from List.getElem?_modify_ne _ _ hne]
  exact h k hk

theorem Keeps.sync (h : d.Keeps P name) : (d.sync i).Keeps P name := by
  intro k hk
  obtain ⟨data, hd, hp⟩ := h k hk
  refine ⟨data, ?_, hp⟩
  rw [Disk.sync, List.getElem?_modify, hd]
  split <;> rfl

/-- A file that is on the disk for good takes the name. -/
theorem Keeps.replace (h : d.Keeps P name) (hr : d.replace source name = some d') (hi : d.directory source = some i)
    (hd : d.inodes[i]? = some ⟨bytes, true⟩) (hp : P bytes) : d'.Keeps P name := by
  intro k hk
  have hinodes : d'.inodes = d.inodes := by
    obtain ⟨_, -, rfl⟩ := Option.map_eq_some_iff.mp hr
    rfl
  rw [hinodes]
  rcases refers_replace hr hk with hk | hk
  · rw [hi] at hk
    cases hk
    exact ⟨bytes, hd, hp⟩
  · exact h k hk

theorem Keeps.unlink (h : d.Keeps P name) : (d.unlink source).Keeps P name := fun k hk => h k (refers_unlink hk)

theorem Keeps.lose {garbage : Nat → List β} (h : d.Keeps P name) (hl : d.lose k garbage = some d') : d'.Keeps P name := by
  intro i hi
  obtain ⟨data, hd, hp⟩ := h i (refers_lose hl hi)
  obtain ⟨directory, -, rfl⟩ := Option.map_eq_some_iff.mp hl
  exact ⟨data, by rw [List.getElem?_mapIdx, hd]; rfl, hp⟩

/-! ## What is read -/

theorem read_create (h : d.create source = some d') (hne : name ≠ source) (ht : d.Tidy) : d'.read name = d.read name := by
  rw [create_eq h]
  simp only [read, change, Function.update_of_ne hne]
  cases hi : d.directory name with
  | none => rfl
  | some i => rw [Option.bind_some, Option.bind_some, List.getElem?_append_left (ht name i (refers_of_directory hi))]

theorem read_append (h : ¬ d.Refers name i) : (d.append i bytes).read name = d.read name := by
  simp only [read, append]
  cases hk : d.directory name with
  | none => rfl
  | some k =>
      have hne : i ≠ k := by
        rintro rfl
        exact h (refers_of_directory hk)
      rw [Option.bind_some, Option.bind_some, List.getElem?_modify_ne _ _ hne]

@[simp] theorem read_sync : (d.sync i).read name = d.read name := by
  simp only [read, sync]
  refine congrArg _ (funext fun k => ?_)
  rw [List.getElem?_modify, Option.map_eq_map, Option.map_map]
  refine congrArg (fun f => Option.map f d.inodes[k]?) (funext fun f => ?_)
  dsimp only [Function.comp]
  split <;> rfl

theorem read_replace (h : d.replace source name = some d') (hi : d.directory source = some i) :
    d'.read name = d.inodes[i]?.map Inode.data := by
  obtain ⟨k, hk, rfl⟩ := Option.map_eq_some_iff.mp h
  rw [hk] at hi
  cases hi
  simp only [read, change, Function.update_self, Option.bind_some]

theorem read_unlink (hne : name ≠ source) : (d.unlink source).read name = d.read name := by
  simp only [read, unlink, change, Function.update_of_ne hne]

end Disk
