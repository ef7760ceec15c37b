import Mathlib

/-!
# Big-endian numbers of fixed width

Numbers as a fixed number of bytes, most significant first, without sign and in two's complement, and records of such fields.
-/

namespace BigEndian

/-- The number that the bytes stand for. -/
def value (data : List UInt8) : Nat := data.foldl (fun n byte => n * 256 + byte.toNat) 0

/-- The last `width` bytes of a number. -/
def bytes : Nat → Nat → List UInt8
  | 0, _ => []
  | width + 1, n => bytes width (n / 256) ++ [UInt8.ofNat n]

@[simp] theorem length_bytes (width n : Nat) : (bytes width n).length = width := by
  induction width generalizing n with
  | zero => rfl
  | succ width ih => simp [bytes, ih]

theorem value_concat (data : List UInt8) (byte : UInt8) : value (data ++ [byte]) = value data * 256 + byte.toNat := by
  simp [value]

theorem value_bytes (width n : Nat) : value (bytes width n) = n % 256 ^ width := by
  induction width generalizing n with
  | zero => simp [bytes, value, Nat.mod_one]
  | succ width ih =>
      have hbyte : (UInt8.ofNat n).toNat = n % 256 := by simp
      rw [bytes, value_concat, ih, hbyte, pow_succ', Nat.mod_mul, add_comm, Nat.mul_comm]

theorem value_bytes_of_lt {width n : Nat} (h : n < 256 ^ width) : value (bytes width n) = n := by
  rw [value_bytes, Nat.mod_eq_of_lt h]

theorem value_lt (data : List UInt8) : value data < 256 ^ data.length := by
  induction data using List.reverseRecOn with
  | nil => simp [value]
  | append_singleton data byte ih =>
      have := byte.toNat_lt
      rw [value_concat, List.length_append, List.length_singleton, pow_succ]
      omega

/-- Every byte string is that of its number. -/
theorem bytes_value (data : List UInt8) : bytes data.length (value data) = data := by
  induction data using List.reverseRecOn with
  | nil => rfl
  | append_singleton data byte ih =>
      have hbyte := byte.toNat_lt
      have hdiv : (value data * 256 + byte.toNat) / 256 = value data := by omega
      have hlast : UInt8.ofNat (value data * 256 + byte.toNat) = byte := by
        apply UInt8.toNat_inj.mp
        rw [UInt8.toNat_ofNat']
        omega
      rw [value_concat, List.length_append, List.length_singleton, bytes, hdiv, ih, hlast]

/-! ## Two's complement -/

/-- The signed number that the bytes stand for. -/
def signed (data : List UInt8) : Int :=
  if 2 * value data < 256 ^ data.length then value data else (value data : Int) - 256 ^ data.length

def signedBytes (width : Nat) (i : Int) : List UInt8 := bytes width (i % 256 ^ width).toNat

@[simp] theorem length_signedBytes (width : Nat) (i : Int) : (signedBytes width i).length = width := length_bytes _ _

theorem signed_signedBytes {width : Nat} {i : Int} (hlow : -(256 ^ width : Int) ≤ 2 * i) (hhigh : 2 * i < 256 ^ width) :
    signed (signedBytes width i) = i := by
  have hpos : (0 : Int) < 256 ^ width := by positivity
  have hmod : 0 ≤ i % 256 ^ width := Int.emod_nonneg _ hpos.ne'
  have hlt : i % 256 ^ width < 256 ^ width := Int.emod_lt_of_pos _ hpos
  have hvalue : (value (signedBytes width i) : Int) = i % 256 ^ width := by
    have hnat : (i % 256 ^ width).toNat < 256 ^ width := by
      have : ((i % 256 ^ width).toNat : Int) < ((256 ^ width : Nat) : Int) := by
        rw [Int.toNat_of_nonneg hmod]; exact_mod_cast hlt
      exact_mod_cast this
    rw [signedBytes, value_bytes_of_lt hnat, Int.toNat_of_nonneg hmod]
  have hcond : 2 * value (signedBytes width i) < 256 ^ width ↔ 2 * (i % 256 ^ width) < 256 ^ width := by
    rw [← hvalue]; exact_mod_cast Iff.rfl
  rw [signed, length_signedBytes, hvalue]
  by_cases hneg : i < 0
  · have hm : i % 256 ^ width = i + 256 ^ width := by
      rw [← Int.add_emod_right, Int.emod_eq_of_lt (by linarith) (by linarith)]
    rw [if_neg (by rw [hcond, hm]; linarith), hm]
    ring
  · have hm : i % 256 ^ width = i := Int.emod_eq_of_lt (by linarith) (by linarith)
    rw [if_pos (by rw [hcond, hm]; exact hhigh), hm]

/-- Every byte string is that of its signed number. -/
theorem signedBytes_signed (data : List UInt8) : signedBytes data.length (signed data) = data := by
  have hlt : (value data : Int) < 256 ^ data.length := by exact_mod_cast value_lt data
  have hmod : signed data % 256 ^ data.length = value data := by
    unfold signed
    split
    · exact Int.emod_eq_of_lt (by positivity) hlt
    · rw [Int.sub_emod_right]
      exact Int.emod_eq_of_lt (by positivity) hlt
  rw [signedBytes, hmod, Int.toNat_natCast, bytes_value]

/-! ## Records -/

/-- The fields of a record with the given widths. -/
def fields : List Nat → List UInt8 → List (List UInt8)
  | [], _ => []
  | width :: widths, data => data.take width :: fields widths (data.drop width)

theorem fields_flatten {parts : List (List UInt8)} : fields (parts.map List.length) parts.flatten = parts := by
  induction parts with
  | nil => rfl
  | cons part parts ih => simp [fields, ih]

theorem flatten_fields {widths : List Nat} {data : List UInt8} (h : data.length = widths.sum) :
    (fields widths data).flatten = data := by
  induction widths generalizing data with
  | nil => exact (List.length_eq_zero_iff.mp h).symm
  | cons width widths ih =>
      rw [List.sum_cons] at h
      rw [fields, List.flatten_cons, ih (by rw [List.length_drop]; omega), List.take_append_drop]

end BigEndian
