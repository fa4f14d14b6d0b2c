import Mathlib.Data.Nat.Digits.Defs
import Mathlib.Data.UInt

/-!
# Byte strings in memory

Reading and overwriting a range of a byte string, and the numbers which byte
strings denote.  A number of `width` bytes is stored with its low byte first;
`swapped` reverses the bytes of a number.  `bigValue` and `bigBytes` are the
order with the high byte first, in which a reversal cancels out.
-/

namespace ByteString

/-! ## Ranges -/

section Range

variable {α : Type}

/-- The `count` elements from `offset` on. -/
def slice (offset count : Nat) (target : List α) : List α :=
  (target.drop offset).take count

/-- The target with `source` written over the range from `offset` on. -/
def overwrite (offset : Nat) (source target : List α) : List α :=
  target.take offset ++ source ++ target.drop (offset + source.length)

variable {offset count place : Nat} {source target : List α}

@[simp]
theorem length_slice :
    (slice offset count target).length =
      min count (target.length - offset) := by
  simp [slice]

theorem length_overwrite
    (fits : offset + source.length ≤ target.length) :
    (overwrite offset source target).length = target.length := by
  simp only [overwrite, List.length_append, List.length_take,
    List.length_drop]
  omega

theorem take_overwrite
    (fits : offset + source.length ≤ target.length) :
    (overwrite offset source target).take (offset + source.length) =
      target.take offset ++ source := by
  have length : (target.take offset ++ source).length =
      offset + source.length := by
    rw [List.length_append, List.length_take]
    omega
  rw [overwrite, ← length]
  exact List.take_left

/-- What was written is read back. -/
theorem slice_overwrite_self
    (fits : offset + source.length ≤ target.length) :
    slice offset source.length (overwrite offset source target) =
      source := by
  have ahead : (target.take offset).length = offset := by
    rw [List.length_take]
    omega
  rw [slice, overwrite, List.append_assoc, List.drop_append_of_le_length
    ahead.ge, List.drop_of_length_le ahead.le, List.nil_append]
  exact List.take_left

/-- A range ahead of the written one is not touched. -/
theorem slice_overwrite_ahead (ahead : offset + count ≤ place)
    (fits : place + source.length ≤ target.length) :
    slice offset count (overwrite place source target) =
      slice offset count target := by
  refine List.ext_getElem? fun position => ?_
  simp only [slice, overwrite, List.getElem?_take, List.getElem?_drop]
  split_ifs with inside
  · rw [List.append_assoc, List.getElem?_append_left,
      List.getElem?_take_of_lt (by omega)]
    rw [List.length_take]
    omega
  · rfl

end Range

/-! ## Numbers -/

/-- The number whose bytes are given with the low byte first. -/
def littleValue (bytes : List UInt8) : Nat :=
  Nat.ofDigits 256 (bytes.map UInt8.toNat)

/-- The lowest `width` bytes of a number, with the low byte first. -/
def littleBytes (width value : Nat) : List UInt8 :=
  (List.range width).map fun place => UInt8.ofNat (value / 256 ^ place)

/-- The number of `width` bytes with its bytes reversed. -/
def swapped (width value : Nat) : Nat :=
  littleValue (littleBytes width value).reverse

def bigValue (bytes : List UInt8) : Nat :=
  littleValue bytes.reverse

def bigBytes (width value : Nat) : List UInt8 :=
  (littleBytes width value).reverse

@[simp]
theorem length_littleBytes (width value : Nat) :
    (littleBytes width value).length = width := by
  simp [littleBytes]

@[simp]
theorem length_bigBytes (width value : Nat) :
    (bigBytes width value).length = width := by
  simp [bigBytes]

theorem littleValue_cons (head : UInt8) (tail : List UInt8) :
    littleValue (head :: tail) = head.toNat + 256 * littleValue tail := by
  simp [littleValue, Nat.ofDigits_cons]

theorem littleBytes_succ (width value : Nat) :
    littleBytes (width + 1) value =
      UInt8.ofNat value :: littleBytes width (value / 256) := by
  simp only [littleBytes, List.range_succ_eq_map, List.map_cons,
    List.map_map, pow_zero, Nat.div_one, List.cons.injEq, true_and]
  refine List.map_congr_left fun place _ => ?_
  rw [Function.comp_apply, Nat.div_div_eq_div_mul, Nat.pow_succ']

theorem littleValue_littleBytes (width value : Nat) :
    littleValue (littleBytes width value) = value % 256 ^ width := by
  induction width generalizing value with
  | zero => simp [littleBytes, littleValue, Nat.mod_one]
  | succ width induction =>
      rw [littleBytes_succ, littleValue_cons, induction, Nat.pow_succ',
        Nat.mod_mul]
      simp

theorem littleBytes_littleValue (bytes : List UInt8) :
    littleBytes bytes.length (littleValue bytes) = bytes := by
  induction bytes with
  | nil => rfl
  | cons head tail induction =>
      have bound := head.toNat_lt
      have quotient :
          (head.toNat + 256 * littleValue tail) / 256 =
            littleValue tail := by
        omega
      have low : UInt8.ofNat (head.toNat + 256 * littleValue tail) =
          head := by
        apply UInt8.toNat_inj.mp
        rw [UInt8.toNat_ofNat']
        omega
      rw [List.length_cons, littleBytes_succ, littleValue_cons, quotient,
        low, induction]

theorem littleValue_lt (bytes : List UInt8) :
    littleValue bytes < 256 ^ bytes.length := by
  induction bytes with
  | nil => simp [littleValue]
  | cons head tail induction =>
      have bound := head.toNat_lt
      rw [littleValue_cons, List.length_cons, Nat.pow_succ']
      omega

/-- Reversing the bytes of a stored number reads them the other way. -/
theorem swapped_littleValue (bytes : List UInt8) :
    swapped bytes.length (littleValue bytes) = bigValue bytes := by
  rw [swapped, littleBytes_littleValue, bigValue]

/-- Storing a number with its bytes reversed writes them the other way. -/
theorem littleBytes_swapped (width value : Nat) :
    littleBytes width (swapped width value) = bigBytes width value := by
  have stored := littleBytes_littleValue (littleBytes width value).reverse
  rw [List.length_reverse, length_littleBytes] at stored
  exact stored

theorem bigValue_bigBytes (width value : Nat) :
    bigValue (bigBytes width value) = value % 256 ^ width := by
  rw [bigValue, bigBytes, List.reverse_reverse, littleValue_littleBytes]

theorem bigValue_bigBytes_of_lt {width value : Nat}
    (fits : value < 256 ^ width) :
    bigValue (bigBytes width value) = value := by
  rw [bigValue_bigBytes, Nat.mod_eq_of_lt fits]

theorem bigValue_lt (bytes : List UInt8) :
    bigValue bytes < 256 ^ bytes.length := by
  have bound := littleValue_lt bytes.reverse
  rwa [List.length_reverse] at bound

theorem bigBytes_bigValue (bytes : List UInt8) :
    bigBytes bytes.length (bigValue bytes) = bytes := by
  have stored := littleBytes_littleValue bytes.reverse
  rw [List.length_reverse] at stored
  rw [bigBytes, bigValue, stored, List.reverse_reverse]

end ByteString
