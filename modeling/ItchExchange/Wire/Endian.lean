import ItchExchange.Core.Types
import ItchExchange.Library.ByteString

/-!
# Big-endian loads and stores

`endian.hpp`, on a host which stores its integers with the low byte first: a
load copies the bytes into an integer and swaps them, a store swaps them and
copies them out.  The 48 bit timestamps take two loads.
-/

namespace ItchExchange.Wire

open ByteString

/-- `load_be<T>` at `p`, where `T` has `width` bytes. -/
def loadBe (width : Nat) (p : List UInt8) (offset : Nat) : Nat :=
  swapped width (littleValue (slice offset width p))

def loadBe8 (p : List UInt8) (offset : Nat) : UInt8 :=
  UInt8.ofNat (loadBe 1 p offset)

def loadBe16 (p : List UInt8) (offset : Nat) : UInt16 :=
  UInt16.ofNat (loadBe 2 p offset)

def loadBe32 (p : List UInt8) (offset : Nat) : UInt32 :=
  UInt32.ofNat (loadBe 4 p offset)

def loadBe64 (p : List UInt8) (offset : Nat) : UInt64 :=
  UInt64.ofNat (loadBe 8 p offset)

def loadBe48 (p : List UInt8) (offset : Nat) : UInt64 :=
  let hi := (loadBe16 p offset).toUInt64
  let lo := (loadBe32 p (offset + 2)).toUInt64
  hi <<< 32 ||| lo

/-- `store_be<T>`, where `T` has `width` bytes. -/
def storeBe (width : Nat) (value : Nat) (offset : Nat)
    (p : List UInt8) : List UInt8 :=
  overwrite offset (littleBytes width (swapped width value)) p

def storeBe8 (value : UInt8) (offset : Nat) (p : List UInt8) :
    List UInt8 :=
  storeBe 1 value.toNat offset p

def storeBe16 (value : UInt16) (offset : Nat) (p : List UInt8) :
    List UInt8 :=
  storeBe 2 value.toNat offset p

def storeBe32 (value : UInt32) (offset : Nat) (p : List UInt8) :
    List UInt8 :=
  storeBe 4 value.toNat offset p

def storeBe64 (value : UInt64) (offset : Nat) (p : List UInt8) :
    List UInt8 :=
  storeBe 8 value.toNat offset p

def storeBe48 (value : UInt64) (offset : Nat) (p : List UInt8) :
    List UInt8 :=
  storeBe32 value.toUInt32 (offset + 2)
    (storeBe16 (value >>> 32).toUInt16 offset p)

section

variable {width offset : Nat} {p : List UInt8}

/-- A load within a message reads the number which its bytes spell. -/
theorem loadBe_eq (fits : offset + width ≤ p.length) :
    loadBe width p offset = bigValue (slice offset width p) := by
  have length : (slice offset width p).length = width := by
    rw [length_slice]
    omega
  have loaded := swapped_littleValue (slice offset width p)
  rwa [length] at loaded

theorem toNat_loadBe16 (fits : offset + 2 ≤ p.length) :
    (loadBe16 p offset).toNat = bigValue (slice offset 2 p) := by
  have bound := bigValue_lt (slice offset 2 p)
  have length : (slice offset 2 p).length = 2 := by
    rw [length_slice]
    omega
  rw [length] at bound
  rw [loadBe16, loadBe_eq fits]
  exact UInt16.toNat_ofNat_of_lt' bound

theorem loadBe8_eq (fits : offset + 1 ≤ p.length) :
    loadBe8 p offset = (p.drop offset).headD 0 := by
  rw [loadBe8, loadBe_eq fits, slice]
  cases rest : p.drop offset with
  | nil =>
      rw [List.drop_eq_nil_iff] at rest
      omega
  | cons head tail =>
      simp [bigValue, littleValue]

/-- A store overwrites the bytes at its offset, and no others. -/
theorem storeBe_eq (value : Nat) :
    storeBe width value offset p =
      overwrite offset (bigBytes width value) p := by
  rw [storeBe, littleBytes_swapped]

@[simp]
theorem length_storeBe {value : Nat} (fits : offset + width ≤ p.length) :
    (storeBe width value offset p).length = p.length := by
  rw [storeBe_eq]
  exact length_overwrite (by simpa using fits)

/-- A load at the place of a store gives the stored value back. -/
theorem loadBe_storeBe {value : Nat} (fits : offset + width ≤ p.length)
    (small : value < 256 ^ width) :
    loadBe width (storeBe width value offset p) offset = value := by
  have inside : offset + (bigBytes width value).length ≤ p.length := by
    simpa using fits
  have stored := slice_overwrite_self inside
  rw [length_bigBytes] at stored
  rw [loadBe_eq (by rwa [length_storeBe fits]), storeBe_eq, stored,
    bigValue_bigBytes_of_lt small]

/-- A load in front of the place of a store is not affected. -/
theorem loadBe_storeBe_of_before {other place value : Nat}
    (fits : place + other ≤ p.length) (before : offset + width ≤ place) :
    loadBe width (storeBe other value place p) offset =
      loadBe width p offset := by
  have room : place + (bigBytes other value).length ≤ p.length := by
    simpa using fits
  have inside : offset + width ≤ p.length := by omega
  rw [loadBe_eq (by rwa [length_storeBe fits]), loadBe_eq inside, storeBe_eq,
    slice_overwrite_ahead before room]

/-- A number below `2 ^ 48` is put together again from its two parts. -/
theorem or_of_parts {value : UInt64} (small : value.toNat < 2 ^ 48) :
    (value >>> 32).toUInt16.toUInt64 <<< 32 ||| value.toUInt32.toUInt64 =
      value := by
  apply UInt64.toNat_inj.mp
  simp only [UInt64.toNat_or, UInt64.toNat_shiftLeft,
    UInt64.toNat_shiftRight, UInt16.toNat_toUInt64, UInt64.toNat_toUInt16,
    UInt32.toNat_toUInt64, UInt64.toNat_toUInt32]
  have width : (32 : UInt64).toNat % 64 = 32 := rfl
  have high : value.toNat >>> 32 % 2 ^ 16 = value.toNat / 2 ^ 32 := by
    rw [Nat.shiftRight_eq_div_pow]
    omega
  have room : (value.toNat / 2 ^ 32) <<< 32 < 2 ^ 64 := by
    rw [Nat.shiftLeft_eq]
    omega
  rw [width, high, Nat.mod_eq_of_lt room,
    ← Nat.shiftLeft_add_eq_or_of_lt (by omega), Nat.shiftLeft_eq]
  omega

end

/-! ## Several fields -/

/-- A number stored at an offset. -/
structure Field where
  offset : Nat
  width : Nat
  value : Nat
  small : value < 256 ^ width

def field8 (offset : Nat) (value : UInt8) : Field :=
  ⟨offset, 1, value.toNat, value.toNat_lt⟩

def field16 (offset : Nat) (value : UInt16) : Field :=
  ⟨offset, 2, value.toNat, value.toNat_lt⟩

def field32 (offset : Nat) (value : UInt32) : Field :=
  ⟨offset, 4, value.toNat, value.toNat_lt⟩

def field64 (offset : Nat) (value : UInt64) : Field :=
  ⟨offset, 8, value.toNat, value.toNat_lt⟩

namespace Field

def store (field : Field) (p : List UInt8) : List UInt8 :=
  storeBe field.width field.value field.offset p

/-- The field lies within so many bytes. -/
def Inside (size : Nat) (field : Field) : Prop :=
  field.offset + field.width ≤ size

/-- The first field ends before the second one starts. -/
def Before (first second : Field) : Prop :=
  first.offset + first.width ≤ second.offset

instance (size : Nat) (field : Field) : Decidable (field.Inside size) :=
  inferInstanceAs (Decidable (_ ≤ _))

instance (first second : Field) : Decidable (first.Before second) :=
  inferInstanceAs (Decidable (_ ≤ _))

end Field

/-- The fields stored one after another. -/
def storeAll (fields : List Field) (p : List UInt8) : List UInt8 :=
  fields.foldl (fun p field => field.store p) p

section

variable {fields : List Field} {p : List UInt8}

/-- Stores within a message do not change its length. -/
theorem length_storeAll
    (inside : ∀ field ∈ fields, field.Inside p.length) :
    (storeAll fields p).length = p.length := by
  induction fields generalizing p with
  | nil => rfl
  | cons field fields induction =>
      obtain ⟨first, others⟩ := List.forall_mem_cons.mp inside
      have length : (field.store p).length = p.length :=
        length_storeBe first
      rw [storeAll, List.foldl_cons, ← storeAll, induction, length]
      rwa [length]

/-- A load in front of every field which is stored is not affected. -/
theorem loadBe_storeAll_of_before {width offset : Nat}
    (inside : ∀ field ∈ fields, field.Inside p.length)
    (before : ∀ field ∈ fields, offset + width ≤ field.offset) :
    loadBe width (storeAll fields p) offset = loadBe width p offset := by
  induction fields generalizing p with
  | nil => rfl
  | cons field fields induction =>
      obtain ⟨first, others⟩ := List.forall_mem_cons.mp inside
      obtain ⟨beforeFirst, beforeOthers⟩ := List.forall_mem_cons.mp before
      have length : (field.store p).length = p.length :=
        length_storeBe first
      rw [storeAll, List.foldl_cons, ← storeAll,
        induction (by rwa [length]) beforeOthers]
      exact loadBe_storeBe_of_before first beforeFirst

/-- Fields stored one behind another are all read back. -/
theorem loadBe_storeAll (inside : ∀ field ∈ fields, field.Inside p.length)
    (ordered : fields.Pairwise Field.Before) {field : Field}
    (member : field ∈ fields) :
    loadBe field.width (storeAll fields p) field.offset = field.value := by
  induction fields generalizing p with
  | nil => cases member
  | cons head fields induction =>
      obtain ⟨first, others⟩ := List.forall_mem_cons.mp inside
      obtain ⟨before, orderedOthers⟩ := List.pairwise_cons.mp ordered
      have length : (head.store p).length = p.length :=
        length_storeBe first
      rw [storeAll, List.foldl_cons, ← storeAll]
      rcases List.mem_cons.mp member with rfl | later
      · rw [loadBe_storeAll_of_before (by rwa [length]) before]
        exact loadBe_storeBe first field.small
      · exact induction (by rwa [length]) orderedOthers later

/-- What was stored one behind another is read back. -/
structure Reads (fields : List Field) (p : List UInt8) : Prop where
  read : ∀ field ∈ fields,
    loadBe field.width p field.offset = field.value

/-- Fields which do not overlap are all read back. -/
theorem reads_storeAll (inside : ∀ field ∈ fields, field.Inside p.length)
    (ordered : fields.Pairwise Field.Before) :
    Reads fields (storeAll fields p) :=
  ⟨fun _ member => loadBe_storeAll inside ordered member⟩

namespace Reads

variable (reads : Reads fields p) {offset : Nat}

include reads

theorem read8 {value : UInt8} (member : field8 offset value ∈ fields) :
    loadBe8 p offset = value := by
  have read : loadBe 1 p offset = value.toNat :=
    reads.read (field8 offset value) member
  rw [loadBe8, read, UInt8.ofNat_toNat]

theorem read16 {value : UInt16} (member : field16 offset value ∈ fields) :
    loadBe16 p offset = value := by
  have read : loadBe 2 p offset = value.toNat :=
    reads.read (field16 offset value) member
  rw [loadBe16, read, UInt16.ofNat_toNat]

theorem read32 {value : UInt32} (member : field32 offset value ∈ fields) :
    loadBe32 p offset = value := by
  have read : loadBe 4 p offset = value.toNat :=
    reads.read (field32 offset value) member
  rw [loadBe32, read, UInt32.ofNat_toNat]

theorem read64 {value : UInt64} (member : field64 offset value ∈ fields) :
    loadBe64 p offset = value := by
  have read : loadBe 8 p offset = value.toNat :=
    reads.read (field64 offset value) member
  rw [loadBe64, read, UInt64.ofNat_toNat]

/-- A 48-bit number is stored as its upper 16 and its lower 32 bits. -/
theorem read48 {value : UInt64} (small : value.toNat < 2 ^ 48)
    (high : field16 offset (value >>> 32).toUInt16 ∈ fields)
    (low : field32 (offset + 2) value.toUInt32 ∈ fields) :
    loadBe48 p offset = value := by
  rw [loadBe48, reads.read16 high, reads.read32 low]
  exact or_of_parts small

end Reads

end

end ItchExchange.Wire
