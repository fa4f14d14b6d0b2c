import ItchExchange.Core.Types

/-!
# Handles

`handle.hpp`: a slot index of 24 bits and a generation of 8 bits in one word.
The index of the null handle is one which no pool has.  A tag keeps the handles
of different pools apart.
-/

namespace ItchExchange.Book

open ItchExchange.Core

/-- A reference to a slot of the pool whose handles have this tag. -/
structure Handle (Tag : Type) where
  bits : UInt32
deriving Repr

namespace Handle

variable {Tag : Type}

instance : DecidableEq (Handle Tag) := fun first second =>
  decidable_of_iff (first.bits = second.bits) <| by
    cases first
    cases second
    rw [mk.injEq]

/-- The index which is kept for the null handle. -/
def kNullIndex : Nat := 2 ^ 24 - 1

/-- The largest capacity of a pool. -/
def kMaxCapacity : Nat := kNullIndex

/-- Every bit is set, also those of the generation. -/
def kNullBits : UInt32 := 0xFFFFFFFF

/-- The handle of no slot. -/
def null : Handle Tag := ⟨kNullBits⟩

/-- The slot: the upper 24 bits. -/
def index (h : Handle Tag) : Nat := (h.bits >>> 8).toNat

/-- The use of the slot for which the handle was issued: the lower 8 bits. -/
def generation (h : Handle Tag) : UInt8 := (h.bits &&& 255).toUInt8

/-- Whether all bits are set. -/
def isNull (h : Handle Tag) : Bool := decide (h.bits = kNullBits)

/-- The constructor from an index and a generation. -/
def pack (index : Nat) (generation : UInt8) : Handle Tag :=
  ⟨UInt32.ofNat index <<< 8 ||| generation.toUInt32⟩

/-- The checked constructor, which refuses the null index. -/
def make (index : Nat) (generation : UInt8) : Checked (Handle Tag) := do
  assertMsg (index < kMaxCapacity) "index < kMaxCapacity"
  pure (pack index generation)

@[simp]
theorem isNull_iff {h : Handle Tag} : h.isNull = true ↔ h = null := by
  cases h
  rw [isNull, decide_eq_true_iff, null, mk.injEq]

@[simp]
theorem isNull_eq_false_iff {h : Handle Tag} :
    h.isNull = false ↔ h ≠ null := by
  rw [← Bool.not_eq_true, isNull_iff]

/-- The two fields of a handle do not overlap. -/
theorem toNat_pack {index : Nat} (small : index < 2 ^ 24)
    (generation : UInt8) :
    (pack index generation : Handle Tag).bits.toNat =
      index * 256 + generation.toNat := by
  have low := generation.toNat_lt
  have high : index <<< 8 < 2 ^ 32 := by
    rw [Nat.shiftLeft_eq]
    omega
  rw [pack, UInt32.toNat_or, UInt32.toNat_shiftLeft, UInt8.toNat_toUInt32,
    UInt32.toNat_ofNat_of_lt' (lt_trans small (by decide))]
  change index <<< 8 % 2 ^ 32 ||| generation.toNat = _
  rw [Nat.mod_eq_of_lt high, ← Nat.shiftLeft_add_eq_or_of_lt low,
    Nat.shiftLeft_eq]

theorem index_eq (h : Handle Tag) : h.index = h.bits.toNat / 256 := by
  rw [index, UInt32.toNat_shiftRight]
  exact Nat.shiftRight_eq_div_pow _ _

theorem toNat_generation (h : Handle Tag) :
    h.generation.toNat = h.bits.toNat % 256 := by
  rw [generation, UInt32.toNat_toUInt8, UInt32.toNat_and]
  change (h.bits.toNat &&& (2 ^ 8 - 1)) % 2 ^ 8 = _
  rw [Nat.and_two_pow_sub_one_eq_mod, Nat.mod_mod]

/-- Packing keeps both fields. -/
theorem index_pack {index : Nat} (small : index < 2 ^ 24)
    (generation : UInt8) :
    (pack index generation : Handle Tag).index = index := by
  have low := generation.toNat_lt
  rw [index_eq, toNat_pack small]
  omega

/-- The generation of a packed handle is the one that was packed. -/
theorem generation_pack {index : Nat} (small : index < 2 ^ 24)
    (generation : UInt8) :
    (pack index generation : Handle Tag).generation = generation := by
  have low := generation.toNat_lt
  apply UInt8.toNat_inj.mp
  rw [toNat_generation, toNat_pack small]
  omega

/-- No pool has the slot of the null handle. -/
@[simp]
theorem index_null : (null : Handle Tag).index = kNullIndex := by
  rw [index_eq]
  change kNullBits.toNat / 256 = kNullIndex
  decide

/-- An index has 24 bits. -/
theorem index_lt (h : Handle Tag) : h.index < 2 ^ 24 := by
  have bound := h.bits.toNat_lt
  rw [index_eq]
  omega

/-- A handle is its index and its generation. -/
theorem ext_index {first second : Handle Tag}
    (index : first.index = second.index)
    (generation : first.generation = second.generation) :
    first = second := by
  have low := congrArg UInt8.toNat generation
  rw [toNat_generation, toNat_generation] at low
  rw [index_eq, index_eq] at index
  cases first
  cases second
  rw [Handle.mk.injEq]
  apply UInt32.toNat_inj.mp
  dsimp only at index low
  omega

/-- The handle of a slot is not null. -/
theorem ne_null_of_index {h : Handle Tag} (below : h.index < kMaxCapacity) :
    h ≠ null := by
  rintro rfl
  rw [index_null] at below
  exact Nat.lt_irrefl _ below

/-- The checked constructor takes every index of a pool. -/
theorem make_eq_ok {index : Nat} (below : index < kMaxCapacity)
    (generation : UInt8) :
    (make index generation : Checked (Handle Tag)) =
      .ok (pack index generation) := by
  rw [make, assertMsg_of below, ok_bind, pure_eq_ok]

end Handle

/-- The tag of the order pool. -/
structure OrderTag
deriving DecidableEq, Repr

/-- The tag of the level pool. -/
structure LevelTag
deriving DecidableEq, Repr

abbrev OrderHandle := Handle OrderTag

abbrev LevelHandle := Handle LevelTag

end ItchExchange.Book
