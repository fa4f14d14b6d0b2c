import ItchExchange.Book.Handle
import ItchExchange.Core.Hash
import ItchExchange.Library.Probing
import Mathlib.Data.Nat.Log

/-!
# The order index

`OrderIndex` of `order_index.hpp`: order references to handles in an
open-addressed table.  The hash function is a parameter, as it is a template
parameter in the source.  A loop around the table gets as much fuel as the table
has slots: one which is not done by then has met every slot and never ends.

`Holds` says that the table stands for a finite map.  All of its content comes
from the library of linear probing.
-/

namespace ItchExchange.Book

open ItchExchange.Core

/-- The hashes which the index can be given. -/
inductive IndexHash where
  | identity
  | mixed
deriving DecidableEq, Repr

def IndexHash.hash : IndexHash → OrderRef → UInt64
  | .identity => id
  | .mixed => mix64

/-- `std::bit_ceil`, undefined where the power of two has no room. -/
def bitCeil (value : UInt32) : Checked UInt32 :=
  let power := if value ≤ 1 then 1 else 2 ^ ((value.toNat - 1).log2 + 1)
  if power < 2 ^ 32 then .ok (UInt32.ofNat power) else .error .undefined

namespace OrderIndex

/-- A slot: free while its handle is null. -/
structure Entry where
  ref : OrderRef
  handle : OrderHandle
deriving DecidableEq, Repr

end OrderIndex

/-- The slots, the mask of their number and the number of entries. -/
structure OrderIndex (hash : OrderRef → UInt64) where
  slots : List OrderIndex.Entry
  mask : Nat
  live : UInt32 := 0

namespace OrderIndex

variable {hash : OrderRef → UInt64}

/-- The constructor. -/
def make (capacityHint : UInt32) : Checked (OrderIndex hash) := do
  let want ← bitCeil (if capacityHint < 8 then 16 else capacityHint * 2)
  pure
    { slots := List.replicate want.toNat ⟨0, Handle.null⟩
      mask := want.toNat - 1 }

def capacity (index : OrderIndex hash) : Nat := index.slots.length

def size (index : OrderIndex hash) : UInt32 := index.live

/-- The slot where a search for the reference starts. -/
def ideal (index : OrderIndex hash) (ref : OrderRef) : Nat :=
  (hash ref).toNat &&& index.mask

/-- The slot behind a slot. -/
def after (index : OrderIndex hash) (i : Nat) : Nat := (i + 1) &&& index.mask

/-- `operator[]` of the vector of slots. -/
def slot (index : OrderIndex hash) (i : Nat) : Checked Entry :=
  match index.slots[i]? with
  | none => .error .undefined
  | some entry => .ok entry

/-- A write to a slot. -/
def put (index : OrderIndex hash) (i : Nat) (entry : Entry) :
    OrderIndex hash :=
  { index with slots := index.slots.set i entry }

/-- The loop of `insert`: the first empty slot from `i` on. -/
def vacantFrom (index : OrderIndex hash) (ref : OrderRef) :
    Nat → Nat → Checked Nat
  | 0, _ => .error .divergence
  | fuel + 1, i => do
      let entry ← index.slot i
      if entry.handle.isNull then pure i
      else do
        assertMsg (entry.ref ≠ ref) "order reference inserted twice"
        index.vacantFrom ref fuel (index.after i)

/-- Linear probing from the ideal slot to the first free one. -/
def insert (index : OrderIndex hash) (ref : OrderRef) (h : OrderHandle) :
    Checked (OrderIndex hash) := do
  assertMsg (h.isNull = false) "cannot index a null handle"
  assertMsg ((index.live * 2).toNat < index.slots.length)
    "order index would exceed half full; it never resizes during replay"
  let i ← index.vacantFrom ref index.slots.length (index.ideal ref)
  pure { index.put i ⟨ref, h⟩ with live := index.live + 1 }

/-- The loop of `find`. -/
def findFrom (index : OrderIndex hash) (ref : OrderRef) :
    Nat → Nat → Checked OrderHandle
  | 0, _ => .error .divergence
  | fuel + 1, i => do
      let entry ← index.slot i
      if entry.handle.isNull then pure Handle.null
      else if entry.ref = ref then pure entry.handle
      else index.findFrom ref fuel (index.after i)

/-- The handle of a reference, or the null one at the first free slot. -/
def find (index : OrderIndex hash) (ref : OrderRef) :
    Checked OrderHandle :=
  index.findFrom ref index.slots.length (index.ideal ref)

/-- The loop of `erase`: the slot which holds the reference. -/
def slotFrom (index : OrderIndex hash) (ref : OrderRef) :
    Nat → Nat → Checked Nat
  | 0, _ => .error .divergence
  | fuel + 1, i => do
      let entry ← index.slot i
      assertMsg (entry.handle.isNull = false)
        "erasing a reference not in the index"
      if entry.ref = ref then pure i
      else index.slotFrom ref fuel (index.after i)

/-- Whether `k` is in the cyclic interval from `i` to `j`, without `i`. -/
def stays (i k j : Nat) : Bool :=
  if i ≤ j then decide (i < k) && decide (k ≤ j)
  else decide (i < k) || decide (k ≤ j)

/--
The inner loop of `erase_at`: the next entry behind `j` which must move back to
`i`, or nothing at the first empty slot.
-/
def movingFrom (index : OrderIndex hash) (i : Nat) :
    Nat → Nat → Checked (Option Nat)
  | 0, _ => .error .divergence
  | fuel + 1, j => do
      let j := index.after j
      let entry ← index.slot j
      if entry.handle.isNull then pure none
      else
        if stays i (index.ideal entry.ref) j then
          index.movingFrom i fuel j
        else pure (some j)

/-- The outer loop of `erase_at`. -/
def eraseAt (index : OrderIndex hash) : Nat → Nat → Checked (OrderIndex hash)
  | 0, _ => .error .divergence
  | fuel + 1, i => do
      let hole ← index.slot i
      let index := index.put i { hole with handle := Handle.null }
      match ← index.movingFrom i index.slots.length i with
      | none => pure index
      | some j => do
          let entry ← index.slot j
          (index.put i entry).eraseAt fuel j

/-- Backward-shift deletion: no tombstone is left behind. -/
def erase (index : OrderIndex hash) (ref : OrderRef) :
    Checked (OrderIndex hash) := do
  let i ← index.slotFrom ref index.slots.length (index.ideal ref)
  let index ← index.eraseAt index.slots.length i
  pure { index with live := index.live - 1 }

/-- The loop of `validate` from an ideal slot to the slot of its entry. -/
def checkChain (index : OrderIndex hash) (i : Nat) : Nat → Nat → Checked Unit
  | 0, _ => .error .divergence
  | fuel + 1, j =>
      if j = i then pure ()
      else do
        let entry ← index.slot j
        assertMsg (entry.handle.isNull = false)
          "an empty slot sits between an entry and its ideal slot"
        index.checkChain i fuel (index.after j)

/-- One round of `validate`, which counts the live entries. -/
def validateSlot (index : OrderIndex hash) (counted : UInt32) (i : Nat) :
    Checked UInt32 := do
  let entry ← index.slot i
  if entry.handle.isNull then pure counted
  else do
    index.checkChain i index.slots.length (index.ideal entry.ref)
    pure (counted + 1)

/-- Every entry can be found, and the count is right. -/
def validate (index : OrderIndex hash) : Checked Unit := do
  let counted ← (List.range index.slots.length).foldlM index.validateSlot 0
  assertMsg (counted = index.live) "index count disagrees with its contents"

/-! ## The map a table stands for -/

/-- What one slot contributes to the map. -/
def Entry.pair (entry : Entry) : Option (OrderRef × OrderHandle) :=
  if entry.handle.isNull then none else some (entry.ref, entry.handle)

/-- The contents of the slots, as a table of the library. -/
def table (index : OrderIndex hash) (i : Nat) :
    Option (OrderRef × OrderHandle) :=
  index.slots[i]?.bind Entry.pair

/-- The index has this many slots and holds the map, of this many entries. -/
structure Holds (index : OrderIndex hash) (size : Nat)
    (map : OrderRef → Option OrderHandle) (count : Nat) : Prop where
  length : index.slots.length = size
  mask : index.mask + 1 = size
  power : ∃ bits, size = 2 ^ bits
  small : size < 2 ^ 32
  represents : Probing.Represents size index.ideal index.table map count
  counted : index.live.toNat = count
  half : 2 * count ≤ size

/-- Masking with one less than a power of two is the remainder. -/
theorem and_mask {size bits mask : Nat} (power : size = 2 ^ bits)
    (exact : mask + 1 = size) (value : Nat) : value &&& mask = value % size := by
  obtain rfl : mask = 2 ^ bits - 1 := by omega
  rw [power, Nat.and_two_pow_sub_one_eq_mod]

@[simp]
theorem length_put (index : OrderIndex hash) (i : Nat) (entry : Entry) :
    (index.put i entry).slots.length = index.slots.length :=
  List.length_set

@[simp]
theorem ideal_put (index : OrderIndex hash) (i : Nat) (entry : Entry) :
    (index.put i entry).ideal = index.ideal :=
  rfl

theorem table_put {index : OrderIndex hash} {i : Nat}
    (inside : i < index.slots.length) (entry : Entry) :
    (index.put i entry).table =
      Function.update index.table i entry.pair := by
  funext place
  by_cases same : place = i
  · subst same
    rw [Function.update_self, table, put, List.getElem?_set_self inside]
    rfl
  · rw [Function.update_of_ne same, table, table, put,
      List.getElem?_set_ne (Ne.symm same)]

theorem slot_eq_ok {index : OrderIndex hash} {i : Nat}
    (inside : i < index.slots.length) :
    ∃ entry, index.slot i = .ok entry ∧ index.table i = entry.pair := by
  refine ⟨index.slots[i], ?_, ?_⟩
  · rw [slot, List.getElem?_eq_getElem inside]
  · rw [table, List.getElem?_eq_getElem inside]
    rfl

theorem pair_eq_none_iff {entry : Entry} :
    entry.pair = none ↔ entry.handle = Handle.null := by
  simp [Entry.pair]

theorem pair_eq_some_iff {entry : Entry} {ref : OrderRef}
    {h : OrderHandle} :
    entry.pair = some (ref, h) ↔
      entry.handle ≠ Handle.null ∧ entry.ref = ref ∧ entry.handle = h := by
  simp [Entry.pair]

section Holds

variable {index : OrderIndex hash} {size count : Nat}
  {map : OrderRef → Option OrderHandle}

theorem Holds.after_eq (holds : index.Holds size map count) {i : Nat}
    (inside : i < size) : index.after i = Probing.next size i := by
  obtain ⟨bits, power⟩ := holds.power
  have cases := Probing.offset_cases size i 1
  rw [after, and_mask power holds.mask, Probing.next]
  by_cases last : i + 1 = size
  · rw [last, Nat.mod_self]
    omega
  · rw [Nat.mod_eq_of_lt (by omega)]
    omega

/-- An entry which the table holds is not null. -/
theorem Holds.ne_null (holds : index.Holds size map count) {ref : OrderRef}
    {h : OrderHandle} (found : map ref = some h) : h ≠ Handle.null := by
  obtain ⟨i, inside, stored⟩ :=
    (holds.represents.stored ref h).mp found
  obtain ⟨entry, -, pair⟩ := slot_eq_ok (inside.trans_eq holds.length.symm)
  rw [pair, pair_eq_some_iff] at stored
  obtain ⟨notNull, -, rfl⟩ := stored
  exact notNull

theorem Holds.room (holds : index.Holds size map count) : count < size := by
  obtain ⟨bits, power⟩ := holds.power
  have positive := Nat.two_pow_pos bits
  have half := holds.half
  omega

/--
A loop which goes on at every entry of another reference ends at the slot of its
reference, or at the empty slot where the reference belongs.
-/
theorem Holds.walk {α : Type} (holds : index.Holds size map count)
    (ref : OrderRef) (loop : Nat → Nat → Checked α)
    (goes_on : ∀ fuel i other h, index.slot i = .ok ⟨other, h⟩ →
      h ≠ Handle.null → other ≠ ref →
        loop (fuel + 1) i = loop fuel (index.after i)) :
    ∃ steps < size,
      (∀ earlier < steps,
        index.table (Probing.offset size (index.ideal ref) earlier) ≠ none) ∧
      index.table (Probing.offset size (index.ideal ref) steps) =
        (map ref).map (fun h => (ref, h)) ∧
      ∃ fuel, loop index.slots.length (index.ideal ref) =
        loop (fuel + 1)
          (Probing.offset size (index.ideal ref) steps) := by
  obtain ⟨steps, small, others, last⟩ :=
    holds.represents.search holds.room ref
  have inside := holds.represents.homes ref
  refine ⟨steps, small, ?_, last, size - steps - 1, ?_⟩
  · intro earlier before
    obtain ⟨other, h, stored, -⟩ := others earlier before
    rw [stored]
    exact Option.some_ne_none _
  · have reaches : ∀ taken ≤ steps,
        loop index.slots.length (index.ideal ref) =
          loop (size - taken)
            (Probing.offset size (index.ideal ref) taken) := by
      intro taken
      induction taken with
      | zero =>
          intro _
          have cases := Probing.offset_cases size (index.ideal ref) 0
          have start :
              Probing.offset size (index.ideal ref) 0 = index.ideal ref := by
            omega
          rw [start, holds.length, Nat.sub_zero]
      | succ taken induction =>
          intro before
          obtain ⟨other, h, stored, different⟩ := others taken before
          have slotInside :
              Probing.offset size (index.ideal ref) taken < size :=
            Probing.offset_lt inside (by omega)
          obtain ⟨entry, slot, pair⟩ :=
            slot_eq_ok (slotInside.trans_eq holds.length.symm)
          rw [pair, pair_eq_some_iff] at stored
          obtain ⟨notNull, rfl, rfl⟩ := stored
          have fuel : size - taken = size - (taken + 1) + 1 := by omega
          rw [induction (by omega), fuel,
            goes_on _ _ _ _ slot notNull different,
            holds.after_eq slotInside,
            Probing.next_offset inside (by omega)]
    rw [reaches steps le_rfl]
    congr 1
    omega

/-- The probe finds what the map has. -/
theorem Holds.find (holds : index.Holds size map count) (ref : OrderRef) :
    index.find ref = .ok ((map ref).getD Handle.null) := by
  obtain ⟨steps, small, -, last, fuel, reaches⟩ :=
    holds.walk ref (index.findFrom ref) (by
      intro fuel i other h slot notNull different
      rw [findFrom, slot]
      simp [notNull, different])
  have inside := Probing.offset_lt (holds.represents.homes ref) small.le
  obtain ⟨entry, slot, pair⟩ :=
    slot_eq_ok (inside.trans_eq holds.length.symm)
  rw [OrderIndex.find, reaches, findFrom, slot]
  rw [pair] at last
  cases found : map ref with
  | none =>
      rw [found, Option.map_none, pair_eq_none_iff] at last
      simp [last]
  | some h =>
      rw [found, Option.map_some, pair_eq_some_iff] at last
      obtain ⟨notNull, atRef, rfl⟩ := last
      simp [notNull, atRef]

/-- The half-full check passes while the next entry fits in half the table. -/
theorem Holds.below_half (holds : index.Holds size map count)
    (room : 2 * (count + 1) ≤ size) :
    (index.live * 2).toNat < index.slots.length := by
  have small := holds.small
  rw [holds.length, UInt32.toNat_mul, holds.counted]
  change count * 2 % 2 ^ 32 < size
  rw [Nat.mod_eq_of_lt (by omega)]
  omega

/-- At most half full, the table takes one more entry. -/
theorem Holds.insert (holds : index.Holds size map count)
    {ref : OrderRef} {h : OrderHandle} (absent : map ref = none)
    (notNull : h ≠ Handle.null) (room : 2 * (count + 1) ≤ size) :
    ∃ index', index.insert ref h = .ok index' ∧
      index'.Holds size (Function.update map ref (some h)) (count + 1) := by
  obtain ⟨steps, stepsSmall, crossed, last, fuel, reaches⟩ :=
    holds.walk ref (index.vacantFrom ref) (by
      intro fuel i other h slot occupied different
      rw [vacantFrom, slot]
      simp [occupied, different])
  have inside := Probing.offset_lt (holds.represents.homes ref)
    stepsSmall.le
  rw [absent, Option.map_none] at last
  obtain ⟨entry, slot, pair⟩ :=
    slot_eq_ok (inside.trans_eq holds.length.symm)
  have vacant : entry.handle = Handle.null :=
    pair_eq_none_iff.mp (pair.symm.trans last)
  have added : (⟨ref, h⟩ : Entry).pair = some (ref, h) :=
    pair_eq_some_iff.mpr ⟨notNull, rfl, rfl⟩
  have ends : index.vacantFrom ref index.slots.length (index.ideal ref) =
      .ok (Probing.offset size (index.ideal ref) steps) := by
    rw [reaches, vacantFrom, slot]
    simp [vacant]
  refine ⟨_, by
    rw [OrderIndex.insert, assertMsg_of (by simpa using notNull), ok_bind,
      assertMsg_of (holds.below_half room), ok_bind, ends, ok_bind,
      pure_eq_ok], ?_⟩
  have represents := holds.represents.insert absent stepsSmall crossed last h
  rw [← added, ← table_put (inside.trans_eq holds.length.symm)]
    at represents
  refine
    { length := by simp [holds.length]
      mask := holds.mask
      power := holds.power
      small := holds.small
      represents := represents
      counted := ?_
      half := room }
  have small := holds.small
  rw [UInt32.toNat_add, holds.counted, UInt32.toNat_one]
  exact Nat.mod_eq_of_lt (by omega)

/-- The test of the source is the one of the library. -/
theorem stays_iff {i k j : Nat} :
    stays i k j = true ↔ Probing.Stays i k j := by
  unfold stays Probing.Stays
  split_ifs <;> simp

/--
While a hole is closed: the inner loop ends at an empty slot, where the chains
are whole again, or at an entry which must move.
-/
theorem movingFrom_spec {hole j empty fuel : Nat}
    (length : index.slots.length = size)
    (after : ∀ i < size, index.after i = Probing.next size i)
    (closing : Probing.Hole size index.ideal index.table map count hole j)
    (emptyInside : empty < size) (isEmpty : index.table empty = none)
    (enough : Probing.distance size j empty < fuel) (notYet : j ≠ empty) :
    index.movingFrom hole fuel j = .ok none ∧
        Probing.Represents size index.ideal index.table map count ∨
      ∃ scanned ref h,
        index.movingFrom hole fuel j =
          .ok (some (Probing.next size scanned)) ∧
        Probing.Hole size index.ideal index.table map count hole scanned ∧
        index.table (Probing.next size scanned) = some (ref, h) ∧
        ¬ Probing.Stays hole (index.ideal ref) (Probing.next size scanned) ∧
        Probing.distance size (Probing.next size scanned) empty <
          Probing.distance size j empty := by
  induction fuel generalizing j with
  | zero => omega
  | succ fuel induction =>
      have jInside := closing.scannedInside
      have nextInside := Probing.next_lt jInside
      have closer := Probing.distance_next jInside emptyInside notYet
      have slotInside : Probing.next size j < index.slots.length :=
        nextInside.trans_eq length.symm
      obtain ⟨entry, slot, pair⟩ := slot_eq_ok slotInside
      rw [movingFrom, after j jInside, slot]
      cases holds : index.table (Probing.next size j) with
      | none =>
          left
          have vacant := pair_eq_none_iff.mp (pair.symm.trans holds)
          exact ⟨by simp [vacant], closing.close holds⟩
      | some contents =>
          obtain ⟨ref, h⟩ := contents
          obtain ⟨occupied, rfl, rfl⟩ :=
            pair_eq_some_iff.mp (pair.symm.trans holds)
          by_cases staying : Probing.Stays hole (index.ideal entry.ref)
              (Probing.next size j)
          · have ahead : Probing.next size j ≠ empty := by
              rintro same
              rw [same, isEmpty] at holds
              cases holds
            have stays := stays_iff.mpr staying
            simp only [ok_bind, Handle.isNull_iff, occupied, if_false,
              stays, if_true]
            rcases induction (closing.stay holds staying) (by omega) ahead
              with done | ⟨scanned, ref, h, ran, rest⟩
            · exact Or.inl done
            · exact Or.inr ⟨scanned, ref, h, ran, rest.1, rest.2.1,
                rest.2.2.1, by omega⟩
          · right
            have moves : stays hole (index.ideal entry.ref)
                (Probing.next size j) ≠ true :=
              fun stays => staying (stays_iff.mp stays)
            refine ⟨j, entry.ref, entry.handle, ?_, closing, holds, staying,
              by omega⟩
            simp [occupied, moves]

theorem eraseAt_spec {hole empty fuel : Nat}
    (length : index.slots.length = size)
    (after : ∀ i < size, index.after i = Probing.next size i)
    (closing : Probing.Hole size index.ideal
      (Function.update index.table hole none) map count hole hole)
    (emptyInside : empty < size) (isEmpty : index.table empty = none)
    (other : empty ≠ hole)
    (enough : Probing.distance size hole empty < fuel) :
    ∃ index', index.eraseAt fuel hole = .ok index' ∧
      index'.slots.length = size ∧ index'.mask = index.mask ∧
      index'.live = index.live ∧
      Probing.Represents size index'.ideal index'.table map count := by
  induction fuel generalizing index hole with
  | zero => omega
  | succ fuel induction =>
      have holeInside := closing.holeInside
      have slotInside : hole < index.slots.length :=
        holeInside.trans_eq length.symm
      obtain ⟨entry, slot, -⟩ := slot_eq_ok slotInside
      obtain ⟨cleared, cleared_eq⟩ :
          ∃ cleared, index.put hole { entry with handle := Handle.null } =
            cleared := ⟨_, rfl⟩
      have mask : cleared.mask = index.mask := cleared_eq ▸ rfl
      have live : cleared.live = index.live := cleared_eq ▸ rfl
      have ideal : cleared.ideal = index.ideal := cleared_eq ▸ rfl
      have clearedLength : cleared.slots.length = size := by
        rw [← cleared_eq, length_put, length]
      have clearedTable : cleared.table =
          Function.update index.table hole none := by
        rw [← cleared_eq, table_put slotInside]
        rfl
      have clearedAfter : ∀ i < size, cleared.after i = Probing.next size i :=
        cleared_eq ▸ after
      have stillEmpty : cleared.table empty = none := by
        rw [clearedTable, Function.update_of_ne other, isEmpty]
      rw [← clearedTable, ← ideal] at closing
      rw [eraseAt, slot, ok_bind]
      dsimp only
      rw [cleared_eq]
      rcases movingFrom_spec clearedLength clearedAfter closing emptyInside
          stillEmpty
          ((Probing.distance_lt holeInside emptyInside).trans_eq
            clearedLength.symm)
          (Ne.symm other) with
        ⟨ran, represents⟩ | ⟨scanned, ref, h, ran, moving, holds, moves, less⟩
      · rw [ran]
        exact ⟨cleared, rfl, clearedLength, mask, live, represents⟩
      · have nextInside := Probing.next_lt moving.scannedInside
        obtain ⟨moved, movedSlot, pair⟩ :=
          slot_eq_ok (nextInside.trans_eq clearedLength.symm)
        have filled := table_put (holeInside.trans_eq clearedLength.symm)
          moved
        have next := moving.move holds moves
        rw [← holds, pair, ← filled] at next
        rw [ran, ok_bind]
        dsimp only
        rw [movedSlot, ok_bind]
        obtain ⟨index', erased, length', mask', live', represents⟩ :=
          @induction (cleared.put hole moved) _
            ((length_put _ _ _).trans clearedLength) clearedAfter next
            (by rw [filled, Function.update_of_ne other, stillEmpty])
            (by rintro rfl; rw [stillEmpty] at holds; cases holds)
            (by omega)
        exact ⟨index', erased, length', mask'.trans mask, live'.trans live,
          represents⟩

/-- The table holds the map without the entry, and every other one is found. -/
theorem Holds.erase (holds : index.Holds size map (count + 1))
    {ref : OrderRef} {h : OrderHandle} (found : map ref = some h) :
    ∃ index', index.erase ref = .ok index' ∧
      index'.Holds size (Function.update map ref none) count := by
  obtain ⟨steps, stepsSmall, -, last, fuel, reaches⟩ :=
    holds.walk ref (index.slotFrom ref) (by
      intro fuel i other h slot occupied different
      rw [slotFrom, slot]
      simp [occupied, different])
  have inside := Probing.offset_lt (holds.represents.homes ref)
    stepsSmall.le
  rw [found, Option.map_some] at last
  generalize Probing.offset size (index.ideal ref) steps = i at *
  obtain ⟨entry, slot, pair⟩ :=
    slot_eq_ok (inside.trans_eq holds.length.symm)
  obtain ⟨occupied, atRef, -⟩ := pair_eq_some_iff.mp (pair.symm.trans last)
  have ends : index.slotFrom ref index.slots.length (index.ideal ref) =
      .ok i := by
    rw [reaches, slotFrom, slot]
    simp [occupied, atRef]
  obtain ⟨empty, emptyInside, isEmpty⟩ :=
    holds.represents.exists_empty holds.room
  have other : empty ≠ i := by
    rintro rfl
    rw [isEmpty] at last
    cases last
  have closing := holds.represents.vacate inside last
  obtain ⟨index', erased, length, mask, live, represents⟩ :=
    eraseAt_spec holds.length (fun i inside => holds.after_eq inside) closing
      emptyInside isEmpty other
      ((Probing.distance_lt inside emptyInside).trans_eq holds.length.symm)
  refine ⟨_, by
    rw [OrderIndex.erase, ends, ok_bind, erased, ok_bind, pure_eq_ok], ?_⟩
  refine
    { length := length
      mask := by rw [mask, holds.mask]
      power := holds.power
      small := holds.small
      represents := represents
      counted := ?_
      half := by have half := holds.half; omega }
  have counted := holds.counted
  have positive : (1 : UInt32) ≤ index.live := by
    rw [UInt32.le_iff_toNat_le, counted, UInt32.toNat_one]
    omega
  rw [live, UInt32.toNat_sub_of_le _ _ positive, counted, UInt32.toNat_one]
  rfl

end Holds

/-! ## A new index -/

/-- `std::bit_ceil` returns a power of two. -/
theorem bitCeil_power {value result : UInt32}
    (ceiled : bitCeil value = .ok result) :
    ∃ bits, result.toNat = 2 ^ bits := by
  unfold bitCeil at ceiled
  dsimp only at ceiled
  split_ifs at ceiled with small room room
  · obtain rfl := Except.ok.inj ceiled
    exact ⟨0, rfl⟩
  · obtain rfl := Except.ok.inj ceiled
    exact ⟨_, UInt32.toNat_ofNat_of_lt' room⟩

/-- A new index is empty. -/
theorem holds_of_make {capacityHint : UInt32} {index : OrderIndex hash}
    (made : make capacityHint = .ok index) :
    index.Holds index.capacity (fun _ => none) 0 := by
  unfold make at made
  obtain ⟨want, ceiled, made⟩ := bind_eq_ok_iff.mp made
  rw [pure_eq_ok, Except.ok.injEq] at made
  obtain ⟨bits, power⟩ := bitCeil_power ceiled
  have positive := Nat.two_pow_pos bits
  have small := want.toNat_lt
  subst made
  have length : (List.replicate want.toNat
      (⟨0, Handle.null⟩ : Entry)).length = want.toNat :=
    List.length_replicate
  have isEmpty : ∀ i, ({ slots := List.replicate want.toNat ⟨0, Handle.null⟩
                         mask := want.toNat - 1 } :
      OrderIndex hash).table i = none := by
    intro i
    rw [table]
    cases found : (List.replicate want.toNat
      (⟨0, Handle.null⟩ : Entry))[i]? with
    | none => rfl
    | some entry =>
        obtain rfl := List.eq_of_mem_replicate (List.mem_of_getElem? found)
        rfl
  rw [capacity, length]
  refine
    { length := length
      mask := by dsimp only; omega
      power := ⟨bits, power⟩
      small := small
      represents := ⟨⟨?_, ?_, ?_⟩, ?_, ?_⟩
      counted := rfl
      half := Nat.zero_le _ }
  · intro ref h
    simp [isEmpty]
  · intro first second ref h other _ _ holds
    rw [isEmpty] at holds
    cases holds
  · rw [Finset.card_eq_zero, Finset.eq_empty_iff_forall_notMem]
    intro i member
    exact (Probing.mem_occupied.mp member).2 (isEmpty i)
  · intro ref
    rw [ideal, and_mask power (by dsimp only; omega)]
    exact Nat.mod_lt _ (by omega)
  · intro i ref h _ holds
    rw [isEmpty] at holds
    cases holds

end OrderIndex

end ItchExchange.Book
