import ItchExchange.Book.OrderIndex
import Std.Data.ExtTreeMap.Lemmas

/-!
# The order index under churn

Sequences of insertions and erasures against a finite map of references to
handles, and the structural check which every state passes.
-/

namespace ItchExchange.Book.OrderIndex

open ItchExchange.Core
open Std (ExtTreeMap)

variable {hash : OrderRef → UInt64}

/-! ## The structural check -/

section Validate

variable {index : OrderIndex hash} {size count : Nat}
  {map : OrderRef → Option OrderHandle}

/-- The walk from an ideal slot to its entry crosses occupied slots only. -/
theorem Holds.checkChain (holds : index.Holds size map count) {i j fuel : Nat}
    (inside : i < size) (start : j < size)
    (occupied : ∀ between < size,
      Probing.distance size j between < Probing.distance size j i →
        index.table between ≠ none)
    (enough : Probing.distance size j i < fuel) :
    index.checkChain i fuel j = .ok () := by
  induction fuel generalizing j with
  | zero => omega
  | succ fuel induction =>
      by_cases arrived : j = i
      · rw [OrderIndex.checkChain, if_pos arrived, pure_eq_ok]
      · have closer := Probing.distance_next start inside arrived
        have here := Probing.distance_cases start j
        obtain ⟨entry, slot, pair⟩ :=
          slot_eq_ok (start.trans_eq holds.length.symm)
        have notNull : entry.handle ≠ Handle.null := by
          rw [ne_eq, ← pair_eq_none_iff, ← pair]
          exact occupied j start (by omega)
        rw [OrderIndex.checkChain, if_neg arrived, slot, ok_bind,
          assertMsg_of (Handle.isNull_eq_false_iff.mpr notNull), ok_bind,
          holds.after_eq start]
        refine induction (Probing.next_lt start) ?_ (by omega)
        intro between betweenInside before
        have fromNext :=
          Probing.distance_cases (Probing.next_lt start) between
        have fromHere := Probing.distance_cases start between
        have toEnd := Probing.distance_cases (Probing.next_lt start) i
        have toEndHere := Probing.distance_cases start i
        have step := Probing.offset_cases size j 1
        have step_eq : Probing.next size j = Probing.offset size j 1 := rfl
        exact occupied between betweenInside (by omega)

theorem occupied_succ (table : Nat → Option (OrderRef × OrderHandle))
    (i : Nat) :
    (Probing.occupied (i + 1) table).card =
      (Probing.occupied i table).card +
        if table i = none then 0 else 1 := by
  unfold Probing.occupied
  rw [Finset.range_add_one, Finset.filter_insert]
  cases table i with
  | none => simp
  | some pair =>
      rw [if_pos Option.isSome_some, Finset.card_insert_of_notMem (by simp)]
      rfl

/-- The check passes the slots in order and counts the occupied ones. -/
theorem Holds.validateSlots (holds : index.Holds size map count) {stop : Nat}
    (inside : stop ≤ size) :
    (List.range stop).foldlM index.validateSlot 0 =
      .ok (UInt32.ofNat (Probing.occupied stop index.table).card) := by
  induction stop with
  | zero => rfl
  | succ stop induction =>
      obtain ⟨entry, slot, pair⟩ :=
        slot_eq_ok (Nat.lt_of_lt_of_eq inside holds.length.symm)
      rw [List.range_succ, List.foldlM_append, induction (by omega), ok_bind,
        List.foldlM_cons, validateSlot, slot, ok_bind, occupied_succ, pair]
      by_cases isNull : entry.handle = Handle.null
      · have none := pair_eq_none_iff.mpr isNull
        rw [if_pos (Handle.isNull_iff.mpr isNull), if_pos none]
        rfl
      · have held : index.table stop = some (entry.ref, entry.handle) := by
          rw [pair, pair_eq_some_iff]
          exact ⟨isNull, rfl, rfl⟩
        have notNone : entry.pair ≠ none := mt pair_eq_none_iff.mp isNull
        have home := holds.represents.homes entry.ref
        have chain := holds.checkChain inside home
          (fun between betweenInside before =>
            holds.represents.reachable inside held betweenInside before)
          ((Probing.distance_lt home inside).trans_eq holds.length.symm)
        rw [if_neg (mt Handle.isNull_iff.mp isNull), if_neg notNone, chain,
          UInt32.ofNat_add]
        rfl

theorem Holds.validate (holds : index.Holds size map count) :
    index.validate = .ok () := by
  rw [OrderIndex.validate, holds.validateSlots holds.length.le, ok_bind,
    holds.length, holds.represents.counted]
  refine assertMsg_of (UInt32.toNat_inj.mp ?_)
  have small := holds.small
  have half := holds.half
  have bound : count < UInt32.size := by
    change count < 2 ^ 32
    omega
  rw [holds.counted, UInt32.toNat_ofNat_of_lt' bound]

end Validate

/-! ## Churn -/

/-- One call which changes the index. -/
inductive Churn where
  | insert (ref : OrderRef) (h : OrderHandle)
  | erase (ref : OrderRef)
deriving DecidableEq, Repr

def churn (index : OrderIndex hash) : Churn → Checked (OrderIndex hash)
  | .insert ref h => index.insert ref h
  | .erase ref => index.erase ref

def churnAll (index : OrderIndex hash) :
    List Churn → Checked (OrderIndex hash)
  | [] => .ok index
  | call :: rest => do
      let index ← index.churn call
      index.churnAll rest

/-- The references present, each with the handle it was last inserted with. -/
abbrev Present := ExtTreeMap OrderRef OrderHandle

/--
What a call means, for a table of this capacity.  A new reference must be absent,
its handle not null, and the table less than half full; an erased reference must
be present.
-/
def Present.churn? (capacity : Nat) (present : Present) :
    Churn → Option Present
  | .insert ref h =>
      if present[ref]? = none ∧ h ≠ Handle.null ∧
          2 * present.size < capacity then
        some (present.insert ref h)
      else none
  | .erase ref =>
      if present[ref]? ≠ none then some (present.erase ref) else none

def Present.churnAll? (capacity : Nat) (present : Present) :
    List Churn → Option Present
  | [] => some present
  | call :: rest =>
      (present.churn? capacity call).bind fun next =>
        next.churnAll? capacity rest

section Churn

variable {index : OrderIndex hash} {size : Nat} {present next : Present}

/-- The index stands for the references present. -/
def Indexes (index : OrderIndex hash) (size : Nat) (present : Present) : Prop :=
  index.Holds size (fun ref => present[ref]?) present.size

theorem getElem?_insert (ref : OrderRef) (h : OrderHandle) :
    (fun other => (present.insert ref h)[other]?) =
      Function.update (fun other => present[other]?) ref (some h) := by
  funext other
  rw [ExtTreeMap.getElem?_insert]
  by_cases same : other = ref
  · subst same
    simp
  · rw [Function.update_of_ne same, if_neg]
    rw [Std.LawfulEqCmp.compare_eq_iff_eq]
    exact Ne.symm same

theorem getElem?_erase (ref : OrderRef) :
    (fun other => (present.erase ref)[other]?) =
      Function.update (fun other => present[other]?) ref none := by
  funext other
  rw [ExtTreeMap.getElem?_erase]
  by_cases same : other = ref
  · subst same
    simp
  · rw [Function.update_of_ne same, if_neg]
    rw [Std.LawfulEqCmp.compare_eq_iff_eq]
    exact Ne.symm same

/-- Before the table is half full there is room for one more in its half. -/
theorem Holds.room_of_half {map : OrderRef → Option OrderHandle} {count : Nat}
    (holds : index.Holds size map count) (large : 2 ≤ size)
    (below : 2 * count < size) : 2 * (count + 1) ≤ size := by
  obtain ⟨bits, power⟩ := holds.power
  cases bits with
  | zero => omega
  | succ bits =>
      rw [Nat.pow_succ] at power
      omega

theorem Indexes.churn (indexes : index.Indexes size present)
    (large : 2 ≤ size) {call : Churn}
    (accepted : present.churn? size call = some next) :
    ∃ index', index.churn call = .ok index' ∧ index'.Indexes size next := by
  cases call with
  | insert ref h =>
      unfold Present.churn? at accepted
      dsimp only at accepted
      split_ifs at accepted with allowed
      obtain ⟨absent, notNull, below⟩ := allowed
      obtain rfl := Option.some.inj accepted
      obtain ⟨index', inserted, holds⟩ :=
        indexes.insert absent notNull (indexes.room_of_half large below)
      refine ⟨index', inserted, ?_⟩
      have notMember : ¬ present.contains ref = true := by
        rw [ExtTreeMap.contains_eq_isSome_getElem?, absent]
        simp
      rw [Indexes, getElem?_insert, ExtTreeMap.size_insert, if_neg notMember]
      exact holds
  | erase ref =>
      unfold Present.churn? at accepted
      dsimp only at accepted
      split_ifs at accepted with allowed
      obtain rfl := Option.some.inj accepted
      obtain ⟨h, found⟩ := Option.ne_none_iff_exists'.mp allowed
      have member : present.contains ref = true := by
        rw [ExtTreeMap.contains_eq_isSome_getElem?, found]
        rfl
      have smaller : (present.erase ref).size = _ := ExtTreeMap.size_erase
      rw [if_pos member] at smaller
      have positive : 0 < present.size := by
        rw [Nat.pos_iff_ne_zero]
        intro isZero
        rw [ExtTreeMap.eq_empty_iff_size_eq_zero.mpr isZero] at found
        simp at found
      have before : index.Holds size (fun ref => present[ref]?)
          ((present.erase ref).size + 1) := by
        rw [smaller, Nat.sub_add_cancel positive]
        exact indexes
      obtain ⟨index', erased, holds⟩ := before.erase found
      exact ⟨index', erased, by rw [Indexes, getElem?_erase]; exact holds⟩

theorem Indexes.churnAll (indexes : index.Indexes size present)
    (large : 2 ≤ size) {calls : List Churn}
    (accepted : present.churnAll? size calls = some next) :
    ∃ index', index.churnAll calls = .ok index' ∧
      index'.Indexes size next := by
  induction calls generalizing index present with
  | nil =>
      obtain rfl := Option.some.inj accepted
      exact ⟨index, rfl, indexes⟩
  | cons call rest induction =>
      obtain ⟨middle, first, later⟩ := Option.bind_eq_some_iff.mp accepted
      obtain ⟨index', called, middleIndexes⟩ := indexes.churn large first
      obtain ⟨final, ran, finalIndexes⟩ := induction middleIndexes later
      refine ⟨final, ?_, finalIndexes⟩
      rw [OrderIndex.churnAll, called, ok_bind, ran]

end Churn

/-! ## A table from a hint -/

theorem log2_pred_add_one {n : Nat} (large : 1 < n) :
    (n - 1).log2 + 1 = Nat.clog 2 n := by
  refine le_antisymm ?_ ?_
  · have below := Nat.log2_self_le (show n - 1 ≠ 0 by omega)
    exact (Nat.lt_clog_iff_pow_lt one_lt_two).mpr (by omega)
  · have above := @Nat.lt_log2_self (n - 1)
    exact Nat.clog_le_of_le_pow (by omega)

/-- Up to `2 ^ 31` there is room for the least power of two above a value. -/
theorem bitCeil_eq_clog {value : UInt32} (small : value.toNat ≤ 2 ^ 31) :
    ∃ result, bitCeil value = .ok result ∧
      result.toNat = 2 ^ Nat.clog 2 value.toNat := by
  have room : 2 ^ Nat.clog 2 value.toNat < 2 ^ 32 :=
    Nat.pow_lt_pow_right one_lt_two
      (Nat.lt_succ_of_le (Nat.clog_le_of_le_pow small))
  have power : (if value ≤ 1 then 1 else 2 ^ ((value.toNat - 1).log2 + 1)) =
      2 ^ Nat.clog 2 value.toNat := by
    split_ifs with least
    · rw [UInt32.le_iff_toNat_le, UInt32.toNat_one] at least
      rw [Nat.clog_of_right_le_one least, Nat.pow_zero]
    · rw [UInt32.le_iff_toNat_le, UInt32.toNat_one] at least
      rw [log2_pred_add_one (by omega)]
  refine ⟨UInt32.ofNat (2 ^ Nat.clog 2 value.toNat), ?_,
    UInt32.toNat_ofNat_of_lt' room⟩
  unfold bitCeil
  dsimp only
  rw [power, if_pos room]

/--
A hint up to `2 ^ 30` always gives a table, of the least power of two of slots
above twice the hint and above 16.
-/
theorem make_eq_clog {capacityHint : UInt32}
    (small : capacityHint.toNat ≤ 2 ^ 30) :
    ∃ index : OrderIndex hash, make capacityHint = .ok index ∧
      index.capacity = 2 ^ Nat.clog 2 (max 16 (2 * capacityHint.toNat)) := by
  have doubled : (capacityHint * 2).toNat = 2 * capacityHint.toNat := by
    rw [UInt32.toNat_mul, Nat.mul_comm]
    exact Nat.mod_eq_of_lt (by change 2 * capacityHint.toNat < 2 ^ 32; omega)
  obtain ⟨asked, asked_eq⟩ :
      ∃ asked : UInt32,
        (if capacityHint < 8 then 16 else capacityHint * 2) = asked := ⟨_, rfl⟩
  have value : asked.toNat = max 16 (2 * capacityHint.toNat) := by
    rw [← asked_eq]
    split_ifs with tiny
    · rw [UInt32.lt_iff_toNat_lt] at tiny
      change capacityHint.toNat < 8 at tiny
      have sixteen : (16 : UInt32).toNat = 16 := rfl
      omega
    · rw [UInt32.lt_iff_toNat_lt] at tiny
      change ¬ capacityHint.toNat < 8 at tiny
      omega
  obtain ⟨want, ceiled, power⟩ :=
    @bitCeil_eq_clog asked (by omega)
  refine ⟨_, by rw [make, asked_eq, ceiled, ok_bind, pure_eq_ok], ?_⟩
  rw [capacity, List.length_replicate, power, value]

/-- A hint up to `2 ^ 30` always gives a table, of at least 16 slots. -/
theorem make_fits {capacityHint : UInt32}
    (small : capacityHint.toNat ≤ 2 ^ 30) :
    ∃ index : OrderIndex hash, make capacityHint = .ok index ∧
      16 ≤ index.capacity ∧ 2 * capacityHint.toNat ≤ index.capacity := by
  obtain ⟨index, made, capacity⟩ := make_eq_clog small
  have above :=
    Nat.le_pow_clog one_lt_two (max 16 (2 * capacityHint.toNat))
  exact ⟨index, made, by omega, by omega⟩

theorem make_eq_ok {capacityHint : UInt32} (small : capacityHint < 2 ^ 30) :
    ∃ index : OrderIndex hash, make capacityHint = .ok index ∧
      16 ≤ index.capacity := by
  rw [UInt32.lt_iff_toNat_lt] at small
  change capacityHint.toNat < 2 ^ 30 at small
  obtain ⟨index, made, large, -⟩ := make_fits small.le
  exact ⟨index, made, large⟩

theorem indexes_of_make {capacityHint : UInt32} {index : OrderIndex hash}
    (made : make capacityHint = .ok index) :
    index.Indexes index.capacity ∅ := by
  have holds := holds_of_make made
  have none : (fun ref : OrderRef => (∅ : Present)[ref]?) = fun _ => none := by
    funext ref
    exact ExtTreeMap.getElem?_empty
  rw [Indexes, none]
  exact holds

/--
The index is a finite map under any churn: whatever the hash function, it
carries out every accepted sequence of calls, finds every reference present and
no other one, and passes its check.
-/
theorem orderIndex_isFiniteMap (hash : OrderRef → UInt64)
    (capacityHint : UInt32) (small : capacityHint < 2 ^ 30) :
    ∃ index : OrderIndex hash, make capacityHint = .ok index ∧
      16 ≤ index.capacity ∧
      ∀ (calls : List Churn) (present : Present),
        Present.churnAll? index.capacity ∅ calls = some present →
          ∃ index', index.churnAll calls = .ok index' ∧
            (∀ ref : OrderRef, index'.find ref =
              .ok (present[ref]?.getD Handle.null)) ∧
            index'.size.toNat = present.size ∧
            index'.validate = .ok () := by
  obtain ⟨index, made, large⟩ := make_eq_ok small
  refine ⟨index, made, large, fun calls present accepted => ?_⟩
  obtain ⟨index', ran, indexes⟩ :=
    (indexes_of_make made).churnAll (by omega) accepted
  exact ⟨index', ran, indexes.find, indexes.counted, indexes.validate⟩

/-- Two references of one ideal slot, the first of which is erased. -/
theorem orderIndex_isFiniteMap_collision :
    (0 : UInt32) < 2 ^ 30 ∧
      ∃ index index' : OrderIndex IndexHash.identity.hash,
        make 0 = .ok index ∧
        index.churnAll
          [.insert 7 ⟨1⟩, .insert 23 ⟨2⟩, .erase 7] = .ok index' ∧
        index'.find 23 = .ok ⟨2⟩ ∧ index'.find 7 = .ok Handle.null ∧
        index'.size.toNat = 1 := by
  refine ⟨by decide, ?_⟩
  obtain ⟨index, made, -, runs⟩ :=
    orderIndex_isFiniteMap IndexHash.identity.hash 0 (by decide)
  have capacity : index.capacity = 16 := by
    have built : (make 0 : Checked (OrderIndex IndexHash.identity.hash)) =
        .ok { slots := List.replicate 16 ⟨0, Handle.null⟩, mask := 15 } := by
      rfl
    rw [← Except.ok.inj (built.symm.trans made)]
    rfl
  obtain ⟨index', ran, find, size, -⟩ :=
    runs [.insert 7 ⟨1⟩, .insert 23 ⟨2⟩, .erase 7]
      (((∅ : Present).insert 7 ⟨1⟩ |>.insert 23 ⟨2⟩).erase 7) (by
        rw [capacity]
        simp [Present.churnAll?, Present.churn?, Handle.null,
          Handle.kNullBits, ExtTreeMap.size_insert])
  refine ⟨index, index', made, ran, ?_, ?_, ?_⟩
  · rw [find]
    simp
  · rw [find]
    simp
  · rw [size]
    simp [ExtTreeMap.size_erase, ExtTreeMap.size_insert]

/-! ## A table is never too small for its hint -/

/-- Entries inserted one after another. -/
def insertAll (index : OrderIndex hash) :
    List (OrderRef × OrderHandle) → Checked (OrderIndex hash)
  | [] => .ok index
  | (ref, h) :: rest => do
      let index ← index.insert ref h
      index.insertAll rest

section InsertAll

variable {index next : OrderIndex hash} {size count : Nat}
  {map : OrderRef → Option OrderHandle}

theorem Holds.insertAll (holds : index.Holds size map count)
    {entries : List (OrderRef × OrderHandle)}
    (distinct : (entries.map Prod.fst).Nodup)
    (fresh : ∀ entry ∈ entries, map entry.1 = none)
    (notNull : ∀ entry ∈ entries, entry.2 ≠ Handle.null)
    (room : 2 * (count + entries.length) ≤ size) :
    ∃ filled, index.insertAll entries = .ok filled := by
  induction entries generalizing index map count with
  | nil => exact ⟨index, rfl⟩
  | cons entry rest induction =>
      obtain ⟨ref, h⟩ := entry
      rw [List.map_cons, List.nodup_cons] at distinct
      rw [List.length_cons] at room
      obtain ⟨freshHere, freshLater⟩ := List.forall_mem_cons.mp fresh
      obtain ⟨notNullHere, notNullLater⟩ := List.forall_mem_cons.mp notNull
      obtain ⟨middle, inserted, middleHolds⟩ :=
        holds.insert freshHere notNullHere (by omega)
      have stillFresh : ∀ entry ∈ rest,
          Function.update map ref (some h) entry.1 = none := by
        intro entry member
        rw [Function.update_of_ne]
        · exact freshLater entry member
        · rintro rfl
          exact distinct.1 (List.mem_map.mpr ⟨entry, member, rfl⟩)
      obtain ⟨filled, ran⟩ := induction middleHolds distinct.2 stillFresh
        notNullLater (by omega)
      refine ⟨filled, ?_⟩
      rw [OrderIndex.insertAll, inserted, ok_bind, ran]

/-- An insertion which passes the checks is that of a new reference. -/
theorem Holds.of_insert (holds : index.Holds size map count)
    (large : 2 ≤ size) {ref : OrderRef} {h : OrderHandle}
    (inserted : index.insert ref h = .ok next) :
    next.Holds size (Function.update map ref (some h)) (count + 1) := by
  have passed := inserted
  rw [OrderIndex.insert] at passed
  obtain ⟨_, isNull, passed⟩ := bind_eq_ok_iff.mp passed
  obtain ⟨_, isHalf, passed⟩ := bind_eq_ok_iff.mp passed
  obtain ⟨place, vacant, -⟩ := bind_eq_ok_iff.mp passed
  have notNull : h ≠ Handle.null :=
    Handle.isNull_eq_false_iff.mp (assertMsg_eq_ok_iff.mp isNull)
  have half := assertMsg_eq_ok_iff.mp isHalf
  have small := holds.small
  have within := holds.half
  rw [holds.length, UInt32.toNat_mul, holds.counted] at half
  change count * 2 % 2 ^ 32 < size at half
  rw [Nat.mod_eq_of_lt (by omega)] at half
  cases found : map ref with
  | none =>
      obtain ⟨other, again, otherHolds⟩ := holds.insert found notNull
        (holds.room_of_half large (by omega))
      rw [Except.ok.inj (inserted.symm.trans again)]
      exact otherHolds
  | some older =>
      -- The search ends at the entry of the reference, which is refused.
      obtain ⟨steps, stepsSmall, -, last, fuel, reaches⟩ :=
        holds.walk ref (index.vacantFrom ref) (by
          intro fuel i other h slot occupied different
          rw [vacantFrom, slot]
          simp [occupied, different])
      have inside := Probing.offset_lt (holds.represents.homes ref)
        stepsSmall.le
      obtain ⟨entry, slot, pair⟩ :=
        slot_eq_ok (inside.trans_eq holds.length.symm)
      rw [pair, found, Option.map_some, pair_eq_some_iff] at last
      obtain ⟨occupied, same, -⟩ := last
      rw [reaches, vacantFrom, slot] at vacant
      simp [occupied, same, assertMsg] at vacant

theorem Holds.of_insertAll (holds : index.Holds size map count)
    (large : 2 ≤ size) {entries : List (OrderRef × OrderHandle)}
    (inserted : index.insertAll entries = .ok next) :
    ∃ later, next.Holds size later (count + entries.length) ∧
      ∀ ref, map ref = none → ref ∉ entries.map Prod.fst →
        later ref = none := by
  induction entries generalizing index map count with
  | nil =>
      cases inserted
      exact ⟨map, holds, fun ref absent _ => absent⟩
  | cons entry rest induction =>
      obtain ⟨ref, h⟩ := entry
      obtain ⟨middle, first, others⟩ := bind_eq_ok_iff.mp inserted
      obtain ⟨later, laterHolds, absent⟩ :=
        induction (holds.of_insert large first) others
      rw [Nat.add_assoc, Nat.add_comm 1] at laterHolds
      refine ⟨later, laterHolds, fun other isAbsent notIn => ?_⟩
      rw [List.map_cons, List.mem_cons, not_or] at notIn
      refine absent other ?_ notIn.2
      rw [Function.update_of_ne notIn.1]
      exact isAbsent

end InsertAll

/-- A table which has the room its hint asks for, and ends every search. -/
structure FitsHint (index : OrderIndex hash) (capacityHint : UInt32) :
    Prop where
  power : ∃ bits, index.capacity = 2 ^ bits
  double : 2 * capacityHint.toNat ≤ index.capacity
  room : ∀ entries : List (OrderRef × OrderHandle),
    entries.length ≤ capacityHint.toNat →
      (entries.map Prod.fst).Nodup →
        (∀ entry ∈ entries, entry.2 ≠ Handle.null) →
          ∃ filled, index.insertAll entries = .ok filled
  search : ∀ entries filled, index.insertAll entries = .ok filled →
    (∃ i entry, filled.slot i = .ok entry ∧ entry.handle = Handle.null) ∧
      ∀ ref, ref ∉ entries.map Prod.fst → filled.find ref = .ok Handle.null

/--
The constructor makes a table which is large enough for its hint exactly up to
`2 ^ 30`: beyond, twice the hint or its power of two has no room in 32 bits.
-/
theorem index_fitsHint_iff (hash : OrderRef → UInt64)
    (capacityHint : UInt32) :
    (∃ index : OrderIndex hash, make capacityHint = .ok index ∧
        index.FitsHint capacityHint) ↔
      capacityHint.toNat ≤ 2 ^ 30 := by
  constructor
  · rintro ⟨index, made, fits⟩
    have small := (holds_of_make made).small
    have double := fits.double
    obtain ⟨bits, power⟩ := fits.power
    rw [power] at small double
    have below : bits < 32 :=
      (Nat.pow_lt_pow_iff_right (by omega)).mp small
    have most : 2 ^ bits ≤ 2 ^ 31 :=
      Nat.pow_le_pow_right (by omega) (by omega)
    omega
  · intro small
    obtain ⟨index, made, large, double⟩ := @make_fits hash capacityHint small
    have holds := holds_of_make made
    refine ⟨index, made, holds.power, double, ?_, ?_⟩
    · intro entries few distinct notNull
      exact holds.insertAll distinct (fun _ _ => rfl) notNull (by omega)
    · intro entries filled inserted
      obtain ⟨later, laterHolds, absent⟩ :=
        holds.of_insertAll (by omega) inserted
      refine ⟨?_, fun ref notIn => ?_⟩
      · obtain ⟨i, inside, vacant⟩ :=
          laterHolds.represents.exists_empty laterHolds.room
        obtain ⟨entry, slot, pair⟩ :=
          slot_eq_ok (inside.trans_eq laterHolds.length.symm)
        exact ⟨i, entry, slot, pair_eq_none_iff.mp (pair.symm.trans vacant)⟩
      · rw [laterHolds.find, absent ref rfl notIn]
        rfl

/-- Twice this hint is zero, so its table has one slot, and a search no end. -/
theorem index_missesHint :
    ¬ (∃ index : OrderIndex IndexHash.mixed.hash,
        make 0x80000000 = .ok index ∧ index.FitsHint 0x80000000) ∧
      ∃ index filled : OrderIndex IndexHash.mixed.hash,
        make 0x80000000 = .ok index ∧ index.capacity = 1 ∧
          index.insertAll [(7, ⟨0⟩)] = .ok filled ∧
            filled.find 8 = .error .divergence := by
  constructor
  · rintro ⟨index, made, fits⟩
    have double := fits.double
    have one : index.capacity = 1 := by
      have built : (make 0x80000000 :
          Checked (OrderIndex IndexHash.mixed.hash)) =
            .ok { slots := [⟨0, Handle.null⟩], mask := 0 } := rfl
      rw [← Except.ok.inj (built.symm.trans made)]
      rfl
    rw [one] at double
    exact absurd double (by decide)
  · exact ⟨_, _, rfl, rfl, rfl, rfl⟩

end ItchExchange.Book.OrderIndex
