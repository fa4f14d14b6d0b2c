import ItchExchange.Book.FlatBookRefinement
import ItchExchange.Book.OrderIndexRuns
import Mathlib.Algebra.Order.Field.Rat
import Mathlib.Order.Interval.Set.Defs
import Mathlib.Tactic.Linarith

/-!
# The size of the order index

`index_entries_for` of `order_index.hpp` turns the peak of live orders into the
hint of the order index.  It rounds twelve times the peak up to a power of two,
and the constructor of the index doubles the hint.  A table never resizes, so
its load factor is the number of live orders over a capacity which the peak
alone decides.
-/

namespace ItchExchange.Book

open ItchExchange.Core

/-- Entries the index should hold for a given peak live order count. -/
def indexEntriesFor (peakLiveOrders : UInt32) : Checked UInt32 :=
  let want := if peakLiveOrders < 512 then 512 else peakLiveOrders * 12
  bitCeil want

/-! ## Rounding twice -/

section Rounding

variable {n : Nat}

theorem two_pow_clog_lt (positive : 0 < n) : 2 ^ Nat.clog 2 n < 2 * n := by
  cases bits : Nat.clog 2 n with
  | zero => omega
  | succ below =>
      have short : 2 ^ below < n :=
        (Nat.lt_clog_iff_pow_lt one_lt_two).mp (by omega)
      rw [Nat.pow_succ]
      omega

/-- To double a power of two and to round it up once more is to double it. -/
theorem two_pow_clog_double (n : Nat) :
    2 ^ Nat.clog 2 (2 * 2 ^ Nat.clog 2 n) = 2 * 2 ^ Nat.clog 2 n := by
  rw [← Nat.pow_succ', Nat.clog_pow 2 _ one_lt_two]

/--
A table of twice a multiple of its entries, the multiple rounded up to a power of
two, is full to between a quarter and a half of one over the factor.
-/
theorem rounded_mem_Ioc {factor : Nat} (some : 0 < factor) (positive : 0 < n) :
    (n : ℚ) / (2 * 2 ^ Nat.clog 2 (n * factor) : Nat) ∈
      Set.Ioc (1 / (4 * factor) : ℚ) (1 / (2 * factor)) := by
  have enough := Nat.le_pow_clog one_lt_two (n * factor)
  have short := two_pow_clog_lt (Nat.mul_pos positive some)
  have slots : (0 : ℚ) < (2 * 2 ^ Nat.clog 2 (n * factor) : Nat) := by
    exact_mod_cast Nat.mul_pos two_pos (Nat.two_pow_pos _)
  have multiple : (0 : ℚ) < factor := by exact_mod_cast some
  constructor
  · rw [div_lt_div_iff₀ (by linarith) slots, one_mul]
    have atMost : 2 * 2 ^ Nat.clog 2 (n * factor) < n * (4 * factor) := by
      linarith
    exact_mod_cast atMost
  · rw [div_le_div_iff₀ slots (by linarith), one_mul]
    have atLeast : n * (2 * factor) ≤ 2 * 2 ^ Nat.clog 2 (n * factor) := by
      linarith
    exact_mod_cast atLeast

end Rounding

/-! ## The entries for a peak -/

section Entries

variable {peak : UInt32}

/-- Twelve times a peak which a pool admits has room in 32 bits. -/
theorem toNat_mul_twelve (admitted : peak.toNat ≤ Handle.kMaxCapacity) :
    (peak * 12).toNat = peak.toNat * 12 := by
  have most : Handle.kMaxCapacity = 2 ^ 24 - 1 := rfl
  rw [UInt32.toNat_mul]
  exact Nat.mod_eq_of_lt (by change peak.toNat * 12 < 2 ^ 32; omega)

theorem indexEntriesFor_eq_ok (large : 512 ≤ peak.toNat)
    (admitted : peak.toNat ≤ Handle.kMaxCapacity) :
    ∃ entries, indexEntriesFor peak = .ok entries ∧
      entries.toNat = 2 ^ Nat.clog 2 (peak.toNat * 12) := by
  have most : Handle.kMaxCapacity = 2 ^ 24 - 1 := rfl
  have notSmall : ¬ peak < 512 := by
    rw [UInt32.lt_iff_toNat_lt]
    exact Nat.not_lt.mpr large
  have wanted := toNat_mul_twelve admitted
  rw [indexEntriesFor, if_neg notSmall, ← wanted]
  exact OrderIndex.bitCeil_eq_clog (by omega)

/-- The table which was measured for this peak has as many entries. -/
example : indexEntriesFor 7679 = .ok 131072 := rfl

end Entries

namespace OrderIndex

variable {hash : OrderRef → UInt64} {index next later : OrderIndex hash}

/-- What is built for a peak has room for the entries and for their double. -/
theorem make_indexEntriesFor (hash : OrderRef → UInt64) {peak : UInt32}
    (large : 512 ≤ peak.toNat)
    (admitted : peak.toNat ≤ Handle.kMaxCapacity) :
    ∃ entries, ∃ index : OrderIndex hash,
      indexEntriesFor peak = .ok entries ∧ make entries = .ok index ∧
      (entries * 2).toNat = entries.toNat * 2 ∧
      index.capacity = 2 * 2 ^ Nat.clog 2 (peak.toNat * 12) := by
  have most : Handle.kMaxCapacity = 2 ^ 24 - 1 := rfl
  obtain ⟨entries, found, value⟩ := indexEntriesFor_eq_ok large admitted
  have enough := Nat.le_pow_clog one_lt_two (peak.toNat * 12)
  have few : entries.toNat ≤ 2 ^ 28 := by
    rw [value]
    exact Nat.pow_le_pow_right two_pos (Nat.clog_le_of_le_pow (by omega))
  obtain ⟨index, made, slots⟩ :=
    @make_eq_clog hash entries (few.trans (by decide))
  refine ⟨entries, index, found, made, ?_, ?_⟩
  · rw [UInt32.toNat_mul]
    exact Nat.mod_eq_of_lt (by change entries.toNat * 2 < 2 ^ 32; omega)
  · rw [slots, max_eq_right (by omega), value, two_pow_clog_double]

/-! ## A table never resizes -/

theorem capacity_insert {ref : OrderRef} {h : OrderHandle}
    (inserted : index.insert ref h = .ok next) :
    next.capacity = index.capacity := by
  obtain ⟨_, -, inserted⟩ := bind_eq_ok_iff.mp inserted
  obtain ⟨_, -, inserted⟩ := bind_eq_ok_iff.mp inserted
  obtain ⟨i, -, inserted⟩ := bind_eq_ok_iff.mp inserted
  obtain rfl := Except.ok.inj inserted
  exact length_put index i ⟨ref, h⟩

theorem capacity_eraseAt {fuel i : Nat}
    (erased : index.eraseAt fuel i = .ok next) :
    next.capacity = index.capacity := by
  induction fuel generalizing index i with
  | zero => cases erased
  | succ fuel induction =>
      obtain ⟨hole, -, erased⟩ := bind_eq_ok_iff.mp erased
      obtain ⟨moving, -, erased⟩ := bind_eq_ok_iff.mp erased
      cases moving with
      | none =>
          obtain rfl := Except.ok.inj erased
          exact length_put index i _
      | some j =>
          obtain ⟨entry, -, erased⟩ := bind_eq_ok_iff.mp erased
          exact (induction erased).trans
            ((length_put _ i entry).trans (length_put index i _))

theorem capacity_churn {call : Churn}
    (called : index.churn call = .ok next) :
    next.capacity = index.capacity := by
  cases call with
  | insert ref h => exact capacity_insert called
  | erase ref =>
      obtain ⟨i, -, called⟩ := bind_eq_ok_iff.mp called
      obtain ⟨middle, erased, called⟩ := bind_eq_ok_iff.mp called
      obtain rfl := Except.ok.inj called
      have kept : middle.capacity = index.capacity := capacity_eraseAt erased
      exact kept

theorem capacity_churnAll {calls : List Churn}
    (ran : index.churnAll calls = .ok next) :
    next.capacity = index.capacity := by
  induction calls generalizing index with
  | nil => exact congrArg capacity (Except.ok.inj ran).symm
  | cons call rest induction =>
      obtain ⟨middle, called, ran⟩ := bind_eq_ok_iff.mp ran
      exact (induction ran).trans (capacity_churn called)

/-! ## The load factor at the peak -/

/-- The share of the slots which the live orders take. -/
def load (index : OrderIndex hash) : ℚ := index.size.toNat / index.capacity

/-- A run of insertions and erasures leaves so many live orders. -/
def Reaches (index : OrderIndex hash) (live : UInt32)
    (later : OrderIndex hash) : Prop :=
  ∃ calls, index.churnAll calls = .ok later ∧ later.size = live

/--
The table which the constructor builds from `index_entries_for` of a peak: no
product wraps in 32 bits, it has a power of two of slots, and in every state
with the peak of live orders its load factor is in the band.
-/
structure SizedFor (peak entries : UInt32) (index : OrderIndex hash)
    (band : Set ℚ) : Prop where
  sized : indexEntriesFor peak = .ok entries
  built : make entries = .ok index
  multiplied : (peak * 12).toNat = peak.toNat * 12
  doubled : (entries * 2).toNat = entries.toNat * 2
  power : ∃ bits, index.capacity = 2 ^ bits
  reached : ∃ later, index.Reaches peak later
  load : ∀ later, index.Reaches peak later → later.load ∈ band

theorem Reaches.load_eq {live : UInt32} (reaches : index.Reaches live later) :
    later.load = live.toNat / index.capacity := by
  obtain ⟨calls, ran, rfl⟩ := reaches
  rw [load, capacity_churnAll ran]

theorem insertAll_eq_churnAll (index : OrderIndex hash)
    (entries : List (OrderRef × OrderHandle)) :
    index.insertAll entries =
      index.churnAll (entries.map fun entry => .insert entry.1 entry.2) := by
  induction entries generalizing index with
  | nil => rfl
  | cons entry rest induction =>
      exact congrArg (index.insert entry.1 entry.2 >>= ·) (funext induction)

/-- Entries of the references from zero on. -/
def numbered (count : Nat) : List (OrderRef × OrderHandle) :=
  (List.range count).map fun i => (UInt64.ofNat i, ⟨0⟩)

@[simp]
theorem length_numbered (count : Nat) : (numbered count).length = count := by
  rw [numbered, List.length_map, List.length_range]

theorem nodup_numbered {count : Nat} (small : count ≤ 2 ^ 64) :
    ((numbered count).map Prod.fst).Nodup := by
  rw [numbered, List.map_map]
  refine List.Nodup.map_on ?_ List.nodup_range
  intro i first j second same
  rw [List.mem_range] at first second
  have equal : (UInt64.ofNat i).toNat = (UInt64.ofNat j).toNat :=
    congrArg UInt64.toNat same
  rwa [UInt64.toNat_ofNat_of_lt' (by change i < 2 ^ 64; omega),
    UInt64.toNat_ofNat_of_lt' (by change j < 2 ^ 64; omega)] at equal

theorem ne_null_of_mem_numbered {count : Nat}
    {entry : OrderRef × OrderHandle} (member : entry ∈ numbered count) :
    entry.2 ≠ Handle.null := by
  obtain ⟨i, -, rfl⟩ := List.mem_map.mp member
  exact show (⟨0⟩ : OrderHandle) ≠ Handle.null by decide

/-- An empty table reaches any number of live orders up to half of its slots. -/
theorem Holds.reaches {slots : Nat}
    (holds : index.Holds slots (fun _ => none) 0) (large : 2 ≤ slots)
    {live : UInt32} (room : 2 * live.toNat ≤ slots) :
    ∃ later, index.Reaches live later := by
  have small := live.toNat_lt
  have length := length_numbered live.toNat
  obtain ⟨filled, inserted⟩ :=
    holds.insertAll (@nodup_numbered live.toNat (by omega))
      (fun _ _ => rfl) (fun _ => ne_null_of_mem_numbered) (by omega)
  obtain ⟨map, filledHolds, -⟩ := holds.of_insertAll large inserted
  refine ⟨filled, _, (insertAll_eq_churnAll index _).symm.trans inserted,
    UInt32.toNat_inj.mp ?_⟩
  rw [size, filledHolds.counted, Nat.zero_add, length]

section Bands

variable {peak entries : UInt32} {band : Set ℚ}

/-- Twelve entries for an order, doubled, leave a load of a 48th to a 24th. -/
theorem load_of_capacity (positive : 0 < peak.toNat)
    (slots : index.capacity = 2 * 2 ^ Nat.clog 2 (peak.toNat * 12)) :
    (peak.toNat / index.capacity : ℚ) ∈ Set.Ioc (1 / 48) (1 / 24) := by
  rw [slots]
  have rounded := @rounded_mem_Ioc peak.toNat 12 (by decide) positive
  norm_num only at rounded ⊢
  exact rounded

theorem exists_sizedFor (hash : OrderRef → UInt64)
    (large : 512 ≤ peak.toNat)
    (admitted : peak.toNat ≤ Handle.kMaxCapacity) :
    ∃ entries, ∃ index : OrderIndex hash,
      index.SizedFor peak entries (Set.Ioc (1 / 48) (1 / 24)) := by
  obtain ⟨entries, index, found, made, doubled, slots⟩ :=
    make_indexEntriesFor hash large admitted
  have holds := holds_of_make made
  have enough := Nat.le_pow_clog one_lt_two (peak.toNat * 12)
  refine ⟨entries, index,
    { sized := found
      built := made
      multiplied := toNat_mul_twelve admitted
      doubled := doubled
      power := holds.power
      reached := holds.reaches (by omega) (by omega)
      load := fun later reaches => ?_ }⟩
  rw [reaches.load_eq]
  exact load_of_capacity (by omega) slots

/-- One peak gives one table, whose load is in every band it is sized for. -/
theorem SizedFor.inter {other : Set ℚ} {otherEntries : UInt32}
    {otherIndex : OrderIndex hash} (sized : index.SizedFor peak entries band)
    (otherSized : otherIndex.SizedFor peak otherEntries other) :
    (band ∩ other).Nonempty := by
  obtain rfl := Except.ok.inj (sized.sized.symm.trans otherSized.sized)
  obtain rfl := Except.ok.inj (sized.built.symm.trans otherSized.built)
  obtain ⟨later, reaches⟩ := sized.reached
  exact ⟨later.load, sized.load later reaches, otherSized.load later reaches⟩

/-- A load of at most a 24th is below the band which was measured. -/
theorem bands_disjoint :
    ¬ (Set.Ioc (1 / 48) (1 / 24) ∩ Set.Icc (6 / 100) (12 / 100) :
      Set ℚ).Nonempty := by
  rintro ⟨load, ⟨-, low⟩, high, -⟩
  linarith

end Bands

/--
For no peak which a pool admits is the table in the measured band of 6 to 12 in a
hundred.  The constructor doubles the twelve entries for an order, and at the
peak the table is full to between a 48th and a 24th only.
-/
theorem indexEntriesFor_missesBand (hash : OrderRef → UInt64) {peak : UInt32}
    (large : 512 ≤ peak.toNat)
    (admitted : peak.toNat ≤ Handle.kMaxCapacity) :
    (∃ entries, ∃ index : OrderIndex hash,
      index.SizedFor peak entries (Set.Ioc (1 / 48) (1 / 24))) ∧
    ¬ ∃ entries, ∃ index : OrderIndex hash,
      index.SizedFor peak entries (Set.Icc (6 / 100) (12 / 100)) := by
  have sized := exists_sizedFor hash large admitted
  refine ⟨sized, ?_⟩
  rintro ⟨otherEntries, otherIndex, otherSized⟩
  obtain ⟨entries, index, sized⟩ := sized
  exact bands_disjoint (sized.inter otherSized)

theorem indexEntriesFor_missesBand_least :
    (∃ entries, ∃ index : OrderIndex IndexHash.mixed.hash,
      index.SizedFor 512 entries (Set.Ioc (1 / 48) (1 / 24))) ∧
    ¬ ∃ entries, ∃ index : OrderIndex IndexHash.mixed.hash,
      index.SizedFor 512 entries (Set.Icc (6 / 100) (12 / 100)) :=
  indexEntriesFor_missesBand IndexHash.mixed.hash (by decide) (by decide)

/--
A symbol peaking at 42,774 live orders gets a table of 1,048,576 entries, twice
the 524,288 which were measured to be its optimum.
-/
theorem indexEntriesFor_doublesOptimum :
    indexEntriesFor 42774 = .ok 524288 ∧
      (∃ index : OrderIndex IndexHash.mixed.hash,
        make 524288 = .ok index ∧ index.capacity = 1048576) ∧
      ¬ ∃ entries, ∃ index : OrderIndex IndexHash.mixed.hash,
        index.SizedFor 42774 entries (Set.Icc (6 / 100) (12 / 100)) := by
  refine ⟨rfl, ?_, ?_⟩
  · obtain ⟨index, made, slots⟩ :=
      @make_eq_clog IndexHash.mixed.hash 524288 (by decide)
    refine ⟨index, made, slots.trans ?_⟩
    exact congrArg (2 ^ ·) (Nat.clog_pow 2 20 one_lt_two)
  · rintro ⟨otherEntries, otherIndex, otherSized⟩
    obtain ⟨entries, index, sized⟩ :=
      @exists_sizedFor 42774 IndexHash.mixed.hash (by decide) (by decide)
    exact bands_disjoint (sized.inter otherSized)

end OrderIndex

/-! ## A book with such an index -/

namespace BookT

variable {M : Type} [LevelMap M] {hash : OrderRef → UInt64}
  {holds : Side → M → (Price → Option LevelHandle) → Nat → Prop}
  {start book : BookT M hash} {arrivals : ArrivalBook}
  {orderCapacity levelCapacity entries peak : UInt32} {quarantine : Nat}

theorem Carries.load (carries : Carries holds start.storage book arrivals)
    (made : make orderCapacity levelCapacity entries quarantine = .ok start)
    (sized : indexEntriesFor peak = .ok entries) (large : 512 ≤ peak.toNat)
    (atPeak : book.orderCount = peak.toNat) :
    book.index.load ∈ Set.Ioc (1 / 48) (1 / 24) := by
  obtain ⟨handleOf, levelOf, keys, stores⟩ := carries
  obtain ⟨_, -, made⟩ := bind_eq_ok_iff.mp made
  obtain ⟨_, -, made⟩ := bind_eq_ok_iff.mp made
  obtain ⟨index, indexMade, made⟩ := bind_eq_ok_iff.mp made
  obtain rfl := Except.ok.inj made
  have live : book.index.size.toNat = arrivals.orders.length :=
    stores.index.counted
  have admitted : peak.toNat ≤ Handle.kMaxCapacity := by
    rw [← atPeak, orderCount, live]
    exact stores.length_le
  obtain ⟨otherEntries, other, otherSized, otherMade, -, slots⟩ :=
    OrderIndex.make_indexEntriesFor hash large admitted
  obtain rfl := Except.ok.inj (sized.symm.trans otherSized)
  obtain rfl := Except.ok.inj (indexMade.symm.trans otherMade)
  have kept : book.index.capacity = index.capacity := stores.index.length
  have load : book.index.load = peak.toNat / index.capacity := by
    rw [OrderIndex.load, kept, ← atPeak, orderCount]
  rw [load]
  exact OrderIndex.load_of_capacity (by omega) slots

/--
In every run of a book whose index was sized for a peak, the index is full to
between a 48th and a 24th whenever the peak of live orders is reached.
-/
theorem load_of_runsWithin {admits : M → Price → Prop}
    (implements : LevelMap.Implements holds admits)
    (made : make orderCapacity levelCapacity entries quarantine = .ok start)
    (sized : indexEntriesFor peak = .ok entries) (large : 512 ≤ peak.toNat)
    {operations : List Operation}
    (within : RunsWithin start.storage operations)
    (takes : AdmitsRun (Admits (LevelMap.Takes holds)) start operations)
    (count : Nat) :
    ∃ book, OrderBook.run start (operations.take count) = .ok book ∧
      (book.orderCount = peak.toNat →
        book.index.load ∈ Set.Ioc (1 / 48) (1 / 24)) := by
  obtain ⟨book, map, arrivals, ran, -, -, carries⟩ :=
    carries_of_admitsRun implements made within takes count
  exact ⟨book, ran, carries.load made sized large⟩

end BookT

end ItchExchange.Book
