import ItchExchange.Book.FlatBookSteps
import Mathlib.Algebra.Order.BigOperators.Group.List

/-!
# The invariant of the pooled book

`Invariant` ties the heap and the level maps to the index, the cached totals and
the cached best prices.  `add` and `reduce` keep it while storage lasts: each is
assembled here from the lemmas about its parts.
-/

namespace ItchExchange.Book

open ItchExchange.Core

/-! ## What the caches stand for -/

/-- The orders on one side, in arrival order. -/
def ofSide (side : Side) (resting : List Resting) : List Resting :=
  resting.filter fun order => decide (order.side = side)

/-- The handles of the resting orders, as the index holds them. -/
def orderMap (handleOf : OrderRef → OrderHandle) (resting : List Resting)
    (ref : OrderRef) : Option OrderHandle :=
  if ref ∈ resting.map Resting.ref then some (handleOf ref) else none

/-- The most aggressive price of a side, or the marker of an empty side. -/
def IsBest (side : Side) (keys : List LevelKey) (best : Price) : Prop :=
  (∀ price, (side, price) ∉ keys) ∧ best = kNoPrice ∨
    (side, best) ∈ keys ∧
      ∀ price, (side, price) ∈ keys → ¬ Closer side price best

section Caches

variable {ref : OrderRef} {shares : Qty} {resting : List Resting}
  {order : Resting} {handleOf : OrderRef → OrderHandle}
  {keys keys' : List LevelKey} {side : Side} {price best : Price}

theorem orderMap_of_mem (member : order ∈ resting) :
    orderMap handleOf resting order.ref = some (handleOf order.ref) :=
  if_pos (List.mem_map_of_mem member)

theorem orderMap_eq_none_iff :
    orderMap handleOf resting ref = none ↔
      ∀ order ∈ resting, order.ref ≠ ref := by
  simp [orderMap]

theorem orderMap_append (oh : OrderHandle) :
    orderMap (Function.update handleOf order.ref oh) (resting ++ [order]) =
      Function.update (orderMap handleOf resting) order.ref (some oh) := by
  funext other
  by_cases same : other = order.ref
  · subst same
    simp [orderMap]
  · simp [orderMap, same]

theorem orderMap_without :
    orderMap handleOf (without ref resting) ref = none :=
  orderMap_eq_none_iff.mpr fun _ member => (mem_without.mp member).2

theorem orderMap_without_eq :
    orderMap handleOf (without ref resting) =
      Function.update (orderMap handleOf resting) ref none := by
  funext other
  by_cases same : other = ref
  · subst same
    rw [Function.update_self, orderMap_without]
  · rw [Function.update_of_ne same, orderMap, orderMap]
    refine if_congr ?_ rfl rfl
    rw [List.mem_map, List.mem_map]
    constructor
    · rintro ⟨order, member, rfl⟩
      exact ⟨order, (mem_without.mp member).1, rfl⟩
    · rintro ⟨order, member, rfl⟩
      exact ⟨order, mem_without.mpr ⟨member, same⟩, rfl⟩

theorem orderMap_subtractIn :
    orderMap handleOf (subtractIn ref shares resting) =
      orderMap handleOf resting := by
  funext other
  rw [orderMap, refs_subtractIn]
  rfl

theorem wordQty_ofSide_append (side : Side) :
    wordQty (ofSide side (resting ++ [order])) =
      if order.side = side then
        wordQty (ofSide side resting) + order.qty.toUInt64
      else wordQty (ofSide side resting) := by
  unfold ofSide
  rw [List.filter_append, wordQty_append]
  by_cases same : order.side = side
  · simp [same]
  · simp [same]

theorem wordQty_ofSide_subtractIn
    (distinct : (resting.map Resting.ref).Nodup) (member : order ∈ resting)
    (enough : shares ≤ order.qty) (side : Side) :
    wordQty (ofSide side (subtractIn order.ref shares resting)) =
      if side = order.side then
        wordQty (ofSide side resting) - shares.toUInt64
      else wordQty (ofSide side resting) := by
  have commute : ofSide side (subtractIn order.ref shares resting) =
      subtractIn order.ref shares (ofSide side resting) := by
    unfold ofSide subtractIn
    rw [List.filter_map]
    congr 2
    funext other
    have sameKey : (other.subtractAt order.ref shares).key = other.key :=
      Resting.key_subtractAt other
    have sameSide : (other.subtractAt order.ref shares).side = other.side :=
      congrArg Prod.fst sameKey
    rw [Function.comp_apply, sameSide]
  have sideRefs : ((ofSide side resting).map Resting.ref).Nodup :=
    distinct.sublist (List.filter_sublist.map _)
  rw [commute, wordQty_subtractIn]
  by_cases same : side = order.side
  · have onSide : order ∈ ofSide side resting := by
      simp [ofSide, member, same]
    rw [if_pos same, wordQty_reduceIn sideRefs onSide enough]
  · rw [if_neg same, reduceIn_of_absent]
    intro other otherMember sameRef
    obtain ⟨otherResting, otherSide⟩ := List.mem_filter.mp otherMember
    have equal :=
      List.inj_on_of_nodup_map distinct otherResting member sameRef
    rw [decide_eq_true_iff, equal] at otherSide
    exact same otherSide.symm

/-- An order without shares counts for nothing. -/
theorem wordQty_ofSide_without
    (distinct : (resting.map Resting.ref).Nodup) (member : order ∈ resting)
    (exhausted : order.qty = 0) (side : Side) :
    wordQty (ofSide side (without order.ref resting)) =
      wordQty (ofSide side resting) := by
  obtain ⟨front, back, whole, left⟩ := exists_split distinct member
  rw [left, whole]
  unfold ofSide
  rw [List.filter_append, List.filter_append, wordQty_append, wordQty_append,
    List.filter_cons]
  split_ifs
  · rw [wordQty_cons, exhausted]
    simp
  · rfl

theorem length_without (distinct : (resting.map Resting.ref).Nodup)
    (member : order ∈ resting) :
    (without order.ref resting).length + 1 = resting.length := by
  obtain ⟨front, back, whole, left⟩ := exists_split distinct member
  rw [left, whole, List.length_append, List.length_append, List.length_cons]
  omega

theorem without_subtractIn :
    without ref (subtractIn ref shares resting) = without ref resting := by
  have kept : (fun order : Resting => decide (order.ref ≠ ref)) ∘
      Resting.subtractAt ref shares =
        fun order => decide (order.ref ≠ ref) := by
    funext order
    rw [Function.comp_apply, Resting.ref_subtractAt]
  rw [without, subtractIn, List.filter_map, kept]
  exact subtractIn_of_absent fun _ member => (mem_without.mp member).2

/-- Other levels keep their queues. -/
theorem atKey_without_of_ne {key : LevelKey}
    (distinct : (resting.map Resting.ref).Nodup) (member : order ∈ resting)
    (different : key ≠ order.key) :
    atKey key (without order.ref resting) = atKey key resting := by
  rw [atKey_without]
  exact without_of_absent fun other inKey =>
    ref_ne_of_key_ne distinct member inKey different

theorem IsBest.congr (isBest : IsBest side keys best)
    (same : ∀ price, (side, price) ∈ keys' ↔ (side, price) ∈ keys) :
    IsBest side keys' best := by
  simpa only [IsBest, same] using isBest

/-- A price joins its side, where the marker does not hide a closer one. -/
theorem IsBest.insert (isBest : IsBest side keys best)
    (shown : best = kNoPrice →
      ∀ other, (side, other) ∈ keys → ¬ Closer side other price)
    (joins : ∀ other, (side, other) ∈ keys' ↔
      other = price ∨ (side, other) ∈ keys) :
    IsBest side keys'
      (if best = kNoPrice ∨ Closer side price best then price else best) := by
  refine Or.inr ?_
  simp only [joins]
  by_cases marker : best = kNoPrice
  · rw [if_pos (Or.inl marker)]
    refine ⟨Or.inl rfl, ?_⟩
    rintro other (rfl | member)
    · exact Closer.irrefl side other
    · exact shown marker other member
  · rcases isBest with ⟨-, isMarker⟩ | ⟨present, least⟩
    · exact absurd isMarker marker
    by_cases closer : Closer side price best
    · rw [if_pos (Or.inr closer)]
      refine ⟨Or.inl rfl, ?_⟩
      rintro other (rfl | member) further
      · exact Closer.irrefl side other further
      · exact least other member (further.trans closer)
    · rw [if_neg (not_or.mpr ⟨marker, closer⟩)]
      refine ⟨Or.inr present, ?_⟩
      rintro other (rfl | member)
      · exact closer
      · exact least other member

/-- Below `2 ^ 32` orders none of them holds more than their total. -/
theorem le_wordQty (member : order ∈ resting)
    (small : resting.length < 2 ^ 32) :
    order.qty.toUInt64 ≤ wordQty resting := by
  rw [UInt64.le_iff_toNat_le, wordQty_toNat small, UInt32.toNat_toUInt64]
  exact List.single_le_sum (fun _ _ => Nat.zero_le _) _
    (List.mem_map_of_mem member)

end Caches

namespace BookT

variable {M : Type} {hash : OrderRef → UInt64} {limits : Limits}
  {handleOf : OrderRef → OrderHandle} {levelOf : LevelKey → LevelHandle}
  {book : BookT M hash} {keys : List LevelKey} {resting : List Resting}
  {order : Resting} {shares : Qty}
  {holds : Side → M → (Price → Option LevelHandle) → Nat → Prop}

/-- What the book stores of its resting orders, whatever its best prices. -/
structure Stores
    (holds : Side → M → (Price → Option LevelHandle) → Nat → Prop)
    (limits : Limits) (handleOf : OrderRef → OrderHandle)
    (levelOf : LevelKey → LevelHandle) (book : BookT M hash)
    (keys : List LevelKey) (resting : List Resting) : Prop where
  holding : Holding holds limits handleOf levelOf book [] keys resting
  index : book.index.Holds limits.index (orderMap handleOf resting)
    resting.length
  orderCount : book.stats.orderCount = UInt32.ofNat resting.length
  totalQty : ∀ side,
    book.stats.totalQty.get side = wordQty (ofSide side resting)
  inhabited : ∀ key ∈ keys, atKey key resting ≠ []

/-- The invariant of the book, over the list of its resting orders. -/
structure Invariant
    (holds : Side → M → (Price → Option LevelHandle) → Nat → Prop)
    (limits : Limits) (handleOf : OrderRef → OrderHandle)
    (levelOf : LevelKey → LevelHandle) (book : BookT M hash)
    (keys : List LevelKey) (resting : List Resting) : Prop where
  holding : Holding holds limits handleOf levelOf book [] keys resting
  index : book.index.Holds limits.index (orderMap handleOf resting)
    resting.length
  orderCount : book.stats.orderCount = UInt32.ofNat resting.length
  totalQty : ∀ side,
    book.stats.totalQty.get side = wordQty (ofSide side resting)
  best : ∀ side, IsBest side keys (book.best.get side)
  inhabited : ∀ key ∈ keys, atKey key resting ≠ []
  priced : ∀ key ∈ keys, key.2 ≠ kNoPrice

theorem Invariant.stores
    (invariant : Invariant holds limits handleOf levelOf book keys resting) :
    Stores holds limits handleOf levelOf book keys resting where
  holding := invariant.holding
  index := invariant.index
  orderCount := invariant.orderCount
  totalQty := invariant.totalQty
  inhabited := invariant.inhabited

theorem Stores.invariant
    (stores : Stores holds limits handleOf levelOf book keys resting)
    (best : ∀ side, IsBest side keys (book.best.get side))
    (priced : ∀ key ∈ keys, key.2 ≠ kNoPrice) :
    Invariant holds limits handleOf levelOf book keys resting :=
  { stores with best, priced }

/-! ## Shares are taken -/

/-- The book once `reduce` has taken the shares from the records. -/
def taken (book : BookT M hash) (oh : OrderHandle) (lh : LevelHandle)
    (side : Side) (left shares : Qty) : BookT M hash :=
  BookT.modifyLevel
    { book.modifyOrder oh fun order => { order with qty := left } with
      stats :=
        { book.stats with
          totalQty := book.stats.totalQty.set side
            (book.stats.totalQty.get side - shares.toUInt64) } }
    lh fun level =>
      { level with totalQty := level.totalQty - shares.toUInt64 }

theorem Stores.taken
    (stores : Stores holds limits handleOf levelOf book keys resting)
    (member : order ∈ resting) (enough : shares ≤ order.qty) :
    Stores holds limits handleOf levelOf
      (book.taken (handleOf order.ref) (levelOf order.key) order.side
        (order.qty - shares) shares)
      keys (subtractIn order.ref shares resting) := by
  have heap := stores.holding.heap
  have ohLive : handleOf order.ref ∈ [] ++ handles handleOf resting :=
    handle_live member
  have lhLive : levelOf order.key ∈ keys.map levelOf :=
    level_live (heap.covered order member)
  constructor
  case holding =>
    refine ⟨heap.subtract member enough
      (heap.ordersServe.modify ohLive fun _ => rfl)
      (heap.levelsServe.modify lhLive fun _ => rfl) ?_ ?_ ?_ ?_,
      stores.holding.ladders, stores.holding.levelCount⟩
    · exact (heap.ordersServe.value_modify ohLive _ _ ohLive).trans
        (if_pos rfl)
    · intro h inside different
      exact (heap.ordersServe.value_modify ohLive _ h
        (List.mem_append_right _ inside)).trans (if_neg different)
    · exact (heap.levelsServe.value_modify lhLive _ _ lhLive).trans
        (if_pos rfl)
    · intro other otherMember different
      have notOwn : levelOf other ≠ levelOf order.key := fun same =>
        different (heap.eq_of_level otherMember
          (heap.covered order member) same)
      exact (heap.levelsServe.value_modify lhLive _ _
        (level_live otherMember)).trans (if_neg notOwn)
  case index =>
    rw [orderMap_subtractIn, length_subtractIn]
    exact stores.index
  case orderCount =>
    rw [length_subtractIn]
    exact stores.orderCount
  case totalQty =>
    intro side
    rw [wordQty_ofSide_subtractIn heap.distinct member enough]
    exact (PerSide.get_set _ _ _ _).trans (by
      simp only [stores.totalQty]
      split_ifs with same
      · rw [same]
      · rfl)
  case inhabited =>
    intro key keyMember isEmpty
    rw [atKey_subtractIn, subtractIn, List.map_eq_nil_iff] at isEmpty
    exact stores.inhabited key keyMember isEmpty

theorem Stores.length_le
    (stores : Stores holds limits handleOf levelOf book keys resting) :
    resting.length ≤ Handle.kMaxCapacity := by
  have serves := stores.holding.heap.ordersServe
  have length := serves.length_le
  rw [List.nil_append, handles, List.length_map] at length
  exact length.trans serves.capacity_le

theorem Stores.small
    (stores : Stores holds limits handleOf levelOf book keys resting) :
    resting.length < 2 ^ 32 :=
  stores.length_le.trans_lt (by decide)

/-- Up to the retirement of the order, `reduce` only takes the shares. -/
theorem Stores.reduce_eq [LevelMap M]
    (stores : Stores holds limits handleOf levelOf book keys resting)
    (member : order ∈ resting) (enough : shares ≤ order.qty) :
    book.reduce (handleOf order.ref) shares =
      if order.qty ≠ shares then
        .ok (book.taken (handleOf order.ref) (levelOf order.key) order.side
          (order.qty - shares) shares)
      else
        (book.taken (handleOf order.ref) (levelOf order.key) order.side
            (order.qty - shares) shares).retire
          (handleOf order.ref) (levelOf order.key) order.side order.price := by
  have heap := stores.holding.heap
  have record := heap.record order member
  have present := heap.covered order member
  have inQueue : order ∈ atKey order.key resting :=
    mem_atKey.mpr ⟨member, rfl⟩
  have few : (atKey order.key resting).length < 2 ^ 32 :=
    lt_of_le_of_lt (List.length_filter_le _ _) stores.small
  have covers : shares.toUInt64 ≤
      (book.levels.value (levelOf order.key)).totalQty := by
    rw [(heap.level _ present).totalQty]
    refine UInt64.le_trans ?_ (le_wordQty inQueue few)
    simpa [UInt64.le_iff_toNat_le] using UInt32.le_iff_toNat_le.mp enough
  have left : order.qty - shares ≠ 0 ↔ order.qty ≠ shares := by
    rw [ne_eq, sub_eq_zero]
  rw [BookT.reduce, heap.get_order member, ok_bind, record.side, record.qty,
    record.level, record.price]
  change (book.levels.get (levelOf order.key) >>= _) = _
  rw [heap.get_level present, ok_bind, assertMsg_of covers, ok_bind]
  exact if_congr left rfl rfl

/-! ## An order is retired -/

/-- No level is new, and every best price which was right is still right. -/
structure KeepsBest (book : BookT M hash) (keys : List LevelKey)
    (later : BookT M hash) (left : List LevelKey) : Prop where
  subset : ∀ key ∈ left, key ∈ keys
  best : ∀ side, IsBest side keys (book.best.get side) →
    IsBest side left (later.best.get side)

/-- The slot of an order in no queue is given back. -/
theorem Holding.freeOrder {oh : OrderHandle}
    (holding : Holding holds limits handleOf levelOf book [oh] keys resting) :
    ∃ orders, book.orders.free oh = .ok orders ∧
      Holding holds limits handleOf levelOf { book with orders } [] keys
        resting := by
  have heap := holding.heap
  obtain ⟨orders, freed, serves, same⟩ :=
    heap.ordersServe.free List.mem_cons_self
  rw [List.singleton_append, List.erase_cons_head] at serves
  refine ⟨orders, freed, heap.replaceExtra serves fun h member => ?_,
    holding.ladders, holding.levelCount⟩
  refine same h (List.mem_cons_of_mem oh member) ?_
  rintro rfl
  exact heap.not_mem_extra member List.mem_cons_self

section Retire

variable [LevelMap M] {admits : M → Price → Prop}
  {extra : List OrderHandle} {side : Side} {price : Price}

/-- The best price is right again once its level is gone. -/
theorem Holding.noteRemoved (implements : LevelMap.Implements holds admits)
    (holding : Holding holds limits handleOf levelOf book extra
      (keys.erase (side, price)) resting)
    (distinct : keys.Nodup) :
    ∃ best, book.noteRemoved side price = .ok { book with best } ∧
      ∀ other, IsBest other keys (book.best.get other) →
        IsBest other (keys.erase (side, price)) (best.get other) := by
  have elsewhere : ∀ other, other ≠ side →
      IsBest other keys (book.best.get other) →
        IsBest other (keys.erase (side, price)) (book.best.get other) :=
    fun other different before => before.congr fun otherPrice => by
      simp [distinct.mem_erase_iff, different]
  by_cases isBest : price = book.best.get side
  · have onSide := holding.ladders side
    have mapped : ∀ other, levelMap levelOf (keys.erase (side, price)) side
        other ≠ none ↔ (side, other) ∈ keys.erase (side, price) :=
      fun other => (not_congr levelMap_eq_none_iff).trans not_not
    have recomputed : ∃ top,
        (if LevelMap.isEmpty (book.ladders.get side) then pure kNoPrice
          else LevelMap.best (book.ladders.get side)) = Except.ok top ∧
        IsBest side (keys.erase (side, price)) top := by
      by_cases isEmpty : LevelMap.isEmpty (book.ladders.get side) = true
      · refine ⟨kNoPrice, if_pos isEmpty, Or.inl ⟨fun other => ?_, rfl⟩⟩
        exact levelMap_eq_none_iff.mp
          ((implements.isEmpty onSide).mp isEmpty other)
      · have present := mt (implements.isEmpty onSide).mpr isEmpty
        push Not at present
        obtain ⟨other, otherPresent⟩ := present
        obtain ⟨h, found⟩ := Option.ne_none_iff_exists'.mp otherPresent
        obtain ⟨top, computed, topPresent, least⟩ :=
          implements.best onSide found
        refine ⟨top, (if_neg isEmpty).trans computed, Or.inr
          ⟨(mapped top).mp topPresent, fun other member => ?_⟩⟩
        exact least other ((mapped other).mpr member)
    obtain ⟨top, computed, topIsBest⟩ := recomputed
    refine ⟨book.best.set side top, ?_, fun other before => ?_⟩
    · rw [BookT.noteRemoved, if_neg (not_not.mpr isBest)]
      dsimp only
      split_ifs at computed ⊢
      · rw [computed]
        rfl
      · rw [computed]
        rfl
    · rw [PerSide.get_set]
      split_ifs with same
      · exact same ▸ topIsBest
      · exact elsewhere other same before
  · refine ⟨book.best, if_pos isBest, fun other before => ?_⟩
    by_cases same : other = side
    · subst same
      rcases before with ⟨isEmpty, marker⟩ | ⟨present, least⟩
      · exact Or.inl
          ⟨fun p member => isEmpty p (List.mem_of_mem_erase member), marker⟩
      · refine Or.inr ⟨?_, fun p member =>
          least p (List.mem_of_mem_erase member)⟩
        rw [distinct.mem_erase_iff]
        exact ⟨fun equal => isBest (congrArg Prod.snd equal).symm, present⟩
    · exact elsewhere other same before

/-- An order of which nothing is left goes, and its level if that is empty. -/
theorem Stores.retire (implements : LevelMap.Implements holds admits)
    (stores : Stores holds limits handleOf levelOf book keys resting)
    (member : order ∈ resting) (exhausted : order.qty = 0) :
    ∃ book' keys',
      book.retire (handleOf order.ref) (levelOf order.key) order.side
          order.price = .ok book' ∧
        Stores holds limits handleOf levelOf book' keys'
          (without order.ref resting) ∧
        KeepsBest book keys book' keys' := by
  have holding := stores.holding
  have distinct := holding.heap.distinct
  have present := holding.heap.covered order member
  have length := length_without distinct member
  obtain ⟨orders, levels, unlinked, ownRef, heap⟩ :=
    unlink_spec holding.heap member exhausted
  have indexed := stores.index
  rw [← length] at indexed
  obtain ⟨index, erased, indexHolds⟩ :=
    indexed.erase (orderMap_of_mem member)
  rw [← orderMap_without_eq] at indexHolds
  -- The book between the two lines which ask whether the level is empty.
  let middle : BookT M hash :=
    { book with
      orders, levels, index
      stats :=
        { book.stats with orderCount := book.stats.orderCount - 1 } }
  have middleHolding : Holding holds limits handleOf levelOf middle
      [handleOf order.ref] keys (without order.ref resting) :=
    ⟨heap, holding.ladders, holding.levelCount⟩
  have orderCount : book.stats.orderCount - 1 =
      UInt32.ofNat (without order.ref resting).length := by
    rw [stores.orderCount, ← length, UInt32.ofNat_add]
    exact UInt32.add_sub_cancel _ _
  have totalQty : ∀ side, book.stats.totalQty.get side =
      wordQty (ofSide side (without order.ref resting)) := fun side =>
    (stores.totalQty side).trans
      (wordQty_ofSide_without distinct member exhausted side).symm
  have started : book.retire (handleOf order.ref) (levelOf order.key)
      order.side order.price = (do
        let cleared :=
          (middle.levels.value (levelOf order.key)).orderCount = 0
        let book ←
          if cleared then
            middle.clearLevel (levelOf order.key) order.side order.price
          else pure middle
        let orders ← book.orders.free (handleOf order.ref)
        let book := { book with orders }
        if cleared then book.noteRemoved order.side order.price
        else pure book) := by
    rw [BookT.retire, unlinked, ok_bind]
    dsimp only
    rw [ownRef, erased]
    rfl
  have counted : (middle.levels.value (levelOf order.key)).orderCount = 0 ↔
      atKey order.key (without order.ref resting) = [] := by
    have few : (atKey order.key (without order.ref resting)).length <
        2 ^ 32 := by
      have shorter := List.length_filter_le
        (fun other : Resting => decide (other.key = order.key))
        (without order.ref resting)
      have small := stores.small
      unfold atKey
      omega
    rw [(heap.level _ present).orderCount, ← List.length_eq_zero_iff,
      ← UInt32.toNat_inj, UInt32.toNat_ofNat_of_lt' few]
    rfl
  by_cases isEmpty : atKey order.key (without order.ref resting) = []
  · obtain ⟨levels', ladders, levelCount, cleared, clearedHolding⟩ :=
      middleHolding.clearLevel implements present isEmpty
    obtain ⟨orders', freed, freedHolding⟩ := clearedHolding.freeOrder
    obtain ⟨best, noted, bests⟩ :=
      freedHolding.noteRemoved implements holding.heap.keys_nodup
    simp only [if_pos (counted.mpr isEmpty)] at started
    rw [show order.key = (order.side, order.price) from rfl, cleared,
      ok_bind, freed, ok_bind, noted] at started
    refine ⟨_, keys.erase order.key, started,
      ⟨⟨freedHolding.heap, freedHolding.ladders, freedHolding.levelCount⟩,
        indexHolds, orderCount, totalQty, ?_⟩,
      fun _ => List.mem_of_mem_erase, bests⟩
    · intro key keyMember
      have keyNe : key ≠ order.key := by
        rintro rfl
        exact holding.heap.keys_nodup.not_mem_erase keyMember
      rw [atKey_without_of_ne distinct member keyNe]
      exact stores.inhabited key (List.mem_of_mem_erase keyMember)
  · obtain ⟨orders', freed, freedHolding⟩ := middleHolding.freeOrder
    simp only [if_neg (mt counted.mp isEmpty)] at started
    rw [pure_eq_ok, ok_bind, freed, ok_bind] at started
    refine ⟨_, keys, started,
      ⟨⟨freedHolding.heap, freedHolding.ladders, freedHolding.levelCount⟩,
        indexHolds, orderCount, totalQty, ?_⟩,
      fun _ member => member, fun _ isBest => isBest⟩
    · intro key keyMember
      by_cases same : key = order.key
      · exact same ▸ isEmpty
      · rw [atKey_without_of_ne distinct member same]
        exact stores.inhabited key keyMember

/-- `reduce` takes the shares, and retires an order which has no more. -/
theorem Stores.reduce (implements : LevelMap.Implements holds admits)
    (stores : Stores holds limits handleOf levelOf book keys resting)
    (member : order ∈ resting) (enough : shares ≤ order.qty) :
    ∃ book' keys', book.reduce (handleOf order.ref) shares = .ok book' ∧
      Stores holds limits handleOf levelOf book' keys'
        (reduceIn order.ref shares resting) ∧
      KeepsBest book keys book' keys' := by
  have distinct := stores.holding.heap.distinct
  have taken := stores.taken member enough
  rw [stores.reduce_eq member enough]
  by_cases remaining : order.qty = shares
  · subst remaining
    have less : (Resting.subtractAt order.ref order.qty order) =
        { order with qty := 0 } := by
      rw [Resting.subtractAt, if_pos rfl, sub_self]
    have inside : { order with qty := 0 } ∈
        subtractIn order.ref order.qty resting :=
      less ▸ List.mem_map_of_mem member
    obtain ⟨book', keys', retired, after, keeps⟩ :=
      taken.retire implements inside rfl
    refine ⟨book', keys', ?_, ?_, keeps.subset, keeps.best⟩
    · rw [if_neg (not_not.mpr rfl)]
      exact retired
    · rw [reduceIn_exhausted distinct member]
      rw [without_subtractIn] at after
      exact after
  · refine ⟨_, keys, if_pos remaining, ?_, fun _ member => member,
      fun _ isBest => isBest⟩
    rw [← subtractIn_of_remaining distinct member remaining]
    exact taken

end Retire

/-! ## An order is added -/

/-- The levels once an order has come to one. -/
def withKey (key : LevelKey) (keys : List LevelKey) : List LevelKey :=
  if key ∈ keys then keys else key :: keys

theorem mem_withKey {key other : LevelKey} :
    other ∈ withKey key keys ↔ other = key ∨ other ∈ keys := by
  unfold withKey
  split_ifs with present
  · constructor
    · exact Or.inr
    · rintro (rfl | member)
      · exact present
      · exact member
  · exact List.mem_cons

/-- The best prices once an order has come to a price. -/
def noted (best : PerSide Price) (side : Side) (price : Price) :
    PerSide Price :=
  if best.get side = kNoPrice ∨ Closer side price (best.get side) then
    best.set side price
  else best

theorem noteAdded_eq (book : BookT M hash) (side : Side) (price : Price) :
    book.noteAdded side price =
      { book with best := noted book.best side price } := by
  unfold noteAdded noted
  dsimp only
  by_cases isEmpty : book.best.get side = kNoPrice
  · rw [if_pos isEmpty, if_pos (Or.inl isEmpty)]
  · rw [if_neg isEmpty]
    cases side with
    | buy =>
        simp only [isEmpty, false_or, Closer, decide_eq_true_iff, gt_iff_lt]
        split_ifs <;> rfl
    | sell =>
        simp only [isEmpty, false_or, Closer, decide_eq_true_iff]
        split_ifs <;> rfl

/-- The best price is right again once a level has come. -/
theorem isBest_noted {best : PerSide Price} {side other : Side}
    {price : Price} (before : IsBest other keys (best.get other))
    (shown : other = side → best.get side = kNoPrice →
      ∀ p, (side, p) ∈ keys → ¬ Closer side p price) :
    IsBest other (withKey (side, price) keys)
      ((noted best side price).get other) := by
  by_cases same : other = side
  · subst same
    have joins : ∀ p, (other, p) ∈ withKey (other, price) keys ↔
        p = price ∨ (other, p) ∈ keys := fun p => by
      simp [mem_withKey]
    have inserted := before.insert (shown rfl) joins
    unfold noted
    split_ifs at inserted ⊢
    · rw [PerSide.get_set_self]
      exact inserted
    · exact inserted
  · have elsewhere : (noted best side price).get other = best.get other := by
      unfold noted
      split_ifs
      · exact PerSide.get_set_of_ne same
      · rfl
    rw [elsewhere]
    exact before.congr fun p => by simp [mem_withKey, same]

/-- `add` makes the order rest behind all others at its price. -/
theorem Stores.add [LevelMap M] {admits : M → Price → Prop}
    (implements : LevelMap.Implements holds admits)
    (stores : Stores holds limits handleOf levelOf book keys resting)
    (fresh : ∀ other ∈ resting, other.ref ≠ order.ref)
    (positive : order.qty ≠ 0)
    (takes : LevelMap.Takes holds (book.ladders.get order.side) order.price)
    (ordersRoom : resting.length + 1 ≤ limits.orders)
    (indexRoom : 2 * (resting.length + 1) ≤ limits.index)
    (levelsRoom : (withKey order.key keys).length ≤ limits.levels) :
    ∃ handleOf' levelOf' book',
      book.add order.ref order.side order.price order.qty order.owner =
          .ok book' ∧
        Stores holds limits handleOf' levelOf' book'
          (withKey order.key keys) (resting ++ [order]) ∧
        book'.best = noted book.best order.side order.price := by
  have holding := stores.holding
  have heap := holding.heap
  have notNull : 0 < order.qty := UInt32.pos_iff_ne_zero.mpr positive
  have find := stores.index.find order.ref
  rw [orderMap_eq_none_iff.mpr fresh, Option.getD_none] at find
  obtain ⟨oh, orders, allocated, serves, same⟩ :=
    heap.ordersServe.allocate (by
      rw [List.nil_append, handles, List.length_map]
      omega)
  have head : oh ∈ oh :: ([] ++ handles handleOf resting) :=
    List.mem_cons_self
  have ohNull : oh.isNull = false :=
    Handle.isNull_eq_false_iff.mpr (serves.ne_null head)
  let filled : Pool Order := orders.modify oh fun record =>
    { record with
      ref := order.ref, qty := order.qty, price := order.price
      prev := Handle.null, next := Handle.null
      side := order.side, owner := order.owner }
  have filledServes : filled.Serves limits.orders
      (oh :: ([] ++ handles handleOf resting)) :=
    serves.modify head fun _ => rfl
  have filledValue : filled.value oh = _ :=
    (serves.value_modify head _ oh head).trans (if_pos rfl)
  have filledHolding : Holding holds limits handleOf levelOf
      { book with orders := filled } [oh] keys resting := by
    refine ⟨heap.replaceExtra filledServes fun h member => ?_,
      holding.ladders, holding.levelCount⟩
    have apart : h ≠ oh := by
      rintro rfl
      have distinct := List.Nodup.of_map _ serves.nodup
      exact (List.nodup_cons.mp distinct).1 member
    exact ((serves.value_modify head _ h (List.mem_cons_of_mem oh member)).trans
      (if_neg apart)).trans (same h member)
  obtain ⟨levelOf', levels, ladders, levelCount, found, foundHolding⟩ :=
    filledHolding.levelFor implements takes rfl levelsRoom
  obtain ⟨orders', levels', pushed, pushedHeap⟩ :=
    pushBack_spec foundHolding.heap fresh
      (mem_withKey.mpr (Or.inl rfl))
      (by rw [filledValue]; exact ⟨rfl, rfl, rfl, rfl, rfl, rfl, rfl⟩)
  obtain ⟨index, inserted, indexHolds⟩ :=
    stores.index.insert (orderMap_eq_none_iff.mpr fresh)
      (serves.ne_null head) indexRoom
  rw [← orderMap_append] at indexHolds
  -- The book before the last line, which looks at the best price.
  let joined : BookT M hash :=
    { book with
      orders := orders', levels := levels', index, ladders
      stats :=
        { book.stats with
          levelCount
          totalQty := book.stats.totalQty.set order.side
            (book.stats.totalQty.get order.side + order.qty.toUInt64)
          orderCount := book.stats.orderCount + 1 } }
  have added : book.add order.ref order.side order.price order.qty
      order.owner =
        .ok { joined with
          best := noted book.best order.side order.price } := by
    rw [BookT.add, assertMsg_of notNull, ok_bind, find, ok_bind,
      assertMsg_of (Handle.isNull_iff.mpr rfl), ok_bind, allocated, ok_bind]
    dsimp only
    rw [serves.get head, ok_bind, found, ok_bind]
    dsimp only
    rw [show (order.side, order.price) = order.key from rfl, pushed, ok_bind,
      inserted, ok_bind]
    exact congrArg Except.ok
      (joined.noteAdded_eq order.side order.price)
  refine ⟨_, _, _, added, ⟨⟨pushedHeap, foundHolding.ladders,
    foundHolding.levelCount⟩, ?_, ?_, ?_, ?_⟩, rfl⟩
  · rw [List.length_append]
    exact indexHolds
  · rw [List.length_append, UInt32.ofNat_add, ← stores.orderCount]
    rfl
  · intro side
    rw [wordQty_ofSide_append, ← stores.totalQty]
    refine (PerSide.get_set _ _ _ _).trans ?_
    split_ifs with first second second
    · rw [first]
    · exact absurd first.symm second
    · exact absurd second.symm first
    · rfl
  · intro key member
    rw [atKey_append]
    rcases mem_withKey.mp member with rfl | old
    · simp [atKey]
    · exact List.append_ne_nil_of_left_ne_nil
        (stores.inhabited key old) _

end BookT

end ItchExchange.Book
