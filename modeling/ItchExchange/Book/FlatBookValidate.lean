import ItchExchange.Book.FlatBookRefinement
import ItchExchange.Book.MapBookValidate
import ItchExchange.Book.OrderIndexRuns

/-!
# The self-check of the pooled book

`validate` of `flat_book.hpp` checks the index, both pools and both level maps,
and walks every queue to derive again what the counters claim.  It accepts every
book which holds a list of arrivals.
-/

namespace ItchExchange.Book

open ItchExchange.Core

namespace BookT

variable {M : Type} {hash : OrderRef → UInt64}

/-! ## The check -/

/-- The loop over the queue of a level: its quantity and its length. -/
def validateQueue (book : BookT M hash) (side : Side) (price : Price) :
    Nat → OrderHandle → UInt64 × UInt32 → Checked (UInt64 × UInt32)
  | 0, _, _ => .error .divergence
  | fuel + 1, h, (sum, seen) =>
      if h.isNull then pure (sum, seen)
      else do
        let queued ← book.orders.get h
        let oh ← book.index.find queued.ref
        assertMsg (oh.isNull = false) "a queued order is not in the index"
        let order ← book.orders.get oh
        assertMsg (order.price = price) "order is on the wrong level"
        assertMsg (order.side = side) "order is on the wrong side"
        assertMsg (0 < order.qty) "a zero quantity order is resting"
        book.validateQueue side price fuel queued.next
          (sum + order.qty.toUInt64, seen + 1)

/-- One level, behind the level at `prev`. -/
def validateLevel (book : BookT M hash) (side : Side) (prev : Option Price)
    (recount : Recount) (price : Price) (lh : LevelHandle) :
    Checked Recount := do
  let level ← book.levels.get lh
  assertMsg (0 < level.orderCount) "an empty level must not exist"
  assertMsg (∀ before ∈ prev, Closer side before price)
    "levels are out of order"
  let (sum, seen) ←
    book.validateQueue side price (book.orders.capacity + 1) level.head (0, 0)
  assertMsg (seen = level.orderCount)
    "queue length disagrees with the level"
  assertMsg (sum = level.totalQty)
    "level quantity disagrees with its orders"
  pure
    { qty := recount.qty + level.totalQty
      levels := recount.levels + 1
      orders := recount.orders + level.orderCount.toNat }

/-- The levels of a side outwards, each against the one in front of it. -/
def validateLevels (book : BookT M hash) (side : Side) :
    Option Price → Recount → List (Price × LevelHandle) → Checked Recount
  | _, recount, [] => .ok recount
  | prev, recount, (price, lh) :: rest => do
      let recount ← book.validateLevel side prev recount price lh
      book.validateLevels side (some price) recount rest

section Sides

variable [LevelMap M] [ValidatedLevelMap M]

/--
The level map, its levels, and the cached best price of a side with levels.
-/
def validateSide (book : BookT M hash) (side : Side) : Checked Recount := do
  let ladder := book.ladders.get side
  ValidatedLevelMap.validate ladder
  let levels ← LevelMap.forEachLevel ladder
  let recount ← book.validateLevels side none {} levels
  if book.isEmpty side then pure recount
  else do
    let best ← LevelMap.best ladder
    assertMsg (book.best.get side = best)
      "cached best disagrees with the ladder"
    pure recount

/-- The parts, both sides, and then what the statistics claim of them. -/
def validate (book : BookT M hash) : Checked Unit := do
  book.index.validate
  book.orders.validate
  book.levels.validate
  let buy ← book.validateSide .buy
  let sell ← book.validateSide .sell
  assertMsg (buy.orders + sell.orders = book.index.size.toNat)
    "orphaned order in the index"
  assertMsg
    (buy.qty = book.stats.totalQty.buy ∧
      sell.qty = book.stats.totalQty.sell)
    "cached total quantity disagrees"
  assertMsg
    (buy.levels = book.stats.levelCount.buy ∧
      sell.levels = book.stats.levelCount.sell)
    "cached level count disagrees"
  assertMsg (book.stats.orderCount = book.index.size)
    "cached order count disagrees"

instance : ValidatedBook (BookT M hash) where
  validate := validate

end Sides

/-! ## The check accepts every list of arrivals -/

section Accepts

variable {limits : Limits} {handleOf : OrderRef → OrderHandle}
  {levelOf : LevelKey → LevelHandle} {book : BookT M hash}
  {keys : List LevelKey} {arrivals : ArrivalBook} {side : Side} {price : Price}
  {holds : Side → M → (Price → Option LevelHandle) → Nat → Prop}

/-- The walk of a queue comes to the quantity and the number of its orders. -/
theorem Stores.validateQueue
    (stores : Stores holds limits handleOf levelOf book keys
      arrivals.orders)
    {queue : List Resting} {before : OrderHandle}
    (inLevel : ∀ order ∈ queue, order ∈ arrivals.level side price)
    (linked : LinkedQueue.Linked (fun h => (book.orders.value h).prev)
      (fun h => (book.orders.value h).next) before (handles handleOf queue)
      Handle.null)
    {fuel : Nat} (enough : queue.length < fuel) (sum : UInt64)
    (seen : UInt32) :
    book.validateQueue side price fuel
        ((handles handleOf queue).headD Handle.null) (sum, seen) =
      .ok (sum + wordQty queue, seen + UInt32.ofNat queue.length) := by
  induction queue generalizing before fuel sum seen with
  | nil =>
      obtain ⟨fuel, rfl⟩ := Nat.exists_eq_add_of_lt enough
      rw [wordQty_nil, UInt64.add_zero, List.length_nil]
      exact congrArg Except.ok
        (Prod.ext rfl (UInt32.add_zero seen).symm)
  | cons order rest induction =>
      obtain ⟨fuel, rfl⟩ := Nat.exists_eq_add_of_lt enough
      obtain ⟨here, later⟩ := List.forall_mem_cons.mp inLevel
      obtain ⟨member, onSide, atPrice⟩ := ArrivalBook.mem_level.mp here
      obtain ⟨-, next, links⟩ := linked
      have heap := stores.holding.heap
      have record := heap.record order member
      have notNull := heap.handle_ne_null member
      have find := stores.index.find order.ref
      rw [orderMap_of_mem member, Option.getD_some] at find
      have positive : 0 < order.qty :=
        UInt32.pos_iff_ne_zero.mpr (arrivals.positive order member)
      have walked := induction later links
        (show rest.length < (order :: rest).length + fuel by
          rw [List.length_cons]; omega)
        (sum + order.qty.toUInt64) (seen + 1)
      have count : seen + 1 + UInt32.ofNat rest.length =
          seen + UInt32.ofNat (rest.length + 1) := by
        rw [UInt32.ofNat_add, UInt32.add_assoc, UInt32.add_comm 1]
        rfl
      dsimp only at next
      rw [handles_cons, List.headD_cons, BookT.validateQueue,
        if_neg (mt Handle.isNull_iff.mp notNull), heap.get_order member,
        ok_bind, record.ref, find, ok_bind,
        assertMsg_of (Handle.isNull_eq_false_iff.mpr notNull), ok_bind,
        heap.get_order member, ok_bind,
        assertMsg_of (record.price.trans atPrice), ok_bind,
        assertMsg_of (record.side.trans onSide), ok_bind, record.qty,
        assertMsg_of positive, ok_bind, next]
      rw [handles] at walked
      rw [walked, wordQty_cons, List.length_cons, count, UInt64.add_assoc]

/-- A level passes, and its orders are added to the recount. -/
theorem Stores.validateLevel
    (stores : Stores holds limits handleOf levelOf book keys
      arrivals.orders)
    {prev : Option Price} (present : price ∈ arrivals.prices side)
    (recedes : ∀ before ∈ prev, Closer side before price)
    (recount : Recount) :
    book.validateLevel side prev recount price (levelOf (side, price)) =
      .ok (recount.visit
        { price
          qty := arrivals.qtyAt side price
          orders := arrivals.ordersAt side price
          refs := (arrivals.level side price).map Resting.ref }) := by
  have heap := stores.holding.heap
  have inKeys := (stores.areLevels.2 side price).mpr present
  have level := heap.level (side, price) inKeys
  have few := stores.length_atKey (side, price)
  rw [← ArrivalBook.level_eq_atKey] at level few
  have small : (arrivals.level side price).length < 2 ^ 32 :=
    lt_of_le_of_lt (MapBook.length_level_le arrivals side price)
      stores.small
  have nonempty := ArrivalBook.level_ne_nil_iff.mpr present
  have some : 0 < (book.levels.value (levelOf (side, price))).orderCount := by
    rw [level.orderCount, UInt32.lt_iff_toNat_lt,
      UInt32.toNat_ofNat_of_lt' small]
    exact List.length_pos_iff.mpr nonempty
  have walked := stores.validateQueue (fun order member => member)
    level.linked few 0 0
  rw [UInt64.zero_add, UInt32.zero_add, ← level.head, ← level.totalQty,
    ← level.orderCount] at walked
  rw [BookT.validateLevel, heap.get_level inKeys, ok_bind, assertMsg_of some,
    ok_bind, assertMsg_of recedes, ok_bind, walked, ok_bind]
  dsimp only
  rw [assertMsg_of rfl, ok_bind, assertMsg_of rfl, ok_bind, level.totalQty,
    level.orderCount]
  rfl

theorem Stores.validateLevels
    (stores : Stores holds limits handleOf levelOf book keys
      arrivals.orders)
    {prev : Option Price} {prices : List Price}
    (present : ∀ price ∈ prices, price ∈ arrivals.prices side)
    (recede : prices.Pairwise (Closer side))
    (behind : ∀ before ∈ prev, ∀ price ∈ prices, Closer side before price)
    (recount : Recount) :
    book.validateLevels side prev recount
        (prices.map fun price => (price, levelOf (side, price))) =
      .ok ((prices.map fun price =>
          { price
            qty := arrivals.qtyAt side price
            orders := arrivals.ordersAt side price
            refs := (arrivals.level side price).map Resting.ref :
              LevelVisit }).foldl Recount.visit recount) := by
  induction prices generalizing prev recount with
  | nil => rfl
  | cons price rest induction =>
      obtain ⟨recedes, sorted⟩ := List.pairwise_cons.mp recede
      obtain ⟨here, later⟩ := List.forall_mem_cons.mp present
      rw [List.map_cons, BookT.validateLevels,
        stores.validateLevel here (fun before member =>
          behind before member price List.mem_cons_self), ok_bind,
        List.map_cons, List.foldl_cons]
      refine induction later sorted ?_ _
      intro before equal
      rw [← Option.some.inj equal]
      exact recedes

variable [LevelMap M] [ValidatedLevelMap M] {admits : M → Price → Prop}

/-- The recount of a side is that of the list of arrivals. -/
theorem Stores.validateSide
    (implements : LevelMap.Implements holds admits)
    (checks : ∀ {side levels map count}, holds side levels map count →
      ValidatedLevelMap.validate levels = .ok ())
    (stores : Stores holds limits handleOf levelOf book keys
      arrivals.orders) (caches : CachesBest book arrivals) (side : Side) :
    book.validateSide side =
      .ok { qty := wordQty (arrivals.onSide side)
            levels := UInt32.ofNat (arrivals.prices side).length
            orders := (arrivals.onSide side).length } := by
  have onSide := stores.holding.ladders side
  have areLevels := stores.areLevels
  have walked := stores.validateLevels (fun price member => member)
    (arrivals.prices_pairwise side)
    (fun before member => absurd member (Option.not_mem_none before)) {}
  have counted := arrivals.recount_visits side stores.small
  rw [ArrivalBook.visits] at counted
  rw [counted] at walked
  rw [BookT.validateSide, checks onSide, ok_bind,
    stores.visited implements side, ok_bind, walked, ok_bind]
  split_ifs with isEmpty
  · rfl
  · have present := mt (implements.isEmpty onSide).mpr isEmpty
    push Not at present
    obtain ⟨price, present⟩ := present
    obtain ⟨lh, found⟩ := Option.ne_none_iff_exists'.mp present
    obtain ⟨top, computed, topPresent, least⟩ := implements.best onSide found
    have mapped : ∀ other, levelMap levelOf keys side other ≠ none ↔
        (side, other) ∈ keys := fun other =>
      (not_congr levelMap_eq_none_iff).trans not_not
    have isBest : IsBest side keys top :=
      Or.inr ⟨(mapped top).mp topPresent, fun other member =>
        least other ((mapped other).mpr member)⟩
    have same : book.best.get side = top :=
      (caches side).trans (isBest.eq_best areLevels).symm
    rw [computed, ok_bind, assertMsg_of same]
    rfl

/-- The self-check accepts every book which holds a list of arrivals. -/
theorem Carries.validate (implements : LevelMap.Implements holds admits)
    (checks : ∀ {side levels map count}, holds side levels map count →
      ValidatedLevelMap.validate levels = .ok ())
    (carries : Carries holds limits book arrivals)
    (caches : CachesBest book arrivals) : book.validate = .ok () := by
  have answers := carries.answers implements caches
  have stats : book.stats = arrivals.stats := answers.stats
  have size : book.index.size.toNat = arrivals.orders.length :=
    answers.orderCount
  obtain ⟨handleOf, levelOf, keys, stores⟩ := carries
  have heap := stores.holding.heap
  have walked := stores.validateSide implements checks caches
  have counted : book.stats.orderCount = book.index.size := by
    rw [stores.orderCount, ← size]
    exact UInt32.ofNat_toNat
  rw [BookT.validate, stores.index.validate, ok_bind,
    heap.ordersServe.validate, ok_bind, heap.levelsServe.validate, ok_bind,
    walked, ok_bind, walked, ok_bind, assertMsg_of counted, size, stats]
  simp only [ArrivalBook.stats, arrivals.onSide_length_add, and_self,
    assertMsg_of, ok_bind]

theorem Represents.validate (implements : LevelMap.Implements holds admits)
    (checks : ∀ {side levels map count}, holds side levels map count →
      ValidatedLevelMap.validate levels = .ok ())
    (represents : Represents holds limits book arrivals) :
    book.validate = .ok () :=
  represents.carries.validate implements checks represents.caches

end Accepts

end BookT

end ItchExchange.Book
