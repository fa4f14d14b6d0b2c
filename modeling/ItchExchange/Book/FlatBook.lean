import ItchExchange.Book.BookTypes
import ItchExchange.Book.LevelMap
import ItchExchange.Book.OrderIndex
import ItchExchange.Book.Pool

/-!
# The pooled order book

`BookT` of `flat_book.hpp` with the two records of `records.hpp`: orders and
price levels live in pools and name each other by handle, an index finds the
handle of a reference, and one level map for each side finds the handle of a
price.  The level map is a parameter, as it is a template parameter in the
source.

A reference which the source takes with `operator[]` is a checked `get`; what it
then reads and writes through that reference is `value` and `modify`.
-/

namespace ItchExchange.Book

open ItchExchange.Core

/-- A record of the order pool, linked into the queue of its level. -/
structure Order where
  ref : OrderRef := 0
  qty : Qty := 0
  price : Price := 0
  prev : OrderHandle := Handle.null
  next : OrderHandle := Handle.null
  level : LevelHandle := Handle.null
  side : Side := .buy
  gen : UInt8 := 0
  owner : Owner := 0
deriving DecidableEq, Repr

/-- A record of the level pool: a price, and both ends of its queue. -/
structure Level where
  totalQty : UInt64 := 0
  head : OrderHandle := Handle.null
  tail : OrderHandle := Handle.null
  price : Price := 0
  orderCount : UInt32 := 0
  poolNext : LevelHandle := Handle.null
  gen : UInt8 := 0
deriving DecidableEq, Repr

/-- A free order is in no queue, so its forward link carries the free list. -/
instance : PoolSlot Order OrderTag where
  poolLink := Order.next
  setPoolLink := fun order link => { order with next := link }
  poolGeneration := Order.gen
  setPoolGeneration := fun order gen => { order with gen := gen }
  fresh := {}

instance : PoolSlot Level LevelTag where
  poolLink := Level.poolNext
  setPoolLink := fun level link => { level with poolNext := link }
  poolGeneration := Level.gen
  setPoolGeneration := fun level gen => { level with gen := gen }
  fresh := {}

instance : LawfulPoolSlot Order where
  link_setLink := fun _ _ => rfl
  generation_setLink := fun _ _ => rfl
  link_setGeneration := fun _ _ => rfl
  generation_setGeneration := fun _ _ => rfl

instance : LawfulPoolSlot Level where
  link_setLink := fun _ _ => rfl
  generation_setLink := fun _ _ => rfl
  link_setGeneration := fun _ _ => rfl
  generation_setGeneration := fun _ _ => rfl

/--
The book: two pools, the index of references, and for each side a level map and
a cached best price.
-/
structure BookT (M : Type) (hash : OrderRef → UInt64) where
  orders : Pool Order
  levels : Pool Level
  index : OrderIndex hash
  ladders : PerSide M
  stats : BookStats := {}
  best : PerSide Price := .both kNoPrice

namespace BookT

variable {M : Type} [LevelMap M] {hash : OrderRef → UInt64}

/-- The constructor. -/
def make (orderCapacity levelCapacity indexCapacity : UInt32)
    (quarantine : Nat) : Checked (BookT M hash) := do
  let orders ← Pool.make orderCapacity quarantine
  let levels ← Pool.make levelCapacity quarantine
  let index ← OrderIndex.make indexCapacity
  pure
    { orders, levels, index
      ladders := ⟨LevelMap.make .buy, LevelMap.make .sell⟩ }

/-- Write to an order through a reference to it. -/
def modifyOrder (book : BookT M hash) (oh : OrderHandle)
    (write : Order → Order) : BookT M hash :=
  { book with orders := book.orders.modify oh write }

/-- Write to a level through a reference to it. -/
def modifyLevel (book : BookT M hash) (lh : LevelHandle)
    (write : Level → Level) : BookT M hash :=
  { book with levels := book.levels.modify lh write }

/-! ## Mutations -/

/-- The level at a price, which is made where there is none. -/
def levelFor (book : BookT M hash) (side : Side) (price : Price) :
    Checked (LevelHandle × BookT M hash) := do
  let existing ← LevelMap.find (book.ladders.get side) price
  if existing.isNull = false then pure (existing, book)
  else do
    let (lh, levels) ← book.levels.allocate
    let _ ← levels.get lh
    let levels := levels.modify lh fun level =>
      { level with
        totalQty := 0, head := Handle.null, tail := Handle.null
        price, orderCount := 0 }
    let ladder ← LevelMap.insert (book.ladders.get side) price lh
    let stats := book.stats
    pure
      (lh,
        { book with
          levels
          ladders := book.ladders.set side ladder
          stats :=
            { stats with
              levelCount := stats.levelCount.set side
                (stats.levelCount.get side + 1) } })

/-- The part of `add` which links the order behind the tail, if there is one. -/
def linkTail (book : BookT M hash) (oh : OrderHandle) (lh : LevelHandle) :
    Checked (BookT M hash) := do
  let level := book.levels.value lh
  if level.tail.isNull then do
    assertMsg (level.head.isNull = true) "lvl.head.is_null()"
    pure (book.modifyLevel lh fun level => { level with head := oh })
  else do
    let _ ← book.orders.get level.tail
    let book := book.modifyOrder level.tail fun last =>
      { last with next := oh }
    pure (book.modifyOrder oh fun order => { order with prev := level.tail })

/-- The part of `add` which appends the order to the queue of its level. -/
def pushBack (book : BookT M hash) (oh : OrderHandle) (lh : LevelHandle)
    (qty : Qty) : Checked (BookT M hash) := do
  let book := book.modifyOrder oh fun order => { order with level := lh }
  let _ ← book.levels.get lh
  let book ← book.linkTail oh lh
  pure (book.modifyLevel lh fun level =>
    { level with
      tail := oh
      totalQty := level.totalQty + qty.toUInt64
      orderCount := level.orderCount + 1 })

/-- Keep the cached best price; a price of zero marks an empty side. -/
def noteAdded (book : BookT M hash) (side : Side) (price : Price) :
    BookT M hash :=
  let best := book.best.get side
  if best = kNoPrice then { book with best := book.best.set side price }
  else
    let better : Bool :=
      match side with
      | .buy => decide (price > best)
      | .sell => decide (price < best)
    if better then { book with best := book.best.set side price } else book

/-- The order goes behind the tail of the queue of its price. -/
def add (book : BookT M hash) (ref : OrderRef) (side : Side)
    (price : Price) (qty : Qty) (owner : Owner) :
    Checked (BookT M hash) := do
  assertMsg (0 < qty) "an order with no quantity cannot rest"
  let existing ← book.index.find ref
  assertMsg (existing.isNull = true) "order reference added twice"
  let (oh, orders) ← book.orders.allocate
  let _ ← orders.get oh
  let orders := orders.modify oh fun order =>
    { order with
      ref, qty, price, prev := Handle.null, next := Handle.null
      side, owner }
  let (lh, book) ← levelFor { book with orders } side price
  let book ← book.pushBack oh lh qty
  let index ← book.index.insert ref oh
  let stats := book.stats
  let book :=
    { book with
      index
      stats :=
        { stats with
          totalQty := stats.totalQty.set side
            (stats.totalQty.get side + qty.toUInt64)
          orderCount := stats.orderCount + 1 } }
  pure (book.noteAdded side price)

/-- Look up the best price again when the level at the cached one has gone. -/
def noteRemoved (book : BookT M hash) (side : Side) (price : Price) :
    Checked (BookT M hash) :=
  if price ≠ book.best.get side then pure book
  else do
    let ladder := book.ladders.get side
    let best ←
      if LevelMap.isEmpty ladder then pure kNoPrice
      else LevelMap.best ladder
    pure { book with best := book.best.set side best }

/-- The part of `unlink` which makes the links forward skip the order. -/
def skipForward (book : BookT M hash) (oh : OrderHandle) (lh : LevelHandle) :
    Checked (BookT M hash) := do
  let order := book.orders.value oh
  if order.prev.isNull then
    pure (book.modifyLevel lh fun level => { level with head := order.next })
  else do
    let _ ← book.orders.get order.prev
    pure (book.modifyOrder order.prev fun previous =>
      { previous with next := order.next })

/-- The part of `unlink` which makes the links backward skip the order. -/
def skipBackward (book : BookT M hash) (oh : OrderHandle) (lh : LevelHandle) :
    Checked (BookT M hash) := do
  let order := book.orders.value oh
  if order.next.isNull then
    pure (book.modifyLevel lh fun level => { level with tail := order.prev })
  else do
    let _ ← book.orders.get order.next
    pure (book.modifyOrder order.next fun following =>
      { following with prev := order.prev })

/-- The part of `reduce` which takes the order out of the queue. -/
def unlink (book : BookT M hash) (oh : OrderHandle) (lh : LevelHandle) :
    Checked (BookT M hash) := do
  let book ← book.skipForward oh lh
  let book ← book.skipBackward oh lh
  pure (book.modifyLevel lh fun level =>
    { level with orderCount := level.orderCount - 1 })

/-- The part of `reduce` which gives back a level without orders. -/
def clearLevel (book : BookT M hash) (lh : LevelHandle) (side : Side)
    (price : Price) : Checked (BookT M hash) := do
  let level := book.levels.value lh
  assertMsg (level.totalQty = 0) "empty level still holds quantity"
  assertMsg (level.head.isNull = true ∧ level.tail.isNull = true)
    "lvl.head.is_null() && lvl.tail.is_null()"
  let ladder ← LevelMap.erase (book.ladders.get side) price
  let levels ← book.levels.free lh
  let stats := book.stats
  pure
    { book with
      levels
      ladders := book.ladders.set side ladder
      stats :=
        { stats with
          levelCount := stats.levelCount.set side
            (stats.levelCount.get side - 1) } }

/-- The rest of `reduce` for an order of which nothing is left. -/
def retire (book : BookT M hash) (oh : OrderHandle) (lh : LevelHandle)
    (side : Side) (price : Price) : Checked (BookT M hash) := do
  let book ← book.unlink oh lh
  let index ← book.index.erase (book.orders.value oh).ref
  let stats := book.stats
  let book :=
    { book with
      index
      stats := { stats with orderCount := stats.orderCount - 1 } }
  let cleared := (book.levels.value lh).orderCount = 0
  let book ← if cleared then book.clearLevel lh side price else pure book
  let orders ← book.orders.free oh
  let book := { book with orders }
  if cleared then book.noteRemoved side price else pure book

/-- Take shares off an order and off its level. -/
def reduce (book : BookT M hash) (oh : OrderHandle) (shares : Qty) :
    Checked (BookT M hash) := do
  let order ← book.orders.get oh
  let side := order.side
  let left := order.qty - shares
  let stats := book.stats
  let book :=
    { book.modifyOrder oh fun order => { order with qty := left } with
      stats :=
        { stats with
          totalQty := stats.totalQty.set side
            (stats.totalQty.get side - shares.toUInt64) } }
  let level ← book.levels.get order.level
  assertMsg (shares.toUInt64 ≤ level.totalQty)
    "level quantity would go negative"
  let book := book.modifyLevel order.level fun level =>
    { level with totalQty := level.totalQty - shares.toUInt64 }
  if left ≠ 0 then pure book
  else book.retire oh order.level side order.price

/-- The handle of a resting order. -/
def require (book : BookT M hash) (ref : OrderRef) (message : String) :
    Checked OrderHandle := do
  let oh ← book.index.find ref
  assertMsg (oh.isNull = false) message
  pure oh

/-- Take shares off a resting order, which goes when none are left. -/
def cancel (book : BookT M hash) (ref : OrderRef) (shares : Qty) :
    Checked (BookT M hash) := do
  let oh ← book.require ref "cancel for an order that is not resting"
  let order ← book.orders.get oh
  assertMsg (shares ≤ order.qty) "cancel for more than the order holds"
  book.reduce oh shares

/-- A cancel which returns what was executed. -/
def execute (book : BookT M hash) (ref : OrderRef) (shares : Qty) :
    Checked (Qty × BookT M hash) := do
  let oh ← book.require ref
    "execution against an order that is not resting"
  let order ← book.orders.get oh
  assertMsg (shares ≤ order.qty) "execution for more than the order holds"
  let book ← book.reduce oh shares
  pure (shares, book)

/-- Take everything off an order. -/
def remove (book : BookT M hash) (ref : OrderRef) :
    Checked (BookT M hash) := do
  let oh ← book.require ref "delete for an order that is not resting"
  let order ← book.orders.get oh
  book.reduce oh order.qty

/-- The new order keeps the side and the owner, and queues at the back. -/
def replace (book : BookT M hash) (oldRef newRef : OrderRef)
    (price : Price) (qty : Qty) : Checked (BookT M hash) := do
  let oh ← book.require oldRef "replace of an order that is not resting"
  let order ← book.orders.get oh
  let book ← book.reduce oh order.qty
  book.add newRef order.side price qty order.owner

/-! ## Queries -/

def isEmpty (book : BookT M hash) (side : Side) : Bool :=
  LevelMap.isEmpty (book.ladders.get side)

def qtyAt (book : BookT M hash) (side : Side) (price : Price) :
    Checked UInt64 := do
  let lh ← LevelMap.find (book.ladders.get side) price
  if lh.isNull then pure 0
  else do
    let level ← book.levels.get lh
    pure level.totalQty

def ordersAt (book : BookT M hash) (side : Side) (price : Price) :
    Checked UInt32 := do
  let lh ← LevelMap.find (book.ladders.get side) price
  if lh.isNull then pure 0
  else do
    let level ← book.levels.get lh
    pure level.orderCount

/-- The head of the queue at a price; zero stands for none. -/
def frontAt (book : BookT M hash) (side : Side) (price : Price) :
    Checked OrderRef := do
  let lh ← LevelMap.find (book.ladders.get side) price
  if lh.isNull then pure 0
  else do
    let level ← book.levels.get lh
    if level.head.isNull then pure 0
    else do
      let order ← book.orders.get level.head
      pure order.ref

/-- The size of the index. -/
def orderCount (book : BookT M hash) : Nat := book.index.size.toNat

def contains (book : BookT M hash) (ref : OrderRef) : Checked Bool := do
  let oh ← book.index.find ref
  pure !oh.isNull

def sideOf (book : BookT M hash) (ref : OrderRef) : Checked Side := do
  let oh ← book.require ref "side_of for a missing order"
  let order ← book.orders.get oh
  pure order.side

def priceOf (book : BookT M hash) (ref : OrderRef) : Checked Price := do
  let oh ← book.require ref "price_of for a missing order"
  let order ← book.orders.get oh
  pure order.price

def qtyOf (book : BookT M hash) (ref : OrderRef) : Checked Qty := do
  let oh ← book.require ref "qty_of for a missing order"
  let order ← book.orders.get oh
  pure order.qty

def ownerOf (book : BookT M hash) (ref : OrderRef) : Checked Owner := do
  let oh ← book.require ref "owner_of for a missing order"
  let order ← book.orders.get oh
  pure order.owner

/--
The references an `OrderRange` from a handle passes.  A queue longer than the
pool comes back to a handle and never ends.
-/
def refsFrom (book : BookT M hash) :
    Nat → OrderHandle → Checked (List OrderRef)
  | 0, _ => .error .divergence
  | fuel + 1, h =>
      if h.isNull then pure []
      else do
        let order ← book.orders.get h
        let rest ← book.refsFrom fuel order.next
        pure (order.ref :: rest)

/--
The levels from the inside outwards, with their queues as they are linked.
-/
def forEachLevel (book : BookT M hash) (side : Side) :
    Checked (List LevelVisit) := do
  let levels ← LevelMap.forEachLevel (book.ladders.get side)
  levels.mapM fun (price, lh) => do
    let level ← book.levels.get lh
    let refs ← book.refsFrom (book.orders.capacity + 1) level.head
    pure
      { price, qty := level.totalQty, orders := level.orderCount, refs }

instance : OrderBook (BookT M hash) where
  add := add
  cancel := cancel
  execute := execute
  remove := remove
  replace := replace
  isEmpty := isEmpty
  best := fun book side => book.best.get side
  qtyAt := qtyAt
  ordersAt := ordersAt
  frontAt := frontAt
  stats := stats
  orderCount := orderCount
  contains := contains
  sideOf := sideOf
  priceOf := priceOf
  qtyOf := qtyOf
  ownerOf := ownerOf
  forEachLevel := forEachLevel

end BookT

end ItchExchange.Book
