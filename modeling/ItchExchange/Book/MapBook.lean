import ItchExchange.Book.ArrivalBook

/-!
# The reference order book

`MapBook` of `map_book.hpp`: an unordered map from references to entries, one
ordered map of price levels for each side, and a `std::list` of references in
every level.  An entry stores the list iterator of its reference, so that a
cancel does not search the queue.

An iterator names a node, not a value.  Nodes therefore carry an identity, and
`nextNode` stands for the allocator which never hands out the identity of a
live node.  Erasing an iterator which is not in the list is undefined
behaviour, and `erasePos` says so.
-/

namespace ItchExchange.Book

open ItchExchange.Core
open Std (ExtTreeMap)

namespace MapBook

/-- One node of a `std::list<OrderRef>`. -/
structure Node where
  id : Nat
  ref : OrderRef
deriving DecidableEq, Repr

/-- A price level: its total quantity, and its queue. -/
structure Level where
  qty : UInt64 := 0
  fifo : List Node := []
deriving DecidableEq, Repr

/-- What the index holds of an order, with the iterator of its node. -/
structure Entry where
  side : Side
  price : Price
  qty : Qty
  owner : Owner
  pos : Nat
deriving DecidableEq, Repr

/-- `BidMap` and `AskMap`. -/
abbrev LevelMap (side : Side) := ExtTreeMap Price Level (inside side)

/-- `std::list::erase` at an iterator. -/
def erasePos (pos : Nat) : List Node → Checked (List Node)
  | [] => .error .undefined
  | node :: rest =>
      if node.id = pos then .ok rest
      else do
        let rest ← erasePos pos rest
        pure (node :: rest)

end MapBook

/--
The book: the index by reference, the levels of both sides, and what is counted.
-/
structure MapBook where
  orders : ExtTreeMap OrderRef MapBook.Entry := ∅
  bids : MapBook.LevelMap .buy := ∅
  asks : MapBook.LevelMap .sell := ∅
  stats : BookStats := {}
  nextNode : Nat := 0

namespace MapBook

/-- The price map of a side. -/
def levels (book : MapBook) : (side : Side) → LevelMap side
  | .buy => book.bids
  | .sell => book.asks

/-- Assign to the price map of a side. -/
def setLevels (book : MapBook) :
    (side : Side) → LevelMap side → MapBook
  | .buy, levels => { book with bids := levels }
  | .sell, levels => { book with asks := levels }

/-! ## Mutations -/

/-- The part of `add` behind its assertions. -/
def insert (book : MapBook) (ref : OrderRef) (side : Side)
    (price : Price) (qty : Qty) (owner : Owner) : MapBook :=
  let fresh := (book.levels side)[price]?.isNone
  let level := (book.levels side)[price]?.getD {}
  let node : Node := ⟨book.nextNode, ref⟩
  let pushed : Level :=
    { qty := level.qty + qty.toUInt64, fifo := level.fifo ++ [node] }
  let stats := book.stats
  { book.setLevels side ((book.levels side).insert price pushed) with
    orders := book.orders.insertIfNew ref
      { side, price, qty, owner, pos := node.id }
    stats :=
      { totalQty := stats.totalQty.set side
          (stats.totalQty.get side + qty.toUInt64)
        levelCount :=
          if fresh then
            stats.levelCount.set side (stats.levelCount.get side + 1)
          else stats.levelCount
        orderCount := stats.orderCount + 1 }
    nextNode := book.nextNode + 1 }

/-- A reference rests once, and never without a quantity. -/
def add (book : MapBook) (ref : OrderRef) (side : Side) (price : Price)
    (qty : Qty) (owner : Owner) : Checked MapBook := do
  assertMsg (0 < qty) "an order with no quantity cannot rest"
  assertMsg (book.orders[ref]? = none) "order reference added twice"
  pure (book.insert ref side price qty owner)

/-- `entry` is the order's entry, its quantity already reduced. -/
def reduceLevel (book : MapBook) (ref : OrderRef) (entry : Entry)
    (shares : Qty) : Checked MapBook :=
  let levels := book.levels entry.side
  match levels[entry.price]? with
  | none =>
      .error (.assertion "order points at a level that does not exist")
  | some level =>
      let qty := level.qty - shares.toUInt64
      if entry.qty = 0 then do
        let fifo ← erasePos entry.pos level.fifo
        let stats :=
          { book.stats with orderCount := book.stats.orderCount - 1 }
        if fifo.isEmpty then do
          assertMsg (qty = 0) "empty level still holds quantity"
          pure
            { book.setLevels entry.side (levels.erase entry.price) with
              orders := book.orders.erase ref
              stats :=
                { stats with
                  levelCount := stats.levelCount.set entry.side
                    (stats.levelCount.get entry.side - 1) } }
        else
          pure
            { book.setLevels entry.side
                (levels.insert entry.price { qty, fifo }) with
              orders := book.orders.erase ref
              stats }
      else
        .ok (book.setLevels entry.side
          (levels.insert entry.price { level with qty }))

/-- `entry` is what `orders` holds under `ref`. -/
def reduce (book : MapBook) (ref : OrderRef) (entry : Entry)
    (shares : Qty) : Checked MapBook :=
  let reduced := { entry with qty := entry.qty - shares }
  let stats := book.stats
  reduceLevel
    { book with
      orders := book.orders.insert ref reduced
      stats :=
        { stats with
          totalQty := stats.totalQty.set entry.side
            (stats.totalQty.get entry.side - shares.toUInt64) } }
    ref reduced shares

/-- `find` followed by the assertion that it found an entry. -/
def require (book : MapBook) (ref : OrderRef) (message : String) :
    Checked Entry :=
  match book.orders[ref]? with
  | none => .error (.assertion message)
  | some entry => .ok entry

/-- Take shares off a resting order, which goes when none are left. -/
def cancel (book : MapBook) (ref : OrderRef) (shares : Qty) :
    Checked MapBook := do
  let entry ← book.require ref "cancel for an order that is not resting"
  assertMsg (shares ≤ entry.qty) "cancel for more than the order holds"
  book.reduce ref entry shares

/-- A cancel which returns what was executed. -/
def execute (book : MapBook) (ref : OrderRef) (shares : Qty) :
    Checked (Qty × MapBook) := do
  let entry ← book.require ref
    "execution against an order that is not resting"
  assertMsg (shares ≤ entry.qty) "execution for more than the order holds"
  let book ← book.reduce ref entry shares
  pure (shares, book)

/-- Take everything off an order. -/
def remove (book : MapBook) (ref : OrderRef) : Checked MapBook := do
  let entry ← book.require ref "delete for an order that is not resting"
  book.reduce ref entry entry.qty

/-- The new order keeps the side and the owner, and queues at the back. -/
def replace (book : MapBook) (oldRef newRef : OrderRef) (price : Price)
    (qty : Qty) : Checked MapBook := do
  let entry ← book.require oldRef
    "replace of an order that is not resting"
  let book ← book.remove oldRef
  book.add newRef entry.side price qty entry.owner

/-! ## Queries -/

def isEmpty (book : MapBook) (side : Side) : Bool :=
  (book.levels side).isEmpty

/-- `begin()->first` of the side's map, when there is one. -/
def best (book : MapBook) (side : Side) : Price :=
  ((book.levels side).toList.head?.map Prod.fst).getD kNoPrice

/-- A price without a level has no quantity. -/
def qtyAt (book : MapBook) (side : Side) (price : Price) : UInt64 :=
  match (book.levels side)[price]? with
  | none => 0
  | some level => level.qty

def ordersAt (book : MapBook) (side : Side) (price : Price) : UInt32 :=
  match (book.levels side)[price]? with
  | none => 0
  | some level => UInt32.ofNat level.fifo.length

/-- The oldest order at a price; zero stands for none. -/
def frontAt (book : MapBook) (side : Side) (price : Price) : OrderRef :=
  match (book.levels side)[price]? with
  | none => 0
  | some level => (level.fifo.head?.map Node.ref).getD 0

def orderCount (book : MapBook) : Nat := book.orders.size

def contains (book : MapBook) (ref : OrderRef) : Bool :=
  book.orders[ref]?.isSome

/-- The queries about one order assert that it rests. -/
def sideOf (book : MapBook) (ref : OrderRef) : Checked Side := do
  let entry ← book.require ref "side_of for an order that is not resting"
  pure entry.side

def priceOf (book : MapBook) (ref : OrderRef) : Checked Price := do
  let entry ← book.require ref "price_of for an order that is not resting"
  pure entry.price

def qtyOf (book : MapBook) (ref : OrderRef) : Checked Qty := do
  let entry ← book.require ref "qty_of for an order that is not resting"
  pure entry.qty

def ownerOf (book : MapBook) (ref : OrderRef) : Checked Owner := do
  let entry ← book.require ref "owner_of for an order that is not resting"
  pure entry.owner

/-- The levels from the inside outwards, each with its queue. -/
def forEachLevel (book : MapBook) (side : Side) : List LevelVisit :=
  (book.levels side).toList.map fun (price, level) =>
    { price
      qty := level.qty
      orders := UInt32.ofNat level.fifo.length
      refs := level.fifo.map Node.ref }

instance : OrderBook MapBook where
  add := add
  cancel := cancel
  execute := execute
  remove := remove
  replace := replace
  isEmpty := isEmpty
  best := best
  qtyAt := fun book side price => .ok (book.qtyAt side price)
  ordersAt := fun book side price => .ok (book.ordersAt side price)
  frontAt := fun book side price => .ok (book.frontAt side price)
  stats := stats
  orderCount := orderCount
  contains := fun book ref => .ok (book.contains ref)
  sideOf := sideOf
  priceOf := priceOf
  qtyOf := qtyOf
  ownerOf := ownerOf
  forEachLevel := fun book side => .ok (book.forEachLevel side)

end MapBook

end ItchExchange.Book
