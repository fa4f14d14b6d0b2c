import ItchExchange.Book.BookTypes
import ItchExchange.Wire.Framing
import ItchExchange.Wire.Views

/-!
# The book builder

`book_builder.hpp`: a builder drives a book from the messages of one symbol.
The book it refers to is a field here.  The observer is a parameter, as it is in
the source, and its hooks may stop at an assertion.
-/

namespace ItchExchange.Replay

open ItchExchange.Core ItchExchange.Book ItchExchange.Wire

/-- Hooks for tools that need to see the book around an update. -/
class Observer (O B : Type) where
  beforeAdd : O → B → Side → Price → Qty → O
  noteReduction : O → Side → Qty → Checked O
  afterApply : O → B → Timestamp → Checked O

/-- The observer of the plain replay path. -/
structure NullObserver where
deriving DecidableEq, Repr

instance (B : Type) : Observer NullObserver B where
  beforeAdd := fun observer _ _ _ _ => observer
  noteReduction := fun observer _ _ => .ok observer
  afterApply := fun observer _ _ => .ok observer

/-- The counters of the builder. -/
structure BuilderStats where
  messages : UInt64 := 0
  applied : UInt64 := 0
  adds : UInt64 := 0
  executions : UInt64 := 0
  cancels : UInt64 := 0
  deletes : UInt64 := 0
  replaces : UInt64 := 0
  executedShares : UInt64 := 0
  tradesIgnored : UInt64 := 0
  crossesIgnored : UInt64 := 0
  firstTs : Timestamp := 0
  lastTs : Timestamp := 0
deriving DecidableEq, Repr

/-- An empty symbol means that the first stock directory message wins. -/
structure BookBuilder (B O : Type) where
  book : B
  symbol : List UInt8
  observer : O
  locate : UInt16 := 0
  resolved : Bool := false
  stats : BuilderStats := {}

namespace BookBuilder

variable {B O : Type} [OrderBook B] [Observer O B]

/-- Notes a message and its timestamp. -/
def seen (builder : BookBuilder B O) (ts : Timestamp) : BookBuilder B O :=
  let stats := builder.stats
  { builder with
    stats :=
      { stats with
        firstTs := if stats.messages = 0 then ts else stats.firstTs
        lastTs := ts
        messages := stats.messages + 1 } }

/-- Whether a message is about the symbol, once that is resolved. -/
def mine (builder : BookBuilder B O) (locate : UInt16) : Bool :=
  builder.resolved && decide (locate = builder.locate)

/-! ## Reference data -/

/--
The first entry of the symbol, or the first one at all where none is named,
resolves the locate.
-/
def onStockDirectory (builder : BookBuilder B O) (v : StockDirectoryView) :
    BookBuilder B O :=
  let builder := builder.seen v.timestamp
  if builder.resolved = true then builder
  else
    let sym := trimAlpha v.stock
    if builder.symbol = [] ∨ sym = builder.symbol then
      { builder with
        symbol := sym
        locate := v.stockLocate
        resolved := true }
    else builder

/-! ## What the handlers do for the tracked symbol -/

def doAdd (builder : BookBuilder B O) (ref : OrderRef) (indicator : UInt8)
    (price : Price) (shares : Qty) (ts : Timestamp) :
    Checked (BookBuilder B O) := do
  assertMsg (indicator = 'B'.toUInt8 ∨ indicator = 'S'.toUInt8)
    "buy/sell indicator is neither B nor S"
  let side := if indicator = 'B'.toUInt8 then Side.buy else Side.sell
  let observer :=
    Observer.beforeAdd builder.observer builder.book side price shares
  let book ← OrderBook.add builder.book ref side price shares 0
  let stats := builder.stats
  let observer ← Observer.afterApply observer book ts
  pure
    { builder with
      book
      observer
      stats :=
        { stats with
          adds := stats.adds + 1
          applied := stats.applied + 1 } }

/-- The body which `on_order_executed` shares with its sibling. -/
def doExecute (builder : BookBuilder B O) (ref : OrderRef)
    (executedShares : Qty) (ts : Timestamp) :
    Checked (BookBuilder B O) := do
  let side ← OrderBook.sideOf builder.book ref
  let observer ←
    Observer.noteReduction B builder.observer side executedShares
  let (_, book) ← OrderBook.execute builder.book ref executedShares
  let stats := builder.stats
  let observer ← Observer.afterApply observer book ts
  pure
    { builder with
      book
      observer
      stats :=
        { stats with
          executions := stats.executions + 1
          executedShares :=
            stats.executedShares + executedShares.toUInt64
          applied := stats.applied + 1 } }

def doCancel (builder : BookBuilder B O) (ref : OrderRef)
    (cancelledShares : Qty) (ts : Timestamp) :
    Checked (BookBuilder B O) := do
  let side ← OrderBook.sideOf builder.book ref
  let observer ←
    Observer.noteReduction B builder.observer side cancelledShares
  let book ← OrderBook.cancel builder.book ref cancelledShares
  let stats := builder.stats
  let observer ← Observer.afterApply observer book ts
  pure
    { builder with
      book
      observer
      stats :=
        { stats with
          cancels := stats.cancels + 1
          applied := stats.applied + 1 } }

/-- Both arguments of the hook stop at the same orders. -/
def doDelete (builder : BookBuilder B O) (ref : OrderRef) (ts : Timestamp) :
    Checked (BookBuilder B O) := do
  let side ← OrderBook.sideOf builder.book ref
  let qty ← OrderBook.qtyOf builder.book ref
  let observer ← Observer.noteReduction B builder.observer side qty
  let book ← OrderBook.remove builder.book ref
  let stats := builder.stats
  let observer ← Observer.afterApply observer book ts
  pure
    { builder with
      book
      observer
      stats :=
        { stats with
          deletes := stats.deletes + 1
          applied := stats.applied + 1 } }

/-- The observer sees a replace as a delete and an add. -/
def doReplace (builder : BookBuilder B O) (oldRef newRef : OrderRef)
    (price : Price) (shares : Qty) (ts : Timestamp) :
    Checked (BookBuilder B O) := do
  let rside ← OrderBook.sideOf builder.book oldRef
  let qty ← OrderBook.qtyOf builder.book oldRef
  let observer ← Observer.noteReduction B builder.observer rside qty
  let observer :=
    Observer.beforeAdd observer builder.book rside price shares
  let book ← OrderBook.replace builder.book oldRef newRef price shares
  let stats := builder.stats
  let observer ← Observer.afterApply observer book ts
  pure
    { builder with
      book
      observer
      stats :=
        { stats with
          replaces := stats.replaces + 1
          applied := stats.applied + 1 } }

/-! ## Book messages -/

/-- Every handler counts its message, and goes on for the tracked symbol. -/
def whenMine (builder : BookBuilder B O) (locate : UInt16) (ts : Timestamp)
    (body : BookBuilder B O → Checked (BookBuilder B O)) :
    Checked (BookBuilder B O) :=
  let builder := builder.seen ts
  if builder.mine locate = true then body builder else .ok builder

def onAddOrder (builder : BookBuilder B O) (v : AddOrderView) :
    Checked (BookBuilder B O) :=
  builder.whenMine v.stockLocate v.timestamp fun builder =>
    builder.doAdd v.orderReferenceNumber v.buySellIndicator v.price v.shares
      v.timestamp

def onAddOrderWithMpid (builder : BookBuilder B O)
    (v : AddOrderWithMpidView) : Checked (BookBuilder B O) :=
  builder.whenMine v.stockLocate v.timestamp fun builder =>
    builder.doAdd v.orderReferenceNumber v.buySellIndicator v.price v.shares
      v.timestamp

def onOrderExecuted (builder : BookBuilder B O) (v : OrderExecutedView) :
    Checked (BookBuilder B O) :=
  builder.whenMine v.stockLocate v.timestamp fun builder =>
    builder.doExecute v.orderReferenceNumber v.executedShares v.timestamp

/-- The price on this message describes the print, not the book. -/
def onOrderExecutedWithPrice (builder : BookBuilder B O)
    (v : OrderExecutedWithPriceView) : Checked (BookBuilder B O) :=
  builder.whenMine v.stockLocate v.timestamp fun builder =>
    builder.doExecute v.orderReferenceNumber v.executedShares v.timestamp

def onOrderCancel (builder : BookBuilder B O) (v : OrderCancelView) :
    Checked (BookBuilder B O) :=
  builder.whenMine v.stockLocate v.timestamp fun builder =>
    builder.doCancel v.orderReferenceNumber v.cancelledShares v.timestamp

def onOrderDelete (builder : BookBuilder B O) (v : OrderDeleteView) :
    Checked (BookBuilder B O) :=
  builder.whenMine v.stockLocate v.timestamp fun builder =>
    builder.doDelete v.orderReferenceNumber v.timestamp

def onOrderReplace (builder : BookBuilder B O) (v : OrderReplaceView) :
    Checked (BookBuilder B O) :=
  builder.whenMine v.stockLocate v.timestamp fun builder =>
    builder.doReplace v.originalOrderReferenceNumber
      v.newOrderReferenceNumber v.price v.shares v.timestamp

/-! ## Reports that must not touch the book -/

/-- Counts a trade report of the tracked symbol. -/
def ignoreTrade (builder : BookBuilder B O) : BookBuilder B O :=
  let stats := builder.stats
  { builder with
    stats := { stats with tradesIgnored := stats.tradesIgnored + 1 } }

def onTradeNonCross (builder : BookBuilder B O) (v : TradeNonCrossView) :
    Checked (BookBuilder B O) :=
  builder.whenMine v.stockLocate v.timestamp fun builder =>
    .ok builder.ignoreTrade

def onCrossTrade (builder : BookBuilder B O) (v : CrossTradeView) :
    Checked (BookBuilder B O) :=
  builder.whenMine v.stockLocate v.timestamp fun builder =>
    let stats := builder.stats
    .ok
      { builder with
        stats := { stats with crossesIgnored := stats.crossesIgnored + 1 } }

def onBrokenTrade (builder : BookBuilder B O) (v : BrokenTradeView) :
    Checked (BookBuilder B O) :=
  builder.whenMine v.stockLocate v.timestamp fun builder =>
    .ok builder.ignoreTrade

/-! ## Dispatch -/

/--
`dispatch` with a builder for its handler: the types for which a builder has no
method are known, and skipped.  False when the type byte is not known.
-/
def dispatch (p : List UInt8) (builder : BookBuilder B O) :
    Checked (Bool × BookBuilder B O) :=
  match MsgType.ofByte? (loadBe8 p 0) with
  | none => .ok (false, builder)
  | some type => do
      let builder ←
        match type with
        | .stockDirectory => .ok (builder.onStockDirectory ⟨p⟩)
        | .addOrder => builder.onAddOrder ⟨p⟩
        | .addOrderWithMpid => builder.onAddOrderWithMpid ⟨p⟩
        | .orderExecuted => builder.onOrderExecuted ⟨p⟩
        | .orderExecutedWithPrice => builder.onOrderExecutedWithPrice ⟨p⟩
        | .orderCancel => builder.onOrderCancel ⟨p⟩
        | .orderDelete => builder.onOrderDelete ⟨p⟩
        | .orderReplace => builder.onOrderReplace ⟨p⟩
        | .tradeNonCross => builder.onTradeNonCross ⟨p⟩
        | .crossTrade => builder.onCrossTrade ⟨p⟩
        | .brokenTrade => builder.onBrokenTrade ⟨p⟩
        | _ => .ok builder
      pure (true, builder)

/-- Messages dispatched one after another. -/
def dispatchAll (builder : BookBuilder B O) :
    List (List UInt8) → Checked (BookBuilder B O)
  | [] => .ok builder
  | body :: rest => do
      let (_, builder) ← dispatch body builder
      builder.dispatchAll rest

/-! ## The replay loop -/

/--
`while (cur.next(f) == Ok) dispatch(f.data(), b)`, for at most the given number
of turns.  The result is the status which ended the loop, the cursor and the
builder.
-/
def driveWithin : Nat → FrameCursor → BookBuilder B O →
    Checked (FrameStatus × FrameCursor × BookBuilder B O)
  | 0, _, _ => .error .divergence
  | turns + 1, cursor, builder =>
      match cursor.next with
      | (.ok, some body, cursor) => do
          let (_, builder) ← dispatch body builder
          driveWithin turns cursor builder
      | (status, _, cursor) => .ok (status, cursor, builder)

/-- Every turn but the last consumes a byte. -/
def drive (feed : List UInt8) (builder : BookBuilder B O) :
    Checked (FrameStatus × FrameCursor × BookBuilder B O) :=
  driveWithin (feed.length + 1) { buf := feed } builder

end BookBuilder

end ItchExchange.Replay
