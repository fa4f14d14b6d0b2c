import ItchExchange.Book.BookDigest
import ItchExchange.Book.MapBookValidate
import ItchExchange.Replay.Tracking

/-!
# The replay observer

`ReplayObserver` of `invariants.hpp`: the invariant checks after every applied
message, and the journal, a digest of named fields in a fixed order.
-/

namespace ItchExchange.Replay

open ItchExchange.Core ItchExchange.Book ItchExchange.Wire

structure ReplayCounters where
  applied : UInt64 := 0
  fullValidations : UInt64 := 0
  crossedStates : UInt64 := 0
  peakOrders : UInt64 := 0
  peakLevels : UInt64 := 0
  expectedQty : PerSide UInt64 := .both 0
deriving DecidableEq, Repr

structure ReplayObserver where
  digest : Digest := {}
  counters : ReplayCounters := {}
  validateEvery : UInt64 := 0
  strict : Bool := true
deriving DecidableEq, Repr

namespace ReplayObserver

/-- Fixed, so the journal is a pure function of the input. -/
def kStructuralInterval : UInt64 := 65536

/-- The message of the assertion in `note_reduction`. -/
def removedTooMuch : String :=
  "quantity conservation: removed more than was ever added"

/-- The message of the assertion in `after_apply`. -/
def conservationFailed : String := "quantity conservation failed"

def bookCrossed : String := "book is crossed"

def beforeAdd (observer : ReplayObserver) (side : Side) (qty : Qty) :
    ReplayObserver :=
  let counters := observer.counters
  { observer with
    counters :=
      { counters with
        expectedQty := counters.expectedQty.set side
          (counters.expectedQty.get side + qty.toUInt64) } }

def noteReduction (observer : ReplayObserver) (side : Side) (qty : Qty) :
    Checked ReplayObserver := do
  let counters := observer.counters
  assertMsg (counters.expectedQty.get side ≥ qty.toUInt64) removedTooMuch
  pure
    { observer with
      counters :=
        { counters with
          expectedQty := counters.expectedQty.set side
            (counters.expectedQty.get side - qty.toUInt64) } }

section AfterApply

variable {B : Type} [OrderBook B]

/-- `bid` or `ask` of `after_apply`. -/
def insidePrice (book : B) (side : Side) : Price :=
  if OrderBook.isEmpty book side = true then kNoPrice
  else OrderBook.best book side

/-- Both sides are present, and the bid is at or above the ask. -/
def crosses (book : B) : Bool :=
  !OrderBook.isEmpty book .buy && !OrderBook.isEmpty book .sell &&
    decide (insidePrice book .buy ≥ insidePrice book .sell)

/-- The number of levels of both sides, added in 32 bits. -/
def levelTotal (book : B) : UInt64 :=
  let stats := OrderBook.stats book
  (stats.levelCount.buy + stats.levelCount.sell).toUInt64

/-- The fields of the journal, in their order. -/
def journalFields (book : B) (ts : Timestamp) : List UInt64 :=
  let stats := OrderBook.stats book
  [ts, (insidePrice book .buy).toUInt64, (insidePrice book .sell).toUInt64,
    stats.totalQty.buy, stats.totalQty.sell,
    stats.levelCount.buy.toUInt64, stats.levelCount.sell.toUInt64,
    UInt64.ofNat (OrderBook.orderCount book)]

/-- The counters up to the journal, with the two checks between them. -/
def count (observer : ReplayObserver) (book : B) : Checked ReplayCounters := do
  let counters := observer.counters
  let counters := { counters with applied := counters.applied + 1 }
  let counters ←
    if crosses book = true then do
      assertMsg (observer.strict = false) bookCrossed
      pure { counters with crossedStates := counters.crossedStates + 1 }
    else .ok counters
  let stats := OrderBook.stats book
  assertMsg
    (stats.totalQty.buy = counters.expectedQty.buy ∧
      stats.totalQty.sell = counters.expectedQty.sell)
    conservationFailed
  pure
    { counters with
      peakOrders :=
        max counters.peakOrders (UInt64.ofNat (OrderBook.orderCount book))
      peakLevels := max counters.peakLevels (levelTotal book) }

/-- The journal entry of a message which is the given number of applied ones. -/
def journal (digest : Digest) (book : B) (ts : Timestamp)
    (applied : UInt64) : Checked Digest := do
  let digest := digest.feedAll (journalFields book ts)
  if applied % kStructuralInterval = 0 then do
    let structural ← bookDigest book
    pure (digest.feed structural)
  else .ok digest

def afterApply [ValidatedBook B] (observer : ReplayObserver) (book : B)
    (ts : Timestamp) : Checked ReplayObserver := do
  let counters ← observer.count book
  let digest ← journal observer.digest book ts counters.applied
  if observer.validateEvery ≠ 0 ∧
      counters.applied % observer.validateEvery = 0 then do
    ValidatedBook.validate book
    pure
      { observer with
        digest
        counters :=
          { counters with
            fullValidations := counters.fullValidations + 1 } }
  else .ok { observer with digest, counters }

end AfterApply

instance (B : Type) [OrderBook B] [ValidatedBook B] :
    Observer ReplayObserver B where
  beforeAdd := fun observer _ side _ qty => observer.beforeAdd side qty
  noteReduction := noteReduction
  afterApply := afterApply

end ReplayObserver

/-- A builder which has seen nothing, with a fresh observer. -/
def replaying (B : Type) (book : B) (symbol : List UInt8)
    (validateEvery : UInt64) (strict : Bool) :
    BookBuilder B ReplayObserver where
  book := book
  symbol := symbol
  observer := { validateEvery, strict }

/-- The book and the observer which a replay ends with, or why it stopped. -/
def outcome {B : Type} (replayed : Checked (BookBuilder B ReplayObserver)) :
    Checked (B × ReplayObserver) :=
  replayed.map fun builder => (builder.book, builder.observer)

end ItchExchange.Replay
