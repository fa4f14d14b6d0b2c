import ItchExchange.Book.BookTypes

/-!
# The matching engine

`MatchingEngine` of `matching_engine.hpp`, over any order book.  The body of
the matching loop is `turn`; its Boolean result says whether the loop goes on.
`sweep` is the loop itself, counted by the number of turns it may take:
needing one turn more is `Failure.divergence`.  `submit` allows as many turns
as orders rest, which `Engine.PriceTimeWalk` proves to be enough.
-/

namespace ItchExchange.Engine

open ItchExchange.Core ItchExchange.Book

inductive OrderType where
  | limit
  | market
deriving DecidableEq, Repr

inductive TimeInForce where
  | day
  | ioc
deriving DecidableEq, Repr

/-- What to do when an order would trade against its own participant. -/
inductive StpMode where
  | off
  | cancelNewest
  | cancelOldest
  | cancelBoth
deriving DecidableEq, Repr

structure NewOrder where
  clientId : UInt64 := 0
  owner : Owner := 0
  side : Side := .buy
  type : OrderType := .limit
  tif : TimeInForce := .day
  price : Price := 0
  qty : Qty := 0
deriving DecidableEq, Repr

structure Fill where
  aggressor : UInt64 := 0
  resting : OrderRef := 0
  aggressorOwner : Owner := 0
  restingOwner : Owner := 0
  price : Price := 0
  qty : Qty := 0
deriving DecidableEq, Repr

inductive Outcome where
  | rested
  | filledComplete
  | cancelled
  | stpRejected
deriving DecidableEq, Repr

structure Report where
  outcome : Outcome := .cancelled
  restingRef : OrderRef := 0
  filled : Qty := 0
  restingQty : Qty := 0
  stpCancelledResting : UInt32 := 0
deriving DecidableEq, Repr

structure EngineStats where
  submitted : UInt64 := 0
  fills : UInt64 := 0
  filledQty : UInt64 := 0
  rested : UInt64 := 0
  cancelled : UInt64 := 0
  stpEvents : UInt64 := 0
deriving DecidableEq, Repr

/-- The engine, with the book it drives. -/
structure MatchingEngine (B : Type) where
  book : B
  stp : StpMode := .off
  nextRef : OrderRef := 1
  stats : EngineStats := {}

/-- A market order crosses anything; a limit order crosses up to its price. -/
def crosses (order : NewOrder) (touch : Price) : Bool :=
  match order.type with
  | .market => true
  | .limit =>
      match order.side with
      | .buy => decide (order.price ≥ touch)
      | .sell => decide (order.price ≤ touch)

/-- The variables of the matching loop. -/
structure Sweep (B : Type) where
  book : B
  stats : EngineStats
  fills : List Fill
  remaining : Qty
  report : Report := {}
  stpStop : Bool := false

namespace MatchingEngine

variable {B : Type} [OrderBook B]

/-- The guard of self-trade prevention, in its order of evaluation. -/
def selfTrade (stp : StpMode) (order : NewOrder) (book : B)
    (resting : OrderRef) : Checked Bool :=
  if stp = .off then .ok false
  else do
    let owner ← OrderBook.ownerOf book resting
    pure (decide (owner = order.owner) && decide (order.owner ≠ 0))

/-- One fill against the order with time priority at the touch. -/
def trade (order : NewOrder) (touch : Price) (resting : OrderRef)
    (state : Sweep B) : Checked (Sweep B) := do
  let available ← OrderBook.qtyOf state.book resting
  let traded :=
    if state.remaining < available then state.remaining else available
  let restingOwner ← OrderBook.ownerOf state.book resting
  let (_, book) ← OrderBook.execute state.book resting traded
  pure
    { state with
      book
      fills := state.fills ++
        [{ aggressor := order.clientId
           resting
           aggressorOwner := order.owner
           restingOwner
           price := touch
           qty := traded }]
      stats :=
        { state.stats with
          fills := state.stats.fills + 1
          filledQty := state.stats.filledQty + traded.toUInt64 }
      remaining := state.remaining - traded
      report := { state.report with filled := state.report.filled + traded } }

/-- The body of the matching loop; false when it breaks out of the loop. -/
def turn (stp : StpMode) (order : NewOrder) (state : Sweep B) :
    Checked (Bool × Sweep B) := do
  let other := opposite order.side
  let touch := OrderBook.best state.book other
  if crosses order touch = false then pure (false, state)
  else do
    let resting ← OrderBook.frontAt state.book other touch
    assertMsg (resting ≠ 0) "the best level has no resting order"
    let own ← selfTrade stp order state.book resting
    if own = true then do
      let stats :=
        { state.stats with stpEvents := state.stats.stpEvents + 1 }
      let pulled :=
        { state.report with
          stpCancelledResting := state.report.stpCancelledResting + 1 }
      match stp with
      | .cancelOldest => do
          let book ← OrderBook.remove state.book resting
          pure (true, { state with book, stats, report := pulled })
      | .cancelBoth => do
          let book ← OrderBook.remove state.book resting
          pure (false,
            { state with book, stats, report := pulled, stpStop := true })
      | .cancelNewest => pure (false, { state with stats, stpStop := true })
      | .off => do
          let state ← trade order touch resting { state with stats }
          pure (true, state)
    else do
      let state ← trade order touch resting state
      pure (true, state)

/-- The loop condition. -/
def goesOn (order : NewOrder) (state : Sweep B) : Bool :=
  decide (state.remaining > 0) &&
    !OrderBook.isEmpty state.book (opposite order.side)

/-- The matching loop, for at most the given number of turns. -/
def sweep (stp : StpMode) (order : NewOrder) :
    Nat → Sweep B → Checked (Sweep B)
  | 0, state =>
      if goesOn order state = true then .error .divergence else .ok state
  | turns + 1, state =>
      if goesOn order state = true then do
        let (again, state) ← turn stp order state
        if again = true then sweep stp order turns state else pure state
      else .ok state

/-- What happens to an order once the matching loop has ended. -/
def settle (engine : MatchingEngine B) (order : NewOrder)
    (state : Sweep B) : Checked (Report × MatchingEngine B) :=
  let engine := { engine with book := state.book, stats := state.stats }
  let stats := state.stats
  if state.stpStop = true then
    .ok ({ state.report with outcome := .stpRejected },
      { engine with stats := { stats with cancelled := stats.cancelled + 1 } })
  else if state.remaining = 0 then
    .ok ({ state.report with outcome := .filledComplete }, engine)
  else if order.type = .market ∨ order.tif = .ioc then
    .ok ({ state.report with outcome := .cancelled },
      { engine with stats := { stats with cancelled := stats.cancelled + 1 } })
  else do
    let ref := engine.nextRef
    let book ← OrderBook.add state.book ref order.side order.price
      state.remaining order.owner
    pure
      ({ state.report with
          restingRef := ref
          outcome := .rested
          restingQty := state.remaining },
        { engine with
          book
          nextRef := ref + 1
          stats := { stats with rested := stats.rested + 1 } })

/-- `submit` returns the report, the engine and the fills, new ones last. -/
def submit (engine : MatchingEngine B) (order : NewOrder)
    (fills : List Fill) :
    Checked (Report × MatchingEngine B × List Fill) := do
  assertMsg (order.qty > 0)
    "an order with no quantity cannot be submitted"
  assertMsg (order.type = .market ∨ order.price > 0)
    "a limit order needs a price"
  let start : Sweep B :=
    { book := engine.book
      stats := { engine.stats with submitted := engine.stats.submitted + 1 }
      fills
      remaining := order.qty }
  let state ← sweep engine.stp order (OrderBook.orderCount engine.book) start
  let (report, engine) ← settle engine order state
  pure (report, engine, state.fills)

def cancel (engine : MatchingEngine B) (ref : OrderRef) :
    Checked (MatchingEngine B) := do
  let book ← OrderBook.remove engine.book ref
  pure
    { engine with
      book
      stats :=
        { engine.stats with cancelled := engine.stats.cancelled + 1 } }

def setStpMode (engine : MatchingEngine B) (mode : StpMode) :
    MatchingEngine B :=
  { engine with stp := mode }

end MatchingEngine

end ItchExchange.Engine
