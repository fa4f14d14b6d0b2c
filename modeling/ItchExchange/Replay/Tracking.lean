import ItchExchange.Replay.BookBuilder

/-!
# What a builder tracks

The statistics of a builder only count.  What is left without them is its
symbol, its book and its observer, and a message moves these in one of three
ways: it resolves the symbol, it is an update of the tracked book, or it does
nothing.
-/

namespace ItchExchange.Replay

open ItchExchange.Core ItchExchange.Book ItchExchange.Wire

/-- The fields which a handler reads from a message about the book. -/
inductive Update where
  | add (ref : OrderRef) (indicator : UInt8) (price : Price) (shares : Qty)
  | execute (ref : OrderRef) (shares : Qty)
  | cancel (ref : OrderRef) (shares : Qty)
  | delete (ref : OrderRef)
  | replace (oldRef newRef : OrderRef) (price : Price) (shares : Qty)
deriving DecidableEq, Repr

/-- The update a message of some type stands for. -/
def Update.ofMessage? : MsgType → List UInt8 → Option Update
  | .addOrder, body =>
      let v : AddOrderView := ⟨body⟩
      some (.add v.orderReferenceNumber v.buySellIndicator v.price v.shares)
  | .addOrderWithMpid, body =>
      let v : AddOrderWithMpidView := ⟨body⟩
      some (.add v.orderReferenceNumber v.buySellIndicator v.price v.shares)
  | .orderExecuted, body =>
      let v : OrderExecutedView := ⟨body⟩
      some (.execute v.orderReferenceNumber v.executedShares)
  | .orderExecutedWithPrice, body =>
      let v : OrderExecutedWithPriceView := ⟨body⟩
      some (.execute v.orderReferenceNumber v.executedShares)
  | .orderCancel, body =>
      let v : OrderCancelView := ⟨body⟩
      some (.cancel v.orderReferenceNumber v.cancelledShares)
  | .orderDelete, body =>
      let v : OrderDeleteView := ⟨body⟩
      some (.delete v.orderReferenceNumber)
  | .orderReplace, body =>
      let v : OrderReplaceView := ⟨body⟩
      some (.replace v.originalOrderReferenceNumber v.newOrderReferenceNumber
        v.price v.shares)
  | _, _ => none

/-- The locate and the time are at the same place in every message. -/
def locateOf (body : List UInt8) : UInt16 := loadBe16 body 1

def timestampOf (body : List UInt8) : Timestamp := loadBe48 body 5

/-- A builder without its statistics. -/
structure Tracker (B O : Type) where
  book : B
  symbol : List UInt8
  observer : O
  locate : UInt16 := 0
  resolved : Bool := false

namespace Tracker

variable {B O : Type} [OrderBook B] [Observer O B]

/-- Resolve the symbol at a stock directory message which matches it. -/
def track (tracker : Tracker B O) (v : StockDirectoryView) : Tracker B O :=
  if tracker.resolved = true then tracker
  else if tracker.symbol = [] ∨ trimAlpha v.stock = tracker.symbol then
    { tracker with
      symbol := trimAlpha v.stock
      locate := v.stockLocate
      resolved := true }
  else tracker

/-- What the hook before the update does, and the call to the book. -/
def change (book : B) (observer : O) : Update → Checked (B × O)
  | .add ref indicator price shares => do
      assertMsg (indicator = 'B'.toUInt8 ∨ indicator = 'S'.toUInt8)
        "buy/sell indicator is neither B nor S"
      let side := if indicator = 'B'.toUInt8 then Side.buy else Side.sell
      let observer := Observer.beforeAdd observer book side price shares
      let book ← OrderBook.add book ref side price shares 0
      pure (book, observer)
  | .execute ref shares => do
      let side ← OrderBook.sideOf book ref
      let observer ← Observer.noteReduction B observer side shares
      let (_, book) ← OrderBook.execute book ref shares
      pure (book, observer)
  | .cancel ref shares => do
      let side ← OrderBook.sideOf book ref
      let observer ← Observer.noteReduction B observer side shares
      let book ← OrderBook.cancel book ref shares
      pure (book, observer)
  | .delete ref => do
      let side ← OrderBook.sideOf book ref
      let qty ← OrderBook.qtyOf book ref
      let observer ← Observer.noteReduction B observer side qty
      let book ← OrderBook.remove book ref
      pure (book, observer)
  | .replace oldRef newRef price shares => do
      let side ← OrderBook.sideOf book oldRef
      let qty ← OrderBook.qtyOf book oldRef
      let observer ← Observer.noteReduction B observer side qty
      let observer := Observer.beforeAdd observer book side price shares
      let book ← OrderBook.replace book oldRef newRef price shares
      pure (book, observer)

/-- An update of the tracked book, with both hooks. -/
def apply (tracker : Tracker B O) (update : Update) (ts : Timestamp) :
    Checked (Tracker B O) := do
  let (book, observer) ← change tracker.book tracker.observer update
  let observer ← Observer.afterApply observer book ts
  pure { tracker with book, observer }

/-- One message. -/
def step (tracker : Tracker B O) (body : List UInt8) :
    Checked (Tracker B O) :=
  match MsgType.ofByte? (loadBe8 body 0) with
  | none => .ok tracker
  | some type =>
      if type = .stockDirectory then .ok (tracker.track ⟨body⟩)
      else
        match Update.ofMessage? type body with
        | none => .ok tracker
        | some update =>
            if tracker.resolved = true ∧ locateOf body = tracker.locate then
              tracker.apply update (timestampOf body)
            else .ok tracker

/-- Messages one after another. -/
def steps (tracker : Tracker B O) : List (List UInt8) →
    Checked (Tracker B O)
  | [] => .ok tracker
  | body :: rest => do
      let tracker ← tracker.step body
      tracker.steps rest

theorem steps_append (tracker : Tracker B O)
    (first second : List (List UInt8)) :
    tracker.steps (first ++ second) =
      (tracker.steps first >>= fun next => next.steps second) := by
  induction first generalizing tracker with
  | nil => rfl
  | cons body rest induction =>
      rw [List.cons_append, steps, steps]
      cases tracker.step body with
      | error failure => rfl
      | ok next => exact induction next

end Tracker

/-! ## The builder follows its tracker -/

namespace BookBuilder

variable {B O : Type}

def tracker (builder : BookBuilder B O) : Tracker B O where
  book := builder.book
  symbol := builder.symbol
  observer := builder.observer
  locate := builder.locate
  resolved := builder.resolved

theorem tracker_onStockDirectory (builder : BookBuilder B O)
    (v : StockDirectoryView) :
    (builder.onStockDirectory v).tracker = builder.tracker.track v := by
  unfold onStockDirectory
  dsimp only
  rw [apply_ite tracker, apply_ite tracker]
  rfl

theorem map_bind {α β γ : Type} (first : Checked α) (next : α → Checked β)
    (image : β → γ) :
    (first >>= next).map image =
      first >>= fun value => (next value).map image := by
  cases first <;> rfl

/-- A handler acts for the tracked symbol only. -/
theorem tracker_whenMine (builder : BookBuilder B O)
    {locate : UInt16} {ts : Timestamp}
    {body : BookBuilder B O → Checked (BookBuilder B O)}
    {result : Checked (Tracker B O)}
    (acts : (body (builder.seen ts)).map tracker = result) :
    (builder.whenMine locate ts body).map tracker =
      if builder.tracker.resolved = true ∧
          locate = builder.tracker.locate then result
      else .ok builder.tracker := by
  have same : (builder.seen ts).mine locate = true ↔
      builder.tracker.resolved = true ∧
        locate = builder.tracker.locate := by
    rw [mine, Bool.and_eq_true, decide_eq_true_eq]
    rfl
  unfold whenMine
  dsimp only
  split_ifs with acting foreign foreign
  · exact acts
  · exact absurd (same.mp acting) foreign
  · exact absurd (same.mpr foreign) acting
  · rfl

/-- A handler which only counts. -/
theorem tracker_whenMine_counts (builder : BookBuilder B O)
    {locate : UInt16} {ts : Timestamp}
    {body : BookBuilder B O → Checked (BookBuilder B O)}
    (counts : (body (builder.seen ts)).map tracker =
      .ok builder.tracker) :
    (builder.whenMine locate ts body).map tracker =
      .ok builder.tracker := by
  rw [tracker_whenMine builder counts, ite_self]

/-- A dispatched message is known, whatever its handler does. -/
theorem known {handled : Checked (BookBuilder B O)}
    {result : Checked (Tracker B O)} (moves : handled.map tracker = result) :
    (handled >>= fun later =>
        (pure (true, later) : Checked (Bool × BookBuilder B O))).map
        (fun result => result.2.tracker) =
      result := by
  subst moves
  cases handled <;> rfl

variable [OrderBook B] [Observer O B] (builder : BookBuilder B O)

theorem tracker_doAdd (ref : OrderRef) (indicator : UInt8) (price : Price)
    (shares : Qty) (ts : Timestamp) :
    (builder.doAdd ref indicator price shares ts).map tracker =
      builder.tracker.apply (.add ref indicator price shares) ts := by
  simp only [doAdd, Tracker.apply, Tracker.change, map_bind, bind_assoc,
    pure_eq_ok, ok_bind]
  rfl

theorem tracker_doExecute (ref : OrderRef) (shares : Qty)
    (ts : Timestamp) :
    (builder.doExecute ref shares ts).map tracker =
      builder.tracker.apply (.execute ref shares) ts := by
  simp only [doExecute, Tracker.apply, Tracker.change, map_bind, bind_assoc,
    pure_eq_ok, ok_bind]
  rfl

theorem tracker_doCancel (ref : OrderRef) (shares : Qty) (ts : Timestamp) :
    (builder.doCancel ref shares ts).map tracker =
      builder.tracker.apply (.cancel ref shares) ts := by
  simp only [doCancel, Tracker.apply, Tracker.change, map_bind, bind_assoc,
    pure_eq_ok, ok_bind]
  rfl

theorem tracker_doDelete (ref : OrderRef) (ts : Timestamp) :
    (builder.doDelete ref ts).map tracker =
      builder.tracker.apply (.delete ref) ts := by
  simp only [doDelete, Tracker.apply, Tracker.change, map_bind, bind_assoc,
    pure_eq_ok, ok_bind]
  rfl

theorem tracker_doReplace (oldRef newRef : OrderRef) (price : Price)
    (shares : Qty) (ts : Timestamp) :
    (builder.doReplace oldRef newRef price shares ts).map tracker =
      builder.tracker.apply (.replace oldRef newRef price shares) ts := by
  simp only [doReplace, Tracker.apply, Tracker.change, map_bind, bind_assoc,
    pure_eq_ok, ok_bind]
  rfl

/-- A message moves the tracker of a builder as it moves the builder. -/
theorem tracker_dispatch (body : List UInt8) :
    (dispatch body builder).map (fun result => result.2.tracker) =
      builder.tracker.step body := by
  unfold dispatch Tracker.step
  cases MsgType.ofByte? (loadBe8 body 0) with
  | none => rfl
  | some type =>
      cases type
      case stockDirectory =>
        exact congrArg Except.ok (builder.tracker_onStockDirectory ⟨body⟩)
      case addOrder =>
        exact known (builder.tracker_whenMine (tracker_doAdd ..))
      case addOrderWithMpid =>
        exact known (builder.tracker_whenMine (tracker_doAdd ..))
      case orderExecuted =>
        exact known (builder.tracker_whenMine (tracker_doExecute ..))
      case orderExecutedWithPrice =>
        exact known (builder.tracker_whenMine (tracker_doExecute ..))
      case orderCancel =>
        exact known (builder.tracker_whenMine (tracker_doCancel ..))
      case orderDelete =>
        exact known (builder.tracker_whenMine (tracker_doDelete ..))
      case orderReplace =>
        exact known (builder.tracker_whenMine (tracker_doReplace ..))
      case tradeNonCross =>
        exact known (builder.tracker_whenMine_counts rfl)
      case crossTrade => exact known (builder.tracker_whenMine_counts rfl)
      case brokenTrade => exact known (builder.tracker_whenMine_counts rfl)
      all_goals rfl

theorem tracker_dispatchAll (bodies : List (List UInt8)) :
    (builder.dispatchAll bodies).map tracker =
      builder.tracker.steps bodies := by
  induction bodies generalizing builder with
  | nil => rfl
  | cons body rest induction =>
      rw [dispatchAll, Tracker.steps, ← tracker_dispatch, map_bind]
      cases dispatch body builder with
      | error failure => rfl
      | ok result => exact induction result.2

theorem steps_of_dispatchAll {bodies : List (List UInt8)}
    {last : BookBuilder B O}
    (dispatched : builder.dispatchAll bodies = .ok last) :
    builder.tracker.steps bodies = .ok last.tracker := by
  rw [← tracker_dispatchAll, dispatched]
  rfl

theorem dispatchAll_of_steps {bodies : List (List UInt8)}
    {reached : Tracker B O}
    (ran : builder.tracker.steps bodies = .ok reached) :
    ∃ last, builder.dispatchAll bodies = .ok last ∧
      last.tracker = reached := by
  rw [← tracker_dispatchAll] at ran
  cases dispatched : builder.dispatchAll bodies with
  | error failure =>
      rw [dispatched] at ran
      cases ran
  | ok last =>
      rw [dispatched] at ran
      exact ⟨last, rfl, Except.ok.inj ran⟩

end BookBuilder

end ItchExchange.Replay
