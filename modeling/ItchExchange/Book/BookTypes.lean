import ItchExchange.Core.Types

/-!
# Shared vocabulary of the book implementations

`OrderBook` collects what every implementation offers.  The matching engine and the
book builder of the source are templates over a book type; here they are
definitions over an instance of `OrderBook`.  A query which dereferences a handle or
looks a reference up may stop at an assertion, so those queries are checked.

The diagnostic counters of the source, which no function reads, are left out.
-/

namespace ItchExchange.Book

open ItchExchange.Core

/-- The marker of an empty side. -/
def kNoPrice : Price := 0

/-- Counters every implementation maintains. -/
structure BookStats where
  totalQty : PerSide UInt64 := .both 0
  levelCount : PerSide UInt32 := .both 0
  orderCount : UInt32 := 0
deriving DecidableEq, Repr

/-- The arguments which `for_each_level` passes for one level. -/
structure LevelVisit where
  price : Price
  qty : UInt64
  orders : UInt32
  refs : List OrderRef
deriving DecidableEq, Repr

/-- One call which changes a book. -/
inductive Operation where
  | add (ref : OrderRef) (side : Side) (price : Price) (qty : Qty)
      (owner : Owner)
  | cancel (ref : OrderRef) (shares : Qty)
  | execute (ref : OrderRef) (shares : Qty)
  | remove (ref : OrderRef)
  | replace (oldRef newRef : OrderRef) (price : Price) (qty : Qty)
deriving DecidableEq, Repr

/-- The price a call brings into the book, if it brings one. -/
def Operation.price? : Operation → Option Price
  | .add _ _ price _ _ => some price
  | .replace _ _ price _ => some price
  | .cancel _ _ => none
  | .execute _ _ => none
  | .remove _ => none

/-- The reference a call brings into the book, if it brings one. -/
def Operation.ref? : Operation → Option OrderRef
  | .add ref _ _ _ _ => some ref
  | .replace _ newRef _ _ => some newRef
  | .cancel _ _ => none
  | .execute _ _ => none
  | .remove _ => none

/-- What every book implementation offers. -/
class OrderBook (B : Type) where
  add : B → OrderRef → Side → Price → Qty → Owner → Checked B
  cancel : B → OrderRef → Qty → Checked B
  execute : B → OrderRef → Qty → Checked (Qty × B)
  remove : B → OrderRef → Checked B
  replace : B → OrderRef → OrderRef → Price → Qty → Checked B
  isEmpty : B → Side → Bool
  best : B → Side → Price
  qtyAt : B → Side → Price → Checked UInt64
  ordersAt : B → Side → Price → Checked UInt32
  frontAt : B → Side → Price → Checked OrderRef
  stats : B → BookStats
  orderCount : B → Nat
  contains : B → OrderRef → Checked Bool
  sideOf : B → OrderRef → Checked Side
  priceOf : B → OrderRef → Checked Price
  qtyOf : B → OrderRef → Checked Qty
  ownerOf : B → OrderRef → Checked Owner
  forEachLevel : B → Side → Checked (List LevelVisit)

/-- A book which can derive again what its counters claim. -/
class ValidatedBook (B : Type) where
  validate : B → Checked Unit

namespace OrderBook

variable {B : Type} [OrderBook B]

/-- Perform one call. -/
def apply (book : B) : Operation → Checked B
  | .add ref side price qty owner => add book ref side price qty owner
  | .cancel ref shares => cancel book ref shares
  | .execute ref shares => do
      let (_, book) ← execute book ref shares
      pure book
  | .remove ref => remove book ref
  | .replace oldRef newRef price qty =>
      replace book oldRef newRef price qty

/-- Perform a sequence of calls, up to the first assertion. -/
def run (book : B) : List Operation → Checked B
  | [] => .ok book
  | operation :: rest => do
      let book ← apply book operation
      run book rest

/-- Both sides are present and the best bid is at or above the best offer. -/
def crossed (book : B) : Bool :=
  !isEmpty book .buy && !isEmpty book .sell &&
    decide (best book .buy ≥ best book .sell)

@[simp]
theorem run_nil (book : B) : run book [] = .ok book := rfl

theorem run_cons (book : B) (operation : Operation)
    (rest : List Operation) :
    run book (operation :: rest) =
      (apply book operation >>= fun next => run next rest) :=
  rfl

theorem run_append (book : B) (first second : List Operation) :
    run book (first ++ second) =
      (run book first >>= fun next => run next second) := by
  induction first generalizing book with
  | nil => rfl
  | cons operation rest induction =>
      rw [List.cons_append, run_cons, run_cons]
      cases apply book operation with
      | error failure => rfl
      | ok next => exact induction next

end OrderBook

end ItchExchange.Book
