import ItchExchange.Book.MapBookArrivals
import ItchExchange.Core.Hash

/-!
# The digest of a book

`book_digest` of `book_types.hpp`, as the sequence of values it feeds.  The
sequence says where each of its parts ends, so it can be read back: it determines
every queue and the total of every level.  It does not determine how the total of
a level is divided among its orders.
-/

namespace ItchExchange.Book

open ItchExchange.Core

def sideIndex : Side → UInt64
  | .buy => 0
  | .sell => 1

def sideTerminator : UInt64 := 0xFFFFFFFFFFFFFFFF

/-- What is fed for one level. -/
def LevelVisit.fed (visit : LevelVisit) : List UInt64 :=
  visit.price.toUInt64 :: visit.qty :: visit.orders.toUInt64 :: visit.refs

/-- What is fed for one side. -/
def sideFed (side : Side) (visits : List LevelVisit) : List UInt64 :=
  sideIndex side :: visits.flatMap LevelVisit.fed ++ [sideTerminator]

section Book

variable {B : Type} [OrderBook B]

/-- The sequence of values `book_digest` feeds. -/
def bookFed (book : B) : Checked (List UInt64) := do
  let buy ← OrderBook.forEachLevel book .buy
  let sell ← OrderBook.forEachLevel book .sell
  pure (sideFed .buy buy ++ sideFed .sell sell)

def bookDigest (book : B) : Checked UInt64 := do
  let fed ← bookFed book
  pure (Digest.feedAll {} fed).value

/-- Books with the same levels have the same digest. -/
theorem bookDigest_congr {C : Type} [OrderBook C] {left : B} {right : C}
    (same : ∀ side,
      OrderBook.forEachLevel left side = OrderBook.forEachLevel right side) :
    bookDigest left = bookDigest right := by
  simp only [bookDigest, bookFed, same]

end Book

/-! ## Reading the sequence back -/

/-- The count which is fed is the number of references which follow it. -/
def LevelVisit.Counted (visit : LevelVisit) : Prop :=
  visit.orders.toNat = visit.refs.length

theorem ne_terminator (word : UInt32) : word.toUInt64 ≠ sideTerminator := by
  intro equal
  have naturals := congrArg UInt64.toNat equal
  have small := word.toNat_lt
  rw [UInt32.toNat_toUInt64] at naturals
  change word.toNat = 0xFFFFFFFFFFFFFFFF at naturals
  omega

theorem toUInt64_inj {first second : UInt32}
    (equal : first.toUInt64 = second.toUInt64) : first = second := by
  have naturals := congrArg UInt64.toNat equal
  rw [UInt32.toNat_toUInt64, UInt32.toNat_toUInt64] at naturals
  exact UInt32.toNat_inj.mp naturals

/-- The first level and what follows it are read back. -/
theorem fed_append_inj {first second : LevelVisit} {rest rest' : List UInt64}
    (firstCounted : first.Counted) (secondCounted : second.Counted)
    (equal : first.fed ++ rest = second.fed ++ rest') :
    first = second ∧ rest = rest' := by
  unfold LevelVisit.fed at equal
  simp only [List.cons_append, List.cons.injEq] at equal
  obtain ⟨price, qty, orders, refs⟩ := equal
  have sameOrders := toUInt64_inj orders
  have length : first.refs.length = second.refs.length := by
    rw [← firstCounted, ← secondCounted, sameOrders]
  obtain ⟨sameRefs, sameRest⟩ := List.append_inj refs length
  refine ⟨?_, sameRest⟩
  cases first
  cases second
  simp only [LevelVisit.mk.injEq] at *
  exact ⟨toUInt64_inj price, qty, sameOrders, sameRefs⟩

/-- The levels of a side end at the terminator, which is no price. -/
theorem flatMap_fed_inj {first second : List LevelVisit}
    {rest rest' : List UInt64}
    (firstCounted : ∀ visit ∈ first, visit.Counted)
    (secondCounted : ∀ visit ∈ second, visit.Counted)
    (equal : first.flatMap LevelVisit.fed ++ sideTerminator :: rest =
      second.flatMap LevelVisit.fed ++ sideTerminator :: rest') :
    first = second ∧ rest = rest' := by
  induction first generalizing second with
  | nil =>
      cases second with
      | nil => exact ⟨rfl, (List.cons.inj equal).2⟩
      | cons visit visits =>
          exact absurd (List.cons.inj equal).1.symm (ne_terminator visit.price)
  | cons head tail induction =>
      cases second with
      | nil =>
          exact absurd (List.cons.inj equal).1 (ne_terminator head.price)
      | cons visit visits =>
          obtain ⟨headCounted, tailCounted⟩ :=
            List.forall_mem_cons.mp firstCounted
          obtain ⟨visitCounted, visitsCounted⟩ :=
            List.forall_mem_cons.mp secondCounted
          rw [List.flatMap_cons, List.flatMap_cons, List.append_assoc,
            List.append_assoc] at equal
          obtain ⟨sameHead, sameRest⟩ :=
            fed_append_inj headCounted visitCounted equal
          obtain ⟨sameTail, same⟩ :=
            induction tailCounted visitsCounted sameRest
          exact ⟨by rw [sameHead, sameTail], same⟩

theorem sideFed_append_inj {side : Side} {first second : List LevelVisit}
    {rest rest' : List UInt64}
    (firstCounted : ∀ visit ∈ first, visit.Counted)
    (secondCounted : ∀ visit ∈ second, visit.Counted)
    (equal : sideFed side first ++ rest = sideFed side second ++ rest') :
    first = second ∧ rest = rest' := by
  unfold sideFed at equal
  rw [List.cons_append, List.cons_append, List.append_assoc,
    List.append_assoc] at equal
  exact flatMap_fed_inj firstCounted secondCounted (List.cons.inj equal).2

namespace MapBook

/-! ## What the sequence of a `MapBook` determines -/

/-- Both books hold the same orders, in the same places of the same queues. -/
structure HoldSameOrders (left right : MapBook) : Prop where
  contains : ∀ ref, left.contains ref = right.contains ref
  sideOf : ∀ ref, right.contains ref = true →
    left.sideOf ref = right.sideOf ref
  priceOf : ∀ ref, right.contains ref = true →
    left.priceOf ref = right.priceOf ref
  qtyOf : ∀ ref, right.contains ref = true →
    left.qtyOf ref = right.qtyOf ref
  queues : ∀ side,
    (left.forEachLevel side).map (fun visit => (visit.price, visit.refs)) =
      (right.forEachLevel side).map fun visit => (visit.price, visit.refs)

/--
The books have the same queues and the same total at every level, but some order
has another quantity in one than in the other.
-/
structure DivideDifferently (left right : MapBook) : Prop where
  queues : ∀ side,
    (left.forEachLevel side).map (fun visit => (visit.price, visit.refs)) =
      (right.forEachLevel side).map fun visit => (visit.price, visit.refs)
  totals : ∀ side,
    (left.forEachLevel side).map (fun visit => (visit.price, visit.qty)) =
      (right.forEachLevel side).map fun visit => (visit.price, visit.qty)
  differ : ∃ ref, right.contains ref = true ∧
    left.qtyOf ref ≠ right.qtyOf ref

/-- Every level rests fewer orders than a `u32` can count. -/
def CountsFit (book : MapBook) : Prop :=
  ∀ side, ∀ visit ∈ book.forEachLevel side, visit.refs.length < 2 ^ 32

theorem bookFed_eq (book : MapBook) :
    bookFed book =
      .ok (sideFed .buy (book.forEachLevel .buy) ++
        sideFed .sell (book.forEachLevel .sell)) :=
  rfl

/-- The count of a level is the length of its queue, in 32 bits. -/
theorem orders_eq {book : MapBook} {side : Side} {visit : LevelVisit}
    (member : visit ∈ book.forEachLevel side) :
    visit.orders = UInt32.ofNat visit.refs.length := by
  obtain ⟨⟨price, level⟩, -, rfl⟩ := List.mem_map.mp member
  rw [List.length_map]

theorem CountsFit.counted {book : MapBook} (fit : book.CountsFit)
    {side : Side} {visit : LevelVisit}
    (member : visit ∈ book.forEachLevel side) : visit.Counted := by
  rw [LevelVisit.Counted, orders_eq member,
    UInt32.toNat_ofNat_of_lt' (fit side visit member)]

/-- The fed sequences are equal exactly when the visited levels are. -/
theorem bookFed_eq_iff {left right : MapBook} (leftFits : left.CountsFit)
    (rightFits : right.CountsFit) :
    bookFed left = bookFed right ↔
      ∀ side, left.forEachLevel side = right.forEachLevel side := by
  constructor
  · intro equal
    rw [bookFed_eq, bookFed_eq, Except.ok.injEq] at equal
    obtain ⟨buy, rest⟩ := sideFed_append_inj
      (fun _ member => leftFits.counted member)
      (fun _ member => rightFits.counted member) equal
    rw [← List.append_nil (sideFed .sell _),
      ← List.append_nil (sideFed .sell (right.forEachLevel .sell))] at rest
    obtain ⟨sell, -⟩ := sideFed_append_inj
      (fun _ member => leftFits.counted member)
      (fun _ member => rightFits.counted member) rest
    intro side
    cases side with
    | buy => exact buy
    | sell => exact sell
  · intro same
    rw [bookFed_eq, bookFed_eq, same .buy, same .sell]

/-- The prices, the queues and the totals of the levels are all of them. -/
theorem forEachLevel_eq_iff {left right : MapBook} {side : Side} :
    left.forEachLevel side = right.forEachLevel side ↔
      (left.forEachLevel side).map (fun visit => (visit.price, visit.refs)) =
          (right.forEachLevel side).map
            (fun visit => (visit.price, visit.refs)) ∧
        (left.forEachLevel side).map (fun visit => (visit.price, visit.qty)) =
          (right.forEachLevel side).map
            fun visit => (visit.price, visit.qty) := by
  constructor
  · intro same
    rw [same]
    exact ⟨rfl, rfl⟩
  · rintro ⟨queues, totals⟩
    have length := congrArg List.length queues
    rw [List.length_map, List.length_map] at length
    refine List.ext_getElem length fun i leftInside rightInside => ?_
    have leftOrders := orders_eq (List.getElem_mem leftInside)
    have rightOrders := orders_eq (List.getElem_mem rightInside)
    have queue := List.getElem_of_eq queues
      ((List.length_map _).symm ▸ leftInside)
    have total := List.getElem_of_eq totals
      ((List.length_map _).symm ▸ leftInside)
    simp only [List.getElem_map, Prod.mk.injEq] at queue total
    generalize (left.forEachLevel side)[i] = visit at *
    generalize (right.forEachLevel side)[i] = other at *
    cases visit
    cases other
    simp only [LevelVisit.mk.injEq] at *
    obtain ⟨rfl, rfl⟩ := queue
    exact ⟨rfl, total.2, leftOrders.trans rightOrders.symm, rfl⟩

section Same

variable {left right : MapBook} {leftArrivals rightArrivals : ArrivalBook}

/-- Equal queues hold the same references at the same side and price. -/
theorem exists_of_queues
    (leftRepresents : Represents left leftArrivals)
    (rightRepresents : Represents right rightArrivals)
    (queues : ∀ side,
      (left.forEachLevel side).map (fun visit => (visit.price, visit.refs)) =
        (right.forEachLevel side).map fun visit => (visit.price, visit.refs))
    {order : Resting} (member : order ∈ rightArrivals.orders) :
    ∃ other ∈ leftArrivals.orders, other.ref = order.ref ∧
      other.side = order.side ∧ other.price = order.price := by
  have leftVisits : left.forEachLevel order.side =
      leftArrivals.visits order.side :=
    Except.ok.inj (leftRepresents.answers.forEachLevel order.side)
  have rightVisits : right.forEachLevel order.side =
      rightArrivals.visits order.side :=
    Except.ok.inj (rightRepresents.answers.forEachLevel order.side)
  have same := queues order.side
  rw [leftVisits, rightVisits, ArrivalBook.visits, ArrivalBook.visits,
    List.map_map, List.map_map] at same
  have visited :
      (order.price, (rightArrivals.level order.side order.price).map
        Resting.ref) ∈
          (rightArrivals.prices order.side).map fun price =>
            (price, (rightArrivals.level order.side price).map Resting.ref) :=
    List.mem_map_of_mem (ArrivalBook.mem_prices.mpr ⟨order, member, rfl, rfl⟩)
  have fromLeft := same ▸ visited
  obtain ⟨price, -, equal⟩ := List.mem_map.mp fromLeft
  simp only [Function.comp_apply, Prod.mk.injEq] at equal
  obtain ⟨rfl, refs⟩ := equal
  have inRefs : order.ref ∈
      (rightArrivals.level order.side order.price).map Resting.ref :=
    List.mem_map_of_mem (ArrivalBook.mem_level.mpr ⟨member, rfl, rfl⟩)
  rw [← refs] at inRefs
  obtain ⟨other, otherMember, sameRef⟩ := List.mem_map.mp inRefs
  obtain ⟨resting, side, atPrice⟩ := ArrivalBook.mem_level.mp otherMember
  exact ⟨other, resting, sameRef, side, atPrice⟩

theorem contains_iff {book : MapBook} {arrivals : ArrivalBook}
    (represents : Represents book arrivals) {ref : OrderRef} :
    book.contains ref = true ↔ ∃ order ∈ arrivals.orders, order.ref = ref := by
  have contains : book.contains ref = (arrivals.find? ref).isSome :=
    Except.ok.inj (represents.answers.contains ref)
  rw [contains, Option.isSome_iff_exists]
  simp only [ArrivalBook.find?_eq_some_iff]

/-- With equal queues only quantities can tell two books apart. -/
theorem holdSameOrders_iff
    (leftRepresents : Represents left leftArrivals)
    (rightRepresents : Represents right rightArrivals)
    (queues : ∀ side,
      (left.forEachLevel side).map (fun visit => (visit.price, visit.refs)) =
        (right.forEachLevel side).map fun visit => (visit.price, visit.refs)) :
    HoldSameOrders left right ↔
      ∀ ref, right.contains ref = true → left.qtyOf ref = right.qtyOf ref := by
  refine ⟨HoldSameOrders.qtyOf, fun qtyOf => ?_⟩
  have toLeft := fun {order} (member : order ∈ rightArrivals.orders) =>
    exists_of_queues leftRepresents rightRepresents queues member
  have toRight := fun {order} (member : order ∈ leftArrivals.orders) =>
    exists_of_queues rightRepresents leftRepresents
      (fun side => (queues side).symm) member
  refine ⟨?_, ?_, ?_, qtyOf, queues⟩
  · intro ref
    rw [Bool.eq_iff_iff, contains_iff leftRepresents,
      contains_iff rightRepresents]
    constructor
    · rintro ⟨order, member, rfl⟩
      obtain ⟨other, otherMember, sameRef, -⟩ := toRight member
      exact ⟨other, otherMember, sameRef⟩
    · rintro ⟨order, member, rfl⟩
      obtain ⟨other, otherMember, sameRef, -⟩ := toLeft member
      exact ⟨other, otherMember, sameRef⟩
  · intro ref resting
    obtain ⟨order, member, rfl⟩ := (contains_iff rightRepresents).mp resting
    obtain ⟨other, otherMember, sameRef, side, -⟩ := toLeft member
    have leftSide := leftRepresents.answers.sideOf other otherMember
    rw [sameRef, side] at leftSide
    exact leftSide.trans (rightRepresents.answers.sideOf order member).symm
  · intro ref resting
    obtain ⟨order, member, rfl⟩ := (contains_iff rightRepresents).mp resting
    obtain ⟨other, otherMember, sameRef, -, price⟩ := toLeft member
    have leftPrice := leftRepresents.answers.priceOf other otherMember
    rw [sameRef, price] at leftPrice
    exact leftPrice.trans (rightRepresents.answers.priceOf order member).symm

end Same

/--
Equal fed sequences mean equal books except in one case: when the books have the
same queues and the same totals, and only divide a total differently.
-/
theorem bookFed_determinesOrders_iff {leftRun rightRun : List Operation}
    {left right : MapBook}
    (leftReached : OrderBook.run ({} : MapBook) leftRun = .ok left)
    (rightReached : OrderBook.run ({} : MapBook) rightRun = .ok right)
    (leftFits : left.CountsFit) (rightFits : right.CountsFit) :
    (bookFed left = bookFed right → HoldSameOrders left right) ↔
      ¬ DivideDifferently left right := by
  obtain ⟨leftArrivals, -, leftRepresents⟩ :=
    represents_empty.run_accepted leftReached
  obtain ⟨rightArrivals, -, rightRepresents⟩ :=
    represents_empty.run_accepted rightReached
  rw [bookFed_eq_iff leftFits rightFits]
  constructor
  · intro property divided
    obtain ⟨ref, resting, differ⟩ := divided.differ
    have same := property fun side =>
      forEachLevel_eq_iff.mpr ⟨divided.queues side, divided.totals side⟩
    exact differ (same.qtyOf ref resting)
  · intro undivided same
    have queues := fun side => (forEachLevel_eq_iff.mp (same side)).1
    rw [holdSameOrders_iff leftRepresents rightRepresents queues]
    intro ref resting
    by_contra differ
    exact undivided
      ⟨queues, fun side => (forEachLevel_eq_iff.mp (same side)).2,
        ref, resting, differ⟩

/-! ## Two books which no digest tells apart -/

/-- Ten shares wait before twenty. -/
def smallFirst : List Operation :=
  [.add 1 .buy 100 10 0, .add 2 .buy 100 20 0]

/-- Twenty shares wait before ten. -/
def largeFirst : List Operation :=
  [.add 1 .buy 100 20 0, .add 2 .buy 100 10 0]

/-- What a run of calls leaves behind: the fed values and one quantity. -/
def fedAfter (operations : List Operation) :
    Checked (Checked (List UInt64) × Bool × Checked Qty) :=
  (OrderBook.run ({} : MapBook) operations).map fun book =>
    (bookFed book, book.contains 1, book.qtyOf 1)

theorem exists_of_fedAfter {operations : List Operation}
    {fed : Checked (List UInt64)} {present : Bool} {qty : Checked Qty}
    (evaluated : fedAfter operations = .ok (fed, present, qty)) :
    ∃ book : MapBook, OrderBook.run ({} : MapBook) operations = .ok book ∧
      bookFed book = fed ∧ book.contains 1 = present ∧ book.qtyOf 1 = qty := by
  unfold fedAfter at evaluated
  cases ran : OrderBook.run ({} : MapBook) operations with
  | error failure =>
      rw [ran] at evaluated
      cases evaluated
  | ok book =>
      rw [ran] at evaluated
      have equal := Except.ok.inj evaluated
      simp only [Prod.mk.injEq] at equal
      exact ⟨book, rfl, equal⟩

theorem bookFed_missesQuantities :
    ∃ left right : MapBook,
      OrderBook.run ({} : MapBook) smallFirst = .ok left ∧
        OrderBook.run ({} : MapBook) largeFirst = .ok right ∧
        bookFed left = bookFed right ∧ ¬ HoldSameOrders left right := by
  have smallValue : fedAfter smallFirst =
      .ok (.ok [0, 100, 30, 2, 1, 2, sideTerminator, 1, sideTerminator],
        true, .ok 10) := by
    decide
  have largeValue : fedAfter largeFirst =
      .ok (.ok [0, 100, 30, 2, 1, 2, sideTerminator, 1, sideTerminator],
        true, .ok 20) := by
    decide
  obtain ⟨left, leftRan, leftFed, -, leftQty⟩ := exists_of_fedAfter smallValue
  obtain ⟨right, rightRan, rightFed, resting, rightQty⟩ :=
    exists_of_fedAfter largeValue
  refine ⟨left, right, leftRan, rightRan, leftFed.trans rightFed.symm, ?_⟩
  intro same
  have equal := same.qtyOf 1 resting
  rw [leftQty, rightQty] at equal
  exact absurd equal (by decide)

/-- The book of `smallFirst`, by way of an execution and a removal. -/
def executedFirst : List Operation :=
  [.add 1 .buy 100 15 0, .add 3 .sell 200 5 0, .add 2 .buy 100 20 0,
    .execute 1 5, .remove 3]

/-- The levels, the references and the quantities of the first two orders. -/
def restsAfter (operations : List Operation) :
    Checked (List LevelVisit × List LevelVisit × List OrderRef ×
      List (Checked Qty)) :=
  (OrderBook.run ({} : MapBook) operations).map fun book =>
    (book.forEachLevel .buy, book.forEachLevel .sell, book.orders.keys,
      [book.qtyOf 1, book.qtyOf 2])

theorem exists_of_restsAfter {operations : List Operation}
    (evaluated : restsAfter operations =
      .ok ([⟨100, 30, 2, [1, 2]⟩], [], [1, 2], [.ok 10, .ok 20])) :
    ∃ book : MapBook, OrderBook.run ({} : MapBook) operations = .ok book ∧
      book.CountsFit ∧
      bookFed book =
        .ok [0, 100, 30, 2, 1, 2, sideTerminator, 1, sideTerminator] ∧
      (∀ ref, book.contains ref = true → ref = 1 ∨ ref = 2) ∧
      book.qtyOf 1 = .ok 10 ∧ book.qtyOf 2 = .ok 20 := by
  unfold restsAfter at evaluated
  cases ran : OrderBook.run ({} : MapBook) operations with
  | error failure =>
      rw [ran] at evaluated
      cases evaluated
  | ok book =>
      rw [ran] at evaluated
      simp only [Except.map, Except.ok.injEq, Prod.mk.injEq, List.cons.injEq,
        and_true] at evaluated
      obtain ⟨buys, sells, keys, first, second⟩ := evaluated
      refine ⟨book, rfl, ?_, ?_, ?_, first, second⟩
      · intro side visit member
        cases side
        · rw [buys, List.mem_singleton] at member
          rw [member]
          decide
        · rw [sells] at member
          cases member
      · rw [bookFed_eq, buys, sells]
        rfl
      · intro ref resting
        have key := Std.ExtTreeMap.mem_keys.mpr
          (Std.ExtTreeMap.mem_iff_isSome_getElem?.mpr resting)
        rw [keys] at key
        simpa using key

theorem bookFed_determinesOrders_executedFirst :
    ∃ left right : MapBook,
      OrderBook.run ({} : MapBook) smallFirst = .ok left ∧
        OrderBook.run ({} : MapBook) executedFirst = .ok right ∧
        bookFed left = bookFed right ∧ ¬ DivideDifferently left right ∧
        ((bookFed left = bookFed right → HoldSameOrders left right) ↔
          ¬ DivideDifferently left right) := by
  obtain ⟨left, leftRan, leftFits, leftFed, -, leftFirst, leftSecond⟩ :=
    @exists_of_restsAfter smallFirst (by decide)
  obtain ⟨right, rightRan, rightFits, rightFed, rests, rightFirst,
    rightSecond⟩ := @exists_of_restsAfter executedFirst (by decide +kernel)
  refine ⟨left, right, leftRan, rightRan, leftFed.trans rightFed.symm, ?_,
    bookFed_determinesOrders_iff leftRan rightRan leftFits rightFits⟩
  rintro ⟨-, -, ref, resting, differ⟩
  rcases rests ref resting with rfl | rfl
  · exact differ (leftFirst.trans rightFirst.symm)
  · exact differ (leftSecond.trans rightSecond.symm)

end MapBook

end ItchExchange.Book
