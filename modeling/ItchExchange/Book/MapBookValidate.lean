import ItchExchange.Book.PriceTimeQueue
import ItchExchange.Book.MapBookArrivals

/-!
# The self-check of the reference book

`validate` of `map_book.hpp` walks every queue and derives again what the
incremental counters claim.  It accepts every book which holds a list of
arrivals of fewer than `2 ^ 32` orders.
-/

namespace ItchExchange.Book

open ItchExchange.Core

/-- What is added up over the levels of a side. -/
structure Recount where
  qty : UInt64 := 0
  levels : UInt32 := 0
  orders : Nat := 0
deriving DecidableEq, Repr

/-- One more level. -/
def Recount.visit (recount : Recount) (visit : LevelVisit) : Recount where
  qty := recount.qty + visit.qty
  levels := recount.levels + 1
  orders := recount.orders + visit.orders.toNat

namespace ArrivalBook

variable {book : ArrivalBook}

/-- The queue of a side is a rearrangement of its orders. -/
theorem queue_perm_onSide (book : ArrivalBook) (side : Side) :
    (book.queue side).Perm (book.onSide side) := by
  refine (List.perm_ext_iff_of_nodup
    (book.queue_refs_nodup side).of_map
    (book.onSide_refs_nodup side).of_map).mpr fun order => ?_
  rw [mem_queue, mem_onSide]

theorem onSide_length_add (book : ArrivalBook) :
    (book.onSide .buy).length + (book.onSide .sell).length =
      book.orders.length := by
  unfold onSide
  rw [← List.length_append]
  refine ((List.filter_append_perm
    (fun order : Resting => decide (order.side = .buy)) book.orders).symm.trans
      (List.Perm.of_eq ?_)).length_eq.symm
  congr 2
  funext order
  cases order.side <;> rfl

theorem wordQty_perm {first second : List Resting}
    (rearranged : first.Perm second) : wordQty first = wordQty second := by
  rw [wordQty_eq_ofNat, wordQty_eq_ofNat, naturalQty, naturalQty,
    (rearranged.map _).sum_nat]

/-- The recount of a side which visits its levels. -/
theorem recount_visits (book : ArrivalBook) (side : Side)
    (small : book.orders.length < 2 ^ 32) :
    (book.visits side).foldl Recount.visit {} =
      { qty := wordQty (book.onSide side)
        levels := UInt32.ofNat (book.prices side).length
        orders := (book.onSide side).length } := by
  rw [← wordQty_perm (book.queue_perm_onSide side),
    ← (book.queue_perm_onSide side).length_eq, visits, queue]
  have counted : ∀ (prices : List Price) (start : Recount),
      (prices.map fun price =>
        { price
          qty := book.qtyAt side price
          orders := book.ordersAt side price
          refs := (book.level side price).map Resting.ref :
            LevelVisit }).foldl Recount.visit start =
        { qty := start.qty + wordQty (prices.flatMap (book.level side))
          levels := start.levels + UInt32.ofNat prices.length
          orders := start.orders +
            (prices.flatMap (book.level side)).length } := by
    intro prices
    induction prices with
    | nil => intro start; simp
    | cons price rest induction =>
        intro start
        have few : (book.level side price).length < 2 ^ 32 :=
          lt_of_le_of_lt (List.length_filter_le _ _) small
        rw [List.map_cons, List.foldl_cons, induction]
        simp only [Recount.visit, qtyAt, ordersAt, List.flatMap_cons,
          wordQty_append, List.length_append, List.length_cons,
          UInt32.toNat_ofNat_of_lt' few, UInt32.ofNat_add,
          Recount.mk.injEq]
        have one : UInt32.ofNat 1 = 1 := rfl
        rw [one]
        exact ⟨by grind, by grind, by omega⟩
  rw [counted]
  simp

end ArrivalBook

namespace MapBook

/-! ## The check -/

/-- One reference of a queue; the quantities are added up. -/
def validateOrder (book : MapBook) (side : Side) (price : Price)
    (sum : UInt64) (ref : OrderRef) : Checked UInt64 :=
  match book.orders[ref]? with
  | none => .error (.assertion "level holds an unknown order")
  | some entry => do
      assertMsg (entry.price = price) "order is on the wrong level"
      assertMsg (entry.side = side) "order is on the wrong side"
      assertMsg (0 < entry.qty) "a zero quantity order is resting"
      pure (sum + entry.qty.toUInt64)

/-- One level, behind the level at `prev`. -/
def validateLevel (book : MapBook) (side : Side) (prev : Option Price)
    (visit : LevelVisit) : Checked Unit := do
  assertMsg (0 < visit.orders) "an empty level must not exist"
  assertMsg (visit.refs.length = visit.orders.toNat)
    "level order count disagrees"
  assertMsg (∀ before ∈ prev, Closer side before visit.price)
    "levels are out of order"
  let sum ← visit.refs.foldlM (book.validateOrder side visit.price) 0
  assertMsg (sum = visit.qty) "level quantity disagrees with its orders"

def validateLevels (book : MapBook) (side : Side) (prev : Option Price)
    (recount : Recount) : List LevelVisit → Checked Recount
  | [] => .ok recount
  | visit :: rest => do
      book.validateLevel side prev visit
      book.validateLevels side (some visit.price) (recount.visit visit) rest

def validate (book : MapBook) : Checked Unit := do
  let buy ← book.validateLevels .buy none {} (book.forEachLevel .buy)
  let sell ← book.validateLevels .sell none {} (book.forEachLevel .sell)
  assertMsg (buy.orders + sell.orders = book.orders.size)
    "orphaned order in the index"
  assertMsg
    (buy.qty = book.stats.totalQty.buy ∧
      sell.qty = book.stats.totalQty.sell)
    "cached total quantity disagrees"
  assertMsg
    (buy.levels = book.stats.levelCount.buy ∧
      sell.levels = book.stats.levelCount.sell)
    "cached level count disagrees"
  assertMsg (book.stats.orderCount.toNat = book.orders.size)
    "cached order count disagrees"

instance : ValidatedBook MapBook where
  validate := validate

/-! ## The check accepts every list of arrivals -/

section Accepts

variable {position : OrderRef → Nat} {book : MapBook}
  {arrivals : ArrivalBook}

theorem RepresentsAt.validateOrders
    (represents : RepresentsAt position book arrivals) {side : Side}
    {price : Price} {orders : List Resting}
    (inLevel : ∀ order ∈ orders, order ∈ arrivals.level side price)
    (sum : UInt64) :
    (orders.map Resting.ref).foldlM (book.validateOrder side price) sum =
      .ok (sum + wordQty orders) := by
  induction orders generalizing sum with
  | nil => simp
  | cons order rest induction =>
      obtain ⟨member, onSide, atPrice⟩ := ArrivalBook.mem_level.mp
        (inLevel order List.mem_cons_self)
      have positive : 0 < order.qty :=
        UInt32.pos_iff_ne_zero.mpr (arrivals.positive order member)
      have here : book.validateOrder side price sum order.ref =
          .ok (sum + order.qty.toUInt64) := by
        rw [validateOrder, represents.entry member]
        simp [entryOf, onSide, atPrice, positive]
      rw [List.map_cons, List.foldlM_cons, here, ok_bind,
        induction (fun other inRest =>
          inLevel other (List.mem_cons_of_mem order inRest)),
        wordQty_cons, UInt64.add_assoc]

theorem RepresentsAt.validateLevel
    (represents : RepresentsAt position book arrivals)
    (small : arrivals.orders.length < 2 ^ 32) {side : Side}
    {prev : Option Price} {price : Price}
    (nonempty : arrivals.level side price ≠ [])
    (recedes : ∀ before ∈ prev, Closer side before price) :
    book.validateLevel side prev
        { price
          qty := arrivals.qtyAt side price
          orders := arrivals.ordersAt side price
          refs := (arrivals.level side price).map Resting.ref } =
      .ok () := by
  have few : (arrivals.level side price).length < 2 ^ 32 :=
    lt_of_le_of_lt (length_level_le arrivals side price) small
  have count : (arrivals.ordersAt side price).toNat =
      (arrivals.level side price).length :=
    UInt32.toNat_ofNat_of_lt' few
  have some : 0 < arrivals.ordersAt side price := by
    rw [UInt32.lt_iff_toNat_lt, count]
    exact List.length_pos_iff.mpr nonempty
  rw [MapBook.validateLevel, assertMsg_of some, ok_bind,
    assertMsg_of (by rw [List.length_map, count]), ok_bind,
    assertMsg_of recedes, ok_bind,
    represents.validateOrders fun order member => member, ok_bind]
  exact assertMsg_of (UInt64.zero_add _)

theorem RepresentsAt.validateLevels
    (represents : RepresentsAt position book arrivals)
    (small : arrivals.orders.length < 2 ^ 32) {side : Side}
    {prev : Option Price} {prices : List Price}
    (nonempty : ∀ price ∈ prices, arrivals.level side price ≠ [])
    (recede : prices.Pairwise (Closer side))
    (behind : ∀ before ∈ prev, ∀ price ∈ prices,
      Closer side before price) (recount : Recount) :
    book.validateLevels side prev recount
        (prices.map fun price =>
          { price
            qty := arrivals.qtyAt side price
            orders := arrivals.ordersAt side price
            refs := (arrivals.level side price).map Resting.ref }) =
      .ok ((prices.map fun price =>
          { price
            qty := arrivals.qtyAt side price
            orders := arrivals.ordersAt side price
            refs := (arrivals.level side price).map Resting.ref :
              LevelVisit }).foldl Recount.visit recount) := by
  induction prices generalizing prev recount with
  | nil => rfl
  | cons price rest induction =>
      rw [List.pairwise_cons] at recede
      rw [List.map_cons, MapBook.validateLevels,
        represents.validateLevel small
          (nonempty price List.mem_cons_self)
          (fun before member =>
            behind before member price List.mem_cons_self), ok_bind,
        List.foldl_cons]
      refine induction
        (fun other member => nonempty other
          (List.mem_cons_of_mem price member)) recede.2 ?_ _
      intro before equal
      rw [← Option.some.inj equal]
      exact recede.1

/-- The self-check accepts every list of fewer than `2 ^ 32` arrivals. -/
theorem Represents.validate (represents : Represents book arrivals)
    (small : arrivals.orders.length < 2 ^ 32) :
    book.validate = .ok () := by
  have answers := represents.answers
  have visits : ∀ side, book.forEachLevel side = arrivals.visits side :=
    fun side => Except.ok.inj (answers.forEachLevel side)
  have stats : book.stats = arrivals.stats := answers.stats
  have size : book.orders.size = arrivals.orders.length :=
    answers.orderCount
  obtain ⟨position, represents⟩ := represents
  have walked : ∀ side,
      book.validateLevels side none {} (book.forEachLevel side) =
        .ok { qty := wordQty (arrivals.onSide side)
              levels := UInt32.ofNat (arrivals.prices side).length
              orders := (arrivals.onSide side).length } := by
    intro side
    rw [visits, ← arrivals.recount_visits side small]
    exact represents.validateLevels small
      (fun price member => ArrivalBook.level_ne_nil_iff.mpr member)
      (arrivals.prices_pairwise side)
      (fun before member => absurd member (Option.not_mem_none before)) {}
  rw [MapBook.validate, walked, ok_bind, walked, ok_bind, stats, size]
  simp only [ArrivalBook.stats, arrivals.onSide_length_add, and_self,
    UInt32.toNat_ofNat_of_lt' small, assertMsg_of, ok_bind]

end Accepts

end MapBook

end ItchExchange.Book
