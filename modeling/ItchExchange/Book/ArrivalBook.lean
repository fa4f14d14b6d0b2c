import ItchExchange.Book.BookTypes

/-!
# The list-of-arrivals order book

This is the purpose of every book implementation, stated without any of their
data structures: a limit order book is the list of its resting orders in
arrival order.  A reduction subtracts shares and drops the order when nothing
is left; a replace drops the old order and appends a new one with the old side
and owner.

The list carries its two invariants as fields: no reference rests twice and no
order rests with quantity zero.  Every query of an implementation is defined
here as a function of the list alone.
-/

namespace ItchExchange.Book

open ItchExchange.Core

/-- One resting order. -/
structure Resting where
  ref : OrderRef
  side : Side
  price : Price
  qty : Qty
  owner : Owner
deriving DecidableEq, Repr

/-- What is left of an order after `shares` are taken from it. -/
def Resting.less (order : Resting) (shares : Qty) : Option Resting :=
  if order.qty = shares then none
  else some { order with qty := order.qty - shares }

/-- `Resting.less` at one reference; every other order is kept. -/
def Resting.lessAt (ref : OrderRef) (shares : Qty) (order : Resting) :
    Option Resting :=
  if order.ref = ref then order.less shares else some order

theorem Resting.lessAt_eq_some {ref : OrderRef} {shares : Qty}
    {order result : Resting}
    (equal : order.lessAt ref shares = some result) :
    result.ref = order.ref ∧ result.side = order.side ∧
      result.price = order.price ∧ result.owner = order.owner := by
  unfold lessAt less at equal
  split_ifs at equal
  · simp only [Option.some.injEq] at equal
    subst result
    simp
  · simp only [Option.some.injEq] at equal
    subst result
    simp

theorem Resting.lessAt_positive {ref : OrderRef} {shares : Qty}
    {order result : Resting}
    (positive : order.qty ≠ 0)
    (equal : order.lessAt ref shares = some result) :
    result.qty ≠ 0 := by
  unfold lessAt less at equal
  split_ifs at equal with atRef exhausted
  · simp only [Option.some.injEq] at equal
    subst result
    intro zero
    exact exhausted (by grind)
  · simp only [Option.some.injEq] at equal
    subst result
    exact positive

/-- `Resting.lessAt` over a list of orders. -/
def reduceIn (ref : OrderRef) (shares : Qty) (orders : List Resting) :
    List Resting :=
  orders.filterMap (Resting.lessAt ref shares)

@[simp]
theorem reduceIn_nil (ref : OrderRef) (shares : Qty) :
    reduceIn ref shares [] = [] :=
  rfl

theorem mem_reduceIn {ref : OrderRef} {shares : Qty}
    {orders : List Resting} {result : Resting} :
    result ∈ reduceIn ref shares orders ↔
      ∃ order ∈ orders, order.lessAt ref shares = some result :=
  List.mem_filterMap

/-- Taking shares from a reference which is not in the list changes nothing. -/
theorem reduceIn_of_absent {ref : OrderRef} {shares : Qty}
    {orders : List Resting}
    (absent : ∀ order ∈ orders, order.ref ≠ ref) :
    reduceIn ref shares orders = orders := by
  induction orders with
  | nil => rfl
  | cons head tail induction =>
      have headOther : head.lessAt ref shares = some head :=
        if_neg (absent head List.mem_cons_self)
      have tailSame := induction fun order member =>
        absent order (List.mem_cons_of_mem head member)
      unfold reduceIn at tailSame ⊢
      rw [List.filterMap_cons_some headOther, tailSame]

theorem refs_reduceIn_sublist (ref : OrderRef) (shares : Qty)
    (orders : List Resting) :
    ((reduceIn ref shares orders).map Resting.ref).Sublist
      (orders.map Resting.ref) := by
  induction orders with
  | nil => simp
  | cons head tail induction =>
      unfold reduceIn at induction ⊢
      rw [List.filterMap_cons]
      split
      · exact induction.trans (List.sublist_cons_self _ _)
      · next result equal =>
          have sameRef := (Resting.lessAt_eq_some equal).1
          rw [List.map_cons, List.map_cons, sameRef]
          exact induction.cons_cons _

/--
Reductions commute with every filter that looks only at the side and the price
of an order, because a reduction changes neither.
-/
theorem filter_reduceIn {keep : Resting → Bool}
    (stable : ∀ first second : Resting,
      first.side = second.side → first.price = second.price →
        keep first = keep second)
    (ref : OrderRef) (shares : Qty) (orders : List Resting) :
    (reduceIn ref shares orders).filter keep =
      reduceIn ref shares (orders.filter keep) := by
  induction orders with
  | nil => rfl
  | cons head tail induction =>
      unfold reduceIn at induction ⊢
      rw [List.filterMap_cons, List.filter_cons]
      cases equal : head.lessAt ref shares with
      | none =>
          rw [induction]
          split_ifs
          · rw [List.filterMap_cons_none equal]
          · rfl
      | some result =>
          obtain ⟨-, sameSide, samePrice, -⟩ :=
            Resting.lessAt_eq_some equal
          have sameKeep := stable result head sameSide samePrice
          dsimp only
          rw [List.filter_cons, sameKeep, induction]
          split_ifs
          · rw [List.filterMap_cons_some equal]
          · rfl

/-- The exact quantity of a list of orders. -/
def naturalQty (orders : List Resting) : Nat :=
  (orders.map fun order => order.qty.toNat).sum

/-- The quantity of a list of orders as the source adds it up, in 64 bits. -/
def wordQty (orders : List Resting) : UInt64 :=
  (orders.map fun order => order.qty.toUInt64).sum

@[simp]
theorem wordQty_nil : wordQty [] = 0 := rfl

@[simp]
theorem wordQty_cons (head : Resting) (tail : List Resting) :
    wordQty (head :: tail) = head.qty.toUInt64 + wordQty tail := by
  simp [wordQty]

@[simp]
theorem wordQty_append (left right : List Resting) :
    wordQty (left ++ right) = wordQty left + wordQty right := by
  induction left with
  | nil => simp
  | cons head tail induction =>
      rw [List.cons_append, wordQty_cons, wordQty_cons, induction]
      grind

/-- The 64 bit sum is the exact sum modulo `2 ^ 64`. -/
theorem wordQty_eq_ofNat (orders : List Resting) :
    wordQty orders = UInt64.ofNat (naturalQty orders) := by
  induction orders with
  | nil => rfl
  | cons head tail induction =>
      rw [wordQty_cons, induction]
      simp only [naturalQty, List.map_cons, List.sum_cons]
      rw [UInt64.ofNat_add]
      congr 1
      exact UInt64.toNat_inj.mp (by simp)

/-- At most `2 ^ 32 - 1` shares rest under each reference. -/
theorem naturalQty_le (orders : List Resting) :
    naturalQty orders ≤ orders.length * (2 ^ 32 - 1) := by
  induction orders with
  | nil => simp [naturalQty]
  | cons head tail induction =>
      have headBound := head.qty.toNat_lt
      simp only [naturalQty, List.map_cons, List.sum_cons,
        List.length_cons] at induction ⊢
      omega

/-- Up to `2 ^ 32` orders the 64 bit sum does not wrap. -/
theorem wordQty_toNat {orders : List Resting}
    (small : orders.length < 2 ^ 32) :
    (wordQty orders).toNat = naturalQty orders := by
  have bound := naturalQty_le orders
  rw [wordQty_eq_ofNat, UInt64.toNat_ofNat_of_lt']
  have product : orders.length * (2 ^ 32 - 1) < 2 ^ 64 := by omega
  exact lt_of_le_of_lt bound product

private theorem sub_toUInt64 {held shares : Qty} (enough : shares ≤ held) :
    (held - shares).toUInt64 = held.toUInt64 - shares.toUInt64 := by
  have small : shares.toUInt64 ≤ held.toUInt64 := by
    simpa [UInt64.le_iff_toNat_le] using UInt32.le_iff_toNat_le.mp enough
  apply UInt64.toNat_inj.mp
  rw [UInt64.toNat_sub_of_le _ _ small, UInt32.toNat_toUInt64,
    UInt32.toNat_toUInt64, UInt32.toNat_toUInt64,
    UInt32.toNat_sub_of_le _ _ enough]

/-- A reduction takes exactly its shares from the total. -/
theorem wordQty_reduceIn {orders : List Resting} {order : Resting}
    {shares : Qty}
    (distinct : (orders.map Resting.ref).Nodup)
    (member : order ∈ orders) (enough : shares ≤ order.qty) :
    wordQty (reduceIn order.ref shares orders) =
      wordQty orders - shares.toUInt64 := by
  induction orders with
  | nil => simp at member
  | cons head tail induction =>
      rw [List.map_cons, List.nodup_cons] at distinct
      rcases List.mem_cons.mp member with rfl | inTail
      · have tailSame : reduceIn order.ref shares tail = tail := by
          refine reduceIn_of_absent fun other inTail equal => ?_
          exact distinct.1 (equal ▸ List.mem_map_of_mem inTail)
        unfold reduceIn at tailSame ⊢
        rw [List.filterMap_cons]
        simp only [Resting.lessAt, if_true, Resting.less]
        split_ifs with exhausted
        · simp only [tailSame, wordQty_cons, exhausted]
          grind
        · simp only [tailSame, wordQty_cons, sub_toUInt64 enough]
          grind
      · have headOther : head.ref ≠ order.ref := fun equal =>
          distinct.1 (equal ▸ List.mem_map_of_mem inTail)
        have kept : head.lessAt order.ref shares = some head :=
          if_neg headOther
        have tailSum := induction distinct.2 inTail
        unfold reduceIn at tailSum ⊢
        rw [List.filterMap_cons_some kept, wordQty_cons, wordQty_cons,
          tailSum]
        grind

/-! ## The book and its operations -/

/-- The list-of-arrivals order book. -/
@[ext]
structure ArrivalBook where
  orders : List Resting
  distinct : (orders.map Resting.ref).Nodup
  positive : ∀ order ∈ orders, order.qty ≠ 0

namespace ArrivalBook

/-- The book in which nothing rests. -/
def empty : ArrivalBook where
  orders := []
  distinct := List.nodup_nil
  positive := fun _ member => absurd member List.not_mem_nil

/-- The order resting under a reference. -/
def find? (book : ArrivalBook) (ref : OrderRef) : Option Resting :=
  book.orders.find? fun order => decide (order.ref = ref)

theorem find?_eq_none_iff {book : ArrivalBook} {ref : OrderRef} :
    book.find? ref = none ↔ ∀ order ∈ book.orders, order.ref ≠ ref := by
  simp [find?]

theorem eq_of_ref_eq {book : ArrivalBook} {first second : Resting}
    (firstMember : first ∈ book.orders) (secondMember : second ∈ book.orders)
    (equal : first.ref = second.ref) :
    first = second :=
  List.inj_on_of_nodup_map book.distinct firstMember secondMember equal

theorem find?_eq_some_iff {book : ArrivalBook} {ref : OrderRef}
    {order : Resting} :
    book.find? ref = some order ↔ order ∈ book.orders ∧ order.ref = ref := by
  constructor
  · intro found
    have member := List.mem_of_find?_eq_some found
    have matched := List.find?_some found
    exact ⟨member, by simpa using matched⟩
  · rintro ⟨member, atRef⟩
    cases found : book.find? ref with
    | none =>
        exact absurd atRef (find?_eq_none_iff.mp found order member)
    | some other =>
        have otherMember := List.mem_of_find?_eq_some found
        have otherRef : other.ref = ref := by
          simpa using List.find?_some found
        rw [eq_of_ref_eq otherMember member (otherRef.trans atRef.symm)]

/-- Append a new order behind every order already resting. -/
def add (book : ArrivalBook) (order : Resting)
    (fresh : book.find? order.ref = none) (positive : order.qty ≠ 0) :
    ArrivalBook where
  orders := book.orders ++ [order]
  distinct := by
    rw [List.map_append, List.nodup_append]
    refine ⟨book.distinct, by simp, ?_⟩
    intro ref oldRef other newRef equal
    obtain ⟨old, member, rfl⟩ := List.mem_map.mp oldRef
    simp only [List.map_cons, List.map_nil, List.mem_singleton] at newRef
    exact find?_eq_none_iff.mp fresh old member (equal.trans newRef)
  positive := by
    intro other member
    rcases List.mem_append.mp member with old | new
    · exact book.positive other old
    · rw [List.mem_singleton.mp new]
      exact positive

/-- Take shares from one reference, dropping the order when none are left. -/
def reduce (book : ArrivalBook) (ref : OrderRef) (shares : Qty) :
    ArrivalBook where
  orders := reduceIn ref shares book.orders
  distinct := book.distinct.sublist (refs_reduceIn_sublist ref shares _)
  positive := by
    intro result member
    obtain ⟨order, orderMember, equal⟩ := mem_reduceIn.mp member
    exact Resting.lessAt_positive (book.positive order orderMember) equal

/-- `add`, refused when the reference rests or the quantity is zero. -/
def insert? (book : ArrivalBook) (order : Resting) : Option ArrivalBook :=
  if positive : order.qty ≠ 0 then
    if fresh : book.find? order.ref = none then
      some (book.add order fresh positive)
    else none
  else none

/-- `reduce`, refused when the order does not rest or holds less. -/
def take? (book : ArrivalBook) (ref : OrderRef) (shares : Qty) :
    Option ArrivalBook :=
  match book.find? ref with
  | none => none
  | some order =>
      if shares ≤ order.qty then some (book.reduce ref shares) else none

/-- Withdraw an order whole. -/
def remove? (book : ArrivalBook) (ref : OrderRef) : Option ArrivalBook :=
  match book.find? ref with
  | none => none
  | some order => some (book.reduce ref order.qty)

/-- Withdraw an order and append its replacement, with its side and owner. -/
def replace? (book : ArrivalBook) (oldRef newRef : OrderRef)
    (price : Price) (qty : Qty) : Option ArrivalBook :=
  match book.find? oldRef with
  | none => none
  | some old =>
      (book.reduce oldRef old.qty).insert?
        ⟨newRef, old.side, price, qty, old.owner⟩

/-- One operation on the list of arrivals, or `none` when it is refused. -/
def perform? (book : ArrivalBook) : Operation → Option ArrivalBook
  | .add ref side price qty owner =>
      book.insert? ⟨ref, side, price, qty, owner⟩
  | .cancel ref shares => book.take? ref shares
  | .execute ref shares => book.take? ref shares
  | .remove ref => book.remove? ref
  | .replace oldRef newRef price qty =>
      book.replace? oldRef newRef price qty

/-- A sequence of operations, up to the first refused one. -/
def run? (book : ArrivalBook) : List Operation → Option ArrivalBook
  | [] => some book
  | operation :: rest =>
      match book.perform? operation with
      | none => none
      | some next => next.run? rest

@[simp]
theorem run?_nil (book : ArrivalBook) : book.run? [] = some book := rfl

theorem run?_cons (book : ArrivalBook) (operation : Operation)
    (rest : List Operation) :
    book.run? (operation :: rest) =
      (book.perform? operation).bind fun next => next.run? rest := by
  rw [run?]
  cases book.perform? operation <;> rfl

/-! ## Queries -/

/-- The orders resting on one side, in arrival order. -/
def onSide (book : ArrivalBook) (side : Side) : List Resting :=
  book.orders.filter fun order => decide (order.side = side)

/-- The orders resting at one price, in arrival order. -/
def level (book : ArrivalBook) (side : Side) (price : Price) :
    List Resting :=
  book.orders.filter fun order =>
    decide (order.side = side ∧ order.price = price)

/-- The distinct prices of a side, from the inside outwards. -/
def prices (book : ArrivalBook) (side : Side) : List Price :=
  ((book.onSide side).map Resting.price).dedup.insertionSort
    fun first second => ¬ Closer side second first

def isEmpty (book : ArrivalBook) (side : Side) : Bool :=
  (book.onSide side).isEmpty

/-- The most aggressive price of a side, or the marker of an empty side. -/
def best (book : ArrivalBook) (side : Side) : Price :=
  (book.prices side).head?.getD kNoPrice

def qtyAt (book : ArrivalBook) (side : Side) (price : Price) : UInt64 :=
  wordQty (book.level side price)

def ordersAt (book : ArrivalBook) (side : Side) (price : Price) : UInt32 :=
  UInt32.ofNat (book.level side price).length

/-- The reference with time priority at a price, or zero. -/
def frontAt (book : ArrivalBook) (side : Side) (price : Price) :
    OrderRef :=
  ((book.level side price).head?.map Resting.ref).getD 0

def stats (book : ArrivalBook) : BookStats where
  totalQty := ⟨wordQty (book.onSide .buy), wordQty (book.onSide .sell)⟩
  levelCount :=
    ⟨UInt32.ofNat (book.prices .buy).length,
      UInt32.ofNat (book.prices .sell).length⟩
  orderCount := UInt32.ofNat book.orders.length

/-- The orders of a side grouped by price, from the inside outwards. -/
def levels (book : ArrivalBook) (side : Side) :
    List (Price × List Resting) :=
  (book.prices side).map fun price => (price, book.level side price)

/-- What `for_each_level` passes on for the levels of a side. -/
def visits (book : ArrivalBook) (side : Side) : List LevelVisit :=
  (book.prices side).map fun price =>
    { price
      qty := book.qtyAt side price
      orders := book.ordersAt side price
      refs := (book.level side price).map Resting.ref }

/-! ## The prices of a side -/

theorem mem_onSide {book : ArrivalBook} {side : Side} {order : Resting} :
    order ∈ book.onSide side ↔
      order ∈ book.orders ∧ order.side = side := by
  simp [onSide]

theorem mem_level {book : ArrivalBook} {side : Side} {price : Price}
    {order : Resting} :
    order ∈ book.level side price ↔
      order ∈ book.orders ∧ order.side = side ∧ order.price = price := by
  simp [level]

theorem mem_prices {book : ArrivalBook} {side : Side} {price : Price} :
    price ∈ book.prices side ↔
      ∃ order ∈ book.orders, order.side = side ∧ order.price = price := by
  simp only [prices, List.mem_insertionSort, List.mem_dedup, List.mem_map,
    mem_onSide, and_assoc]

theorem level_ne_nil_iff {book : ArrivalBook} {side : Side}
    {price : Price} :
    book.level side price ≠ [] ↔ price ∈ book.prices side := by
  rw [mem_prices, ne_eq, List.eq_nil_iff_forall_not_mem, not_forall_not]
  simp only [mem_level]

/-- A side's prices strictly recede from the inside. -/
theorem prices_pairwise (book : ArrivalBook) (side : Side) :
    (book.prices side).Pairwise (Closer side) := by
  have total : Std.Total fun first second : Price =>
      ¬ Closer side second first := by
    constructor
    intro first second
    by_cases closer : Closer side second first
    · exact Or.inr closer.asymm
    · exact Or.inl closer
  have transitive : IsTrans Price fun first second =>
      ¬ Closer side second first := by
    constructor
    intro first second third left right
    rcases Closer.trichotomy side second first with closer | rfl | closer
    · exact absurd closer left
    · exact right
    · intro reversed
      exact right (reversed.trans closer)
  have sorted :=
    List.pairwise_insertionSort
      (fun first second => ¬ Closer side second first)
      ((book.onSide side).map Resting.price).dedup
  have distinct : (book.prices side).Nodup :=
    (List.perm_insertionSort _ _).nodup_iff.mpr (List.nodup_dedup _)
  refine (sorted.and distinct).imp ?_
  rintro first second ⟨notFurther, different⟩
  rcases Closer.trichotomy side first second with closer | equal | closer
  · exact closer
  · exact absurd equal different
  · exact absurd closer notFurther

theorem prices_nodup (book : ArrivalBook) (side : Side) :
    (book.prices side).Nodup :=
  (book.prices_pairwise side).nodup

/-- The only strictly receding list of a side's prices is `prices`. -/
theorem prices_eq_of_pairwise {book : ArrivalBook} {side : Side}
    {candidates : List Price}
    (sorted : candidates.Pairwise (Closer side))
    (members : ∀ price, price ∈ candidates ↔
      ∃ order ∈ book.orders, order.side = side ∧ order.price = price) :
    candidates = book.prices side :=
  sorted.eq_of_mem_iff (book.prices_pairwise side) fun price =>
    (members price).trans mem_prices.symm

theorem isEmpty_eq_prices_isEmpty (book : ArrivalBook) (side : Side) :
    book.isEmpty side = (book.prices side).isEmpty := by
  rw [Bool.eq_iff_iff, isEmpty, List.isEmpty_iff, List.isEmpty_iff,
    List.eq_nil_iff_forall_not_mem, List.eq_nil_iff_forall_not_mem]
  simp only [mem_onSide, mem_prices, not_and, not_exists]
  constructor
  · intro none price order member onSide _
    exact none order member onSide
  · intro none order member onSide
    exact none order.price order member onSide rfl

/-- On a side which is not empty the best price is that of a resting order. -/
theorem best_mem_prices {book : ArrivalBook} {side : Side}
    (nonempty : book.isEmpty side = false) :
    book.best side ∈ book.prices side := by
  rw [isEmpty_eq_prices_isEmpty] at nonempty
  unfold best
  cases equal : book.prices side with
  | nil => simp [equal] at nonempty
  | cons head tail => simp

/-- No price of the side is closer to the inside than the best one. -/
theorem not_closer_best {book : ArrivalBook} {side : Side} {price : Price}
    (member : price ∈ book.prices side) :
    ¬ Closer side price (book.best side) := by
  have sorted := book.prices_pairwise side
  unfold best
  cases equal : book.prices side with
  | nil => simp [equal] at member
  | cons head tail =>
      rw [equal] at sorted member
      rcases List.mem_cons.mp member with rfl | inTail
      · exact Closer.irrefl side _
      · exact (List.rel_of_pairwise_cons sorted inTail).asymm

/-! ## What the two primitive operations do to every query -/

section Primitive

variable {book : ArrivalBook} {order : Resting}
  {fresh : book.find? order.ref = none} {positive : order.qty ≠ 0}

theorem level_add (side : Side) (price : Price) :
    (book.add order fresh positive).level side price =
      if order.side = side ∧ order.price = price then
        book.level side price ++ [order]
      else book.level side price := by
  unfold level
  rw [add, List.filter_append]
  by_cases atLevel : order.side = side ∧ order.price = price
  · simp [atLevel]
  · simp [atLevel]

theorem onSide_add (side : Side) :
    (book.add order fresh positive).onSide side =
      if order.side = side then book.onSide side ++ [order]
      else book.onSide side := by
  unfold onSide
  rw [add, List.filter_append]
  by_cases atSide : order.side = side
  · simp [atSide]
  · simp [atSide]

theorem find?_add (ref : OrderRef) :
    (book.add order fresh positive).find? ref =
      if ref = order.ref then some order else book.find? ref := by
  split_ifs with same
  · rw [find?_eq_some_iff]
    exact ⟨by simp [add], same.symm⟩
  · cases found : book.find? ref with
    | none =>
        rw [find?_eq_none_iff] at found ⊢
        intro other member
        rcases List.mem_append.mp member with old | new
        · exact found other old
        · rw [List.mem_singleton.mp new]
          exact Ne.symm same
    | some other =>
        rw [find?_eq_some_iff] at found ⊢
        exact ⟨List.mem_append_left _ found.1, found.2⟩

theorem level_reduce (ref : OrderRef) (shares : Qty) (side : Side)
    (price : Price) :
    (book.reduce ref shares).level side price =
      reduceIn ref shares (book.level side price) :=
  filter_reduceIn
    (fun first second sameSide samePrice => by
      rw [sameSide, samePrice])
    ref shares book.orders

theorem onSide_reduce (ref : OrderRef) (shares : Qty) (side : Side) :
    (book.reduce ref shares).onSide side =
      reduceIn ref shares (book.onSide side) :=
  filter_reduceIn
    (fun first second sameSide _ => by rw [sameSide])
    ref shares book.orders

/-- A reduction leaves every level but that of its order alone. -/
theorem level_reduce_of_ne (member : order ∈ book.orders) {shares : Qty}
    {side : Side} {price : Price}
    (elsewhere : ¬ (order.side = side ∧ order.price = price)) :
    (book.reduce order.ref shares).level side price =
      book.level side price := by
  rw [level_reduce]
  refine reduceIn_of_absent fun other otherMember equal => elsewhere ?_
  obtain ⟨otherResting, otherSide, otherPrice⟩ := mem_level.mp otherMember
  rw [← eq_of_ref_eq otherResting member equal]
  exact ⟨otherSide, otherPrice⟩

theorem onSide_reduce_of_ne (member : order ∈ book.orders) {shares : Qty}
    {side : Side} (elsewhere : order.side ≠ side) :
    (book.reduce order.ref shares).onSide side = book.onSide side := by
  rw [onSide_reduce]
  refine reduceIn_of_absent fun other otherMember equal => elsewhere ?_
  obtain ⟨otherResting, otherSide⟩ := mem_onSide.mp otherMember
  rw [← eq_of_ref_eq otherResting member equal]
  exact otherSide

theorem find?_reduce_of_ne {ref other : OrderRef} {shares : Qty}
    (distinct : other ≠ ref) :
    (book.reduce ref shares).find? other = book.find? other := by
  cases found : book.find? other with
  | none =>
      rw [find?_eq_none_iff] at found ⊢
      intro result member
      obtain ⟨order, orderMember, equal⟩ := mem_reduceIn.mp member
      rw [(Resting.lessAt_eq_some equal).1]
      exact found order orderMember
  | some order =>
      rw [find?_eq_some_iff] at found ⊢
      refine ⟨mem_reduceIn.mpr ⟨order, found.1, if_neg ?_⟩, found.2⟩
      rw [found.2]
      exact distinct

theorem find?_reduce_self (member : order ∈ book.orders)
    (shares : Qty) :
    (book.reduce order.ref shares).find? order.ref =
      order.less shares := by
  cases left : order.less shares with
  | none =>
      rw [find?_eq_none_iff]
      intro result resultMember atRef
      obtain ⟨other, otherMember, equal⟩ := mem_reduceIn.mp resultMember
      have sameRef := (Resting.lessAt_eq_some equal).1
      have same : other = order :=
        eq_of_ref_eq otherMember member (sameRef.symm.trans atRef)
      rw [same, Resting.lessAt, if_pos rfl, left] at equal
      cases equal
  | some result =>
      have equal : order.lessAt order.ref shares = some result := by
        rw [Resting.lessAt, if_pos rfl, left]
      rw [find?_eq_some_iff]
      exact ⟨mem_reduceIn.mpr ⟨order, member, equal⟩,
        (Resting.lessAt_eq_some equal).1⟩

theorem orders_reduce (ref : OrderRef) (shares : Qty) :
    (book.reduce ref shares).orders = reduceIn ref shares book.orders :=
  rfl

theorem onSide_refs_nodup (book : ArrivalBook) (side : Side) :
    ((book.onSide side).map Resting.ref).Nodup :=
  book.distinct.sublist (List.filter_sublist.map _)

theorem level_refs_nodup (book : ArrivalBook) (side : Side)
    (price : Price) :
    ((book.level side price).map Resting.ref).Nodup :=
  book.distinct.sublist (List.filter_sublist.map _)

end Primitive

end ArrivalBook

/-! ## Dropping one order from a list -/

/-- A reduction which exhausts its order erases it. -/
theorem reduceIn_exhausted {orders : List Resting} {order : Resting}
    (distinct : (orders.map Resting.ref).Nodup)
    (member : order ∈ orders) :
    reduceIn order.ref order.qty orders =
      orders.filter fun other => decide (other.ref ≠ order.ref) := by
  have inj := List.inj_on_of_nodup_map distinct
  unfold reduceIn
  rw [← List.filterMap_eq_filter]
  refine List.filterMap_congr fun other otherMember => ?_
  by_cases same : other.ref = order.ref
  · have equal := inj otherMember member same
    subst equal
    simp [Resting.lessAt, Resting.less, Option.guard]
  · simp [Resting.lessAt, same, Option.guard]

/-- A reduction which leaves something keeps the list of references. -/
theorem refs_reduceIn_remaining {orders : List Resting}
    {order : Resting} {shares : Qty}
    (distinct : (orders.map Resting.ref).Nodup)
    (member : order ∈ orders) (remaining : order.qty ≠ shares) :
    (reduceIn order.ref shares orders).map Resting.ref =
      orders.map Resting.ref := by
  have inj := List.inj_on_of_nodup_map distinct
  have kept : ∀ other ∈ orders, ∃ result,
      other.lessAt order.ref shares = some result ∧
        result.ref = other.ref := by
    intro other otherMember
    by_cases same : other.ref = order.ref
    · have equal := inj otherMember member same
      subst equal
      exact ⟨{ other with qty := other.qty - shares },
        by simp [Resting.lessAt, Resting.less, remaining], rfl⟩
    · exact ⟨other, if_neg same, rfl⟩
  clear member distinct inj
  induction orders with
  | nil => rfl
  | cons head tail induction =>
      obtain ⟨result, equal, sameRef⟩ := kept head List.mem_cons_self
      have rest := induction fun other inTail =>
        kept other (List.mem_cons_of_mem head inTail)
      unfold reduceIn at rest ⊢
      rw [List.filterMap_cons_some equal, List.map_cons, List.map_cons,
        sameRef, rest]

theorem length_reduceIn_remaining {orders : List Resting}
    {order : Resting} {shares : Qty}
    (distinct : (orders.map Resting.ref).Nodup)
    (member : order ∈ orders) (remaining : order.qty ≠ shares) :
    (reduceIn order.ref shares orders).length = orders.length := by
  simpa using congrArg List.length
    (refs_reduceIn_remaining distinct member remaining)

theorem length_reduceIn_exhausted {orders : List Resting}
    {order : Resting}
    (distinct : (orders.map Resting.ref).Nodup)
    (member : order ∈ orders) :
    (reduceIn order.ref order.qty orders).length + 1 = orders.length := by
  induction orders with
  | nil => simp at member
  | cons head tail induction =>
      rw [List.map_cons, List.nodup_cons] at distinct
      rcases List.mem_cons.mp member with rfl | inTail
      · have tailSame : reduceIn order.ref order.qty tail = tail := by
          refine reduceIn_of_absent fun other inTail equal => ?_
          exact distinct.1 (equal ▸ List.mem_map_of_mem inTail)
        have dropped : order.lessAt order.ref order.qty = none := by
          simp [Resting.lessAt, Resting.less]
        unfold reduceIn at tailSame ⊢
        rw [List.filterMap_cons_none dropped, tailSame, List.length_cons]
      · have headOther : head.ref ≠ order.ref := fun equal =>
          distinct.1 (equal ▸ List.mem_map_of_mem inTail)
        have kept : head.lessAt order.ref order.qty = some head :=
          if_neg headOther
        have rest := induction distinct.2 inTail
        unfold reduceIn at rest ⊢
        rw [List.filterMap_cons_some kept, List.length_cons,
          List.length_cons, rest]

end ItchExchange.Book
