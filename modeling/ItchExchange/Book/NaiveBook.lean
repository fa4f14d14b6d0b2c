import ItchExchange.Book.ArrivalBook
import ItchExchange.Library.Grouping
import Mathlib.Data.List.Destutter

/-!
# The oracle of the tests

`NaiveBook` of `naive_book.hpp`: a vector of resting orders without their
owners, of which every answer is recomputed.  `find` returns a pointer, and the
calls which go through it leave it undefined what becomes of a reference which
does not rest.

As long as the list of arrivals accepts the calls, the vector is the list, and
the answers of its loops are those of the list.
-/

namespace ItchExchange.Book

open ItchExchange.Core
open Std (ExtTreeMap)

namespace NaiveBook

/-- A resting order. -/
structure Rec where
  ref : OrderRef
  side : Side
  price : Price
  qty : Qty
deriving DecidableEq, Repr

/-- What `find` points at. -/
def find (ref : OrderRef) : List Rec → Checked Rec
  | [] => .error .undefined
  | r :: rest => if r.ref = ref then .ok r else find ref rest

/-- `r->qty -= shares` behind `find`, with what is pointed at afterwards. -/
def subtract (ref : OrderRef) (shares : Qty) :
    List Rec → Checked (Rec × List Rec)
  | [] => .error .undefined
  | r :: rest =>
      if r.ref = ref then
        let r := { r with qty := r.qty - shares }
        .ok (r, r :: rest)
      else do
        let (found, rest) ← subtract ref shares rest
        pure (found, r :: rest)

end NaiveBook

/-- The resting orders, the oldest first. -/
structure NaiveBook where
  orders : List NaiveBook.Rec := []
deriving DecidableEq, Repr

/-- What the oracle keeps of a resting order. -/
def Resting.record (order : Resting) : NaiveBook.Rec :=
  ⟨order.ref, order.side, order.price, order.qty⟩

namespace NaiveBook

/-! ## Mutations -/

/-- The order goes to the back of the vector. -/
def add (book : NaiveBook) (ref : OrderRef) (side : Side) (price : Price)
    (qty : Qty) : NaiveBook where
  orders := book.orders ++ [⟨ref, side, price, qty⟩]

/-- Drop whatever rests under a reference. -/
def erase (book : NaiveBook) (ref : OrderRef) : NaiveBook where
  orders := book.orders.filter fun r => decide (r.ref ≠ ref)

/-- An order is erased when nothing is left of it. -/
def cancel (book : NaiveBook) (ref : OrderRef) (shares : Qty) :
    Checked NaiveBook := do
  let (r, orders) ← subtract ref shares book.orders
  let book : NaiveBook := { orders }
  if r.qty = 0 then pure (book.erase ref) else pure book

def execute (book : NaiveBook) (ref : OrderRef) (shares : Qty) :
    Checked NaiveBook :=
  book.cancel ref shares

/-- Cancel all that the order holds. -/
def remove (book : NaiveBook) (ref : OrderRef) : Checked NaiveBook := do
  let r ← find ref book.orders
  book.cancel ref r.qty

/-- The new order takes over the side, and goes to the back. -/
def replace (book : NaiveBook) (oldRef newRef : OrderRef) (price : Price)
    (qty : Qty) : Checked NaiveBook := do
  let r ← find oldRef book.orders
  let book ← book.remove oldRef
  pure (book.add newRef r.side price qty)

/-- Perform one call; the owner of an order is not passed on. -/
def apply (book : NaiveBook) : Operation → Checked NaiveBook
  | .add ref side price qty _ => .ok (book.add ref side price qty)
  | .cancel ref shares => book.cancel ref shares
  | .execute ref shares => book.execute ref shares
  | .remove ref => book.remove ref
  | .replace oldRef newRef price qty => book.replace oldRef newRef price qty

/-- Calls one after another. -/
def run (book : NaiveBook) : List Operation → Checked NaiveBook
  | [] => .ok book
  | operation :: rest => do
      let book ← book.apply operation
      run book rest

/-! ## Queries -/

def isEmpty (book : NaiveBook) (s : Side) : Bool :=
  book.orders.all fun r => decide (r.side ≠ s)

/-- The body of the loop of `best`, over `best` and `any`. -/
def scan (s : Side) : Price × Bool → Rec → Price × Bool
  | (best, any), r =>
      if r.side ≠ s then (best, any)
      else if any = false ∨ Closer s r.price best then (r.price, true)
      else (best, any)

/-- What the loop ends with, if it has seen an order of the side. -/
def best (book : NaiveBook) (s : Side) : Price :=
  let (best, any) := book.orders.foldl (scan s) (kNoPrice, false)
  if any = true then best else kNoPrice

/-- The quantity at a price, added up in one loop. -/
def qtyAt (book : NaiveBook) (s : Side) (p : Price) : UInt64 :=
  book.orders.foldl (fun sum r =>
    if r.side = s ∧ r.price = p then sum + r.qty.toUInt64 else sum) 0

def ordersAt (book : NaiveBook) (s : Side) (p : Price) : UInt32 :=
  book.orders.foldl (fun n r =>
    if r.side = s ∧ r.price = p then n + 1 else n) 0

def orderCount (book : NaiveBook) : Nat := book.orders.length

def contains (book : NaiveBook) (ref : OrderRef) : Bool :=
  book.orders.any fun r => decide (r.ref = ref)

/-- The queries about one order go through the pointer of `find`. -/
def qtyOf (book : NaiveBook) (ref : OrderRef) : Checked Qty := do
  let r ← find ref book.orders
  pure r.qty

def sideOf (book : NaiveBook) (ref : OrderRef) : Checked Side := do
  let r ← find ref book.orders
  pure r.side

def priceOf (book : NaiveBook) (ref : OrderRef) : Checked Price := do
  let r ← find ref book.orders
  pure r.price

/-- The map `by_price`. -/
def byPrice (book : NaiveBook) (s : Side) :
    ExtTreeMap Price (List OrderRef) :=
  book.orders.foldl (fun byPrice r =>
    if r.side = s then Grouping.pushBack byPrice (r.price, r.ref)
    else byPrice) ∅

/-- The levels from the inside outwards, each with its queue. -/
def levels (book : NaiveBook) (s : Side) : List (Price × List OrderRef) :=
  let out := (book.byPrice s).toList
  match s with
  | .buy => out.reverse
  | .sell => out

def totalQty (book : NaiveBook) (s : Side) : UInt64 :=
  book.orders.foldl (fun sum r =>
    if r.side = s then sum + r.qty.toUInt64 else sum) 0

/-- The prices of the side are sorted, and equal neighbours dropped. -/
def levelCount (book : NaiveBook) (s : Side) : UInt32 :=
  let p := (book.orders.filter fun r => decide (r.side = s)).map Rec.price
  UInt32.ofNat ((p.insertionSort (· ≤ ·)).destutter (· ≠ ·)).length

end NaiveBook

/-! ## The oracle beside a list of arrivals -/

namespace NaiveBook

/-- The list of arrivals without the owners. -/
def ofArrivals (arrivals : ArrivalBook) : NaiveBook where
  orders := arrivals.orders.map Resting.record

/-- The shares are taken from the order, even when none are left. -/
def lessened (ref : OrderRef) (shares : Qty) (orders : List Resting) :
    List Resting :=
  orders.map fun order =>
    if order.ref = ref then { order with qty := order.qty - shares } else order

section Mutations

variable {orders : List Resting} {order : Resting}
  {arrivals next : ArrivalBook}

/-- The pointer leads to the order, the only one with its reference. -/
theorem find_records (distinct : (orders.map Resting.ref).Nodup)
    (member : order ∈ orders) :
    find order.ref (orders.map Resting.record) = .ok order.record := by
  induction orders with
  | nil => cases member
  | cons head tail induction =>
      rw [List.map_cons, List.nodup_cons] at distinct
      rw [List.map_cons, find]
      rcases List.mem_cons.mp member with rfl | inTail
      · exact if_pos rfl
      · have other : head.ref ≠ order.ref := fun same =>
          distinct.1 (same ▸ List.mem_map_of_mem inTail)
        rw [if_neg (show head.record.ref ≠ order.ref from other),
          induction distinct.2 inTail]

/-- Nothing is taken where the reference does not rest. -/
theorem lessened_of_absent {ref : OrderRef}
    (absent : ∀ order ∈ orders, order.ref ≠ ref) (shares : Qty) :
    lessened ref shares orders = orders := by
  refine (List.map_congr_left fun order member => ?_).trans (List.map_id _)
  exact if_neg (absent order member)

/-- The shares are taken where the pointer points. -/
theorem subtract_records (distinct : (orders.map Resting.ref).Nodup)
    (member : order ∈ orders) (shares : Qty) :
    subtract order.ref shares (orders.map Resting.record) =
      .ok ({ order.record with qty := order.qty - shares },
        (lessened order.ref shares orders).map Resting.record) := by
  induction orders with
  | nil => cases member
  | cons head tail induction =>
      rw [List.map_cons, List.nodup_cons] at distinct
      rw [List.map_cons, subtract, lessened, List.map_cons]
      rcases List.mem_cons.mp member with rfl | inTail
      · have elsewhere : ∀ other ∈ tail, other.ref ≠ order.ref :=
          fun other inTail same =>
            distinct.1 (same ▸ List.mem_map_of_mem inTail)
        have kept := lessened_of_absent elsewhere shares
        unfold lessened at kept
        rw [kept, if_pos rfl,
          if_pos (show order.record.ref = order.ref from rfl)]
        rfl
      · have other : head.ref ≠ order.ref := fun same =>
          distinct.1 (same ▸ List.mem_map_of_mem inTail)
        rw [if_neg other,
          if_neg (show head.record.ref ≠ order.ref from other),
          induction distinct.2 inTail]
        rfl

/-- An order which keeps some shares is reduced as in the list of arrivals. -/
theorem lessened_remaining (distinct : (orders.map Resting.ref).Nodup)
    (member : order ∈ orders) {shares : Qty}
    (remaining : order.qty ≠ shares) :
    lessened order.ref shares orders = reduceIn order.ref shares orders := by
  have inj := List.inj_on_of_nodup_map distinct
  unfold lessened reduceIn
  rw [← List.filterMap_eq_map]
  refine List.filterMap_congr fun other otherMember => ?_
  by_cases same : other.ref = order.ref
  · have equal := inj otherMember member same
    subst equal
    simp [Resting.lessAt, Resting.less, remaining]
  · simp [Resting.lessAt, same]

/-- The erasure drops the order, whatever was taken off it. -/
theorem erase_lessened (ref : OrderRef) (shares : Qty) :
    ((lessened ref shares orders).map Resting.record).filter
        (fun r => decide (r.ref ≠ ref)) =
      (orders.filter fun order => decide (order.ref ≠ ref)).map
        Resting.record := by
  induction orders with
  | nil => rfl
  | cons head tail induction =>
      unfold lessened at induction ⊢
      rw [List.map_cons, List.map_cons, List.filter_cons, List.filter_cons,
        induction]
      by_cases same : head.ref = ref
      · simp [same, Resting.record]
      · simp [same, Resting.record]

/-- A cancel is a reduction of the list of arrivals. -/
theorem cancel_ofArrivals (member : order ∈ arrivals.orders) (shares : Qty) :
    (ofArrivals arrivals).cancel order.ref shares =
      .ok (ofArrivals (arrivals.reduce order.ref shares)) := by
  have subtracted := subtract_records arrivals.distinct member shares
  rw [cancel, ofArrivals, subtracted, ok_bind]
  dsimp only
  by_cases exhausted : order.qty = shares
  · have none : order.qty - shares = 0 := by
      rw [exhausted, UInt32.sub_self]
    rw [if_pos none, erase, erase_lessened, ofArrivals,
      ArrivalBook.orders_reduce, ← exhausted,
      reduceIn_exhausted arrivals.distinct member]
    rfl
  · have some : order.qty - shares ≠ 0 := fun zero =>
      exhausted (by grind)
    rw [if_neg some, ofArrivals, ArrivalBook.orders_reduce,
      lessened_remaining arrivals.distinct member exhausted]
    rfl

/-- A removal takes everything off the order. -/
theorem remove_ofArrivals (member : order ∈ arrivals.orders) :
    (ofArrivals arrivals).remove order.ref =
      .ok (ofArrivals (arrivals.reduce order.ref order.qty)) := by
  have found : find order.ref (ofArrivals arrivals).orders =
      .ok order.record := find_records arrivals.distinct member
  rw [remove, found, ok_bind]
  exact cancel_ofArrivals member order.qty

/-- A new order goes to the back of the list of arrivals, too. -/
theorem add_ofArrivals {incoming : Resting}
    (inserted : arrivals.insert? incoming = some next) :
    (ofArrivals arrivals).add incoming.ref incoming.side incoming.price
      incoming.qty = ofArrivals next := by
  unfold ArrivalBook.insert? at inserted
  split_ifs at inserted with positive fresh
  cases inserted
  rw [add, ofArrivals, ofArrivals, ArrivalBook.add, List.map_append]
  rfl

/-- A reduction which the list of arrivals accepts. -/
theorem take_ofArrivals {ref : OrderRef} {shares : Qty}
    (taken : arrivals.take? ref shares = some next) :
    (ofArrivals arrivals).cancel ref shares = .ok (ofArrivals next) := by
  unfold ArrivalBook.take? at taken
  cases found : arrivals.find? ref with
  | none =>
      rw [found] at taken
      cases taken
  | some order =>
      obtain ⟨member, rfl⟩ := ArrivalBook.find?_eq_some_iff.mp found
      rw [found] at taken
      dsimp only at taken
      split_ifs at taken
      cases taken
      exact cancel_ofArrivals member shares

/-- What the list of arrivals accepts, the oracle carries out on it. -/
theorem apply_ofArrivals {operation : Operation}
    (accepted : arrivals.perform? operation = some next) :
    (ofArrivals arrivals).apply operation = .ok (ofArrivals next) := by
  cases operation with
  | add ref side price qty owner =>
      exact congrArg Except.ok (add_ofArrivals accepted)
  | cancel ref shares => exact take_ofArrivals accepted
  | execute ref shares => exact take_ofArrivals accepted
  | remove ref =>
      rw [ArrivalBook.perform?, ArrivalBook.remove?] at accepted
      cases found : arrivals.find? ref with
      | none =>
          rw [found] at accepted
          cases accepted
      | some order =>
          obtain ⟨member, rfl⟩ := ArrivalBook.find?_eq_some_iff.mp found
          rw [found] at accepted
          cases accepted
          exact remove_ofArrivals member
  | replace oldRef newRef price qty =>
      rw [ArrivalBook.perform?, ArrivalBook.replace?] at accepted
      cases found : arrivals.find? oldRef with
      | none =>
          rw [found] at accepted
          cases accepted
      | some old =>
          obtain ⟨member, rfl⟩ := ArrivalBook.find?_eq_some_iff.mp found
          rw [found] at accepted
          have pointed : find old.ref (ofArrivals arrivals).orders =
              .ok old.record := find_records arrivals.distinct member
          rw [apply, replace, pointed, ok_bind, remove_ofArrivals member,
            ok_bind]
          exact congrArg Except.ok (add_ofArrivals accepted)

/-- On every accepted run the oracle is the list of arrivals. -/
theorem run_ofArrivals {operations : List Operation}
    (accepted : arrivals.run? operations = some next) :
    (ofArrivals arrivals).run operations = .ok (ofArrivals next) := by
  induction operations generalizing arrivals with
  | nil =>
      cases accepted
      rfl
  | cons operation rest induction =>
      rw [ArrivalBook.run?_cons] at accepted
      obtain ⟨middle, performed, later⟩ := Option.bind_eq_some_iff.mp accepted
      rw [run, apply_ofArrivals performed, ok_bind]
      exact induction later

end Mutations

/-! ## The answers of its loops -/

section Queries

/-- A loop which passes over some of the orders. -/
theorem foldl_skipping {α : Type} (step : α → Rec → α) (keep : Rec → Prop)
    [DecidablePred keep] (start : α) (orders : List Rec) :
    orders.foldl (fun value r => if keep r then step value r else value)
        start =
      (orders.filter fun r => decide (keep r)).foldl step start := by
  rw [List.foldl_filter]
  simp only [decide_eq_true_eq]

theorem filter_records (keep : Rec → Prop) [DecidablePred keep]
    (orders : List Resting) :
    (orders.map Resting.record).filter (fun r => decide (keep r)) =
      (orders.filter fun order => decide (keep order.record)).map
        Resting.record :=
  List.filter_map

/-- A loop over quantities comes to their sum. -/
theorem foldl_qty (sum : UInt64) (orders : List Resting) :
    (orders.map Resting.record).foldl (fun sum r => sum + r.qty.toUInt64)
        sum = sum + wordQty orders := by
  induction orders generalizing sum with
  | nil => exact (UInt64.add_zero sum).symm
  | cons head tail induction =>
      rw [List.map_cons, List.foldl_cons, induction, wordQty_cons,
        UInt64.add_assoc]
      rfl

/-- A loop which counts comes to the length. -/
theorem foldl_count (n : UInt32) (orders : List Rec) :
    orders.foldl (fun n _ => n + 1) n =
      n + UInt32.ofNat orders.length := by
  induction orders generalizing n with
  | nil => exact (UInt32.add_zero n).symm
  | cons head tail induction =>
      rw [List.foldl_cons, induction, List.length_cons, UInt32.ofNat_add,
        UInt32.add_assoc, UInt32.add_comm 1]
      rfl

/-- What `scan` knows of the orders which it has seen. -/
def Scanned (s : Side) (seen : List Rec) (state : Price × Bool) : Prop :=
  if state.2 = true then
    (∃ r ∈ seen, r.side = s ∧ r.price = state.1) ∧
      ∀ r ∈ seen, r.side = s → ¬ Closer s r.price state.1
  else ∀ r ∈ seen, r.side ≠ s

/-- One turn of the loop of `best`. -/
theorem Scanned.scan {s : Side} {seen : List Rec} {state : Price × Bool}
    (scanned : Scanned s seen state) (r : Rec) :
    Scanned s (seen ++ [r]) (scan s state r) := by
  obtain ⟨best, any⟩ := state
  unfold NaiveBook.scan
  dsimp only
  by_cases elsewhere : r.side ≠ s
  · rw [if_pos elsewhere]
    cases any with
    | false =>
        intro other member
        rcases List.mem_append.mp member with before | last
        · exact scanned other before
        · rw [List.mem_singleton.mp last]
          exact elsewhere
    | true =>
        obtain ⟨⟨held, member, side, price⟩, first⟩ := scanned
        refine ⟨⟨held, List.mem_append_left _ member, side, price⟩, ?_⟩
        intro other inside onSide
        rcases List.mem_append.mp inside with before | last
        · exact first other before onSide
        · rw [List.mem_singleton.mp last] at onSide
          exact absurd onSide elsewhere
  · rw [if_neg elsewhere]
    have onSide : r.side = s := not_not.mp elsewhere
    by_cases takes : any = false ∨ Closer s r.price best
    · rw [if_pos takes]
      refine ⟨⟨r, by simp, onSide, rfl⟩, ?_⟩
      intro other inside otherSide closer
      rcases List.mem_append.mp inside with before | last
      · cases any with
        | false => exact scanned other before otherSide
        | true =>
            have improves := takes.resolve_left (by simp)
            exact scanned.2 other before otherSide (closer.trans improves)
      · rw [List.mem_singleton.mp last] at closer
        exact Closer.irrefl s _ closer
    · rw [if_neg takes]
      obtain ⟨notFirst, notCloser⟩ := not_or.mp takes
      cases any with
      | false => exact absurd rfl notFirst
      | true =>
          obtain ⟨⟨held, member, side, price⟩, first⟩ := scanned
          refine ⟨⟨held, List.mem_append_left _ member, side, price⟩, ?_⟩
          intro other inside otherSide
          rcases List.mem_append.mp inside with before | last
          · exact first other before otherSide
          · rw [List.mem_singleton.mp last]
            exact notCloser

theorem scanned_foldl (s : Side) (orders : List Rec) :
    Scanned s orders (orders.foldl (scan s) (kNoPrice, false)) := by
  induction orders using List.reverseRecOn with
  | nil => exact fun _ member => absurd member List.not_mem_nil
  | append_singleton before last induction =>
      rw [List.foldl_append]
      exact induction.scan last

variable (arrivals : ArrivalBook) (side : Side)

theorem isEmpty_ofArrivals :
    (ofArrivals arrivals).isEmpty side = arrivals.isEmpty side := by
  rw [Bool.eq_iff_iff, isEmpty, ArrivalBook.isEmpty, List.isEmpty_iff,
    ArrivalBook.onSide, List.filter_eq_nil_iff, ofArrivals, List.all_map,
    List.all_eq_true]
  constructor
  · intro none order member onSide
    exact of_decide_eq_true (none order member) (of_decide_eq_true onSide)
  · intro none order member
    exact decide_eq_true fun onSide =>
      none order member (decide_eq_true onSide)

/-- The loop of `best` ends with the best price of the list of arrivals. -/
theorem best_ofArrivals :
    (ofArrivals arrivals).best side = arrivals.best side := by
  have scanned := scanned_foldl side (ofArrivals arrivals).orders
  unfold best
  generalize (ofArrivals arrivals).orders.foldl (scan side)
    (kNoPrice, false) = state at scanned
  obtain ⟨best, any⟩ := state
  cases any with
  | false =>
      have none : arrivals.isEmpty side = true := by
        rw [← isEmpty_ofArrivals, isEmpty, List.all_eq_true]
        exact fun r member => decide_eq_true (scanned r member)
      rw [ArrivalBook.isEmpty_eq_prices_isEmpty, List.isEmpty_iff] at none
      rw [ArrivalBook.best, none]
      rfl
  | true =>
      obtain ⟨⟨r, inside, onSide, rfl⟩, first⟩ := scanned
      obtain ⟨order, member, rfl⟩ := List.mem_map.mp inside
      have priced : order.price ∈ arrivals.prices side :=
        ArrivalBook.mem_prices.mpr ⟨order, member, onSide, rfl⟩
      have nonempty : arrivals.isEmpty side = false := by
        rw [ArrivalBook.isEmpty_eq_prices_isEmpty]
        exact List.isEmpty_eq_false_iff.mpr (List.ne_nil_of_mem priced)
      obtain ⟨other, otherMember, otherSide, otherPrice⟩ :=
        ArrivalBook.mem_prices.mp (ArrivalBook.best_mem_prices nonempty)
      have notCloser := first other.record (List.mem_map_of_mem otherMember)
        otherSide
      rcases Closer.trichotomy side order.price (arrivals.best side) with
        closer | equal | closer
      · exact absurd closer (ArrivalBook.not_closer_best priced)
      · exact equal
      · rw [← otherPrice] at closer
        exact absurd closer notCloser

theorem qtyAt_ofArrivals (price : Price) :
    (ofArrivals arrivals).qtyAt side price = arrivals.qtyAt side price := by
  rw [qtyAt, foldl_skipping, ofArrivals, filter_records, foldl_qty,
    UInt64.zero_add]
  rfl

theorem ordersAt_ofArrivals (price : Price) :
    (ofArrivals arrivals).ordersAt side price =
      arrivals.ordersAt side price := by
  rw [ordersAt, foldl_skipping (fun n _ => n + 1), ofArrivals, filter_records,
    foldl_count, UInt32.zero_add, List.length_map]
  rfl

theorem totalQty_ofArrivals :
    (ofArrivals arrivals).totalQty side = wordQty (arrivals.onSide side) := by
  rw [totalQty, foldl_skipping, ofArrivals, filter_records, foldl_qty,
    UInt64.zero_add]
  rfl

theorem orderCount_ofArrivals :
    (ofArrivals arrivals).orderCount = arrivals.orders.length :=
  List.length_map _

/-- Sorting and dropping equal neighbours leaves every price once. -/
theorem levelCount_ofArrivals :
    (ofArrivals arrivals).levelCount side =
      UInt32.ofNat (arrivals.prices side).length := by
  have onSide : ((ofArrivals arrivals).orders.filter
        fun r => decide (r.side = side)).map Rec.price =
      (arrivals.onSide side).map Resting.price := by
    rw [ofArrivals, filter_records, List.map_map]
    rfl
  have sorted := List.pairwise_insertionSort (· ≤ ·)
    ((arrivals.onSide side).map Resting.price)
  have perm := List.perm_insertionSort (· ≤ ·)
    ((arrivals.onSide side).map Resting.price)
  rw [levelCount, onSide, sorted.destutter_eq_dedup, perm.dedup.length_eq,
    ArrivalBook.prices, List.length_insertionSort]

theorem byPrice_ofArrivals :
    (ofArrivals arrivals).byPrice side =
      Grouping.group ((arrivals.onSide side).map fun order =>
        (order.price, order.ref)) := by
  rw [byPrice, foldl_skipping (fun byPrice r =>
    Grouping.pushBack byPrice (r.price, r.ref)), ofArrivals, filter_records,
    List.foldl_map, Grouping.group, List.foldl_map]
  rfl

/-- What is grouped under a price is the queue of its level. -/
theorem withKey_onSide (price : Price) :
    Grouping.withKey price ((arrivals.onSide side).map fun order =>
        (order.price, order.ref)) =
      (arrivals.level side price).map Resting.ref := by
  rw [Grouping.withKey, List.filter_map, List.map_map, ArrivalBook.onSide,
    List.filter_filter, ArrivalBook.level]
  congr 1
  refine List.filter_congr fun order _ => ?_
  rw [Bool.eq_iff_iff, Bool.and_eq_true, decide_eq_true_iff,
    decide_eq_true_iff]
  exact (and_congr_left' decide_eq_true_iff).trans and_comm

/-- The keys of the map are the prices of the side. -/
theorem mem_keys_byPrice (price : Price) :
    price ∈ ((ofArrivals arrivals).byPrice side).toList.map Prod.fst ↔
      ∃ order ∈ arrivals.orders, order.side = side ∧ order.price = price := by
  rw [byPrice_ofArrivals, Grouping.mem_keys_group, List.map_map,
    ← ArrivalBook.mem_prices, ArrivalBook.prices, List.mem_insertionSort,
    List.mem_dedup]
  rfl

/-- The reversal for bids puts the inside of either side first. -/
theorem keys_levels :
    ((ofArrivals arrivals).levels side).map Prod.fst =
      arrivals.prices side := by
  have ascending : (((ofArrivals arrivals).byPrice side).toList.map
      Prod.fst).Pairwise (· < ·) := by
    rw [List.pairwise_map]
    exact ExtTreeMap.ordered_keys_toList.imp fun ordered =>
      Std.compare_eq_lt.mp ordered
  have members := mem_keys_byPrice arrivals side
  apply ArrivalBook.prices_eq_of_pairwise
  · cases side with
    | buy =>
        rw [levels, List.map_reverse, List.pairwise_reverse]
        exact ascending
    | sell => exact ascending
  · intro price
    rw [← members]
    cases side with
    | buy => rw [levels, List.map_reverse, List.mem_reverse]
    | sell => rfl

/-- The loop groups the orders of a side as the list of arrivals does. -/
theorem levels_ofArrivals :
    (ofArrivals arrivals).levels side =
      (arrivals.prices side).map fun price =>
        (price, (arrivals.level side price).map Resting.ref) := by
  have grouped := @Grouping.toList_group _ _ compare _ _ _
    ((arrivals.onSide side).map fun order => (order.price, order.ref))
  rw [← byPrice_ofArrivals] at grouped
  simp only [withKey_onSide] at grouped
  rw [← keys_levels]
  cases side with
  | buy =>
      rw [levels, List.map_reverse, List.map_reverse]
      exact congrArg List.reverse grouped
  | sell => exact grouped

theorem contains_ofArrivals (ref : OrderRef) :
    (ofArrivals arrivals).contains ref = (arrivals.find? ref).isSome := by
  rw [contains, ofArrivals, List.any_map, ArrivalBook.find?,
    Bool.eq_iff_iff, List.find?_isSome, List.any_eq_true]
  rfl

variable {arrivals} {order : Resting} (member : order ∈ arrivals.orders)

include member

theorem qtyOf_ofArrivals :
    (ofArrivals arrivals).qtyOf order.ref = .ok order.qty := by
  rw [qtyOf, ofArrivals, find_records arrivals.distinct member]
  rfl

theorem sideOf_ofArrivals :
    (ofArrivals arrivals).sideOf order.ref = .ok order.side := by
  rw [sideOf, ofArrivals, find_records arrivals.distinct member]
  rfl

theorem priceOf_ofArrivals :
    (ofArrivals arrivals).priceOf order.ref = .ok order.price := by
  rw [priceOf, ofArrivals, find_records arrivals.distinct member]
  rfl

end Queries

end NaiveBook

end ItchExchange.Book
