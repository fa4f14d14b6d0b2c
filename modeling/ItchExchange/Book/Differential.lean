import ItchExchange.Book.BookDigest
import ItchExchange.Book.CentralPrices
import ItchExchange.Book.MapBookValidate
import ItchExchange.Book.NaiveBook
import ItchExchange.Library.Simulation

/-!
# The differential test of the books

`test_flat_book.cpp` drives a pooled book, the reference book and the oracle
with the same calls and compares them, and `test_map_book.cpp` compares the
reference book with the oracle.  A comparison which fails ends the test, and so
does an assertion of a book.  The comparisons accept exactly the books which
answer like the list of arrivals, and the test of every run passes.
-/

namespace ItchExchange.Book

open ItchExchange.Core Simulation

/-- Why a test ends. -/
inductive Stopped where
  | required
  | failed (failure : Failure)
deriving DecidableEq, Repr

abbrev Tested := Except Stopped

/-- A call of the code under test. -/
def tested {α : Type} (result : Checked α) : Tested α :=
  result.mapError .failed

/-- `ITCH_REQUIRE_EQ`. -/
def requireEq {α : Type} [DecidableEq α] (first second : α) : Tested Unit :=
  if first = second then .ok () else .error .required

/-- `ITCH_REQUIRE_EQ` under an `if`. -/
def requireEqIf {α : Type} [DecidableEq α] (condition : Prop)
    [Decidable condition] (first second : α) : Tested Unit :=
  if condition then requireEq first second else .ok ()

namespace Differential

/-! ## The comparisons -/

/-- The loop over `j`, behind the comparison of the sizes. -/
def requireQueue (first second : List OrderRef) : Tested Unit := do
  requireEq first.length second.length
  (first.zip second).forM fun (r, q) => requireEq r q

/-- The loop over `i`, with what is compared at a price further on. -/
def requireLevels (further : Price → Tested Unit)
    (la lb : List (Price × List OrderRef)) : Tested Unit := do
  requireEq la.length lb.length
  (la.zip lb).forM fun (x, y) => do
    requireEq x.1 y.1
    requireQueue x.2 y.2
    further x.1

section Comparisons

variable {B C : Type} [OrderBook B] [OrderBook C]

/-- Levels from the inside out, each with its queue in order. -/
def layout (book : B) (s : Side) : Tested (List (Price × List OrderRef)) := do
  let visits ← tested (OrderBook.forEachLevel book s)
  pure (visits.map fun visit => (visit.price, visit.refs))

/-- The body of the loop over the sides in `same`. -/
def sameSide (x : B) (y : C) (s : Side) : Tested Unit := do
  requireEq (OrderBook.isEmpty x s) (OrderBook.isEmpty y s)
  requireEqIf (OrderBook.isEmpty x s = false) (OrderBook.best x s)
    (OrderBook.best y s)
  requireEq ((OrderBook.stats x).totalQty.get s)
    ((OrderBook.stats y).totalQty.get s)
  requireEq ((OrderBook.stats x).levelCount.get s)
    ((OrderBook.stats y).levelCount.get s)
  let la ← layout x s
  let lb ← layout y s
  requireLevels (fun p => do
    let qty ← tested (OrderBook.qtyAt x s p)
    let qty' ← tested (OrderBook.qtyAt y s p)
    requireEq qty qty'
    let orders ← tested (OrderBook.ordersAt x s p)
    let orders' ← tested (OrderBook.ordersAt y s p)
    requireEq orders orders') la lb

def same (x : B) (y : C) : Tested Unit := do
  requireEq (OrderBook.orderCount x) (OrderBook.orderCount y)
  sameSide x y .buy
  sameSide x y .sell
  let digest ← tested (bookDigest x)
  let digest' ← tested (bookDigest y)
  requireEq digest digest'

/-- The body of the loop over the sides in `against_naive`. -/
def againstNaiveSide (b : B) (n : NaiveBook) (s : Side) : Tested Unit := do
  requireEq (OrderBook.isEmpty b s) (n.isEmpty s)
  requireEqIf (OrderBook.isEmpty b s = false) (OrderBook.best b s) (n.best s)
  requireEq ((OrderBook.stats b).totalQty.get s) (n.totalQty s)
  requireEq ((OrderBook.stats b).levelCount.get s) (n.levelCount s)
  let la ← layout b s
  requireLevels (fun _ => .ok ()) la (n.levels s)

def againstNaive (b : B) (n : NaiveBook) : Tested Unit := do
  requireEq (OrderBook.orderCount b) n.orderCount
  againstNaiveSide b n .buy
  againstNaiveSide b n .sell

end Comparisons

/-- The body of the loop over the sides in `compare`. -/
def compareSide (fast : MapBook) (slow : NaiveBook) (s : Side) :
    Tested Unit := do
  requireEq (fast.isEmpty s) (slow.isEmpty s)
  requireEq (fast.best s) (slow.best s)
  requireEq (fast.stats.totalQty.get s) (slow.totalQty s)
  requireEq (fast.stats.levelCount.get s) (slow.levelCount s)
  let got ← layout fast s
  requireLevels (fun p => do
    requireEq (fast.qtyAt s p) (slow.qtyAt s p)
    requireEq (fast.ordersAt s p) (slow.ordersAt s p)) got (slow.levels s)

def compare (fast : MapBook) (slow : NaiveBook) : Tested Unit := do
  requireEq fast.orderCount slow.orderCount
  compareSide fast slow .buy
  compareSide fast slow .sell
  tested fast.validate

/-! ## Driving the books -/

/-- The books of `random_differential`. -/
structure Books (B : Type) where
  fast : B
  ref : MapBook := {}
  slow : NaiveBook := {}

namespace Books

variable {B : Type} [OrderBook B] [ValidatedBook B]

/-- One call, on all of them. -/
def apply (books : Books B) (operation : Operation) : Tested (Books B) := do
  let fast ← tested (OrderBook.apply books.fast operation)
  let ref ← tested (OrderBook.apply books.ref operation)
  let slow ← tested (books.slow.apply operation)
  pure { fast, ref, slow }

/-- The comparisons behind a step. -/
def checkpoint (books : Books B) : Tested Unit := do
  same books.fast books.ref
  againstNaive books.fast books.slow
  tested (ValidatedBook.validate books.fast)
  tested (ValidatedBook.validate books.ref)

/-- A run, with the comparisons behind every step. -/
def drive (books : Books B) : List Operation → Tested (Books B)
  | [] => .ok books
  | operation :: rest => do
      let books ← books.apply operation
      books.checkpoint
      drive books rest

end Books

/-! ## What the comparisons accept -/

section Accepts

theorem requireEq_eq_ok_iff {α : Type} [DecidableEq α] {first second : α} :
    requireEq first second = .ok () ↔ first = second := by
  unfold requireEq
  split_ifs with equal
  · exact iff_of_true rfl equal
  · exact iff_of_false (by intro returned; cases returned) equal

theorem tested_eq_ok_iff {α : Type} {result : Checked α} {value : α} :
    tested result = .ok value ↔ result = .ok value := by
  cases result with
  | error failure =>
      exact iff_of_false (by intro returned; cases returned)
        (by intro returned; cases returned)
  | ok other =>
      constructor
      · intro returned
        cases returned
        rfl
      · intro returned
        cases returned
        rfl

theorem seq_eq_ok_iff {first second : Tested Unit} :
    (first >>= fun _ => second) = .ok () ↔
      first = .ok () ∧ second = .ok () := by
  rw [bind_eq_ok]
  exact ⟨fun ⟨_, ran, rest⟩ => ⟨ran, rest⟩, fun ⟨ran, rest⟩ => ⟨(), ran, rest⟩⟩

theorem requireEqIf_eq_ok_iff {α : Type} [DecidableEq α] {condition : Prop}
    [Decidable condition] {first second : α} :
    requireEqIf condition first second = .ok () ↔
      (condition → first = second) := by
  unfold requireEqIf
  split_ifs with holds
  · exact requireEq_eq_ok_iff.trans
      ⟨fun equal _ => equal, fun equal => equal holds⟩
  · exact iff_of_true rfl fun absent => absurd absent holds

theorem forM_eq_ok_iff {α : Type} {items : List α} {body : α → Tested Unit} :
    items.forM body = .ok () ↔ ∀ item ∈ items, body item = .ok () := by
  induction items with
  | nil => exact iff_of_true rfl fun _ member => absurd member List.not_mem_nil
  | cons item rest induction =>
      rw [List.forall_mem_cons, ← induction]
      exact seq_eq_ok_iff

/-- Lists of one length are the same where they agree place by place. -/
theorem zip_eq_iff {α : Type} {first second : List α} :
    (first.length = second.length ∧
      ∀ pair ∈ first.zip second, pair.1 = pair.2) ↔ first = second := by
  induction first generalizing second with
  | nil => cases second <;> simp
  | cons head tail induction =>
      cases second with
      | nil => simp
      | cons other rest =>
          rw [List.zip_cons_cons, List.forall_mem_cons, List.length_cons,
            List.length_cons, Nat.add_right_cancel_iff, and_left_comm,
            induction, List.cons.injEq]

theorem requireQueue_eq_ok_iff {first second : List OrderRef} :
    requireQueue first second = .ok () ↔ first = second := by
  rw [← zip_eq_iff, requireQueue, seq_eq_ok_iff, requireEq_eq_ok_iff,
    forM_eq_ok_iff]
  simp only [requireEq_eq_ok_iff]

theorem requireLevels_eq_ok_iff {further : Price → Tested Unit}
    {la lb : List (Price × List OrderRef)} :
    requireLevels further la lb = .ok () ↔
      la = lb ∧ ∀ level ∈ la, further level.1 = .ok () := by
  have each : ∀ pair : (Price × List OrderRef) × (Price × List OrderRef),
      (do requireEq pair.1.1 pair.2.1
          requireQueue pair.1.2 pair.2.2
          further pair.1.1 : Tested Unit) = .ok () ↔
        pair.1 = pair.2 ∧ further pair.1.1 = .ok () := by
    intro pair
    rw [seq_eq_ok_iff, seq_eq_ok_iff, requireEq_eq_ok_iff,
      requireQueue_eq_ok_iff, ← and_assoc, ← Prod.ext_iff]
  rw [requireLevels, seq_eq_ok_iff, requireEq_eq_ok_iff, forM_eq_ok_iff]
  constructor
  · rintro ⟨lengths, bodies⟩
    have equal : la = lb := zip_eq_iff.mp
      ⟨lengths, fun pair member => ((each pair).mp (bodies pair member)).1⟩
    subst equal
    refine ⟨rfl, fun level member => ?_⟩
    obtain ⟨index, inside, rfl⟩ := List.getElem_of_mem member
    have paired : (la[index], la[index]) ∈ la.zip la :=
      List.mem_iff_getElem.mpr ⟨index, by simpa using inside, by simp⟩
    exact ((each _).mp (bodies _ paired)).2
  · rintro ⟨rfl, all⟩
    refine ⟨rfl, fun pair member => (each pair).mpr ?_⟩
    have equal := (zip_eq_iff.mpr rfl).2 pair member
    exact ⟨equal, all _ (List.of_mem_zip member).1⟩

/-- What `against_naive` compares, as the list of arrivals has it. -/
structure AnswersAlike {B : Type} [OrderBook B] (book : B)
    (arrivals : ArrivalBook) : Prop where
  orderCount : OrderBook.orderCount book = arrivals.orders.length
  isEmpty : ∀ side, OrderBook.isEmpty book side = arrivals.isEmpty side
  best : ∀ side, arrivals.isEmpty side = false →
    OrderBook.best book side = arrivals.best side
  totalQty : ∀ side, (OrderBook.stats book).totalQty.get side =
    wordQty (arrivals.onSide side)
  levelCount : ∀ side, (OrderBook.stats book).levelCount.get side =
    UInt32.ofNat (arrivals.prices side).length
  layout : ∀ side, Differential.layout book side =
    .ok ((arrivals.prices side).map fun price =>
      (price, (arrivals.level side price).map Resting.ref))

variable {B C : Type} [OrderBook B] [OrderBook C] {book : B} {other : C}
  {arrivals : ArrivalBook}

theorem againstNaiveSide_eq_ok_iff {side : Side} :
    againstNaiveSide book (NaiveBook.ofArrivals arrivals) side = .ok () ↔
      OrderBook.isEmpty book side = arrivals.isEmpty side ∧
        (arrivals.isEmpty side = false →
          OrderBook.best book side = arrivals.best side) ∧
        (OrderBook.stats book).totalQty.get side =
          wordQty (arrivals.onSide side) ∧
        (OrderBook.stats book).levelCount.get side =
          UInt32.ofNat (arrivals.prices side).length ∧
        layout book side =
          .ok ((arrivals.prices side).map fun price =>
            (price, (arrivals.level side price).map Resting.ref)) := by
  have walked : ∀ levels : List (Price × List OrderRef),
      (layout book side >>= fun la =>
          requireLevels (fun _ => .ok ()) la levels) = .ok () ↔
        layout book side = .ok levels := by
    intro levels
    rw [bind_eq_ok]
    constructor
    · rintro ⟨la, laid, equal⟩
      rw [laid, (requireLevels_eq_ok_iff.mp equal).1]
    · intro laid
      exact ⟨levels, laid, requireLevels_eq_ok_iff.mpr
        ⟨rfl, fun _ _ => rfl⟩⟩
  rw [againstNaiveSide, seq_eq_ok_iff, seq_eq_ok_iff, seq_eq_ok_iff,
    seq_eq_ok_iff, walked, requireEqIf_eq_ok_iff, NaiveBook.isEmpty_ofArrivals,
    NaiveBook.best_ofArrivals, NaiveBook.totalQty_ofArrivals,
    NaiveBook.levelCount_ofArrivals, NaiveBook.levels_ofArrivals]
  simp only [requireEq_eq_ok_iff]
  constructor
  · rintro ⟨empty, best, rest⟩
    exact ⟨empty, fun occupied => best (empty.trans occupied), rest⟩
  · rintro ⟨empty, best, rest⟩
    exact ⟨empty, fun occupied => best (empty.symm.trans occupied), rest⟩

/-- The oracle accepts exactly the books which answer like the list. -/
theorem againstNaive_eq_ok_iff :
    againstNaive book (NaiveBook.ofArrivals arrivals) = .ok () ↔
      AnswersAlike book arrivals := by
  rw [againstNaive, seq_eq_ok_iff, seq_eq_ok_iff, requireEq_eq_ok_iff,
    againstNaiveSide_eq_ok_iff, againstNaiveSide_eq_ok_iff,
    NaiveBook.orderCount_ofArrivals]
  constructor
  · rintro ⟨count, ⟨empty, best, total, levels, laid⟩,
      ⟨empty', best', total', levels', laid'⟩⟩
    exact
      { orderCount := count
        isEmpty := by rintro (_ | _) <;> assumption
        best := by rintro (_ | _) <;> assumption
        totalQty := by rintro (_ | _) <;> assumption
        levelCount := by rintro (_ | _) <;> assumption
        layout := by rintro (_ | _) <;> assumption }
  · intro alike
    exact ⟨alike.orderCount,
      ⟨alike.isEmpty _, alike.best _, alike.totalQty _, alike.levelCount _,
        alike.layout _⟩,
      ⟨alike.isEmpty _, alike.best _, alike.totalQty _, alike.levelCount _,
        alike.layout _⟩⟩

theorem stats_totalQty (arrivals : ArrivalBook) (side : Side) :
    arrivals.stats.totalQty.get side = wordQty (arrivals.onSide side) := by
  cases side <;> rfl

theorem stats_levelCount (arrivals : ArrivalBook) (side : Side) :
    arrivals.stats.levelCount.get side =
      UInt32.ofNat (arrivals.prices side).length := by
  cases side <;> rfl

theorem layout_of_answers (answers : Answers book arrivals) (side : Side) :
    layout book side =
      .ok ((arrivals.prices side).map fun price =>
        (price, (arrivals.level side price).map Resting.ref)) := by
  rw [layout, answers.forEachLevel]
  change Except.ok (List.map _ (arrivals.visits side)) = _
  rw [ArrivalBook.visits, List.map_map]
  rfl

theorem AnswersAlike.of_answers (answers : Answers book arrivals) :
    AnswersAlike book arrivals where
  orderCount := answers.orderCount
  isEmpty := answers.isEmpty
  best := fun side _ => answers.best side
  totalQty := fun side => by rw [answers.stats, stats_totalQty]
  levelCount := fun side => by rw [answers.stats, stats_levelCount]
  layout := layout_of_answers answers

theorem sameSide_of_answers (answers : Answers book arrivals)
    (answers' : Answers other arrivals) (side : Side) :
    sameSide book other side = .ok () := by
  rw [sameSide, seq_eq_ok_iff, seq_eq_ok_iff, seq_eq_ok_iff, seq_eq_ok_iff,
    requireEq_eq_ok_iff, requireEqIf_eq_ok_iff, requireEq_eq_ok_iff,
    requireEq_eq_ok_iff, answers.isEmpty,
    answers'.isEmpty, answers.best, answers'.best, answers.stats,
    answers'.stats, layout_of_answers answers, layout_of_answers answers']
  refine ⟨rfl, fun _ => rfl, rfl, rfl, bind_eq_ok.mpr ⟨_, rfl,
    bind_eq_ok.mpr ⟨_, rfl, requireLevels_eq_ok_iff.mpr
      ⟨rfl, fun level _ => ?_⟩⟩⟩⟩
  rw [answers.qtyAt, answers'.qtyAt, answers.ordersAt, answers'.ordersAt]
  change (requireEq _ _ >>= fun _ => requireEq _ _) = _
  rw [seq_eq_ok_iff, requireEq_eq_ok_iff, requireEq_eq_ok_iff]
  exact ⟨rfl, rfl⟩

/-- Books which answer like one list pass the comparison with each other. -/
theorem same_of_answers (answers : Answers book arrivals)
    (answers' : Answers other arrivals) : same book other = .ok () := by
  have fed : ∃ digest, bookDigest other = .ok digest := by
    rw [bookDigest, bookFed, answers'.forEachLevel, answers'.forEachLevel]
    exact ⟨_, rfl⟩
  obtain ⟨digest, computed⟩ := fed
  have alike : bookDigest book = bookDigest other :=
    bookDigest_congr (answers.agree answers').forEachLevel
  rw [same, seq_eq_ok_iff, seq_eq_ok_iff, seq_eq_ok_iff, requireEq_eq_ok_iff,
    answers.orderCount, answers'.orderCount, alike, computed]
  exact ⟨rfl, sameSide_of_answers answers answers' _,
    sameSide_of_answers answers answers' _,
    requireEq_eq_ok_iff.mpr rfl⟩

end Accepts

/-! ## The reference book against the oracle -/

section Reference

variable {map : MapBook} {arrivals : ArrivalBook}

theorem compareSide_of_represents (represents : MapBook.Represents map arrivals)
    (side : Side) :
    compareSide map (NaiveBook.ofArrivals arrivals) side = .ok () := by
  have answers := represents.answers
  have isEmpty : map.isEmpty side = arrivals.isEmpty side :=
    answers.isEmpty side
  have best : map.best side = arrivals.best side := answers.best side
  have stats : map.stats = arrivals.stats := answers.stats
  have qtyAt : ∀ price, map.qtyAt side price = arrivals.qtyAt side price :=
    fun price => Except.ok.inj (answers.qtyAt side price)
  have ordersAt : ∀ price,
      map.ordersAt side price = arrivals.ordersAt side price :=
    fun price => Except.ok.inj (answers.ordersAt side price)
  rw [compareSide, seq_eq_ok_iff, seq_eq_ok_iff, seq_eq_ok_iff, seq_eq_ok_iff,
    requireEq_eq_ok_iff, requireEq_eq_ok_iff, requireEq_eq_ok_iff,
    requireEq_eq_ok_iff, isEmpty, best, stats, stats_totalQty,
    stats_levelCount, NaiveBook.isEmpty_ofArrivals, NaiveBook.best_ofArrivals,
    NaiveBook.totalQty_ofArrivals, NaiveBook.levelCount_ofArrivals,
    layout_of_answers answers, NaiveBook.levels_ofArrivals]
  refine ⟨rfl, rfl, rfl, rfl, bind_eq_ok.mpr ⟨_, rfl,
    requireLevels_eq_ok_iff.mpr ⟨rfl, fun level _ => ?_⟩⟩⟩
  rw [seq_eq_ok_iff, requireEq_eq_ok_iff, requireEq_eq_ok_iff, qtyAt,
    ordersAt, NaiveBook.qtyAt_ofArrivals, NaiveBook.ordersAt_ofArrivals]
  exact ⟨rfl, rfl⟩

theorem compare_of_represents (represents : MapBook.Represents map arrivals)
    (small : arrivals.orders.length < 2 ^ 32) :
    compare map (NaiveBook.ofArrivals arrivals) = .ok () := by
  have count : map.orderCount = arrivals.orders.length :=
    represents.answers.orderCount
  rw [compare, seq_eq_ok_iff, seq_eq_ok_iff, seq_eq_ok_iff,
    requireEq_eq_ok_iff, count, NaiveBook.orderCount_ofArrivals,
    represents.validate small]
  exact ⟨rfl, compareSide_of_represents represents _,
    compareSide_of_represents represents _, rfl⟩

/-- A book which the oracle cannot tell from the reference book. -/
structure LooksLike {B : Type} [OrderBook B] (book : B) (map : MapBook) :
    Prop where
  orderCount : OrderBook.orderCount book = map.orderCount
  isEmpty : ∀ side, OrderBook.isEmpty book side = map.isEmpty side
  best : ∀ side, map.isEmpty side = false →
    OrderBook.best book side = map.best side
  totalQty : ∀ side, (OrderBook.stats book).totalQty.get side =
    map.stats.totalQty.get side
  levelCount : ∀ side, (OrderBook.stats book).levelCount.get side =
    map.stats.levelCount.get side
  queues : ∀ side, ∃ visits,
    OrderBook.forEachLevel book side = .ok visits ∧
      visits.map (fun visit => (visit.price, visit.refs)) =
        (map.forEachLevel side).map fun visit => (visit.price, visit.refs)

theorem answersAlike_iff_looksLike
    (represents : MapBook.Represents map arrivals) {B : Type} [OrderBook B]
    {book : B} : AnswersAlike book arrivals ↔ LooksLike book map := by
  have answers := represents.answers
  have isEmpty : ∀ side, map.isEmpty side = arrivals.isEmpty side :=
    answers.isEmpty
  have best : ∀ side, map.best side = arrivals.best side := answers.best
  have stats : map.stats = arrivals.stats := answers.stats
  have count : map.orderCount = arrivals.orders.length := answers.orderCount
  have levels : ∀ side,
      (map.forEachLevel side).map (fun visit => (visit.price, visit.refs)) =
        (arrivals.prices side).map fun price =>
          (price, (arrivals.level side price).map Resting.ref) :=
    fun side => Except.ok.inj (layout_of_answers answers side)
  have laid : ∀ side, layout book side =
        .ok ((arrivals.prices side).map fun price =>
          (price, (arrivals.level side price).map Resting.ref)) ↔
      ∃ visits, OrderBook.forEachLevel book side = .ok visits ∧
        visits.map (fun visit => (visit.price, visit.refs)) =
          (map.forEachLevel side).map fun visit =>
            (visit.price, visit.refs) := by
    intro side
    rw [layout, bind_eq_ok, levels]
    simp only [tested_eq_ok_iff]
    exact exists_congr fun visits => and_congr_right fun _ =>
      ⟨fun equal => Except.ok.inj equal, fun equal => congrArg _ equal⟩
  constructor
  · intro alike
    exact
      { orderCount := alike.orderCount.trans count.symm
        isEmpty := fun side => (alike.isEmpty side).trans (isEmpty side).symm
        best := fun side occupied =>
          (alike.best side ((isEmpty side).symm.trans occupied)).trans
            (best side).symm
        totalQty := fun side => by
          rw [alike.totalQty, stats, stats_totalQty]
        levelCount := fun side => by
          rw [alike.levelCount, stats, stats_levelCount]
        queues := fun side => (laid side).mp (alike.layout side) }
  · intro looks
    exact
      { orderCount := looks.orderCount.trans count
        isEmpty := fun side => (looks.isEmpty side).trans (isEmpty side)
        best := fun side occupied =>
          (looks.best side ((isEmpty side).trans occupied)).trans (best side)
        totalQty := fun side => by
          rw [looks.totalQty, stats, stats_totalQty]
        levelCount := fun side => by
          rw [looks.levelCount, stats, stats_levelCount]
        layout := fun side => (laid side).mpr (looks.queues side) }

/--
On every run which the reference book accepts, the oracle carries out the same
calls, the reference book passes the comparison with it, and whatever book is
compared with it passes exactly when it looks like the reference book, queue by
queue.
-/
theorem oracle_standsForMapBook (operations : List Operation)
    (ran : OrderBook.run ({} : MapBook) operations = .ok map)
    (small : map.orderCount < 2 ^ 32) :
    ∃ naive, NaiveBook.run {} operations = .ok naive ∧
      compare map naive = .ok () ∧
      ∀ {B : Type} [OrderBook B] (book : B),
        againstNaive book naive = .ok () ↔ LooksLike book map := by
  obtain ⟨arrivals, accepted, represents⟩ :=
    MapBook.represents_empty.run_accepted ran
  have count : map.orderCount = arrivals.orders.length :=
    represents.answers.orderCount
  exact ⟨_, NaiveBook.run_ofArrivals accepted,
    compare_of_represents represents (count ▸ small), fun book =>
      againstNaive_eq_ok_iff.trans (answersAlike_iff_looksLike represents)⟩

end Reference

theorem oracle_standsForMapBook_replaceAndClear :
    ∃ map naive,
      OrderBook.run ({} : MapBook) MapBook.replaceAndClear = .ok map ∧
        NaiveBook.run {} MapBook.replaceAndClear = .ok naive ∧
        compare map naive = .ok () ∧
        (againstNaive map naive = .ok () ↔ LooksLike map map) := by
  have value : (OrderBook.run ({} : MapBook) MapBook.replaceAndClear).map
      (fun map => decide (map.orderCount = 2)) = .ok true := by
    decide +kernel
  cases ran : OrderBook.run ({} : MapBook) MapBook.replaceAndClear with
  | error failure =>
      rw [ran] at value
      cases value
  | ok map =>
      rw [ran] at value
      have count := of_decide_eq_true (Except.ok.inj value)
      obtain ⟨naive, naiveRan, compared, exactly⟩ :=
        oracle_standsForMapBook MapBook.replaceAndClear ran
          (count.trans_lt (by decide))
      exact ⟨map, naive, rfl, naiveRan, compared, exactly map⟩

/-! ## The books beside each other -/

section Pooled

variable {M : Type} [LevelMap M] [ValidatedLevelMap M]
  {hash : OrderRef → UInt64} {kind : Price → Prop}
  {holds : Side → M → (Price → Option LevelHandle) → Nat → Prop}
  {limits : Limits} {books : Books (BookT M hash)}
  {arrivals next : ArrivalBook}

/-- All books stand for one list of arrivals. -/
structure Alike
    (holds : Side → M → (Price → Option LevelHandle) → Nat → Prop)
    (limits : Limits) (books : Books (BookT M hash))
    (arrivals : ArrivalBook) : Prop where
  fast : BookT.Represents holds limits books.fast arrivals
  ref : MapBook.Represents books.ref arrivals
  slow : books.slow = NaiveBook.ofArrivals arrivals

theorem Alike.apply (openTo : LevelMap.OpenTo kind holds)
    (alike : Alike holds limits books arrivals) {operation : Operation}
    (accepted : arrivals.perform? operation = some next)
    (allowed : limits.Allow next) (isKind : operation.OfKind kind) :
    ∃ later, books.apply operation = .ok later ∧
      OrderBook.apply books.fast operation = .ok later.fast ∧
      OrderBook.apply books.ref operation = .ok later.ref ∧
      Alike holds limits later next := by
  obtain ⟨fast, fastApplied, fastRelation⟩ :=
    alike.fast.apply openTo.implements accepted allowed
      (fun price isPrice => openTo.notZero (isKind price isPrice))
      (BookT.admits_of_kind isKind books.fast)
  obtain ⟨ref, refApplied, refRelation⟩ := alike.ref.apply accepted
  have slowApplied : books.slow.apply operation =
      .ok (NaiveBook.ofArrivals next) :=
    alike.slow ▸ NaiveBook.apply_ofArrivals accepted
  refine ⟨⟨fast, ref, NaiveBook.ofArrivals next⟩, ?_, fastApplied, refApplied,
    fastRelation, refRelation, rfl⟩
  rw [Books.apply, fastApplied, refApplied, slowApplied]
  rfl

/-- Behind every step all of the comparisons succeed. -/
theorem Alike.checkpoint (openTo : LevelMap.OpenTo kind holds)
    (alike : Alike holds limits books arrivals) :
    books.checkpoint = .ok () := by
  have fast := alike.fast.answers openTo.implements
  have ref := alike.ref.answers
  have small := alike.fast.carries.small
  have fastValid : ValidatedBook.validate books.fast = .ok () :=
    alike.fast.validate openTo.implements openTo.checks
  have refValid : ValidatedBook.validate books.ref = .ok () :=
    alike.ref.validate small
  rw [Books.checkpoint, seq_eq_ok_iff, seq_eq_ok_iff, seq_eq_ok_iff,
    fastValid, refValid, alike.slow]
  exact ⟨same_of_answers fast ref,
    againstNaive_eq_ok_iff.mpr (AnswersAlike.of_answers fast), rfl, rfl⟩

theorem Alike.drive (openTo : LevelMap.OpenTo kind holds)
    (alike : Alike holds limits books arrivals)
    {operations : List Operation} {final : ArrivalBook}
    (accepted : arrivals.run? operations = some final)
    (stays : BookT.StaysWithin limits arrivals operations)
    (areKind : ∀ operation ∈ operations, operation.OfKind kind) :
    ∃ later, books.drive operations = .ok later ∧
      OrderBook.run books.fast operations = .ok later.fast ∧
      OrderBook.run books.ref operations = .ok later.ref ∧
      Alike holds limits later final := by
  induction operations generalizing books arrivals with
  | nil =>
      cases accepted
      exact ⟨books, rfl, rfl, rfl, alike⟩
  | cons operation rest induction =>
      obtain ⟨here, others⟩ := List.forall_mem_cons.mp areKind
      rw [ArrivalBook.run?_cons] at accepted
      obtain ⟨middle, performed, acceptedRest⟩ :=
        Option.bind_eq_some_iff.mp accepted
      have run : ∀ count, arrivals.run?
          ((operation :: rest).take (count + 1)) =
            middle.run? (rest.take count) := by
        intro count
        rw [List.take_succ_cons, ArrivalBook.run?_cons, performed,
          Option.bind_some]
      obtain ⟨later, applied, fast, ref, alikeLater⟩ :=
        alike.apply openTo performed (stays 1 middle (run 0)) here
      obtain ⟨last, driven, fastRan, refRan, alikeLast⟩ :=
        induction alikeLater acceptedRest
          (fun count before reached =>
            stays (count + 1) before ((run count).trans reached)) others
      refine ⟨last, ?_, ?_, ?_, alikeLast⟩
      · rw [Books.drive, applied]
        change (later.checkpoint >>= fun _ => later.drive rest) = _
        rw [alikeLater.checkpoint openTo]
        exact driven
      · rw [OrderBook.run_cons, fast]
        exact fastRan
      · rw [OrderBook.run_cons, ref]
        exact refRan

/--
The differential test passes on every run which the reference book accepts
within the storage, for every pooled book whose level maps are open to the
prices of the run: no call trips an assertion, and behind every step the books
agree with each other and with the oracle, have the same digest, and pass their
self-checks.
-/
theorem differentialTest_passes (openTo : LevelMap.OpenTo kind holds)
    {start : BookT M hash}
    {orderCapacity levelCapacity indexCapacity : UInt32} {quarantine : Nat}
    (made : BookT.make orderCapacity levelCapacity indexCapacity quarantine =
      .ok start) {operations : List Operation}
    (within : AcceptedWithin start.storage operations)
    (areKind : ∀ operation ∈ operations, operation.OfKind kind) :
    ∃ books, Books.drive { fast := start } operations = .ok books ∧
      OrderBook.run start operations = .ok books.fast ∧
      OrderBook.run ({} : MapBook) operations = .ok books.ref ∧
      NaiveBook.run {} operations = .ok books.slow := by
  obtain ⟨map, arrivals, -, arrived, -, stays⟩ :=
    within.runsWithin.reaches operations.length
  rw [List.take_length] at arrived stays
  have begun : Alike holds start.storage ({ fast := start } : Books _)
      ArrivalBook.empty :=
    ⟨BookT.represents_of_make openTo.implements made,
      MapBook.represents_empty, rfl⟩
  obtain ⟨books, driven, fast, ref, alike⟩ :=
    begun.drive openTo arrived stays areKind
  exact ⟨books, driven, fast, ref,
    alike.slow ▸ NaiveBook.run_ofArrivals arrived⟩

end Pooled

theorem differentialTest_passes_replaceAndClear :
    ∃ (start : AvlBook) (books : Books AvlBook),
      BookT.make 8 16 8 0 = .ok start ∧
        Books.drive { fast := start } MapBook.replaceAndClear = .ok books ∧
        OrderBook.run start MapBook.replaceAndClear = .ok books.fast ∧
        OrderBook.run ({} : MapBook) MapBook.replaceAndClear =
          .ok books.ref ∧
        NaiveBook.run {} MapBook.replaceAndClear = .ok books.slow := by
  obtain ⟨start, made, storage⟩ : ∃ start : AvlBook,
      BookT.make 8 16 8 0 = .ok start ∧ start.storage = ⟨8, 16, 16⟩ :=
    ⟨_, rfl, rfl⟩
  have within : AcceptedWithin start.storage MapBook.replaceAndClear :=
    storage ▸ replaceAndClear_within
  have areKind : ∀ operation ∈ MapBook.replaceAndClear,
      operation.OfKind fun price => price ≠ 0 :=
    fun operation member => within.priced operation member
  obtain ⟨books, passed⟩ :=
    differentialTest_passes AvlLevelMap.openTo made within areKind
  exact ⟨start, books, made, passed⟩

end Differential

end ItchExchange.Book
