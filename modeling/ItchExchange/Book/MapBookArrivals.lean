import ItchExchange.Book.MapBookRefinement

/-!
# Runs of `MapBook` against the list of arrivals

The single operations of `MapBookRefinement` are composed to whole runs, and
the 64 and 32 bit counters are read as exact natural numbers.  Only the latter
needs the bound on the number of resting orders.
-/

namespace ItchExchange.Book

open ItchExchange.Core

/-! ## The size of the list during a run -/

namespace ArrivalBook

variable {book next : ArrivalBook}

theorem length_reduce_le (book : ArrivalBook) (ref : OrderRef)
    (shares : Qty) :
    (book.reduce ref shares).orders.length ≤ book.orders.length :=
  List.length_filterMap_le _ _

theorem length_insert?_le {order : Resting}
    (accepted : book.insert? order = some next) :
    next.orders.length = book.orders.length + 1 := by
  obtain ⟨positive, fresh, rfl⟩ := insert?_eq_some_iff.mp accepted
  simp [add]

/-- One operation brings at most one order into the book. -/
theorem length_perform?_le {operation : Operation}
    (accepted : book.perform? operation = some next) :
    next.orders.length ≤ book.orders.length + 1 := by
  cases operation with
  | add ref side price qty owner =>
      exact (length_insert?_le accepted).le
  | cancel ref shares =>
      obtain ⟨order, -, -, -, rfl⟩ := take?_eq_some_iff.mp accepted
      exact (book.length_reduce_le ref shares).trans (Nat.le_succ _)
  | execute ref shares =>
      obtain ⟨order, -, -, -, rfl⟩ := take?_eq_some_iff.mp accepted
      exact (book.length_reduce_le ref shares).trans (Nat.le_succ _)
  | remove ref =>
      obtain ⟨order, -, -, rfl⟩ := remove?_eq_some_iff.mp accepted
      exact (book.length_reduce_le ref order.qty).trans (Nat.le_succ _)
  | replace oldRef newRef price qty =>
      obtain ⟨old, -, -, inserted⟩ := replace?_eq_some_iff.mp accepted
      rw [length_insert?_le inserted]
      exact Nat.succ_le_succ (book.length_reduce_le oldRef old.qty)

theorem length_run?_le {operations : List Operation}
    (accepted : book.run? operations = some next) :
    next.orders.length ≤ book.orders.length + operations.length := by
  induction operations generalizing book with
  | nil =>
      rw [run?_nil, Option.some.injEq] at accepted
      simp [accepted]
  | cons operation rest induction =>
      rw [run?_cons] at accepted
      obtain ⟨middle, applied, acceptedRest⟩ :=
        Option.bind_eq_some_iff.mp accepted
      have first := length_perform?_le applied
      have later := induction acceptedRest
      rw [List.length_cons]
      omega

/-- No state of the run holds `limit` orders or more. -/
def NeverHolds (limit : Nat) (operations : List Operation) : Prop :=
  ∀ count arrivals,
    empty.run? (operations.take count) = some arrivals →
      arrivals.orders.length < limit

/-- A run shorter than the limit never reaches it. -/
theorem neverHolds_of_length {limit : Nat} {operations : List Operation}
    (short : operations.length < limit) : NeverHolds limit operations := by
  intro count arrivals accepted
  have bound := length_run?_le accepted
  have taken : (operations.take count).length ≤ operations.length :=
    List.length_take_le' _ _
  have start : empty.orders.length = 0 := rfl
  omega

end ArrivalBook

namespace MapBook

/-- The book holds exactly what is recomputed from the list of arrivals. -/
structure Implements (book : MapBook) (arrivals : ArrivalBook) : Prop where
  orderCount : book.orderCount = arrivals.orders.length
  statsOrderCount : book.stats.orderCount.toNat = arrivals.orders.length
  totalQty : ∀ side,
    (book.stats.totalQty.get side).toNat =
      naturalQty (arrivals.onSide side)
  levelCount : ∀ side,
    (book.stats.levelCount.get side).toNat =
      ((arrivals.onSide side).map Resting.price).dedup.length
  emptySide : ∀ side,
    book.isEmpty side = true ↔ arrivals.onSide side = []
  bestRests : ∀ side, arrivals.onSide side ≠ [] →
    ∃ order ∈ arrivals.onSide side, order.price = book.best side
  bestMostAggressive : ∀ side, ∀ order ∈ arrivals.onSide side,
    ¬ Closer side order.price (book.best side)
  levelsGrouped : ∀ side,
    (book.forEachLevel side).map
        (fun visit =>
          (visit.price, visit.qty.toNat, visit.orders.toNat, visit.refs)) =
      (arrivals.levels side).map fun (price, orders) =>
        (price, naturalQty orders, orders.length, orders.map Resting.ref)
  levelsRecede : ∀ side,
    ((arrivals.levels side).map Prod.fst).Pairwise (Closer side)

theorem length_level_le (arrivals : ArrivalBook) (side : Side)
    (price : Price) :
    (arrivals.level side price).length ≤ arrivals.orders.length :=
  List.length_filter_le _ _

theorem length_onSide_le (arrivals : ArrivalBook) (side : Side) :
    (arrivals.onSide side).length ≤ arrivals.orders.length :=
  List.length_filter_le _ _

theorem length_prices (arrivals : ArrivalBook) (side : Side) :
    (arrivals.prices side).length =
      ((arrivals.onSide side).map Resting.price).dedup.length :=
  List.length_insertionSort _ _

theorem length_prices_le (arrivals : ArrivalBook) (side : Side) :
    (arrivals.prices side).length ≤ arrivals.orders.length := by
  rw [length_prices]
  exact (List.dedup_sublist _).length_le.trans
    ((List.length_map _).trans_le (length_onSide_le arrivals side))

/-- Below `2 ^ 32` orders every counter is the exact natural number. -/
theorem Represents.implements {book : MapBook} {arrivals : ArrivalBook}
    (represents : Represents book arrivals)
    (small : arrivals.orders.length < 2 ^ 32) :
    Implements book arrivals := by
  have answers := represents.answers
  have stats : book.stats = arrivals.stats := answers.stats
  have isEmpty : ∀ side, book.isEmpty side = arrivals.isEmpty side :=
    answers.isEmpty
  have best : ∀ side, book.best side = arrivals.best side := answers.best
  have visits : ∀ side, book.forEachLevel side = arrivals.visits side :=
    fun side => Except.ok.inj (answers.forEachLevel side)
  have word : ∀ {count : Nat}, count ≤ arrivals.orders.length →
      (UInt32.ofNat count).toNat = count := fun bound =>
    UInt32.toNat_ofNat_of_lt' (lt_of_le_of_lt bound small)
  constructor
  case orderCount => exact answers.orderCount
  case statsOrderCount =>
    rw [stats]
    exact word le_rfl
  case totalQty =>
    intro side
    rw [stats, ← wordQty_toNat
      (lt_of_le_of_lt (length_onSide_le arrivals side) small)]
    cases side <;> rfl
  case levelCount =>
    intro side
    rw [stats, ← length_prices, ← word (length_prices_le arrivals side)]
    cases side <;> rfl
  case emptySide =>
    intro side
    rw [isEmpty, ArrivalBook.isEmpty, List.isEmpty_iff]
  case bestRests =>
    intro side nonempty
    have present : arrivals.isEmpty side = false := by
      simpa [ArrivalBook.isEmpty] using nonempty
    obtain ⟨order, member, onSide, atPrice⟩ :=
      ArrivalBook.mem_prices.mp (ArrivalBook.best_mem_prices present)
    refine ⟨order, ArrivalBook.mem_onSide.mpr ⟨member, onSide⟩, ?_⟩
    rw [best, atPrice]
  case bestMostAggressive =>
    intro side order member
    obtain ⟨resting, onSide⟩ := ArrivalBook.mem_onSide.mp member
    rw [best]
    exact ArrivalBook.not_closer_best
      (ArrivalBook.mem_prices.mpr ⟨order, resting, onSide, rfl⟩)
  case levelsGrouped =>
    intro side
    rw [visits, ArrivalBook.visits, ArrivalBook.levels, List.map_map,
      List.map_map]
    refine List.map_congr_left fun price _ => ?_
    have bound := length_level_le arrivals side price
    simp only [Function.comp_apply, ArrivalBook.qtyAt,
      ArrivalBook.ordersAt, word bound,
      wordQty_toNat (lt_of_le_of_lt bound small)]
  case levelsRecede =>
    intro side
    have prices :
        (arrivals.levels side).map Prod.fst = arrivals.prices side := by
      simp [ArrivalBook.levels, Function.comp_def]
    rw [prices]
    exact arrivals.prices_pairwise side

/-- A run the list refuses stops `MapBook` at a check of one of its calls. -/
theorem Represents.run_refused {book : MapBook} {arrivals : ArrivalBook}
    {operations : List Operation} (represents : Represents book arrivals)
    (refused : arrivals.run? operations = none) :
    ∃ message ∈ preconditionMessages,
      OrderBook.run book operations = .error (.assertion message) := by
  induction operations generalizing book arrivals with
  | nil => simp at refused
  | cons operation rest induction =>
      rw [ArrivalBook.run?_cons] at refused
      cases applied : arrivals.perform? operation with
      | none =>
          obtain ⟨message, known, failed⟩ :=
            represents.apply_refused applied
          refine ⟨message, known, ?_⟩
          rw [OrderBook.run_cons, failed, error_bind]
      | some next =>
          rw [applied, Option.bind_some] at refused
          obtain ⟨nextBook, nextApplied, nextRelation⟩ :=
            represents.apply applied
          obtain ⟨message, known, failed⟩ := induction nextRelation refused
          refine ⟨message, known, ?_⟩
          rw [OrderBook.run_cons, nextApplied, ok_bind, failed]

theorem admitsRun_true (book : MapBook) (operations : List Operation) :
    AdmitsRun (fun (_ : MapBook) _ => True) book operations := by
  induction operations generalizing book with
  | nil => trivial
  | cons operation rest induction =>
      exact ⟨trivial, fun next _ => induction next⟩

/-- A run the list accepts is carried out by `MapBook`. -/
theorem Represents.run {book : MapBook} {arrivals final : ArrivalBook}
    {operations : List Operation} (represents : Represents book arrivals)
    (accepted : arrivals.run? operations = some final) :
    ∃ book', OrderBook.run book operations = .ok book' ∧
      Represents book' final :=
  refines.run represents (admitsRun_true book operations) accepted

/-- What `MapBook` carries out is accepted by the list. -/
theorem Represents.run_accepted {book book' : MapBook}
    {arrivals : ArrivalBook} {operations : List Operation}
    (represents : Represents book arrivals)
    (ran : OrderBook.run book operations = .ok book') :
    ∃ final, arrivals.run? operations = some final ∧
      Represents book' final := by
  cases accepted : arrivals.run? operations with
  | none =>
      obtain ⟨message, -, failed⟩ := represents.run_refused accepted
      rw [ran] at failed
      cases failed
  | some final =>
      obtain ⟨other, otherRan, relation⟩ := represents.run accepted
      rw [ran, Except.ok.injEq] at otherRan
      exact ⟨final, rfl, otherRan ▸ relation⟩

/--
`MapBook` implements the list-of-arrivals order book: after every step of every
run it holds exactly what is recomputed from the list, and the only assertions
which ever stop it are the checks of the calls, at the calls the list refuses.
-/
theorem mapBook_implements_arrivals (operations : List Operation)
    (small : ArrivalBook.NeverHolds (2 ^ 32) operations) (count : Nat) :
    match ArrivalBook.empty.run? (operations.take count) with
    | some arrivals =>
        ∃ book,
          OrderBook.run ({} : MapBook) (operations.take count) = .ok book ∧
            Implements book arrivals
    | none =>
        ∃ message ∈ preconditionMessages,
          OrderBook.run ({} : MapBook) (operations.take count) =
            .error (.assertion message) := by
  cases accepted : ArrivalBook.empty.run? (operations.take count) with
  | none => exact represents_empty.run_refused accepted
  | some arrivals =>
      obtain ⟨book, ran, relation⟩ := represents_empty.run accepted
      exact ⟨book, ran, relation.implements (small count arrivals accepted)⟩

/-- A replace onto an existing level and a cancel which clears another one. -/
def replaceAndClear : List Operation :=
  [.add 1 .buy 100 5 7, .add 2 .buy 100 5 0, .add 3 .buy 99 4 0,
    .replace 1 4 100 6, .cancel 3 4]

theorem mapBook_implements_replaceAndClear :
    ∃ arrivals book,
      arrivals.orders = [⟨2, .buy, 100, 5, 0⟩, ⟨4, .buy, 100, 6, 7⟩] ∧
        OrderBook.run ({} : MapBook) replaceAndClear = .ok book ∧
        Implements book arrivals := by
  have value :
      (ArrivalBook.empty.run? (replaceAndClear.take 5)).map
          ArrivalBook.orders =
        some [⟨2, .buy, 100, 5, 0⟩, ⟨4, .buy, 100, 6, 7⟩] := by
    decide
  have law := mapBook_implements_arrivals replaceAndClear
    (ArrivalBook.neverHolds_of_length (by decide)) 5
  cases accepted : ArrivalBook.empty.run? (replaceAndClear.take 5) with
  | none =>
      rw [accepted] at value
      cases value
  | some arrivals =>
      rw [accepted] at law value
      obtain ⟨book, ran, relation⟩ := law
      exact ⟨arrivals, book, Option.some.inj value, ran, relation⟩

end MapBook

end ItchExchange.Book
