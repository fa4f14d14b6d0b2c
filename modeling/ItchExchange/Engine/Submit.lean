import ItchExchange.Engine.PriceTimeWalk

/-!
# One submission to an engine over `MapBook`

`restingSide` lists the orders of a side as `for_each_level` presents them.  A
submission is the walk down the opposing side's list; afterwards either nothing
else changes, or what remains of the order joins its own side.
-/

namespace ItchExchange.Book.MapBook

open ItchExchange.Core

/-- The entry which `orders` holds under a reference, as a resting order. -/
def restingOrder (book : MapBook) (ref : OrderRef) : Option Resting :=
  book.orders[ref]?.map fun entry =>
    { ref
      side := entry.side
      price := entry.price
      qty := entry.qty
      owner := entry.owner }

/-- The orders of a side, best price first and oldest first within a price. -/
def restingSide (book : MapBook) (side : Side) : List Resting :=
  (book.forEachLevel side).flatMap fun visit =>
    visit.refs.filterMap book.restingOrder

section Represents

variable {book : MapBook} {arrivals : ArrivalBook}

theorem Represents.restingOrder (represents : Represents book arrivals)
    (ref : OrderRef) : book.restingOrder ref = arrivals.find? ref := by
  obtain ⟨position, represents⟩ := represents
  rw [MapBook.restingOrder, represents.entries]
  cases found : arrivals.find? ref with
  | none => rfl
  | some order =>
      obtain ⟨-, rfl⟩ := ArrivalBook.find?_eq_some_iff.mp found
      rfl

theorem Represents.restingSide (represents : Represents book arrivals)
    (side : Side) : book.restingSide side = arrivals.queue side := by
  have visits : book.forEachLevel side = arrivals.visits side :=
    Except.ok.inj (represents.answers.forEachLevel side)
  have known : book.restingOrder = arrivals.find? :=
    funext represents.restingOrder
  rw [MapBook.restingSide, visits, known, ArrivalBook.visits,
    List.flatMap_map, ArrivalBook.queue]
  refine List.flatMap_congr fun price _ => ?_
  rw [List.filterMap_map]
  have found : ∀ order ∈ arrivals.level side price,
      (arrivals.find? ∘ Resting.ref) order = some order := by
    intro order member
    exact ArrivalBook.find?_eq_some_iff.mpr
      ⟨(ArrivalBook.mem_level.mp member).1, rfl⟩
  rw [List.filterMap_congr found, List.filterMap_some]

end Represents

end ItchExchange.Book.MapBook

namespace ItchExchange.Engine

open ItchExchange.Core ItchExchange.Book
open ItchExchange.Book.MapBook (Represents)

theorem length_queue_le (arrivals : ArrivalBook) (side : Side) :
    (arrivals.queue side).length ≤ arrivals.orders.length :=
  List.Subperm.length_le
    (List.subperm_of_subset
      (List.Nodup.of_map _ (arrivals.queue_refs_nodup side))
      fun _ member => (ArrivalBook.mem_queue.mp member).1)

/-- The checks of `submit`. -/
def Submittable (order : NewOrder) : Prop :=
  order.qty > 0 ∧ (order.type = .market ∨ order.price > 0)

instance (order : NewOrder) : Decidable (Submittable order) := by
  unfold Submittable
  infer_instance

/-- What a submission does to the engine, when it goes through. -/
structure Submitted (order : NewOrder) (result : Walk)
    (engine final : MatchingEngine MapBook) (before after : ArrivalBook) :
    Prop where
  represents : Represents final.book after
  opposing : after.queue (opposite order.side) = result.left
  own : after.queue order.side =
    if result.Rests order then
      ArrivalBook.joinQueue (result.remainder order engine.nextRef)
        (before.queue order.side)
    else before.queue order.side
  unknown : result.Rests order →
    ∀ resting ∈ after.queue (opposite order.side),
      resting.ref ≠ engine.nextRef
  stp : final.stp = engine.stp
  nextRef : final.nextRef =
    if result.Rests order then engine.nextRef + 1 else engine.nextRef
  filledQty :
    final.stats.filledQty = engine.stats.filledQty + result.filledWord

section Settle

variable (engine : MatchingEngine MapBook) {order : NewOrder}
  {result : Walk} {start : Sweep MapBook} (book : MapBook)

/-- The end of a submission whose walk leaves nothing to rest. -/
theorem settle_unrested (unrested : ¬ result.Rests order)
    (fresh : start.report = {}) :
    ∃ final,
      MatchingEngine.settle engine order (result.finish book start) =
          .ok (result.report order engine.nextRef, final) ∧
        final.book = book ∧ final.stp = engine.stp ∧
        final.nextRef = engine.nextRef ∧
        final.stats.filledQty = start.stats.filledQty + result.filledWord := by
  unfold MatchingEngine.settle
  by_cases stopped : result.stopped = true
  · simp [Walk.report, Walk.finish, unrested, fresh, stopped]
  by_cases done : result.remaining = 0
  · simp [Walk.report, Walk.finish, unrested, fresh, stopped, done]
  have kind : order.type = .market ∨ order.tif = .ioc := by
    by_contra other
    refine unrested ⟨by simpa using stopped, done, ?_, ?_⟩
    · cases type : order.type with
      | limit => rfl
      | market => exact absurd (Or.inl type) other
    · cases tif : order.tif with
      | day => rfl
      | ioc => exact absurd (Or.inr tif) other
  simp [Walk.report, Walk.finish, unrested, fresh, stopped, done, kind]

/-- The end of a submission whose remainder rests. -/
theorem settle_rests (rests : result.Rests order)
    (fresh : start.report = {}) :
    ∃ base : MatchingEngine MapBook,
      MatchingEngine.settle engine order (result.finish book start) =
          (OrderBook.add book engine.nextRef order.side order.price
            result.remaining order.owner).bind (fun added =>
              .ok (result.report order engine.nextRef,
                { base with book := added })) ∧
        base.stp = engine.stp ∧
        base.nextRef = engine.nextRef + 1 ∧
        base.stats.filledQty = start.stats.filledQty + result.filledWord := by
  obtain ⟨going, someQty, limit, day⟩ := rests
  refine ⟨{ engine with
    nextRef := engine.nextRef + 1
    stats :=
      { (result.finish book start).stats with
        rested := start.stats.rested + 1 } }, ?_, rfl, rfl, rfl⟩
  have rests : result.Rests order := ⟨going, someQty, limit, day⟩
  unfold MatchingEngine.settle
  simp [Walk.report, Walk.finish, rests, fresh, going, someQty, limit, day]
  rfl

end Settle

/-- What stands against a submission which the engine has to carry out. -/
structure Welcome (order : NewOrder) (nextRef : OrderRef)
    (before : ArrivalBook) : Prop where
  submittable : Submittable order
  nonzero : ∀ resting ∈ before.queue (opposite order.side), resting.ref ≠ 0
  fresh : before.find? nextRef = none

/-- The walk which a submission goes down. -/
def submission (engine : MatchingEngine MapBook) (order : NewOrder)
    (before : ArrivalBook) : Walk :=
  walk engine.stp order order.qty (before.queue (opposite order.side))

/-- What is left after matching rested before, under the same references. -/
theorem Matched.refs {side : Side} {before after : ArrivalBook}
    {stp : StpMode} {order : NewOrder} {remaining : Qty}
    (matched : Matched side before after
      (walk stp order remaining (before.queue (opposite side)))) :
    ∀ resting ∈ after.orders,
      ∃ earlier ∈ before.orders, earlier.ref = resting.ref := by
  intro resting member
  rcases eq_or_eq_opposite resting.side side with own | opposing
  · have inQueue := ArrivalBook.mem_queue.mpr ⟨member, own⟩
    rw [matched.own] at inQueue
    exact ⟨resting, (ArrivalBook.mem_queue.mp inQueue).1, rfl⟩
  · have inQueue := ArrivalBook.mem_queue.mpr ⟨member, opposing⟩
    rw [matched.opposing] at inQueue
    obtain ⟨earlier, inEarlier, same, -⟩ :=
      walk_left stp order remaining _ resting inQueue
    exact ⟨earlier, (ArrivalBook.mem_queue.mp inEarlier).1, same⟩

section Submit

variable {engine : MatchingEngine MapBook} {before : ArrivalBook}

/-- The remainder of a matched order is added, unless its reference rests. -/
theorem add_remainder {order : NewOrder} {result : Walk} {book : MapBook}
    {middle : ArrivalBook} (represents : Represents book middle)
    (rests : result.Rests order) (ref : OrderRef) :
    (∃ (fresh : middle.find? ref = none) (added : MapBook),
      OrderBook.add book ref order.side order.price result.remaining
          order.owner = .ok added ∧
        Represents added
          (middle.add (result.remainder order ref) fresh rests.2.1)) ∨
      middle.find? ref ≠ none ∧
        ∃ message,
          OrderBook.add book ref order.side order.price result.remaining
            order.owner = .error (.assertion message) := by
  by_cases fresh : middle.find? ref = none
  · have accepted :
        middle.perform? (.add ref order.side order.price result.remaining
          order.owner) =
          some (middle.add (result.remainder order ref) fresh rests.2.1) :=
      ArrivalBook.insert?_eq_some_iff.mpr ⟨rests.2.1, fresh, rfl⟩
    obtain ⟨added, applied, relation⟩ := represents.apply accepted
    exact Or.inl ⟨fresh, added, applied, relation⟩
  · have refused :
        middle.perform? (.add ref order.side order.price result.remaining
          order.owner) = none := by
      change middle.insert? _ = none
      simp [ArrivalBook.insert?, fresh]
    obtain ⟨message, -, failed⟩ := represents.apply_refused refused
    exact Or.inr ⟨fresh, message, failed⟩

/-- The end of a submission: it goes through, or its reference rests. -/
theorem settle_cases (engine : MatchingEngine MapBook) {order : NewOrder}
    {result : Walk} (start : Sweep MapBook) {book : MapBook}
    {middle : ArrivalBook} (represents : Represents book middle)
    (matched : Matched order.side before middle result)
    (fresh : start.report = {})
    (filledQty : start.stats.filledQty = engine.stats.filledQty) :
    (∃ final after,
      MatchingEngine.settle engine order (result.finish book start) =
          .ok (result.report order engine.nextRef, final) ∧
        Submitted order result engine final before after) ∨
      middle.find? engine.nextRef ≠ none ∧
        ∃ message,
          MatchingEngine.settle engine order (result.finish book start) =
            .error (.assertion message) := by
  by_cases rests : result.Rests order
  case neg =>
    obtain ⟨final, settled, sameBook, sameStp, sameNext, sameQty⟩ :=
      settle_unrested engine book rests fresh
    refine Or.inl ⟨final, middle, settled, ?_⟩
    exact
      { represents := sameBook ▸ represents
        opposing := matched.opposing
        own := matched.own.trans (if_neg rests).symm
        unknown := fun resting => absurd resting rests
        stp := sameStp
        nextRef := sameNext.trans (if_neg rests).symm
        filledQty := sameQty.trans (by rw [filledQty]) }
  obtain ⟨base, settled, sameStp, sameNext, sameQty⟩ :=
    settle_rests engine book rests fresh
  rw [settled]
  rcases add_remainder represents rests engine.nextRef with
    ⟨unused, added, addedOk, relation⟩ | ⟨used, message, failed⟩
  · have otherSide : (result.remainder order engine.nextRef).side ≠
        opposite order.side := fun same =>
      opposite_ne order.side same.symm
    have opposing := (ArrivalBook.queue_add_of_ne unused rests.2.1
      otherSide).trans matched.opposing
    have own : (middle.add (result.remainder order engine.nextRef) unused
          rests.2.1).queue order.side =
        ArrivalBook.joinQueue (result.remainder order engine.nextRef)
          (middle.queue order.side) :=
      ArrivalBook.queue_add
    refine Or.inl ⟨{ base with book := added },
      middle.add (result.remainder order engine.nextRef) unused rests.2.1,
      ?settles, relation, opposing, ?joins, ?unknown, sameStp,
      sameNext.trans (if_pos rests).symm,
      sameQty.trans (by rw [filledQty])⟩
    case settles =>
      rw [addedOk]
      rfl
    case joins => rw [own, matched.own, if_pos rests]
    case unknown =>
      intro _ resting member
      rw [opposing, ← matched.opposing] at member
      exact ArrivalBook.find?_eq_none_iff.mp unused resting
        (ArrivalBook.mem_queue.mp member).1
  · exact Or.inr ⟨used, message, by rw [failed]; rfl⟩

/--
A submission is carried out as the walk says, or it stops at an assertion; it
does not stop when the order passes the checks, no opposing order rests under
the reference zero and the engine's next reference is unused.
-/
theorem submit_cases (represents : Represents engine.book before)
    (order : NewOrder) (fills : List Fill) :
    (Submittable order ∧
      ∃ final after,
        engine.submit order fills =
            .ok ((submission engine order before).report order
                engine.nextRef,
              final, fills ++ (submission engine order before).fills) ∧
          Submitted order (submission engine order before) engine final
            before after) ∨
      ¬ Welcome order engine.nextRef before ∧
        ∃ message, engine.submit order fills = .error (.assertion message) := by
  by_cases someQty : order.qty > 0
  case neg =>
    refine Or.inr ⟨fun welcome => someQty welcome.submittable.1,
      "an order with no quantity cannot be submitted", ?_⟩
    rw [MatchingEngine.submit, assertMsg_of_not someQty, error_bind]
  by_cases priced : order.type = .market ∨ order.price > 0
  case neg =>
    refine Or.inr ⟨fun welcome => priced welcome.submittable.2,
      "a limit order needs a price", ?_⟩
    rw [MatchingEngine.submit, assertMsg_of someQty, ok_bind,
      assertMsg_of_not priced, error_bind]
  let start : Sweep MapBook :=
    { book := engine.book
      stats :=
        { engine.stats with submitted := engine.stats.submitted + 1 }
      fills
      remaining := order.qty }
  have orderCount : OrderBook.orderCount engine.book = before.orders.length :=
    represents.answers.orderCount
  have expanded : engine.submit order fills =
      (MatchingEngine.sweep engine.stp order before.orders.length
        start).bind fun state =>
          (MatchingEngine.settle engine order state).bind fun settled =>
            .ok (settled.1, settled.2, state.fills) := by
    rw [MatchingEngine.submit, assertMsg_of someQty, ok_bind,
      assertMsg_of priced, ok_bind, orderCount]
    rfl
  rw [expanded]
  rcases sweep_walks MapBook.refines engine.stp order start
      represents rfl rfl (length_queue_le before (opposite order.side)) with
    ⟨book, middle, ran, relation, matched⟩ |
    ⟨⟨resting, member, zero⟩, message, failed⟩
  · rw [ran]
    rcases settle_cases engine start relation matched
        rfl rfl with
      ⟨final, after, settled, submitted⟩ | ⟨used, message, failed⟩
    · refine Or.inl ⟨⟨someQty, priced⟩, final, after, ?_, submitted⟩
      simp only [Except.bind, settled]
      rfl
    · refine Or.inr ⟨fun welcome => used ?_, message, ?_⟩
      · rw [ArrivalBook.find?_eq_none_iff]
        intro resting member same
        obtain ⟨earlier, earlierMember, earlierRef⟩ :=
          matched.refs resting member
        exact ArrivalBook.find?_eq_none_iff.mp welcome.fresh earlier
          earlierMember (earlierRef.trans same)
      · simp only [Except.bind, failed]
  · refine Or.inr ⟨fun welcome => welcome.nonzero resting member zero,
      message, ?_⟩
    rw [failed]
    rfl

end Submit

/-! ## Where the orders after a submission come from -/

section Submitted

variable {engine final : MatchingEngine MapBook} {order : NewOrder}
  {before after : ArrivalBook}

theorem Submitted.from_own
    (submitted : Submitted order (submission engine order before) engine
      final before after) {resting : Resting}
    (member : resting ∈ after.queue order.side) :
    resting ∈ before.queue order.side ∨
      (submission engine order before).Rests order ∧
        resting =
          (submission engine order before).remainder order
            engine.nextRef := by
  rw [submitted.own] at member
  split_ifs at member with rests
  · rcases ArrivalBook.mem_joinQueue.mp member with new | old
    · exact Or.inr ⟨rests, new⟩
    · exact Or.inl old
  · exact Or.inl member

theorem Submitted.from_opposing
    (submitted : Submitted order (submission engine order before) engine
      final before after) {resting : Resting}
    (member : resting ∈ after.queue (opposite order.side)) :
    ∃ earlier ∈ before.queue (opposite order.side),
      earlier.ref = resting.ref ∧ earlier.price = resting.price := by
  rw [submitted.opposing] at member
  exact walk_left engine.stp order order.qty _ resting member

/-- Every order of a side is in one of the two queues. -/
theorem mem_queues {arrivals : ArrivalBook} {resting : Resting}
    (member : resting ∈ arrivals.orders) (side : Side) :
    resting ∈ arrivals.queue side ∨
      resting ∈ arrivals.queue (opposite side) := by
  rcases eq_or_eq_opposite resting.side side with own | opposing
  · exact Or.inl (ArrivalBook.mem_queue.mpr ⟨member, own⟩)
  · exact Or.inr (ArrivalBook.mem_queue.mpr ⟨member, opposing⟩)

end Submitted

/-! ## Price-time priority -/

/-- A book whose calls bring in no reference zero holds none. -/
theorem run_nonzero {operations : List Operation} {arrivals : ArrivalBook}
    (accepted : ArrivalBook.empty.run? operations = some arrivals)
    (nonzero : ∀ operation ∈ operations, operation.ref? ≠ some 0) :
    ∀ resting ∈ arrivals.orders, resting.ref ≠ 0 := by
  refine ArrivalBook.from_run? (fun ref _ => ref ≠ 0) accepted
    (fun resting member => absurd member List.not_mem_nil) ?_
  rintro operation member ref price brought - rfl
  exact nonzero operation member brought

/--
`submit` over `MapBook` is price-time-priority matching, in every mode of
self-trade prevention: one walk down the opposing side decides the fills, the
report and what is left there, and the own side is unchanged unless the
remainder of a day limit order joins it.
-/
theorem submit_priceTimePriority (operations : List Operation)
    (engine : MatchingEngine MapBook) (order : NewOrder) (fills : List Fill)
    (ran : OrderBook.run ({} : MapBook) operations = .ok engine.book)
    (nonzero : ∀ operation ∈ operations, operation.ref? ≠ some 0)
    (fresh : engine.book.contains engine.nextRef = false)
    (someQty : order.qty > 0)
    (priced : order.type = .market ∨ order.price > 0) :
    let opposing := engine.book.restingSide (opposite order.side)
    let own := engine.book.restingSide order.side
    let result := walk engine.stp order order.qty opposing
    ∃ final,
      engine.submit order fills =
          .ok (result.report order engine.nextRef, final,
            fills ++ result.fills) ∧
        final.book.restingSide (opposite order.side) = result.left ∧
        final.book.restingSide order.side =
          (if result.Rests order then
            ArrivalBook.joinQueue
              (result.remainder order engine.nextRef) own
          else own) ∧
        final.nextRef =
          if result.Rests order then engine.nextRef + 1
          else engine.nextRef := by
  obtain ⟨before, accepted, represents⟩ :=
    MapBook.represents_empty.run_accepted ran
  have unused : before.find? engine.nextRef = none := by
    have contains := Except.ok.inj (represents.answers.contains engine.nextRef)
    rw [← Option.isNone_iff_eq_none, ← Option.not_isSome, ← contains]
    simpa using fresh
  have welcome : Welcome order engine.nextRef before :=
    { submittable := ⟨someQty, priced⟩
      nonzero := fun resting member =>
        run_nonzero accepted nonzero resting
          (ArrivalBook.mem_queue.mp member).1
      fresh := unused }
  dsimp only
  simp only [represents.restingSide]
  rcases submit_cases represents order fills with
    ⟨-, final, after, submitted, effect⟩ | ⟨refused, -⟩
  · refine ⟨final, submitted, ?_, ?_, effect.nextRef⟩
    · rw [effect.represents.restingSide, effect.opposing]
      rfl
    · rw [effect.represents.restingSide, effect.own]
      rfl
  · exact absurd welcome refused

/-- Three offers at two prices, the first of them by participant 7. -/
def offers : List Operation :=
  [.add 1 .sell 100 5 7, .add 2 .sell 100 5 0, .add 3 .sell 101 10 0]

def offersBook : MapBook :=
  (OrderBook.run ({} : MapBook) offers).toOption.getD {}

/-- An engine over the offers which pulls out a participant's own makers. -/
def offersEngine : MatchingEngine MapBook where
  book := offersBook
  stp := .cancelOldest
  nextRef := 4

/-- A bid by participant 7 for more than its own offer would give. -/
def takingBid : NewOrder where
  clientId := 9
  owner := 7
  side := .buy
  price := 101
  qty := 12

theorem submit_takingBid :
    ∃ final,
      offersEngine.submit takingBid [] =
          .ok ({ outcome := .filledComplete
                 filled := 12
                 stpCancelledResting := 1 }, final,
            [⟨9, 2, 7, 0, 100, 5⟩, ⟨9, 3, 7, 0, 101, 7⟩]) ∧
        final.book.restingSide .sell = [⟨3, .sell, 101, 3, 0⟩] ∧
        final.book.restingSide .buy = [] := by
  have law := submit_priceTimePriority offers offersEngine takingBid []
    rfl (by decide) (by decide) (by decide) (by decide)
  have walked : walk offersEngine.stp takingBid takingBid.qty
      (offersEngine.book.restingSide (opposite takingBid.side)) =
        { fills := [⟨9, 2, 7, 0, 100, 5⟩, ⟨9, 3, 7, 0, 101, 7⟩]
          left := [⟨3, .sell, 101, 3, 0⟩]
          remaining := 0
          pulled := [⟨1, .sell, 100, 5, 7⟩]
          events := 1 } := by
    decide
  dsimp only at law
  rw [walked] at law
  obtain ⟨final, submitted, left, kept, -⟩ := law
  refine ⟨final, submitted.trans (by rfl), left, kept.trans (by decide)⟩

end ItchExchange.Engine
