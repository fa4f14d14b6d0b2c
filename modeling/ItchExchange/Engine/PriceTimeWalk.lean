import ItchExchange.Book.PriceTimeQueue
import ItchExchange.Book.MapBookArrivals
import ItchExchange.Engine.Walk

/-!
# Matching is one walk down the opposing queue

The matching loop asks the book again in every turn for its best price and the
front of its queue, while it changes that book.  Over every book type which
refines the list of arrivals, what it does is the walk of `Engine.Walk`.  The
induction is on the opposing queue: a turn either leaves the loop, or drops the
head of the queue, or leaves no quantity to match.
-/

namespace ItchExchange.Engine

open ItchExchange.Core ItchExchange.Book

/-! ## One turn of the loop -/

section Turn

variable {B : Type} [OrderBook B] {related : B → ArrivalBook → Prop}
  {admits : B → Operation → Prop}

/-- The loop goes on exactly while quantity remains and an order opposes. -/
theorem goesOn_iff (refines : Refines related admits) (state : Sweep B)
    {arrivals : ArrivalBook} {order : NewOrder}
    (relation : related state.book arrivals) :
    MatchingEngine.goesOn order state = true ↔
      state.remaining ≠ 0 ∧ arrivals.queue (opposite order.side) ≠ [] := by
  have answers := refines.answers relation
  rw [MatchingEngine.goesOn, answers.isEmpty, ne_eq (arrivals.queue _),
    ArrivalBook.queue_eq_nil_iff]
  simp [UInt32.pos_iff_ne_zero]

/-- The book's side of an execution against a resting order. -/
theorem execute_related (refines : Refines related admits) {book : B}
    {arrivals : ArrivalBook} (relation : related book arrivals)
    {head : Resting} (member : head ∈ arrivals.orders) {shares : Qty}
    (enough : shares ≤ head.qty) :
    ∃ reported next,
      OrderBook.execute book head.ref shares = .ok (reported, next) ∧
        related next (arrivals.reduce head.ref shares) := by
  have accepted :
      arrivals.perform? (.execute head.ref shares) =
        some (arrivals.reduce head.ref shares) :=
    ArrivalBook.take?_eq_some_iff.mpr ⟨head, member, rfl, enough, rfl⟩
  obtain ⟨next, applied, nextRelation⟩ :=
    refines.apply relation (refines.admitsExecute _ _ _) accepted
  obtain ⟨reported, executed⟩ := apply_execute_eq_ok applied
  exact ⟨reported, next, executed, nextRelation⟩

/-- The book's side of a withdrawal of a resting order. -/
theorem remove_related (refines : Refines related admits) {book : B}
    {arrivals : ArrivalBook} (relation : related book arrivals)
    {head : Resting} (member : head ∈ arrivals.orders) :
    ∃ next,
      OrderBook.remove book head.ref = .ok next ∧
        related next (arrivals.reduce head.ref head.qty) := by
  have accepted :
      arrivals.perform? (.remove head.ref) =
        some (arrivals.reduce head.ref head.qty) :=
    ArrivalBook.remove?_eq_some_iff.mpr ⟨head, member, rfl, rfl⟩
  exact refines.apply relation (refines.admitsRemove _ _) accepted

/-- The state after a fill against the head of the opposing queue. -/
def afterFill (order : NewOrder) (head : Resting) (book : B)
    (state : Sweep B) : Sweep B :=
  let traded := tradedQty state.remaining head.qty
  { state with
    book
    fills := state.fills ++ [fillAgainst order head traded]
    stats :=
      { state.stats with
        fills := state.stats.fills + 1
        filledQty := state.stats.filledQty + traded.toUInt64 }
    remaining := state.remaining - traded
    report := { state.report with filled := state.report.filled + traded } }

theorem trade_related (refines : Refines related admits)
    {state : Sweep B} {arrivals : ArrivalBook} {head : Resting}
    (relation : related state.book arrivals)
    (member : head ∈ arrivals.orders) (order : NewOrder) :
    ∃ book,
      MatchingEngine.trade order head.price head.ref state =
          .ok (afterFill order head book state) ∧
        related book
          (arrivals.reduce head.ref
            (tradedQty state.remaining head.qty)) := by
  have answers := refines.answers relation
  obtain ⟨reported, book, executed, next⟩ :=
    execute_related refines relation member
      (tradedQty_le_available state.remaining head.qty)
  refine ⟨book, ?_, next⟩
  unfold tradedQty at executed
  simp only [MatchingEngine.trade, answers.qtyOf head member,
    answers.ownerOf head member, ok_bind, executed, pure_eq_ok]
  rfl

theorem selfTrade_eq (refines : Refines related admits) {book : B}
    {arrivals : ArrivalBook} (relation : related book arrivals)
    {head : Resting} (member : head ∈ arrivals.orders) (stp : StpMode)
    (order : NewOrder) :
    MatchingEngine.selfTrade stp order book head.ref =
      .ok (decide (SelfTrade stp order head)) := by
  have answers := refines.answers relation
  unfold MatchingEngine.selfTrade SelfTrade
  split_ifs with off
  · simp [off]
  · simp [answers.ownerOf head member, off]

/-- The variables of the loop after the withdrawal of a maker. -/
def afterPull {B : Type} (book : B) (state : Sweep B) : Sweep B :=
  { state with
    book
    stats :=
      { state.stats with stpEvents := state.stats.stpEvents + 1 }
    report :=
      { state.report with
        stpCancelledResting := state.report.stpCancelledResting + 1 } }

/-- A turn of the loop, once its questions to the book are answered. -/
theorem turn_eq (refines : Refines related admits) {state : Sweep B}
    {arrivals : ArrivalBook} {order : NewOrder} {head : Resting}
    {tail : List Resting} (relation : related state.book arrivals)
    (equal : arrivals.queue (opposite order.side) = head :: tail)
    (nonzero : head.ref ≠ 0) (stp : StpMode) :
    MatchingEngine.turn stp order state =
      if crosses order head.price = false then .ok (false, state)
      else if SelfTrade stp order head then
        let stats :=
          { state.stats with stpEvents := state.stats.stpEvents + 1 }
        let pulled :=
          { state.report with
            stpCancelledResting := state.report.stpCancelledResting + 1 }
        match stp with
        | .cancelOldest => do
            let book ← OrderBook.remove state.book head.ref
            pure (true, { state with book, stats, report := pulled })
        | .cancelBoth => do
            let book ← OrderBook.remove state.book head.ref
            pure (false,
              { state with book, stats, report := pulled, stpStop := true })
        | .cancelNewest => pure (false, { state with stats, stpStop := true })
        | .off => do
            let state ←
              MatchingEngine.trade order head.price head.ref
                { state with stats }
            pure (true, state)
      else
        (MatchingEngine.trade order head.price head.ref state).bind
          fun state => .ok (true, state) := by
  have answers := refines.answers relation
  obtain ⟨-, best, front, member, -⟩ := ArrivalBook.head_of_queue equal
  simp only [MatchingEngine.turn, answers.best, best, answers.frontAt, front,
    selfTrade_eq refines relation member, ok_bind, assertMsg_of nonzero,
    pure_eq_ok, decide_eq_true_eq]
  rfl

theorem turn_stays (refines : Refines related admits) {state : Sweep B}
    {arrivals : ArrivalBook} {order : NewOrder} {head : Resting}
    {tail : List Resting} {stp : StpMode}
    (relation : related state.book arrivals)
    (equal : arrivals.queue (opposite order.side) = head :: tail)
    (stays : crosses order head.price = false) :
    MatchingEngine.turn stp order state = .ok (false, state) := by
  have answers := refines.answers relation
  obtain ⟨-, best, -⟩ := ArrivalBook.head_of_queue equal
  simp [MatchingEngine.turn, answers.best, best, stays]

/-- The assertion of the loop fires at the reference zero. -/
theorem turn_zero (refines : Refines related admits) {state : Sweep B}
    {arrivals : ArrivalBook} {order : NewOrder} {head : Resting}
    {tail : List Resting} (relation : related state.book arrivals)
    (equal : arrivals.queue (opposite order.side) = head :: tail)
    (zero : head.ref = 0) (crossing : crosses order head.price ≠ false)
    (stp : StpMode) :
    ∃ message,
      MatchingEngine.turn stp order state = .error (.assertion message) := by
  have answers := refines.answers relation
  obtain ⟨-, best, front, -⟩ := ArrivalBook.head_of_queue equal
  refine ⟨"the best level has no resting order", ?_⟩
  simp [MatchingEngine.turn, answers.best, best, answers.frontAt, front,
    zero, crossing]

/-- A turn which trades. -/
theorem turn_trades (refines : Refines related admits) {state : Sweep B}
    {arrivals : ArrivalBook} {order : NewOrder} {head : Resting}
    {tail : List Resting} (relation : related state.book arrivals)
    (equal : arrivals.queue (opposite order.side) = head :: tail)
    (nonzero : head.ref ≠ 0) {stp : StpMode}
    (crossing : crosses order head.price ≠ false)
    (other : ¬ SelfTrade stp order head) :
    ∃ book,
      MatchingEngine.turn stp order state =
          .ok (true, afterFill order head book state) ∧
        related book
          (arrivals.reduce head.ref
            (tradedQty state.remaining head.qty)) := by
  obtain ⟨-, -, -, member, -⟩ := ArrivalBook.head_of_queue equal
  obtain ⟨book, traded, next⟩ :=
    trade_related refines relation member order
  refine ⟨book, ?_, next⟩
  rw [turn_eq refines relation equal nonzero, if_neg crossing,
    if_neg other, traded]
  rfl

/-- A turn which meets an order of the same participant. -/
theorem turn_selfTrades (refines : Refines related admits) {state : Sweep B}
    {arrivals : ArrivalBook} {order : NewOrder} {head : Resting}
    {tail : List Resting} (relation : related state.book arrivals)
    (equal : arrivals.queue (opposite order.side) = head :: tail)
    (nonzero : head.ref ≠ 0) {stp : StpMode}
    (crossing : crosses order head.price ≠ false)
    (own : SelfTrade stp order head) :
    ∃ book,
      related book (arrivals.reduce head.ref head.qty) ∧
        MatchingEngine.turn stp order state =
          .ok (match stp with
            | .cancelOldest => (true, afterPull book state)
            | .cancelBoth =>
                (false, { afterPull book state with stpStop := true })
            | _ =>
                (false,
                  { state with
                    stats :=
                      { state.stats with
                        stpEvents := state.stats.stpEvents + 1 }
                    stpStop := true })) := by
  obtain ⟨-, -, -, member, -⟩ := ArrivalBook.head_of_queue equal
  obtain ⟨book, removed, next⟩ := remove_related refines relation member
  refine ⟨book, next, ?_⟩
  rw [turn_eq refines relation equal nonzero, if_neg crossing, if_pos own]
  cases stp with
  | off => exact absurd rfl own.1
  | cancelNewest => rfl
  | cancelOldest =>
      simp only [removed, ok_bind]
      rfl
  | cancelBoth =>
      simp only [removed, ok_bind]
      rfl

end Turn

/-! ## The whole loop -/

/-- What matching does to the two queues of the resting orders. -/
structure Matched (side : Side) (before after : ArrivalBook)
    (result : Walk) : Prop where
  opposing : after.queue (opposite side) = result.left
  own : after.queue side = before.queue side

section Finish

variable {B : Type}

/-- A walk without fills or withdrawals leaves the loop's variables alone. -/
theorem finish_unchanged {start : Sweep B} {left : List Resting}
    (going : start.stpStop = false) :
    ({ left, remaining := start.remaining } : Walk).finish start.book start =
      start := by
  obtain ⟨book, stats, fills, remaining, report, stpStop⟩ := start
  simp only at going
  simp [Walk.finish, Walk.filled, Walk.filledWord, going]

/-- The walk after a fill goes on from the variables which that fill left. -/
theorem finish_afterFill (order : NewOrder) (head : Resting)
    (middle book : B) (start : Sweep B) (rest : Walk) :
    rest.finish book (afterFill order head middle start) =
      ({ rest with
          fills :=
            fillAgainst order head (tradedQty start.remaining head.qty) ::
              rest.fills } : Walk).finish book start := by
  simp only [Walk.finish, afterFill, Walk.filled, Walk.filledWord,
    List.map_cons, List.sum_cons, List.length_cons, fillAgainst,
    List.append_assoc, List.singleton_append, UInt64.ofNat_add,
    Sweep.mk.injEq, EngineStats.mk.injEq, Report.mk.injEq]
  grind

/-- The same for a withdrawal under `cancelOldest`. -/
theorem finish_afterPull (head : Resting) (middle book : B)
    (start : Sweep B) (rest : Walk) :
    rest.finish book (afterPull middle start) =
      ({ rest with
          pulled := head :: rest.pulled
          events := rest.events + 1 } : Walk).finish book start := by
  simp only [Walk.finish, afterPull, Walk.filled, Walk.filledWord,
    List.length_cons, UInt64.ofNat_add, UInt32.ofNat_add,
    Sweep.mk.injEq, EngineStats.mk.injEq, Report.mk.injEq]
  grind

end Finish

section Sweep

variable {B : Type} [OrderBook B] {related : B → ArrivalBook → Prop}
  {admits : B → Operation → Prop}

theorem sweep_ended {stp : StpMode} {order : NewOrder} {state : Sweep B}
    {turns : Nat} (ended : ¬ MatchingEngine.goesOn order state = true) :
    MatchingEngine.sweep stp order turns state = .ok state := by
  cases turns <;> exact if_neg ended

theorem sweep_succ {stp : StpMode} {order : NewOrder} {state next : Sweep B}
    {turns : Nat} {again : Bool}
    (goes : MatchingEngine.goesOn order state = true)
    (turned : MatchingEngine.turn stp order state = .ok (again, next)) :
    MatchingEngine.sweep stp order (turns + 1) state =
      if again = true then MatchingEngine.sweep stp order turns next
      else .ok next := by
  rw [MatchingEngine.sweep, if_pos goes, turned]
  rfl

/--
A matching loop with a turn for each opposing order is the walk.  Only an order
which rests under the reference zero can stop it, at the loop's assertion.
-/
theorem sweep_walks (refines : Refines related admits) (stp : StpMode)
    (order : NewOrder) {opposing : List Resting} (start : Sweep B)
    {arrivals : ArrivalBook} {turns : Nat}
    (relation : related start.book arrivals)
    (going : start.stpStop = false)
    (equal : arrivals.queue (opposite order.side) = opposing)
    (enough : opposing.length ≤ turns) :
    (∃ book after,
      MatchingEngine.sweep stp order turns start =
          .ok ((walk stp order start.remaining opposing).finish book start) ∧
        related book after ∧
        Matched order.side arrivals after
          (walk stp order start.remaining opposing)) ∨
      (∃ resting ∈ opposing, resting.ref = 0) ∧
        ∃ message,
          MatchingEngine.sweep stp order turns start =
            .error (.assertion message) := by
  induction opposing generalizing start arrivals turns with
  | nil =>
      have ended : ¬ MatchingEngine.goesOn order start = true := by
        simp [goesOn_iff refines start relation, equal]
      refine Or.inl ⟨start.book, arrivals, ?_, relation, equal, rfl⟩
      rw [walk_nil, finish_unchanged going, sweep_ended ended]
  | cons head tail induction =>
      obtain ⟨-, -, -, member, headSide⟩ := ArrivalBook.head_of_queue equal
      have elsewhere : head.side ≠ order.side := fun same =>
        opposite_ne order.side (headSide.symm.trans same)
      have ownQueue : ∀ shares,
          (arrivals.reduce head.ref shares).queue order.side =
            arrivals.queue order.side :=
        fun _ => ArrivalBook.queue_reduce_of_ne member elsewhere
      have tailQueue := ArrivalBook.queue_reduce_head_exhausted equal
      obtain ⟨turns, rfl⟩ : ∃ more, turns = more + 1 :=
        Nat.exists_eq_succ_of_ne_zero (Nat.ne_of_gt (Nat.lt_of_lt_of_le
          (Nat.succ_pos tail.length) enough))
      have tailEnough : tail.length ≤ turns := Nat.le_of_succ_le_succ enough
      by_cases done : start.remaining = 0
      · have ended : ¬ MatchingEngine.goesOn order start = true := by
          simp [goesOn_iff refines start relation, done]
        rw [walk_cons, if_pos (Or.inl done)]
        refine Or.inl ⟨start.book, arrivals, ?_, relation, equal, rfl⟩
        rw [finish_unchanged going, sweep_ended ended]
      have goes : MatchingEngine.goesOn order start = true := by
        simp [goesOn_iff refines start relation, done, equal]
      by_cases stays : crosses order head.price = false
      · rw [walk_cons, if_pos (Or.inr stays)]
        refine Or.inl ⟨start.book, arrivals, ?_, relation, equal, rfl⟩
        rw [finish_unchanged going,
          sweep_succ goes (turn_stays refines relation equal stays)]
        rfl
      by_cases nonzero : head.ref ≠ 0
      case neg =>
        obtain ⟨message, failed⟩ :=
          turn_zero refines relation equal (not_not.mp nonzero) stays stp
        refine Or.inr
          ⟨⟨head, List.mem_cons_self, not_not.mp nonzero⟩, message, ?_⟩
        rw [MatchingEngine.sweep, if_pos goes, failed]
        rfl
      have crossing : ¬ (start.remaining = 0 ∨
          crosses order head.price = false) := by
        simp [done, stays]
      rw [walk_cons, if_neg crossing]
      by_cases own : SelfTrade stp order head
      · obtain ⟨book, next, turned⟩ :=
          turn_selfTrades refines relation equal nonzero stays own
        rw [if_pos own, sweep_succ goes turned]
        cases stp with
        | off => exact absurd rfl own.1
        | cancelNewest =>
            refine Or.inl ⟨start.book, arrivals, ?_, relation, equal, rfl⟩
            simp [Walk.finish, Walk.filled, Walk.filledWord]
        | cancelBoth =>
            refine Or.inl ⟨book, _, ?_, next, tailQueue, ownQueue _⟩
            simp [Walk.finish, Walk.filled, Walk.filledWord, afterPull]
        | cancelOldest =>
            rcases induction (afterPull book start) next going
                tailQueue tailEnough with
              ⟨final, after, ran, finalRelation, opposing, kept⟩ |
              ⟨⟨resting, inTail, zero⟩, failed⟩
            · refine Or.inl ⟨final, after, ?_, finalRelation, opposing,
                kept.trans (ownQueue _)⟩
              rw [← finish_afterPull head book]
              exact ran
            · exact Or.inr
                ⟨⟨resting, List.mem_cons_of_mem head inTail, zero⟩, failed⟩
      · obtain ⟨book, turned, next⟩ :=
          turn_trades refines relation equal nonzero stays own
        rw [if_neg own, sweep_succ goes turned]
        by_cases exhausted : tradedQty start.remaining head.qty = head.qty
        · rw [if_pos exhausted]
          rw [exhausted] at next
          rcases induction (afterFill order head book start) next
              going tailQueue tailEnough with
            ⟨final, after, ran, finalRelation, opposing, kept⟩ |
            ⟨⟨resting, inTail, zero⟩, failed⟩
          · refine Or.inl ⟨final, after, ?_, finalRelation, opposing,
              kept.trans (ownQueue _)⟩
            rw [← finish_afterFill order head book]
            exact ran
          · exact Or.inr
              ⟨⟨resting, List.mem_cons_of_mem head inTail, zero⟩, failed⟩
        · have ended :
              ¬ MatchingEngine.goesOn order
                (afterFill order head book start) = true := fun goes =>
            ((goesOn_iff refines (afterFill order head book start)
              next).mp goes).1 (sub_tradedQty_of_ne exhausted)
          rw [if_neg exhausted]
          refine Or.inl ⟨book, _, ?_, next,
            ArrivalBook.queue_reduce_head_remaining equal (Ne.symm exhausted),
            ownQueue _⟩
          rw [if_pos rfl, sweep_ended ended]
          simp [Walk.finish, Walk.filled, Walk.filledWord, afterFill,
            fillAgainst, going]

end Sweep

end ItchExchange.Engine
