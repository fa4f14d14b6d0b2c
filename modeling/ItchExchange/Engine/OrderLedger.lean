import ItchExchange.Engine.Conservation
import ItchExchange.Engine.PooledEngine

/-!
# What becomes of each order

The ledger of one reference: what comes to rest under it is what fills take, what
is withdrawn, and what still rests.  A fill takes from an order which rested, at
that order's price, and while self-trade prevention is on never from an order of
the same owner, unless that is the anonymous one; and no fill is at a worse price
than an order which it left.
-/

namespace ItchExchange.Engine

open ItchExchange.Core ItchExchange.Book
open ItchExchange.Book.MapBook (Represents)

/-! ## Shares under one reference -/

/-- Shares resting under a reference. -/
def sharesUnder (ref : OrderRef) (orders : List Resting) : Nat :=
  naturalQty (orders.filter fun resting => decide (resting.ref = ref))

/-- Shares which fills take from the order under a reference. -/
def filledUnder (ref : OrderRef) (fills : List Fill) : Nat :=
  naturalFilled (fills.filter fun fill => decide (fill.resting = ref))

section Shares

variable (ref : OrderRef)

@[simp]
theorem sharesUnder_nil : sharesUnder ref [] = 0 := rfl

@[simp]
theorem sharesUnder_cons (head : Resting) (tail : List Resting) :
    sharesUnder ref (head :: tail) =
      (if head.ref = ref then head.qty.toNat else 0) +
        sharesUnder ref tail := by
  unfold sharesUnder naturalQty
  split_ifs with same <;> simp [same]

@[simp]
theorem sharesUnder_append (first second : List Resting) :
    sharesUnder ref (first ++ second) =
      sharesUnder ref first + sharesUnder ref second := by
  simp [sharesUnder, naturalQty]

theorem sharesUnder_perm {first second : List Resting}
    (perm : first.Perm second) :
    sharesUnder ref first = sharesUnder ref second :=
  naturalQty_perm (perm.filter _)

@[simp]
theorem filledUnder_nil : filledUnder ref [] = 0 := rfl

@[simp]
theorem filledUnder_cons (head : Fill) (tail : List Fill) :
    filledUnder ref (head :: tail) =
      (if head.resting = ref then head.qty.toNat else 0) +
        filledUnder ref tail := by
  unfold filledUnder naturalFilled
  split_ifs with same <;> simp [same]

/-- The shares under a reference are those of the order which has it. -/
theorem sharesUnder_orders (arrivals : ArrivalBook) :
    sharesUnder ref arrivals.orders =
      ((arrivals.find? ref).map fun resting => resting.qty.toNat).getD 0 := by
  cases found : arrivals.find? ref with
  | none =>
      have none : arrivals.orders.filter
          (fun resting => decide (resting.ref = ref)) = [] := by
        rw [List.filter_eq_nil_iff]
        intro resting member
        simpa using ArrivalBook.find?_eq_none_iff.mp found resting member
      rw [sharesUnder, none]
      rfl
  | some order =>
      obtain ⟨member, rfl⟩ := ArrivalBook.find?_eq_some_iff.mp found
      have only : arrivals.orders.filter
          (fun resting => decide (resting.ref = order.ref)) = [order] := by
        have nodup := List.Nodup.of_map _ arrivals.distinct
        refine List.perm_singleton.mp ((List.perm_ext_iff_of_nodup
          (nodup.filter _) (List.nodup_singleton order)).mpr ?_)
        intro resting
        rw [List.mem_filter, List.mem_singleton, decide_eq_true_eq]
        constructor
        · rintro ⟨inOrders, same⟩
          exact arrivals.eq_of_ref_eq inOrders member same
        · rintro rfl
          exact ⟨member, rfl⟩
      rw [sharesUnder, only]
      simp [naturalQty]

theorem sharesUnder_queues (arrivals : ArrivalBook) (side : Side) :
    sharesUnder ref arrivals.orders =
      sharesUnder ref (arrivals.queue side) +
        sharesUnder ref (arrivals.queue (opposite side)) := by
  have whole : (arrivals.queue side ++
      arrivals.queue (opposite side)).Perm arrivals.orders := by
    refine (List.perm_ext_iff_of_nodup ?_
      (List.Nodup.of_map _ arrivals.distinct)).mpr fun resting => ?_
    · refine List.Nodup.append
        (List.Nodup.of_map _ (arrivals.queue_refs_nodup side))
        (List.Nodup.of_map _ (arrivals.queue_refs_nodup (opposite side))) ?_
      intro resting first second
      have same := (ArrivalBook.mem_queue.mp first).2.symm.trans
        (ArrivalBook.mem_queue.mp second).2
      exact opposite_ne side same.symm
    · rw [List.mem_append]
      constructor
      · rintro (member | member)
        · exact (ArrivalBook.mem_queue.mp member).1
        · exact (ArrivalBook.mem_queue.mp member).1
      · exact fun member => mem_queues member side
  rw [← sharesUnder_append, sharesUnder_perm ref whole]

end Shares

/-! ## One walk -/

section Walk

variable (stp : StpMode) (order : NewOrder)

/-- Every order of the queue is filled, pulled out or left, share by share. -/
theorem walk_balances (ref : OrderRef) (remaining : Qty)
    (opposing : List Resting) :
    filledUnder ref (walk stp order remaining opposing).fills +
        sharesUnder ref (walk stp order remaining opposing).pulled +
        sharesUnder ref (walk stp order remaining opposing).left =
      sharesUnder ref opposing := by
  refine walk_induction (motive := fun _ opposing result =>
    filledUnder ref result.fills + sharesUnder ref result.pulled +
      sharesUnder ref result.left = sharesUnder ref opposing)
    ?ended ?halts ?refused ?pullsBoth ?pulls ?exhausts ?partly
    remaining opposing
  case ended => simp
  case halts => simp
  case refused => simp
  case pullsBoth => simp
  case pulls =>
    intro _ head tail _ rest induction
    simp only [sharesUnder_cons]
    omega
  case exhausts =>
    intro _ head tail _ _ rest induction
    simp only [filledUnder_cons, sharesUnder_cons, fillAgainst]
    omega
  case partly =>
    intro remaining head tail _ less
    have difference :=
      UInt32.toNat_sub_of_le _ _ (UInt32.le_of_lt less)
    have bound := UInt32.lt_iff_toNat_lt.mp less
    simp only [filledUnder_cons, filledUnder_nil, sharesUnder_cons,
      sharesUnder_nil, fillAgainst]
    split_ifs <;> omega

/-- A fill takes no more than rests, at a price which crosses. -/
theorem walk_fill_from (remaining : Qty) (opposing : List Resting) :
    ∀ fill ∈ (walk stp order remaining opposing).fills,
      ∃ resting ∈ opposing, fill = fillAgainst order resting fill.qty ∧
        fill.qty ≤ resting.qty ∧ crosses order resting.price = true ∧
        ¬ SelfTrade stp order resting := by
  induction opposing generalizing remaining with
  | nil => exact fun _ member => absurd member List.not_mem_nil
  | cons head tail induction =>
      have inTail : ∀ remaining,
          ∀ fill ∈ (walk stp order remaining tail).fills,
            ∃ resting ∈ head :: tail,
              fill = fillAgainst order resting fill.qty ∧
                fill.qty ≤ resting.qty ∧
                crosses order resting.price = true ∧
                ¬ SelfTrade stp order resting := by
        intro remaining fill member
        obtain ⟨resting, inside, rest⟩ := induction remaining fill member
        exact ⟨resting, List.mem_cons_of_mem head inside, rest⟩
      rw [walk_cons]
      split_ifs with stays own
      · exact fun _ member => absurd member List.not_mem_nil
      · cases stp with
        | cancelOldest => exact inTail remaining
        | off => exact fun _ member => absurd member List.not_mem_nil
        | cancelNewest => exact fun _ member => absurd member List.not_mem_nil
        | cancelBoth => exact fun _ member => absurd member List.not_mem_nil
      · have crossing : crosses order head.price = true := by
          simpa using fun crossed => stays (Or.inr crossed)
        have fromHead : ∃ resting ∈ head :: tail,
            fillAgainst order head (tradedQty remaining head.qty) =
                fillAgainst order resting
                  (tradedQty remaining head.qty) ∧
              tradedQty remaining head.qty ≤ resting.qty ∧
              crosses order resting.price = true ∧
              ¬ SelfTrade stp order resting :=
          ⟨head, List.mem_cons_self, rfl,
            tradedQty_le_available remaining head.qty, crossing, own⟩
        dsimp only
        by_cases exhausted : tradedQty remaining head.qty = head.qty
        · rw [if_pos exhausted]
          intro fill member
          rcases List.mem_cons.mp member with rfl | inRest
          · exact fromHead
          · exact inTail _ fill inRest
        · rw [if_neg exhausted]
          intro fill member
          rw [List.mem_singleton.mp member]
          exact fromHead

/-- Down a queue in price order, no fill is worse than what it leaves. -/
theorem walk_noTradeThrough (side : Side) (remaining : Qty)
    (opposing : List Resting)
    (sorted : opposing.Pairwise fun first second =>
      ¬ Closer side second.price first.price) :
    ∀ fill ∈ (walk stp order remaining opposing).fills,
      ∀ resting ∈ (walk stp order remaining opposing).left,
        ¬ Closer side resting.price fill.price := by
  revert sorted
  refine walk_induction (motive := fun _ opposing result =>
    (opposing.Pairwise fun first second =>
      ¬ Closer side second.price first.price) →
      ∀ fill ∈ result.fills, ∀ resting ∈ result.left,
        ¬ Closer side resting.price fill.price)
    ?ended ?halts ?refused ?pullsBoth ?pulls ?exhausts ?partly
    remaining opposing
  case ended => simp
  case halts => simp
  case refused => simp
  case pullsBoth => simp
  case pulls =>
    intro _ head tail _ rest induction sorted
    exact induction (List.pairwise_cons.mp sorted).2
  case exhausts =>
    intro remaining head tail _ _ rest induction sorted fill member resting
      left
    obtain ⟨ahead, sortedTail⟩ := List.pairwise_cons.mp sorted
    rcases List.mem_cons.mp member with rfl | inRest
    · obtain ⟨before, inTail, -, price⟩ :=
        walk_left stp order _ tail resting left
      rw [← price]
      exact ahead before inTail
    · exact induction sortedTail fill inRest resting left
  case partly =>
    intro _ head tail _ _ sorted fill member resting left
    rw [List.mem_singleton.mp member]
    rcases List.mem_cons.mp left with rfl | inTail
    · exact Closer.irrefl side head.price
    · exact (List.pairwise_cons.mp sorted).1 resting inTail

end Walk

/-- The queue of a side is in price order. -/
theorem queue_sorted (arrivals : ArrivalBook) (side : Side) :
    (arrivals.queue side).Pairwise fun first second =>
      ¬ Closer side second.price first.price := by
  rw [ArrivalBook.queue, List.pairwise_flatMap]
  constructor
  · intro price _
    refine List.pairwise_of_forall_mem_list fun first inFirst second inSecond =>
      ?_
    rw [(ArrivalBook.mem_level.mp inFirst).2.2,
      (ArrivalBook.mem_level.mp inSecond).2.2]
    exact Closer.irrefl side price
  · refine (arrivals.prices_pairwise side).imp fun closer first inFirst second
      inSecond => ?_
    rw [(ArrivalBook.mem_level.mp inFirst).2.2,
      (ArrivalBook.mem_level.mp inSecond).2.2]
    exact closer.asymm

/-! ## Every event of a run -/

/-- Every event of a run is the effect of a call between represented books. -/
theorem play_effects {engine : MatchingEngine MapBook} {before : ArrivalBook}
    {calls : List Call} {events : List Event}
    (represents : Represents engine.book before)
    (played : engine.play calls = .ok events) :
    ∀ event ∈ events, ∃ before after,
      Represents event.before.book before ∧
        Represents event.after.book after ∧ Effect event before after := by
  induction calls generalizing engine before events with
  | nil =>
      cases played
      exact fun _ member => absurd member List.not_mem_nil
  | cons call rest induction =>
      obtain ⟨event, more, called, playedRest, rfl⟩ := play_cons.mp played
      obtain ⟨rfl, middle, middleRepresents, effect⟩ :=
        call_effect represents called
      exact List.forall_mem_cons.mpr
        ⟨⟨before, middle, represents, middleRepresents, effect⟩,
          induction middleRepresents playedRest⟩

/-- The fills of a submission are fair to both sides. -/
structure Event.Fair (event : Event) (order : NewOrder) : Prop where
  taken : ∀ fill ∈ event.fills, ∃ resting,
    event.before.book.restingOrder fill.resting = some resting ∧
      resting.side = opposite order.side ∧
      fill = fillAgainst order resting fill.qty ∧ 0 < fill.qty ∧
      fill.qty ≤ resting.qty ∧ crosses order resting.price = true ∧
      ¬ SelfTrade event.before.stp order resting
  best : ∀ fill ∈ event.fills,
    ∀ resting ∈ event.after.book.restingSide (opposite order.side),
      ¬ Closer (opposite order.side) resting.price fill.price

theorem fair_of_effect {event : Event} {before after : ArrivalBook}
    (beforeRepresents : Represents event.before.book before)
    (afterRepresents : Represents event.after.book after)
    (effect : Effect event before after) {order : NewOrder}
    (submits : event.call = .submit order) : event.Fair order := by
  cases effect with
  | cancel other call => rw [submits] at call; cases call
  | setStpMode mode call => rw [submits] at call; cases call
  | submit other call submittable report fills submitted =>
      rw [submits] at call
      cases call
      constructor
      · intro fill member
        rw [fills] at member
        obtain ⟨resting, inQueue, same, enough, crossing, others⟩ :=
          walk_fill_from _ _ _ _ fill member
        obtain ⟨inBook, side⟩ := ArrivalBook.mem_queue.mp inQueue
        have positive := walk_fill_positive event.before.stp order order.qty
          (before.queue (opposite order.side))
          (fun resting inside =>
            before.positive resting (ArrivalBook.mem_queue.mp inside).1)
          fill member
        refine ⟨resting, ?_, side, same, UInt32.pos_iff_ne_zero.mpr positive,
          enough, crossing, others⟩
        rw [beforeRepresents.restingOrder, same]
        exact ArrivalBook.find?_eq_some_iff.mpr ⟨inBook, rfl⟩
      · intro fill member resting left
        rw [fills] at member
        rw [afterRepresents.restingSide, submitted.opposing] at left
        exact walk_noTradeThrough event.before.stp order _ order.qty _
          (queue_sorted before _) fill member resting left

/--
In every run of the engine each fill takes from an order which rested on the
other side, at that order's price and for no more than it held; the price is one
the incoming order accepts, no order which is left has a better one, and while
self-trade prevention is on no owner but the anonymous one trades with himself.
-/
theorem engine_fillsFairly (operations : List Operation)
    (engine : MatchingEngine MapBook) (calls : List Call)
    (events : List Event)
    (ran : OrderBook.run ({} : MapBook) operations = .ok engine.book)
    (played : engine.play calls = .ok events) :
    ∀ event ∈ events, ∀ order, event.call = .submit order →
      event.Fair order := by
  obtain ⟨arrivals, -, represents⟩ :=
    MapBook.represents_empty.run_accepted ran
  intro event member order submits
  obtain ⟨before, after, beforeRepresents, afterRepresents, effect⟩ :=
    play_effects represents played event member
  exact fair_of_effect beforeRepresents afterRepresents effect submits

theorem engine_fillsFairly_exchange :
    (∀ event ∈ exchangeEvents, ∀ order, event.call = .submit order →
      event.Fair order) ∧
      (exchangeEvents.map fun event => event.fills.length) = [0, 0, 1, 0] :=
  ⟨engine_fillsFairly [] (MatchingEngine.start .cancelOldest) exchange
    exchangeEvents rfl rfl, by decide⟩

/-! ## The ledger of a reference -/

/-- Shares which the book holds under a reference. -/
def sharesOf (book : MapBook) (ref : OrderRef) : Nat :=
  ((book.restingOrder ref).map fun resting => resting.qty.toNat).getD 0

theorem sharesOf_eq {book : MapBook} {arrivals : ArrivalBook}
    (represents : Represents book arrivals) (ref : OrderRef) :
    sharesOf book ref = sharesUnder ref arrivals.orders := by
  rw [sharesUnder_orders, sharesOf, represents.restingOrder]

/-- Shares which an event reports to rest under a reference. -/
def Event.broughtUnder (event : Event) (ref : OrderRef) : Nat :=
  (event.report?.map fun report =>
    if report.restingRef = ref then report.restingQty.toNat else 0).getD 0

/-- One call keeps the ledger of every reference balanced. -/
theorem sharesUnder_step {event : Event} {before after : ArrivalBook}
    (beforeRepresents : Represents event.before.book before)
    (afterRepresents : Represents event.after.book after)
    (effect : Effect event before after) (ref : OrderRef) :
    sharesUnder ref before.orders + event.broughtUnder ref =
      filledUnder ref event.fills + sharesUnder ref event.withdrawn +
        sharesUnder ref after.orders := by
  cases effect with
  | submit order call submittable report fills submitted =>
      have moved := walk_balances event.before.stp order ref order.qty
        (before.queue (opposite order.side))
      change filledUnder ref (submission event.before order before).fills +
        sharesUnder ref (submission event.before order before).pulled +
        sharesUnder ref (submission event.before order before).left = _
        at moved
      rw [withdrawn_submit beforeRepresents afterRepresents fills submitted,
        fills, sharesUnder_queues ref before order.side,
        sharesUnder_queues ref after order.side, submitted.opposing,
        submitted.own, Event.broughtUnder, report, Option.map_some,
        Option.getD_some]
      by_cases rests : (submission event.before order before).Rests order
      · obtain ⟨reported, resting⟩ :=
          Walk.report_of_rests event.before.nextRef rests
        rw [if_pos rests, reported, resting,
          sharesUnder_perm ref (joinQueue_perm _ _), sharesUnder_cons]
        simp only [Walk.remainder]
        by_cases mine : event.before.nextRef = ref
        · simp only [mine, if_true]
          omega
        · simp only [mine, if_false]
          omega
      · rw [if_neg rests, (Walk.report_of_not_rests _ rests).2]
        simp only [UInt32.toNat_zero, ite_self]
        omega
  | cancel order call member report fills reduced stp nextRef filledQty =>
      have exhausted : order.less order.qty = none := by
        simp [Resting.less]
      rw [withdrawn_cancel beforeRepresents afterRepresents member fills
        reduced, fills, Event.broughtUnder, report, sharesUnder_orders,
        sharesUnder_orders, reduced]
      simp only [Option.map_none, Option.getD_none, sharesUnder_cons,
        sharesUnder_nil, filledUnder_nil]
      by_cases own : ref = order.ref
      · subst own
        rw [ArrivalBook.find?_reduce_self member, exhausted,
          ArrivalBook.find?_eq_some_iff.mpr ⟨member, rfl⟩]
        simp
      · rw [ArrivalBook.find?_reduce_of_ne own, if_neg fun same =>
          own same.symm]
        omega
  | setStpMode mode call report fills same nextRef filledQty =>
      rw [withdrawn_setStpMode beforeRepresents afterRepresents same, fills,
        Event.broughtUnder, report, same]
      simp

/--
In every run of the engine the ledger of every reference balances, to the share:
what rested under it before and what the run reports to rest under it is what
fills took, what was withdrawn, and what still rests.
-/
theorem engine_balancesEachOrder (operations : List Operation)
    (engine : MatchingEngine MapBook) (calls : List Call)
    (events : List Event) (ref : OrderRef)
    (ran : OrderBook.run ({} : MapBook) operations = .ok engine.book)
    (played : engine.play calls = .ok events) :
    sharesOf engine.book ref +
        (events.map fun event => event.broughtUnder ref).sum =
      (events.map fun event => filledUnder ref event.fills).sum +
        (events.map fun event => sharesUnder ref event.withdrawn).sum +
        sharesOf (engine.final events).book ref := by
  obtain ⟨arrivals, -, represents⟩ :=
    MapBook.represents_empty.run_accepted ran
  clear ran
  induction calls generalizing engine arrivals events with
  | nil =>
      cases played
      simp [MatchingEngine.final]
  | cons call rest induction =>
      obtain ⟨event, more, called, playedRest, rfl⟩ := play_cons.mp played
      obtain ⟨rfl, middle, middleRepresents, effect⟩ :=
        call_effect represents called
      have here := sharesUnder_step represents middleRepresents effect ref
      have later := induction event.after more playedRest middle
        middleRepresents
      rw [sharesOf_eq middleRepresents] at later
      rw [sharesOf_eq represents, MatchingEngine.final]
      simp only [List.map_cons, List.sum_cons]
      omega

theorem engine_balancesEachOrder_exchange :
    (exchangeEvents.map fun event => event.broughtUnder 2) = [0, 6, 0, 0] ∧
      (exchangeEvents.map fun event => filledUnder 2 event.fills) =
        [0, 0, 5, 0] ∧
      (exchangeEvents.map fun event => sharesUnder 2 event.withdrawn) =
        [0, 0, 0, 1] ∧
      sharesOf ((MatchingEngine.start .cancelOldest).final
        exchangeEvents).book 2 = 0 := by
  have law := engine_balancesEachOrder [] (MatchingEngine.start .cancelOldest)
    exchange exchangeEvents 2 rfl rfl
  have brought : (exchangeEvents.map fun event => event.broughtUnder 2) =
      [0, 6, 0, 0] := by
    decide
  have filled : (exchangeEvents.map fun event =>
      filledUnder 2 event.fills) = [0, 0, 5, 0] := by
    decide
  have pulled : (exchangeEvents.map fun event =>
      sharesUnder 2 event.withdrawn) = [0, 0, 0, 1] := by
    decide
  have none : sharesOf (MatchingEngine.start .cancelOldest).book 2 = 0 := by
    decide
  rw [brought, filled, pulled, none] at law
  refine ⟨brought, filled, pulled, ?_⟩
  simpa using law

end ItchExchange.Engine
