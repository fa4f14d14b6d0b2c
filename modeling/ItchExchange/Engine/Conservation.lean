import ItchExchange.Engine.Calls

/-!
# The engine conserves quantity

A fill takes the same shares from the incoming order and from a resting order.
The laws of the walk say so for one submission in exact natural numbers; the
totals of the book and of the engine follow in 64 bits, where they wrap.
-/

namespace ItchExchange.Engine

open ItchExchange.Core ItchExchange.Book
open ItchExchange.Book.MapBook (Represents)

/-! ## Sums over lists of orders -/

theorem naturalQty_perm {left right : List Resting}
    (perm : left.Perm right) : naturalQty left = naturalQty right :=
  (perm.map _).sum_nat

theorem wordQty_perm {left right : List Resting}
    (perm : left.Perm right) : wordQty left = wordQty right := by
  rw [wordQty_eq_ofNat, wordQty_eq_ofNat, naturalQty_perm perm]

theorem queue_perm_onSide (arrivals : ArrivalBook) (side : Side) :
    (arrivals.queue side).Perm (arrivals.onSide side) := by
  refine (List.perm_ext_iff_of_nodup
    (List.Nodup.of_map _ (arrivals.queue_refs_nodup side))
    (List.Nodup.of_map _ (arrivals.onSide_refs_nodup side))).mpr ?_
  intro resting
  rw [ArrivalBook.mem_queue, ArrivalBook.mem_onSide]

theorem wordQty_joinQueue (order : Resting) (queue : List Resting) :
    wordQty (ArrivalBook.joinQueue order queue) =
      order.qty.toUInt64 + wordQty queue := by
  rw [← wordQty_cons]
  refine wordQty_perm ?_
  unfold ArrivalBook.joinQueue
  refine List.perm_middle.trans (List.Perm.cons order ?_)
  simpa using List.perm_append_comm.trans
    (List.filter_append_perm (fun other : Resting =>
      decide (Closer order.side order.price other.price)) queue)

/-- Shares of a list of fills, in 64 bits. -/
def wordFilled (fills : List Fill) : UInt64 :=
  (fills.map fun fill => fill.qty.toUInt64).sum

theorem wordFilled_eq_ofNat (fills : List Fill) :
    wordFilled fills = UInt64.ofNat (naturalFilled fills) := by
  induction fills with
  | nil => rfl
  | cons head tail induction =>
      simp only [wordFilled, naturalFilled, List.map_cons, List.sum_cons]
        at induction ⊢
      rw [induction, UInt64.ofNat_add]
      simp

/-- The sum in the report's 32 bits. -/
theorem filled_eq_ofNat (fills : List Fill) :
    (fills.map Fill.qty).sum = UInt32.ofNat (naturalFilled fills) := by
  induction fills with
  | nil => rfl
  | cons head tail induction =>
      simp only [naturalFilled, List.map_cons, List.sum_cons]
        at induction ⊢
      rw [induction, UInt32.ofNat_add]
      simp

/-! ## One submission -/

section Walk

variable (stp : StpMode) (order : NewOrder) (remaining : Qty)
  (opposing : List Resting)

theorem walk_filled_toNat :
    (walk stp order remaining opposing).filled.toNat =
      naturalFilled (walk stp order remaining opposing).fills := by
  have balance := walk_remaining stp order remaining
    opposing
  have bound := remaining.toNat_lt_size
  rw [Walk.filled, filled_eq_ofNat, UInt32.toNat_ofNat_of_lt' (by omega)]

theorem walk_wordQty :
    wordQty opposing =
      wordFilled (walk stp order remaining opposing).fills +
        wordQty (walk stp order remaining opposing).pulled +
        wordQty (walk stp order remaining opposing).left := by
  rw [wordFilled_eq_ofNat, wordQty_eq_ofNat, wordQty_eq_ofNat,
    wordQty_eq_ofNat, ← UInt64.ofNat_add, ← UInt64.ofNat_add,
    walk_conserves]

end Walk

/-- What `submit` reports is consistent with its fills and the book. -/
structure Consistent (order : NewOrder) (report : Report)
    (fills : List Fill) (after : MatchingEngine MapBook) : Prop where
  filled : (fills.map fun fill => fill.qty.toNat).sum = report.filled.toNat
  positive : ∀ fill ∈ fills, fill.qty > 0
  bounded :
    report.filled.toNat + report.restingQty.toNat ≤ order.qty.toNat
  complete : report.outcome = .filledComplete ↔ report.filled = order.qty
  rested : report.outcome = .rested ↔ report.restingQty > 0
  whole : report.outcome = .rested →
    report.filled.toNat + report.restingQty.toNat = order.qty.toNat
  resting : report.outcome = .rested →
    after.book.restingOrder report.restingRef =
      some
        { ref := report.restingRef
          side := order.side
          price := order.price
          qty := report.restingQty
          owner := order.owner }

section Submit

variable {engine final : MatchingEngine MapBook} {order : NewOrder}
  {before after : ArrivalBook}

theorem report_complete_iff {result : Walk} {ref : OrderRef}
    (stopped : result.stopped = true → result.remaining ≠ 0) :
    (result.report order ref).outcome = .filledComplete ↔
      result.remaining = 0 := by
  unfold Walk.report
  dsimp only
  split_ifs with stops done rests
  · simpa using stopped stops
  · simpa using done
  · simpa using done
  · simpa using done

/-- A submission reports consistently. -/
theorem submitted_consistent
    (submitted : Submitted order (submission engine order before) engine
      final before after) :
    Consistent order
      ((submission engine order before).report order engine.nextRef)
      (submission engine order before).fills final := by
  have balance : naturalFilled (submission engine order before).fills +
      (submission engine order before).remaining.toNat = order.qty.toNat :=
    walk_remaining engine.stp order order.qty _
  have filled : (submission engine order before).filled.toNat =
      naturalFilled (submission engine order before).fills :=
    walk_filled_toNat engine.stp order order.qty _
  have positive : ∀ fill ∈ (submission engine order before).fills,
      fill.qty ≠ 0 :=
    walk_fill_positive engine.stp order order.qty _ fun resting member =>
      before.positive resting (ArrivalBook.mem_queue.mp member).1
  have stopped : (submission engine order before).stopped = true →
      (submission engine order before).remaining ≠ 0 :=
    walk_stopped engine.stp order order.qty _
  generalize submission engine order before = result at *
  have reported : (result.report order engine.nextRef).filled =
      result.filled := rfl
  have restingBound :
      (result.report order engine.nextRef).restingQty.toNat ≤
        result.remaining.toNat := by
    by_cases rests : result.Rests order
    · rw [(Walk.report_of_rests _ rests).2]
    · rw [(Walk.report_of_not_rests _ rests).2]
      exact Nat.zero_le _
  constructor
  case filled => rw [reported, filled, naturalFilled]
  case positive =>
    exact fun fill member =>
      UInt32.pos_iff_ne_zero.mpr (positive fill member)
  case bounded =>
    rw [reported, filled]
    omega
  case complete =>
    rw [report_complete_iff stopped, reported, ← UInt32.toNat_inj,
      ← UInt32.toNat_inj, filled, UInt32.toNat_zero]
    omega
  case rested =>
    rw [Walk.report_rested_iff]
    by_cases rests : result.Rests order
    · rw [(Walk.report_of_rests _ rests).2]
      simp [rests, UInt32.pos_iff_ne_zero, rests.2.1]
    · rw [(Walk.report_of_not_rests _ rests).2]
      simp [rests]
  case whole =>
    intro rested
    have rests := Walk.report_rested_iff.mp rested
    rw [reported, filled, (Walk.report_of_rests _ rests).2]
    exact balance
  case resting =>
    intro rested
    have rests := Walk.report_rested_iff.mp rested
    obtain ⟨ref, qty⟩ :=
      Walk.report_of_rests engine.nextRef rests
    have inQueue : result.remainder order engine.nextRef ∈
        after.queue order.side := by
      rw [submitted.own, if_pos rests]
      exact ArrivalBook.mem_joinQueue.mpr (Or.inl rfl)
    rw [ref, qty, submitted.represents.restingOrder]
    exact ArrivalBook.find?_eq_some_iff.mpr
      ⟨(ArrivalBook.mem_queue.mp inQueue).1, rfl⟩

end Submit

/-! ## The totals after one call -/

/-- Shares resting on both sides, in 64 bits. -/
def restingTotal (arrivals : ArrivalBook) : UInt64 :=
  wordQty (arrivals.queue .buy) + wordQty (arrivals.queue .sell)

theorem restingTotal_eq (arrivals : ArrivalBook) (side : Side) :
    restingTotal arrivals =
      wordQty (arrivals.queue side) +
        wordQty (arrivals.queue (opposite side)) := by
  cases side with
  | buy => rfl
  | sell => exact UInt64.add_comm _ _

namespace Event

variable (event : Event)

/-- The quantity the event reports as resting. -/
def restingQty : UInt64 :=
  (event.report?.map fun report => report.restingQty.toUInt64).getD 0

def filledQty : UInt64 := wordFilled event.fills

/-- Orders of a side which are gone although no new fill names them. -/
def withdrawnOn (side : Side) : List Resting :=
  withdrawn (event.before.book.restingSide side)
    (event.after.book.restingSide side) event.fills

/-- The orders which self-trade prevention or a cancel pulls out. -/
def withdrawn : List Resting :=
  event.withdrawnOn .buy ++ event.withdrawnOn .sell

def withdrawnQty : UInt64 := wordQty event.withdrawn

/-- Only one side loses orders. -/
theorem withdrawn_of_nil {side : Side} (none : event.withdrawnOn side = []) :
    event.withdrawn = event.withdrawnOn (opposite side) := by
  cases side with
  | buy => simp [withdrawn, none, opposite]
  | sell => simp [withdrawn, none, opposite]

end Event

section Step

variable {event : Event} {before after : ArrivalBook}

theorem withdrawnOn_eq
    (beforeRepresents : Represents event.before.book before)
    (afterRepresents : Represents event.after.book after) (side : Side) :
    event.withdrawnOn side =
      withdrawn (before.queue side) (after.queue side) event.fills := by
  rw [Event.withdrawnOn, beforeRepresents.restingSide,
    afterRepresents.restingSide]

/-- A whole reduction withdraws its own order. -/
theorem withdrawn_reduce {order : Resting}
    (member : order ∈ before.queue order.side) :
    withdrawn (before.queue order.side)
        ((before.reduce order.ref order.qty).queue order.side) [] =
      [order] := by
  have distinct := before.queue_refs_nodup order.side
  rw [ArrivalBook.queue_reduce, reduceIn_exhausted distinct member]
  have nodup := List.Nodup.of_map _ distinct
  refine List.perm_singleton.mp ((List.perm_ext_iff_of_nodup
    (nodup.sublist List.filter_sublist) (List.nodup_singleton order)).mpr ?_)
  intro resting
  simp only [List.mem_filter, List.mem_singleton, decide_eq_true_eq,
    and_imp]
  constructor
  · rintro ⟨restingMember, gone, -⟩
    have same : resting.ref = order.ref := by
      by_contra other
      exact gone resting restingMember other rfl
    exact List.inj_on_of_nodup_map distinct restingMember member same
  · rintro rfl
    refine ⟨member, fun other _ different => different, ?_⟩
    exact fun fill inNone => absurd inNone List.not_mem_nil

/-- A side whose queue stays the same loses no order. -/
theorem withdrawnOn_of_same
    (beforeRepresents : Represents event.before.book before)
    (afterRepresents : Represents event.after.book after) {side : Side}
    (same : after.queue side = before.queue side) :
    event.withdrawnOn side = [] := by
  rw [withdrawnOn_eq beforeRepresents afterRepresents, same]
  exact withdrawn_of_subset fun resting member => ⟨resting, member, rfl⟩

/-- A submission withdraws what its walk pulls out. -/
theorem withdrawn_submit {order : NewOrder}
    (beforeRepresents : Represents event.before.book before)
    (afterRepresents : Represents event.after.book after)
    (fills : event.fills = (submission event.before order before).fills)
    (submitted : Submitted order (submission event.before order before)
      event.before event.after before after) :
    event.withdrawn = (submission event.before order before).pulled := by
  have gone := withdrawnOn_eq beforeRepresents afterRepresents
  have own : event.withdrawnOn order.side = [] := by
    rw [gone, submitted.own]
    split_ifs with rests
    · exact withdrawn_of_subset fun resting member =>
        ⟨resting, ArrivalBook.mem_joinQueue.mpr (Or.inr member), rfl⟩
    · exact withdrawn_of_subset fun resting member => ⟨resting, member, rfl⟩
  rw [event.withdrawn_of_nil own, gone, submitted.opposing, fills]
  exact walk_withdrawn _ _ _ _ (before.queue_refs_nodup _)

/-- A cancel withdraws its order. -/
theorem withdrawn_cancel {order : Resting}
    (beforeRepresents : Represents event.before.book before)
    (afterRepresents : Represents event.after.book after)
    (member : order ∈ before.orders) (fills : event.fills = [])
    (reduced : after = before.reduce order.ref order.qty) :
    event.withdrawn = [order] := by
  have other : event.withdrawnOn (opposite order.side) = [] := by
    refine withdrawnOn_of_same beforeRepresents afterRepresents ?_
    rw [reduced]
    exact ArrivalBook.queue_reduce_of_ne member
      (opposite_ne order.side).symm
  rw [event.withdrawn_of_nil other, opposite_opposite,
    withdrawnOn_eq beforeRepresents afterRepresents, fills, reduced,
    withdrawn_reduce (ArrivalBook.mem_queue.mpr ⟨member, rfl⟩)]

/-- A change of mode withdraws nothing. -/
theorem withdrawn_setStpMode
    (beforeRepresents : Represents event.before.book before)
    (afterRepresents : Represents event.after.book after)
    (same : after = before) : event.withdrawn = [] := by
  rw [Event.withdrawn,
    withdrawnOn_of_same beforeRepresents afterRepresents (by rw [same]),
    withdrawnOn_of_same beforeRepresents afterRepresents (by rw [same])]
  rfl

/-- One call moves exactly what it reports. -/
theorem restingTotal_step
    (beforeRepresents : Represents event.before.book before)
    (afterRepresents : Represents event.after.book after)
    (effect : Effect event before after) :
    restingTotal after =
      restingTotal before + event.restingQty - event.filledQty -
        event.withdrawnQty := by
  cases effect with
  | submit order call submittable report fills submitted =>
      have moved : wordQty (before.queue (opposite order.side)) =
          event.filledQty + event.withdrawnQty +
            wordQty (after.queue (opposite order.side)) := by
        rw [Event.withdrawnQty, withdrawn_submit beforeRepresents
          afterRepresents fills submitted, submitted.opposing,
          Event.filledQty, fills]
        exact walk_wordQty event.before.stp order order.qty _
      have joined : wordQty (after.queue order.side) =
          event.restingQty + wordQty (before.queue order.side) := by
        rw [submitted.own, Event.restingQty, report, Option.map_some,
          Option.getD_some]
        by_cases rests : (submission event.before order before).Rests order
        · rw [if_pos rests, wordQty_joinQueue,
            (Walk.report_of_rests _ rests).2]
          rfl
        · rw [if_neg rests, (Walk.report_of_not_rests _ rests).2]
          exact (UInt64.zero_add _).symm
      rw [restingTotal_eq after order.side, restingTotal_eq before order.side,
        joined, moved]
      grind
  | cancel order call member report fills reduced stp nextRef filledQty =>
      have resting : event.restingQty = 0 := by
        rw [Event.restingQty, report]
        rfl
      have filled : event.filledQty = 0 := by
        rw [Event.filledQty, fills]
        rfl
      have own : wordQty (after.queue order.side) =
          wordQty (before.queue order.side) - order.qty.toUInt64 := by
        rw [reduced, ArrivalBook.queue_reduce]
        exact wordQty_reduceIn (before.queue_refs_nodup _)
          (ArrivalBook.mem_queue.mpr ⟨member, rfl⟩) (UInt32.le_refl _)
      have other : after.queue (opposite order.side) =
          before.queue (opposite order.side) := by
        rw [reduced]
        exact ArrivalBook.queue_reduce_of_ne member
          (opposite_ne order.side).symm
      rw [restingTotal_eq after order.side, restingTotal_eq before order.side,
        resting, filled, own, other, Event.withdrawnQty,
        withdrawn_cancel beforeRepresents afterRepresents member fills
          reduced, wordQty_cons, wordQty_nil]
      grind
  | setStpMode mode call report fills same nextRef filledQty =>
      have resting : event.restingQty = 0 := by
        rw [Event.restingQty, report]
        rfl
      have filled : event.filledQty = 0 := by
        rw [Event.filledQty, fills]
        rfl
      rw [Event.withdrawnQty, withdrawn_setStpMode beforeRepresents
        afterRepresents same, resting, filled, same, wordQty_nil]
      grind

/-- The engine's counter of filled shares counts the fills of every call. -/
theorem filledQty_step (effect : Effect event before after) :
    event.after.stats.filledQty =
      event.before.stats.filledQty + event.filledQty := by
  cases effect with
  | submit order call submittable report fills submitted =>
      rw [submitted.filledQty, Event.filledQty, fills]
      rfl
  | cancel order call member report fills reduced stp nextRef filledQty =>
      rw [filledQty, Event.filledQty, fills]
      exact (UInt64.add_zero _).symm
  | setStpMode mode call report fills same nextRef filledQty =>
      rw [filledQty, Event.filledQty, fills]
      exact (UInt64.add_zero _).symm

end Step

/-! ## Whole runs -/

/-- An event reports consistently, and withdraws only what its call may. -/
def Event.Consistent (event : Event) : Prop :=
  match event.call with
  | .submit order =>
      ∃ report, event.report? = some report ∧
        Engine.Consistent order report event.fills event.after ∧
        report.stpCancelledResting = UInt32.ofNat event.withdrawn.length ∧
        ∀ resting ∈ event.withdrawn,
          SelfTrade event.before.stp order resting
  | .cancel ref =>
      ∃ resting, event.before.book.restingOrder ref = some resting ∧
        event.withdrawn = [resting]
  | .setStpMode _ => event.withdrawn = []

theorem consistent_of_effect {event : Event} {before after : ArrivalBook}
    (beforeRepresents : Represents event.before.book before)
    (afterRepresents : Represents event.after.book after)
    (effect : Effect event before after) : event.Consistent := by
  unfold Event.Consistent
  cases effect with
  | submit order call submittable report fills submitted =>
      rw [call]
      refine ⟨_, report, ?_, ?_, ?_⟩
      · rw [fills]
        exact submitted_consistent submitted
      · rw [withdrawn_submit beforeRepresents afterRepresents fills submitted]
        rfl
      · rw [withdrawn_submit beforeRepresents afterRepresents fills submitted]
        exact walk_pulled _ _ _ _
  | cancel order call member report fills reduced stp nextRef filledQty =>
      rw [call]
      refine ⟨order, ?_, withdrawn_cancel beforeRepresents afterRepresents
        member fills reduced⟩
      rw [beforeRepresents.restingOrder]
      exact ArrivalBook.find?_eq_some_iff.mpr ⟨member, rfl⟩
  | setStpMode mode call report fills same nextRef filledQty =>
      rw [call]
      exact withdrawn_setStpMode beforeRepresents afterRepresents same

/-- Every run moves exactly what its events report. -/
theorem play_conserves (engine : MatchingEngine MapBook)
    {before : ArrivalBook} {calls : List Call} {events : List Event}
    (represents : Represents engine.book before)
    (played : engine.play calls = .ok events) :
    ∃ after, Represents (engine.final events).book after ∧
      (∀ event ∈ events, event.Consistent) ∧
      restingTotal after =
        restingTotal before + (events.map Event.restingQty).sum -
          (events.map Event.filledQty).sum -
          (events.map Event.withdrawnQty).sum ∧
      (engine.final events).stats.filledQty =
        engine.stats.filledQty + (events.map Event.filledQty).sum := by
  induction calls generalizing engine before events with
  | nil =>
      rw [MatchingEngine.play, Except.ok.injEq] at played
      subst played
      refine ⟨before, represents, by simp, ?_, ?_⟩
      · simp
      · exact (UInt64.add_zero _).symm
  | cons call rest induction =>
      obtain ⟨event, more, called, playedRest, rfl⟩ := play_cons.mp played
      obtain ⟨rfl, middle, middleRepresents, effect⟩ :=
        call_effect represents called
      obtain ⟨after, afterRepresents, consistent, total, filled⟩ :=
        induction _ middleRepresents playedRest
      refine ⟨after, afterRepresents, ?_, ?_, ?_⟩
      · exact List.forall_mem_cons.mpr
          ⟨consistent_of_effect represents middleRepresents effect,
            consistent⟩
      · rw [total, restingTotal_step represents middleRepresents effect]
        simp only [List.map_cons, List.sum_cons]
        grind
      · rw [MatchingEngine.final, filled, filledQty_step effect]
        simp only [List.map_cons, List.sum_cons]
        grind

/-- The total quantity of a book, as its counters have it. -/
def totalQty (book : MapBook) : UInt64 :=
  book.stats.totalQty.get .buy + book.stats.totalQty.get .sell

theorem totalQty_eq {book : MapBook} {arrivals : ArrivalBook}
    (represents : Represents book arrivals) :
    totalQty book = restingTotal arrivals := by
  have stats : book.stats = arrivals.stats := represents.answers.stats
  rw [totalQty, restingTotal, stats,
    wordQty_perm (queue_perm_onSide arrivals .buy),
    wordQty_perm (queue_perm_onSide arrivals .sell)]
  rfl

/--
The engine conserves quantity: every submission reports what its fills add up
to and what rests, and after every run the book holds what came to rest less
what was filled and less what self-trade prevention or a cancel pulled out.
-/
theorem engine_conservesQuantity (stp : StpMode) (calls : List Call)
    (events : List Event)
    (played : (MatchingEngine.start stp).play calls = .ok events) :
    let final := (MatchingEngine.start stp).final events
    (∀ event ∈ events, event.Consistent) ∧
      totalQty final.book =
        (events.map Event.restingQty).sum -
          (events.map Event.filledQty).sum -
          (events.map Event.withdrawnQty).sum ∧
      final.stats.filledQty = (events.map Event.filledQty).sum := by
  obtain ⟨after, represents, consistent, total, filled⟩ :=
    play_conserves (MatchingEngine.start stp)
      MapBook.represents_empty played
  refine ⟨consistent, ?_, ?_⟩
  · rw [totalQty_eq represents, total]
    exact congrArg₂ (· - ·)
      (congrArg₂ (· - ·) (UInt64.zero_add _) rfl) rfl
  · rw [filled]
    exact UInt64.zero_add _

/-- Bids of two participants, a cancelling offer of one, and a cancel. -/
def exchange : List Call :=
  [.submit { clientId := 1, owner := 3, side := .buy, price := 100, qty := 4 },
    .submit { clientId := 2, owner := 5, side := .buy, price := 99, qty := 6 },
    .submit { clientId := 3, owner := 3, side := .sell, price := 99, qty := 5 },
    .cancel 2]

def exchangeEvents : List Event :=
  ((MatchingEngine.start .cancelOldest).play exchange).toOption.getD []

theorem engine_conservesQuantity_exchange :
    exchangeEvents.map Event.restingQty = [4, 6, 0, 0] ∧
      exchangeEvents.map Event.filledQty = [0, 0, 5, 0] ∧
      exchangeEvents.map Event.withdrawnQty = [0, 0, 4, 1] ∧
      totalQty
        ((MatchingEngine.start .cancelOldest).final
          exchangeEvents).book = 0 := by
  obtain ⟨-, total, -⟩ :=
    engine_conservesQuantity .cancelOldest exchange exchangeEvents rfl
  have resting : exchangeEvents.map Event.restingQty = [4, 6, 0, 0] := by
    decide
  have filled : exchangeEvents.map Event.filledQty = [0, 0, 5, 0] := by
    decide
  have pulled : exchangeEvents.map Event.withdrawnQty = [0, 0, 4, 1] := by
    decide
  rw [resting, filled, pulled] at total
  exact ⟨resting, filled, pulled, total.trans (by decide)⟩

end ItchExchange.Engine
