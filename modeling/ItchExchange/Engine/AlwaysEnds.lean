import ItchExchange.Engine.Recorder

/-!
# Matching ends, and no assertion fires

`Enters` follows the matching loop of `submit` from one entry of its body to
the next.  A turn after which the body is entered again has taken the head off
the opposing queue, and changed nothing else there, so after so many turns the
queue is what it was without its first so many orders.
-/

namespace ItchExchange.Engine

open ItchExchange.Core ItchExchange.Book
open ItchExchange.Book.MapBook (Represents)

/-! ## The entries of the loop's body -/

/-- The loop from `start` enters its body in this state, after so many turns. -/
inductive Enters {B : Type} [OrderBook B] (stp : StpMode) (order : NewOrder)
    (start : Sweep B) : Nat → Sweep B → Prop where
  | first (goes : MatchingEngine.goesOn order start = true) :
      Enters stp order start 0 start
  | again {turns : Nat} {state next : Sweep B}
      (earlier : Enters stp order start turns state)
      (turned : MatchingEngine.turn stp order state = .ok (true, next))
      (goes : MatchingEngine.goesOn order next = true) :
      Enters stp order start (turns + 1) next

section Enters

variable {B : Type} [OrderBook B] {related : B → ArrivalBook → Prop}
  {admits : B → Operation → Prop} {stp : StpMode} {order : NewOrder}
  {start state next : Sweep B} {arrivals : ArrivalBook} {turns : Nat}

theorem Enters.goes (enters : Enters stp order start turns state) :
    MatchingEngine.goesOn order state = true := by
  cases enters with
  | first goes => exact goes
  | again earlier turned goes => exact goes

/-- An entered state is on the way of the loop, so many turns in. -/
theorem Enters.sweep (enters : Enters stp order start turns state)
    (more : Nat) :
    MatchingEngine.sweep stp order (turns + more) start =
      MatchingEngine.sweep stp order more state := by
  induction enters generalizing more with
  | first goes => rw [Nat.zero_add]
  | again earlier turned goes induction =>
      rw [Nat.add_assoc, Nat.add_comm 1 more, induction,
        sweep_succ earlier.goes turned, if_pos rfl]

/-- A loop which may take no more turns than these does not end. -/
theorem Enters.diverges (enters : Enters stp order start turns state) :
    MatchingEngine.sweep stp order turns start = .error .divergence := by
  have onWay := enters.sweep 0
  rw [Nat.add_zero, MatchingEngine.sweep, if_pos enters.goes] at onWay
  exact onWay

/-- A turn after which the body is entered again takes the head away. -/
theorem turn_again (refines : Refines related admits)
    {head : Resting} {tail : List Resting}
    (relation : related state.book arrivals)
    (equal : arrivals.queue (opposite order.side) = head :: tail)
    (nonzero : head.ref ≠ 0)
    (turned : MatchingEngine.turn stp order state = .ok (true, next))
    (goes : MatchingEngine.goesOn order next = true) :
    ∃ after, related next.book after ∧
      after.queue (opposite order.side) = tail := by
  have tailQueue := ArrivalBook.queue_reduce_head_exhausted equal
  by_cases stays : crosses order head.price = false
  · rw [turn_stays refines relation equal stays] at turned
    simp at turned
  by_cases own : SelfTrade stp order head
  · obtain ⟨book, reduced, taken⟩ :=
      turn_selfTrades refines relation equal nonzero stays own
    rw [taken] at turned
    cases stp with
    | off => exact absurd rfl own.1
    | cancelNewest => simp at turned
    | cancelBoth => simp at turned
    | cancelOldest =>
        simp only [Except.ok.injEq, Prod.mk.injEq, true_and] at turned
        subst turned
        exact ⟨_, reduced, tailQueue⟩
  · obtain ⟨book, taken, reduced⟩ :=
      turn_trades refines relation equal nonzero stays own
    rw [taken, Except.ok.injEq, Prod.mk.injEq] at turned
    obtain ⟨-, rfl⟩ := turned
    -- A maker which is left with shares has met all that remained.
    have exhausted : tradedQty state.remaining head.qty = head.qty := by
      by_contra other
      exact ((goesOn_iff refines _ reduced).mp goes).1
        (sub_tradedQty_of_ne other)
    rw [exhausted] at reduced
    exact ⟨_, reduced, tailQueue⟩

/-- Where the body is entered, each turn before has taken one order away. -/
theorem Enters.queue (refines : Refines related admits)
    (enters : Enters stp order start turns state)
    (relation : related start.book arrivals)
    (nonzero : ∀ resting ∈ arrivals.queue (opposite order.side),
      resting.ref ≠ 0) :
    ∃ now, related state.book now ∧
      now.queue (opposite order.side) =
        (arrivals.queue (opposite order.side)).drop turns := by
  induction enters with
  | first goes => exact ⟨arrivals, relation, rfl⟩
  | @again turns state next earlier turned goes induction =>
      obtain ⟨now, nowRelation, equal⟩ := induction
      have opposed := ((goesOn_iff refines _ nowRelation).mp earlier.goes).2
      obtain ⟨head, tail, split⟩ := List.exists_cons_of_ne_nil opposed
      have fromStart : head ∈ arrivals.queue (opposite order.side) :=
        List.mem_of_mem_drop
          (equal ▸ split ▸ List.mem_cons_self : head ∈ List.drop turns _)
      obtain ⟨after, afterRelation, rest⟩ :=
        turn_again refines nowRelation split (nonzero head fromStart)
          turned goes
      refine ⟨after, afterRelation, ?_⟩
      rw [rest, ← List.tail_drop, ← equal, split, List.tail_cons]

/-- The body is entered at most once for each opposing order. -/
theorem Enters.bounded (refines : Refines related admits)
    (enters : Enters stp order start turns state)
    (relation : related start.book arrivals)
    (nonzero : ∀ resting ∈ arrivals.queue (opposite order.side),
      resting.ref ≠ 0) :
    turns < (arrivals.queue (opposite order.side)).length ∧
      ∃ front, front ≠ 0 ∧
        OrderBook.frontAt state.book (opposite order.side)
          (OrderBook.best state.book (opposite order.side)) = .ok front := by
  obtain ⟨now, nowRelation, equal⟩ :=
    enters.queue refines relation nonzero
  have opposed := ((goesOn_iff refines _ nowRelation).mp enters.goes).2
  obtain ⟨head, tail, split⟩ := List.exists_cons_of_ne_nil opposed
  have answers := refines.answers nowRelation
  obtain ⟨-, best, front, -⟩ := ArrivalBook.head_of_queue split
  have fromStart : head ∈ arrivals.queue (opposite order.side) :=
    List.mem_of_mem_drop
      (equal ▸ split ▸ List.mem_cons_self : head ∈ List.drop turns _)
  constructor
  · rw [equal] at opposed
    exact List.length_lt_of_drop_ne_nil opposed
  · refine ⟨head.ref, nonzero head fromStart, ?_⟩
    rw [answers.best, best, answers.frontAt, front]

end Enters

/-! ## A whole submission -/

section Submit

/-- The variables of the matching loop at its start. -/
def MatchingEngine.opened {B : Type} (engine : MatchingEngine B)
    (order : NewOrder) (fills : List Fill) : Sweep B where
  book := engine.book
  stats := { engine.stats with submitted := engine.stats.submitted + 1 }
  fills
  remaining := order.qty

/-- The same engine over a recorder of these calls. -/
def MatchingEngine.recorded (engine : MatchingEngine MapBook)
    (calls : List (MapBook × Operation)) : MatchingEngine Recorder where
  book := { book := engine.book, calls }
  stp := engine.stp
  nextRef := engine.nextRef
  stats := engine.stats

/-- The parts of a submission which goes through. -/
theorem submit_eq_ok {B : Type} [OrderBook B] {engine final : MatchingEngine B}
    {order : NewOrder} {fills filled : List Fill} {report : Report}
    (submitted : engine.submit order fills = .ok (report, final, filled)) :
    ∃ state,
      MatchingEngine.sweep engine.stp order
          (OrderBook.orderCount engine.book) (engine.opened order fills) =
        .ok state ∧
      MatchingEngine.settle engine order state = .ok (report, final) := by
  unfold MatchingEngine.submit at submitted
  obtain ⟨-, -, submitted⟩ := bind_eq_ok_iff.mp submitted
  obtain ⟨-, -, submitted⟩ := bind_eq_ok_iff.mp submitted
  obtain ⟨state, swept, submitted⟩ := bind_eq_ok_iff.mp submitted
  obtain ⟨⟨report', final'⟩, settled, equal⟩ := bind_eq_ok_iff.mp submitted
  simp only [pure_eq_ok, Except.ok.injEq, Prod.mk.injEq] at equal
  obtain ⟨rfl, rfl, -⟩ := equal
  exact ⟨state, swept, settled⟩

/-- The end of a submission adds the remainder to the book, or nothing. -/
theorem settle_book {B : Type} [OrderBook B] {engine final : MatchingEngine B}
    {order : NewOrder} {state : Sweep B} {report : Report}
    (settled : MatchingEngine.settle engine order state =
      .ok (report, final)) :
    final.book = state.book ∨
      OrderBook.add state.book engine.nextRef order.side order.price
        state.remaining order.owner = .ok final.book := by
  unfold MatchingEngine.settle at settled
  simp only [pure_eq_ok] at settled
  split_ifs at settled with stopped done kind
  · simp only [Except.ok.injEq, Prod.mk.injEq] at settled
    exact Or.inl (settled.2 ▸ rfl)
  · simp only [Except.ok.injEq, Prod.mk.injEq] at settled
    exact Or.inl (settled.2 ▸ rfl)
  · simp only [Except.ok.injEq, Prod.mk.injEq] at settled
    exact Or.inl (settled.2 ▸ rfl)
  · obtain ⟨book, added, equal⟩ := bind_eq_ok_iff.mp settled
    simp only [Except.ok.injEq, Prod.mk.injEq] at equal
    exact Or.inr (equal.2 ▸ added)

/-- Every call of a submission which goes through names a resting order. -/
theorem submit_namesResting {engine final : MatchingEngine Recorder}
    {order : NewOrder} {fills filled : List Fill} {report : Report}
    {before : ArrivalBook} (serves : Recorder.Serves engine.book before)
    (submitted : engine.submit order fills = .ok (report, final, filled)) :
    ∀ call ∈ final.book.calls, Recorder.NamesResting call.1 call.2 := by
  obtain ⟨state, swept, settled⟩ := submit_eq_ok submitted
  have enough : (before.queue (opposite order.side)).length ≤
      OrderBook.orderCount engine.book := by
    rw [serves.answers.orderCount]
    exact length_queue_le before (opposite order.side)
  have relation : Recorder.Serves (engine.opened order fills).book before :=
    serves
  obtain ⟨after, served⟩ : ∃ after, Recorder.Serves state.book after := by
    rcases sweep_walks Recorder.refines engine.stp order
        (engine.opened order fills) relation rfl rfl enough with
      ⟨book, after, ran, afterServes, -⟩ | ⟨-, message, failed⟩
    · rw [swept, Except.ok.injEq] at ran
      exact ⟨after, ran ▸ afterServes⟩
    · rw [swept] at failed
      cases failed
  rcases settle_book settled with same | added
  · exact same ▸ served.named
  · have applied :
        OrderBook.apply state.book
            (.add engine.nextRef order.side order.price state.remaining
              order.owner) = .ok final.book :=
      added
    obtain ⟨last, lastServes⟩ := served.applied applied
    exact lastServes.named

/--
A submission over `MapBook` goes through, in every mode of self-trade
prevention: the loop's body is entered at most once for each opposing order,
always with an order at the front of the best level, and every call it makes
names an order which rests with the shares asked for.
-/
theorem submit_alwaysEnds (operations : List Operation)
    (engine : MatchingEngine MapBook) (order : NewOrder) (fills : List Fill)
    (ran : OrderBook.run ({} : MapBook) operations = .ok engine.book)
    (nonzero : engine.book.contains 0 = false)
    (fresh : engine.book.contains engine.nextRef = false)
    (someQty : order.qty > 0)
    (priced : order.type = .market ∨ order.price > 0) :
    let other := opposite order.side
    (∀ turns state,
      Enters engine.stp order (engine.opened order fills) turns state →
        turns < (engine.book.restingSide other).length ∧
          state.book.frontAt other (state.book.best other) ≠ 0) ∧
      ∃ report final calls filled,
        engine.submit order fills = .ok (report, final, filled) ∧
          (engine.recorded []).submit order fills =
            .ok (report, final.recorded calls, filled) ∧
          ∀ call ∈ calls, Recorder.NamesResting call.1 call.2 := by
  obtain ⟨before, accepted, represents⟩ :=
    MapBook.represents_empty.run_accepted ran
  have absent : ∀ ref, engine.book.contains ref = false →
      before.find? ref = none := by
    intro ref unknown
    have contains := Except.ok.inj (represents.answers.contains ref)
    rw [← Option.isNone_iff_eq_none, ← Option.not_isSome, ← contains]
    simpa using unknown
  have named : ∀ resting ∈ before.queue (opposite order.side),
      resting.ref ≠ 0 := fun resting member =>
    ArrivalBook.find?_eq_none_iff.mp (absent 0 nonzero) resting
      (ArrivalBook.mem_queue.mp member).1
  dsimp only
  constructor
  · intro turns state enters
    have start : Represents (engine.opened order fills).book before :=
      represents
    obtain ⟨few, front, some, atFront⟩ :=
      enters.bounded MapBook.refines start named
    rw [represents.restingSide]
    exact ⟨few, fun zero => some (Except.ok.inj atFront ▸ zero)⟩
  · have welcome : Welcome order engine.nextRef before :=
      { submittable := ⟨someQty, priced⟩
        nonzero := named
        fresh := absent engine.nextRef fresh }
    rcases submit_cases represents order fills with
      ⟨-, final, after, submitted, -⟩ | ⟨refused, -⟩
    case inr => exact absurd welcome refused
    have forwarded :=
      Recorder.forwards.submit (engine.recorded []) order fills
    cases recorded : (engine.recorded []).submit order fills with
    | error failure =>
        rw [recorded] at forwarded
        cases forwarded.trans submitted
    | ok result =>
        obtain ⟨report, finalRecorded, filled⟩ := result
        have serves : Recorder.Serves (engine.recorded []).book before :=
          ⟨represents, fun call member => absurd member List.not_mem_nil⟩
        refine ⟨report, finalRecorded.mapBook Recorder.book,
          finalRecorded.book.calls, filled, ?_, rfl,
          submit_namesResting serves recorded⟩
        rw [recorded] at forwarded
        exact forwarded.symm

/-- The bid meets three offers: one is withdrawn and two are executed. -/
theorem submit_alwaysEnds_takingBid :
    (∀ turns state,
      Enters .cancelOldest takingBid (offersEngine.opened takingBid []) turns
          state →
        turns < 3 ∧ state.book.frontAt .sell (state.book.best .sell) ≠ 0) ∧
      ∃ report final calls filled,
        (offersEngine.recorded []).submit takingBid [] =
            .ok (report, final, filled) ∧
          final.book.calls = calls ∧
          calls.map Prod.snd = [.remove 1, .execute 2 5, .execute 3 7] ∧
          ∀ call ∈ calls, Recorder.NamesResting call.1 call.2 := by
  obtain ⟨bounded, report, final, calls, filled, -, recorded, named⟩ :=
    submit_alwaysEnds offers offersEngine takingBid [] rfl (by decide)
      (by decide) (by decide) (by decide)
  have three : (offersEngine.book.restingSide .sell).length = 3 := by decide
  have issued :
      ((offersEngine.recorded []).submit takingBid []).map
          (fun result => result.2.1.book.calls.map Prod.snd) =
        .ok [.remove 1, .execute 2 5, .execute 3 7] := by
    decide
  rw [recorded, Except.map, Except.ok.injEq] at issued
  refine ⟨fun turns state enters => ?_, report, final.recorded calls, calls,
    filled, recorded, rfl, issued, named⟩
  obtain ⟨few, front⟩ := bounded turns state enters
  exact ⟨three ▸ few, front⟩

end Submit

end ItchExchange.Engine
