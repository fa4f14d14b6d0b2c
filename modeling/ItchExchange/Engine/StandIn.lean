import ItchExchange.Book.FlatBookRefinement
import ItchExchange.Book.PriceTimeQueue
import ItchExchange.Engine.Calls
import ItchExchange.Library.Simulation

/-!
# One book in the place of another

The engine is a template over its book.  `StandsIn` collects what one book has
to do so that the engine over it does whatever the engine over another book
does: it answers the engine's questions alike and carries out the calls which
the other book carries out.  Every function of the engine then simulates itself,
and so does a whole list of calls.

A book with finite storage adds an order only where the other book fits into the
storage, and its level maps may refuse a price.
-/

namespace ItchExchange.Engine

open ItchExchange.Core ItchExchange.Book Simulation

variable {B C : Type} [OrderBook B] [OrderBook C]

/-! ## Serving a list of calls -/

/-- What a call returns to the client; only `submit` reports and fills. -/
structure Reply where
  report? : Option Report := none
  fills : List Fill := []
deriving DecidableEq, Repr

namespace MatchingEngine

/-- One call of a client, over any book. -/
def handle (engine : MatchingEngine B) :
    Call → Checked (Reply × MatchingEngine B)
  | .submit order => do
      let (report, engine, fills) ← engine.submit order []
      pure ({ report? := some report, fills }, engine)
  | .cancel ref => do
      let engine ← engine.cancel ref
      pure ({}, engine)
  | .setStpMode mode => .ok ({}, engine.setStpMode mode)

/-- A list of calls, one after another. -/
def serve (engine : MatchingEngine B) (calls : List Call) :
    Checked (List Reply × MatchingEngine B) :=
  transcript handle engine calls

/-- The variables of the matching loop when a submission enters it. -/
def opening (engine : MatchingEngine B) (order : NewOrder)
    (fills : List Fill) : Sweep B where
  book := engine.book
  stats := { engine.stats with submitted := engine.stats.submitted + 1 }
  fills
  remaining := order.qty

end MatchingEngine

/-- What an event of the reference book returned to the client. -/
def Event.reply (event : Event) : Reply where
  report? := event.report?
  fills := event.fills

/-- A call on the reference book, without its event. -/
theorem handle_eq_call (engine : MatchingEngine MapBook) (call : Call) :
    engine.handle call =
      (engine.call call).map fun event => (event.reply, event.after) := by
  cases call with
  | submit order =>
      rw [MatchingEngine.handle, MatchingEngine.call]
      cases engine.submit order [] <;> rfl
  | cancel ref =>
      rw [MatchingEngine.handle, MatchingEngine.call]
      cases engine.cancel ref <;> rfl
  | setStpMode mode => rfl

/-- A list of calls on the reference book, without its events. -/
theorem serve_eq_play (engine : MatchingEngine MapBook) (calls : List Call) :
    engine.serve calls =
      (engine.play calls).map fun events =>
        (events.map Event.reply, engine.final events) := by
  induction calls generalizing engine with
  | nil => rfl
  | cons call rest induction =>
      rw [MatchingEngine.serve, transcript, handle_eq_call,
        MatchingEngine.play]
      cases engine.call call with
      | error failure => rfl
      | ok event =>
          change (transcript MatchingEngine.handle event.after rest >>= _) = _
          rw [← MatchingEngine.serve, induction, ok_bind]
          cases event.after.play rest <;> rfl

/-! ## What a book has to do -/

/-- `B` does for the engine whatever `C` does for it. -/
structure StandsIn (related : B → C → Prop) (takes : B → Side → Price → Prop)
    (fits : C → Prop) : Prop where
  isEmpty : ∀ {book other}, related book other → ∀ side,
    OrderBook.isEmpty book side = OrderBook.isEmpty other side
  best : ∀ {book other}, related book other → ∀ side,
    OrderBook.best book side = OrderBook.best other side
  frontAt : ∀ {book other}, related book other → ∀ side price,
    OrderBook.frontAt book side price = OrderBook.frontAt other side price
  orderCount : ∀ {book other}, related book other →
    OrderBook.orderCount book = OrderBook.orderCount other
  qtyOf : ∀ {book other}, related book other → ∀ ref,
    Simulates Eq (OrderBook.qtyOf book ref) (OrderBook.qtyOf other ref)
  ownerOf : ∀ {book other}, related book other → ∀ ref,
    Simulates Eq (OrderBook.ownerOf book ref) (OrderBook.ownerOf other ref)
  execute : ∀ {book other}, related book other → ∀ ref shares,
    Simulates (fun result value => related result.2 value.2)
      (OrderBook.execute book ref shares) (OrderBook.execute other ref shares)
  remove : ∀ {book other}, related book other → ∀ ref,
    Simulates related (OrderBook.remove book ref)
      (OrderBook.remove other ref)
  add : ∀ {book other}, related book other →
    ∀ {ref side price qty owner next}, takes book side price → price ≠ 0 →
      OrderBook.add other ref side price qty owner = .ok next → fits next →
        ∃ added, OrderBook.add book ref side price qty owner = .ok added ∧
          related added next

/-- The variables of two matching loops, equal but for the book. -/
structure SameSweep (related : B → C → Prop) (left : Sweep B)
    (right : Sweep C) : Prop where
  book : related left.book right.book
  stats : left.stats = right.stats
  fills : left.fills = right.fills
  remaining : left.remaining = right.remaining
  report : left.report = right.report
  stpStop : left.stpStop = right.stpStop

/-- Two engines, equal but for the book. -/
structure SameEngine (related : B → C → Prop) (left : MatchingEngine B)
    (right : MatchingEngine C) : Prop where
  book : related left.book right.book
  stp : left.stp = right.stp
  nextRef : left.nextRef = right.nextRef
  stats : left.stats = right.stats

/-- The loop ends with a remainder which is to rest. -/
def Sweep.Rests (state : Sweep B) (order : NewOrder) : Prop :=
  state.stpStop = false ∧ state.remaining ≠ 0 ∧
    ¬ (order.type = .market ∨ order.tif = .ioc)

/-- The level maps take the price at which a submission comes to rest. -/
def TakesCall (takes : B → Side → Price → Prop) (engine : MatchingEngine B) :
    Call → Prop
  | .submit order => ∀ state,
      MatchingEngine.sweep engine.stp order
          (OrderBook.orderCount engine.book) (engine.opening order []) =
        .ok state →
      state.Rests order → takes state.book order.side order.price
  | .cancel _ => True
  | .setStpMode _ => True

/-! ## The functions of the engine -/

namespace StandsIn

variable {related : B → C → Prop} {takes : B → Side → Price → Prop}
  {fits : C → Prop} {order : NewOrder} {left : Sweep B} {right : Sweep C}

theorem selfTrade (stands : StandsIn related takes fits) {book : B}
    {other : C} (relation : related book other) (stp : StpMode)
    (order : NewOrder) (resting : OrderRef) :
    Simulates Eq (MatchingEngine.selfTrade stp order book resting)
      (MatchingEngine.selfTrade stp order other resting) := by
  unfold MatchingEngine.selfTrade
  refine Simulates.branch Iff.rfl (fun _ => Simulates.refl) fun _ => ?_
  refine (stands.ownerOf relation resting).bind ?_
  rintro owner _ rfl - -
  exact Simulates.refl

theorem trade (stands : StandsIn related takes fits)
    (same : SameSweep related left right) (order : NewOrder) (touch : Price)
    (resting : OrderRef) :
    Simulates (SameSweep related)
      (MatchingEngine.trade order touch resting left)
      (MatchingEngine.trade order touch resting right) := by
  unfold MatchingEngine.trade
  refine (stands.qtyOf same.book resting).bind ?_
  rintro available _ rfl - -
  refine (stands.ownerOf same.book resting).bind ?_
  rintro owner _ rfl - -
  rw [same.remaining]
  refine (stands.execute same.book resting _).bind ?_
  rintro ⟨_, book⟩ ⟨_, other⟩ relation - -
  exact Simulates.ok
    { book := relation
      stats := by simp only [same.stats]
      fills := by simp only [same.fills]
      remaining := rfl
      report := by simp only [same.report]
      stpStop := same.stpStop }

theorem turn (stands : StandsIn related takes fits)
    (same : SameSweep related left right) (stp : StpMode)
    (order : NewOrder) :
    Simulates (fun result value => result.1 = value.1 ∧
        SameSweep related result.2 value.2)
      (MatchingEngine.turn stp order left)
      (MatchingEngine.turn stp order right) := by
  unfold MatchingEngine.turn
  simp only [stands.best same.book, stands.frontAt same.book]
  refine Simulates.branch Iff.rfl (fun _ => Simulates.ok ⟨rfl, same⟩)
    fun _ => ?_
  refine Simulates.refl.bind ?_
  rintro resting _ rfl - -
  refine Simulates.refl.bind ?_
  rintro _ _ - - -
  refine (stands.selfTrade same.book stp order resting).bind ?_
  rintro own _ rfl - -
  refine Simulates.branch Iff.rfl (fun _ => ?_) fun _ => ?_
  · have met := congrArg (fun stats : EngineStats =>
      { stats with stpEvents := stats.stpEvents + 1 }) same.stats
    have pulled := congrArg (fun report : Report =>
      { report with
        stpCancelledResting := report.stpCancelledResting + 1 }) same.report
    cases stp with
    | off =>
        have counted : SameSweep related
            { left with
              stats :=
                { left.stats with stpEvents := left.stats.stpEvents + 1 } }
            { right with
              stats :=
                { right.stats with
                  stpEvents := right.stats.stpEvents + 1 } } :=
          { same with stats := met }
        refine (stands.trade counted order _ resting).bind ?_
        exact fun _ _ later _ _ => Simulates.ok ⟨rfl, later⟩
    | cancelNewest =>
        exact Simulates.ok ⟨rfl, { same with stats := met, stpStop := rfl }⟩
    | cancelOldest =>
        refine (stands.remove same.book resting).bind ?_
        exact fun _ _ relation _ _ => Simulates.ok
          ⟨rfl, { same with book := relation, stats := met, report := pulled }⟩
    | cancelBoth =>
        refine (stands.remove same.book resting).bind ?_
        exact fun _ _ relation _ _ => Simulates.ok
          ⟨rfl, { book := relation, stats := met, fills := same.fills,
                  remaining := same.remaining, report := pulled,
                  stpStop := rfl }⟩
  · refine (stands.trade same order _ resting).bind ?_
    exact fun _ _ later _ _ => Simulates.ok ⟨rfl, later⟩

theorem goesOn (stands : StandsIn related takes fits)
    (same : SameSweep related left right) (order : NewOrder) :
    MatchingEngine.goesOn order left = MatchingEngine.goesOn order right := by
  rw [MatchingEngine.goesOn, MatchingEngine.goesOn, same.remaining,
    stands.isEmpty same.book]

theorem sweep (stands : StandsIn related takes fits) (stp : StpMode)
    (order : NewOrder) (turns : Nat)
    (same : SameSweep related left right) :
    Simulates (SameSweep related)
      (MatchingEngine.sweep stp order turns left)
      (MatchingEngine.sweep stp order turns right) := by
  induction turns generalizing left right with
  | zero =>
      rw [MatchingEngine.sweep, MatchingEngine.sweep,
        stands.goesOn same order]
      exact Simulates.branch Iff.rfl (fun _ => Simulates.error)
        fun _ => Simulates.ok same
  | succ turns induction =>
      rw [MatchingEngine.sweep, MatchingEngine.sweep,
        stands.goesOn same order]
      refine Simulates.branch Iff.rfl (fun _ => ?_) fun _ => Simulates.ok same
      refine (stands.turn same stp order).bind ?_
      rintro ⟨again, later⟩ ⟨again', later'⟩ ⟨sameAgain, sameLater⟩ - -
      obtain rfl : again = again' := sameAgain
      exact Simulates.branch Iff.rfl (fun _ => induction sameLater)
        fun _ => Simulates.ok sameLater

variable {engine : MatchingEngine B} {engine' : MatchingEngine C}

/-- What is left after matching is settled alike, if the rest fits. -/
theorem settle (stands : StandsIn related takes fits)
    (engines : SameEngine related engine engine')
    (same : SameSweep related left right)
    (taken : left.Rests order → takes left.book order.side order.price)
    (priced : order.type = .market ∨ order.price > 0) {report : Report}
    {final : MatchingEngine C}
    (settled : engine'.settle order right = .ok (report, final))
    (fitting : fits final.book) :
    ∃ final', engine.settle order left = .ok (report, final') ∧
      SameEngine related final' final := by
  unfold MatchingEngine.settle at settled ⊢
  rw [same.stpStop, same.remaining, same.report]
  by_cases stopped : right.stpStop = true
  · rw [if_pos stopped] at settled ⊢
    cases settled
    exact ⟨_, rfl, same.book, engines.stp, engines.nextRef,
      by simp only [same.stats]⟩
  rw [if_neg stopped] at settled ⊢
  by_cases done : right.remaining = 0
  · rw [if_pos done] at settled ⊢
    cases settled
    exact ⟨_, rfl, same.book, engines.stp, engines.nextRef, same.stats⟩
  rw [if_neg done] at settled ⊢
  by_cases withdrawn : order.type = .market ∨ order.tif = .ioc
  · rw [if_pos withdrawn] at settled ⊢
    cases settled
    exact ⟨_, rfl, same.book, engines.stp, engines.nextRef,
      by simp only [same.stats]⟩
  rw [if_neg withdrawn] at settled ⊢
  obtain ⟨next, added, equal⟩ := bind_eq_ok_iff.mp settled
  cases equal
  have rests : left.Rests order :=
    ⟨by simpa [same.stpStop] using stopped, same.remaining ▸ done, withdrawn⟩
  have notZero : order.price ≠ 0 :=
    UInt32.pos_iff_ne_zero.mp
      (priced.resolve_left fun market => withdrawn (Or.inl market))
  obtain ⟨book, addedToo, relation⟩ :=
    stands.add same.book (taken rests) notZero added fitting
  rw [← engines.nextRef] at addedToo
  refine ⟨{ engine with
      book
      nextRef := engine.nextRef + 1
      stats := { left.stats with rested := left.stats.rested + 1 } },
    bind_eq_ok_iff.mpr ⟨book, addedToo, ?_⟩, relation, engines.stp,
    congrArg (· + 1) engines.nextRef,
    congrArg (fun stats : EngineStats =>
      { stats with rested := stats.rested + 1 }) same.stats⟩
  rw [engines.nextRef]
  rfl

theorem submit (stands : StandsIn related takes fits)
    (engines : SameEngine related engine engine')
    (taken : TakesCall takes engine (.submit order)) {report : Report}
    {final : MatchingEngine C} {fills : List Fill}
    (submitted : engine'.submit order [] = .ok (report, final, fills))
    (fitting : fits final.book) :
    ∃ final', engine.submit order [] = .ok (report, final', fills) ∧
      SameEngine related final' final := by
  unfold MatchingEngine.submit at submitted ⊢
  obtain ⟨_, someQty, submitted⟩ := bind_eq_ok_iff.mp submitted
  obtain ⟨_, isPriced, submitted⟩ := bind_eq_ok_iff.mp submitted
  obtain ⟨state, swept, submitted⟩ := bind_eq_ok_iff.mp submitted
  obtain ⟨⟨report', final⟩, settled, equal⟩ := bind_eq_ok_iff.mp submitted
  cases equal
  have start : SameSweep related (engine.opening order [])
      (engine'.opening order []) :=
    { book := engines.book
      stats := congrArg (fun stats : EngineStats =>
        { stats with submitted := stats.submitted + 1 }) engines.stats
      fills := rfl
      remaining := rfl
      report := rfl
      stpStop := rfl }
  obtain ⟨later, ran, same⟩ :=
    stands.sweep engine'.stp order (OrderBook.orderCount engine'.book) start
      state swept
  rw [← engines.stp, ← stands.orderCount engines.book] at ran
  obtain ⟨final', settledToo, engines'⟩ :=
    stands.settle engines same (taken later ran)
      (assertMsg_eq_ok_iff.mp isPriced) settled fitting
  refine ⟨final', ?_, engines'⟩
  rw [someQty, ok_bind, isPriced, ok_bind]
  refine bind_eq_ok_iff.mpr ⟨later, ran, ?_⟩
  rw [settledToo, ok_bind, same.fills]
  rfl

/-- One call of a client. -/
theorem handle (stands : StandsIn related takes fits)
    (engines : SameEngine related engine engine') {call : Call}
    (taken : TakesCall takes engine call)
    (fitting : ∀ reply final, engine'.handle call = .ok (reply, final) →
      fits final.book) :
    Simulates (fun result value => result.1 = value.1 ∧
        SameEngine related result.2 value.2)
      (engine.handle call) (engine'.handle call) := by
  rintro ⟨reply, final⟩ handled
  have room := fitting reply final handled
  cases call with
  | submit order =>
      obtain ⟨⟨report, other, fills⟩, submitted, equal⟩ :=
        bind_eq_ok_iff.mp handled
      cases equal
      obtain ⟨final', submittedToo, engines'⟩ :=
        stands.submit engines taken submitted room
      refine ⟨({ report? := some report, fills }, final'), ?_, rfl, engines'⟩
      rw [MatchingEngine.handle, submittedToo]
      rfl
  | cancel ref =>
      obtain ⟨other, cancelled, equal⟩ := bind_eq_ok_iff.mp handled
      cases equal
      obtain ⟨next, removed, equal⟩ := bind_eq_ok_iff.mp cancelled
      cases equal
      obtain ⟨book, removedToo, relation⟩ :=
        stands.remove engines.book ref next removed
      refine ⟨({}, _), bind_eq_ok_iff.mpr ⟨_, bind_eq_ok_iff.mpr
        ⟨book, removedToo, rfl⟩, rfl⟩, rfl, relation, engines.stp,
        engines.nextRef, ?_⟩
      exact congrArg (fun stats : EngineStats =>
        { stats with cancelled := stats.cancelled + 1 }) engines.stats
  | setStpMode mode =>
      cases handled
      exact ⟨_, rfl, rfl, engines.book, rfl, engines.nextRef, engines.stats⟩

/-- A list of calls has the same replies over both books. -/
theorem serve (stands : StandsIn related takes fits)
    (engines : SameEngine related engine engine') {calls : List Call}
    (taken : Along (TakesCall takes) MatchingEngine.handle engine calls)
    (fitting : Along (fun (state : MatchingEngine C) call =>
      ∀ reply final, state.handle call = .ok (reply, final) →
        fits final.book) MatchingEngine.handle engine' calls) :
    Simulates (fun result value => result.1 = value.1 ∧
        SameEngine related result.2 value.2)
      (engine.serve calls) (engine'.serve calls) := by
  refine Simulates.transcript (SameEngine related) ?_ engines taken fitting
  exact fun same here room => stands.handle same here room

end StandsIn

end ItchExchange.Engine
