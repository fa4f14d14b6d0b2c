import ItchExchange.Engine.Submit

/-!
# A book which notes the calls made to it

The engine is a template over its book.  `Recorder` is a `MapBook` which also
keeps a list of the calls that changed it, each with the book before the call.
Forgetting the list gives back the engine over the plain book, turn by turn, so
the list is what the engine does to a plain book.
-/

namespace ItchExchange.Engine

open ItchExchange.Core ItchExchange.Book
open ItchExchange.Book.MapBook (Represents)

/-! ## Books which forward to another book -/

/-- What the engine asks of a book is answered by the book inside. -/
structure Forwards {B C : Type} [OrderBook B] [OrderBook C]
    (inner : C → B) : Prop where
  isEmpty : ∀ book side,
    OrderBook.isEmpty book side = OrderBook.isEmpty (inner book) side
  best : ∀ book side,
    OrderBook.best book side = OrderBook.best (inner book) side
  frontAt : ∀ book side price,
    OrderBook.frontAt book side price =
      OrderBook.frontAt (inner book) side price
  orderCount : ∀ book,
    OrderBook.orderCount book = OrderBook.orderCount (inner book)
  qtyOf : ∀ book ref,
    OrderBook.qtyOf book ref = OrderBook.qtyOf (inner book) ref
  ownerOf : ∀ book ref,
    OrderBook.ownerOf book ref = OrderBook.ownerOf (inner book) ref
  add : ∀ book ref side price qty owner,
    (OrderBook.add book ref side price qty owner).map inner =
      OrderBook.add (inner book) ref side price qty owner
  execute : ∀ book ref shares,
    (OrderBook.execute book ref shares).map (Prod.map id inner) =
      OrderBook.execute (inner book) ref shares
  remove : ∀ book ref,
    (OrderBook.remove book ref).map inner =
      OrderBook.remove (inner book) ref

section Forwards

variable {B C : Type}

def Sweep.mapBook (inner : C → B) (state : Sweep C) : Sweep B where
  book := inner state.book
  stats := state.stats
  fills := state.fills
  remaining := state.remaining
  report := state.report
  stpStop := state.stpStop

def MatchingEngine.mapBook (inner : C → B) (engine : MatchingEngine C) :
    MatchingEngine B where
  book := inner engine.book
  stp := engine.stp
  nextRef := engine.nextRef
  stats := engine.stats

/-- Two sequences correspond when their parts do. -/
theorem map_bind {α β γ δ : Type} {image : α → β} {result : γ → δ}
    {first : Checked α} {next : α → Checked γ} {first' : Checked β}
    {next' : β → Checked δ} (firsts : first.map image = first')
    (nexts : ∀ value, (next value).map result = next' (image value)) :
    (first >>= next).map result = first' >>= next' := by
  subst firsts
  cases first with
  | error failure => rfl
  | ok value => exact nexts value

/-- Two branches on one condition correspond when their parts do. -/
theorem map_ite {α β : Type} {image : α → β} {condition : Prop}
    {decided decided' : Decidable condition} {kept dropped : Checked α}
    {kept' dropped' : Checked β} (keeps : kept.map image = kept')
    (drops : dropped.map image = dropped') :
    (@ite _ condition decided kept dropped).map image =
      @ite _ condition decided' kept' dropped' := by
  subst keeps drops
  by_cases holds : condition <;> simp [holds]

theorem map_id {α : Type} (computed : Checked α) :
    computed.map id = computed := by
  cases computed <;> rfl

variable [OrderBook B] [OrderBook C] {inner : C → B}

theorem Forwards.selfTrade (forwards : Forwards inner) (stp : StpMode)
    (order : NewOrder) (book : C) (resting : OrderRef) :
    MatchingEngine.selfTrade stp order book resting =
      MatchingEngine.selfTrade stp order (inner book) resting := by
  simp only [MatchingEngine.selfTrade, forwards.ownerOf]

theorem Forwards.goesOn (forwards : Forwards inner) (order : NewOrder)
    (state : Sweep C) :
    MatchingEngine.goesOn order (state.mapBook inner) =
      MatchingEngine.goesOn order state := by
  unfold MatchingEngine.goesOn
  rw [forwards.isEmpty]
  rfl

theorem Forwards.trade (forwards : Forwards inner) (order : NewOrder)
    (touch : Price) (resting : OrderRef) (state : Sweep C) :
    (MatchingEngine.trade order touch resting state).map
        (Sweep.mapBook inner) =
      MatchingEngine.trade order touch resting (state.mapBook inner) := by
  unfold MatchingEngine.trade
  rw [forwards.qtyOf, forwards.ownerOf]
  refine map_bind (map_id _) fun available => ?_
  refine map_bind (map_id _) fun owner => ?_
  exact map_bind (forwards.execute state.book resting _) fun _ => rfl

/-- A turn on the outer book is the same turn on the inner one. -/
theorem Forwards.turn (forwards : Forwards inner) (stp : StpMode)
    (order : NewOrder) (state : Sweep C) :
    (MatchingEngine.turn stp order state).map
        (Prod.map id (Sweep.mapBook inner)) =
      MatchingEngine.turn stp order (state.mapBook inner) := by
  unfold MatchingEngine.turn
  simp only [forwards.best, forwards.frontAt, forwards.selfTrade]
  refine map_ite rfl ?_
  refine map_bind (map_id _) fun resting => ?_
  refine map_bind (map_id _) fun _ => ?_
  refine map_bind (map_id _) fun own => ?_
  refine map_ite ?_ ?_
  · cases stp with
    | off =>
        exact map_bind (forwards.trade order _ _ _) fun _ => rfl
    | cancelNewest => rfl
    | cancelOldest =>
        exact map_bind (forwards.remove state.book resting) fun _ => rfl
    | cancelBoth =>
        exact map_bind (forwards.remove state.book resting) fun _ => rfl
  · exact map_bind (forwards.trade order _ _ state) fun _ => rfl

/-- By induction on the turns, so is the whole loop. -/
theorem Forwards.sweep (forwards : Forwards inner) (stp : StpMode)
    (order : NewOrder) (turns : Nat) (state : Sweep C) :
    (MatchingEngine.sweep stp order turns state).map
        (Sweep.mapBook inner) =
      MatchingEngine.sweep stp order turns (state.mapBook inner) := by
  induction turns generalizing state with
  | zero =>
      simp only [MatchingEngine.sweep, forwards.goesOn]
      exact map_ite rfl rfl
  | succ turns induction =>
      simp only [MatchingEngine.sweep, forwards.goesOn]
      refine map_ite ?_ rfl
      exact map_bind (forwards.turn stp order state) fun turned =>
        map_ite (induction turned.2) rfl

/-- What is left of the order comes to rest in both books. -/
theorem Forwards.settle (forwards : Forwards inner)
    (engine : MatchingEngine C) (order : NewOrder) (state : Sweep C) :
    (MatchingEngine.settle engine order state).map
        (Prod.map id (MatchingEngine.mapBook inner)) =
      MatchingEngine.settle (engine.mapBook inner) order
        (state.mapBook inner) := by
  unfold MatchingEngine.settle
  refine map_ite rfl (map_ite rfl (map_ite rfl ?_))
  exact map_bind (forwards.add state.book _ _ _ _ _) fun _ => rfl

/-- A submission to the outer engine is the submission to the inner one. -/
theorem Forwards.submit (forwards : Forwards inner)
    (engine : MatchingEngine C) (order : NewOrder) (fills : List Fill) :
    (engine.submit order fills).map
        (Prod.map id (Prod.map (MatchingEngine.mapBook inner) id)) =
      (engine.mapBook inner).submit order fills := by
  unfold MatchingEngine.submit
  refine map_bind (map_id _) fun _ => ?_
  refine map_bind (map_id _) fun _ => ?_
  rw [forwards.orderCount]
  refine map_bind (forwards.sweep engine.stp order _ _) fun state => ?_
  exact map_bind (forwards.settle engine order state) fun _ => rfl

end Forwards

/-! ## The recorder -/

/-- A book, and the calls which changed it with the book before each. -/
structure Recorder where
  book : MapBook
  calls : List (MapBook × Operation) := []

namespace Recorder

/-- The recorder after a call which led to `book`. -/
def note (recorder : Recorder) (operation : Operation) (book : MapBook) :
    Recorder where
  book
  calls := recorder.calls ++ [(recorder.book, operation)]

instance : OrderBook Recorder where
  add := fun recorder ref side price qty owner => do
    let book ← OrderBook.add recorder.book ref side price qty owner
    pure (recorder.note (.add ref side price qty owner) book)
  cancel := fun recorder ref shares => do
    let book ← OrderBook.cancel recorder.book ref shares
    pure (recorder.note (.cancel ref shares) book)
  execute := fun recorder ref shares => do
    let (reported, book) ← OrderBook.execute recorder.book ref shares
    pure (reported, recorder.note (.execute ref shares) book)
  remove := fun recorder ref => do
    let book ← OrderBook.remove recorder.book ref
    pure (recorder.note (.remove ref) book)
  replace := fun recorder oldRef newRef price qty => do
    let book ← OrderBook.replace recorder.book oldRef newRef price qty
    pure (recorder.note (.replace oldRef newRef price qty) book)
  isEmpty := fun recorder => OrderBook.isEmpty recorder.book
  best := fun recorder => OrderBook.best recorder.book
  qtyAt := fun recorder => OrderBook.qtyAt recorder.book
  ordersAt := fun recorder => OrderBook.ordersAt recorder.book
  frontAt := fun recorder => OrderBook.frontAt recorder.book
  stats := fun recorder => OrderBook.stats recorder.book
  orderCount := fun recorder => OrderBook.orderCount recorder.book
  contains := fun recorder => OrderBook.contains recorder.book
  sideOf := fun recorder => OrderBook.sideOf recorder.book
  priceOf := fun recorder => OrderBook.priceOf recorder.book
  qtyOf := fun recorder => OrderBook.qtyOf recorder.book
  ownerOf := fun recorder => OrderBook.ownerOf recorder.book
  forEachLevel := fun recorder => OrderBook.forEachLevel recorder.book

/-- The engine over the recorder is the engine over the book inside. -/
theorem forwards : Forwards Recorder.book where
  isEmpty := fun _ _ => rfl
  best := fun _ _ => rfl
  frontAt := fun _ _ _ => rfl
  orderCount := fun _ => rfl
  qtyOf := fun _ _ => rfl
  ownerOf := fun _ _ => rfl
  add := fun recorder ref side price qty owner =>
    (map_bind
      (map_id (OrderBook.add recorder.book ref side price qty owner))
      fun _ => rfl).trans (bind_pure _)
  execute := fun recorder ref shares =>
    (map_bind (map_id (OrderBook.execute recorder.book ref shares))
      fun _ => rfl).trans (bind_pure _)
  remove := fun recorder ref =>
    (map_bind (map_id (OrderBook.remove recorder.book ref))
      fun _ => rfl).trans (bind_pure _)

theorem apply_eq (recorder : Recorder) (operation : Operation) :
    OrderBook.apply recorder operation =
      (OrderBook.apply recorder.book operation >>= fun book =>
        pure (recorder.note operation book)) := by
  cases operation with
  | execute ref shares =>
      change (OrderBook.execute recorder.book ref shares >>= _) >>= _ =
        (OrderBook.execute recorder.book ref shares >>= _) >>= _
      rw [bind_assoc, bind_assoc]
      rfl
  | add ref side price qty owner => rfl
  | cancel ref shares => rfl
  | remove ref => rfl
  | replace oldRef newRef price qty => rfl

/-- A call which takes from an order finds it resting, with enough shares. -/
def NamesResting (book : MapBook) : Operation → Prop
  | .add _ _ _ _ _ => True
  | .cancel ref shares =>
      ∃ held, book.qtyOf ref = .ok held ∧ shares ≤ held
  | .execute ref shares =>
      ∃ held, book.qtyOf ref = .ok held ∧ shares ≤ held
  | .remove ref => book.contains ref = true
  | .replace oldRef _ _ _ => book.contains oldRef = true

theorem namesResting {book : MapBook} {arrivals next : ArrivalBook}
    {operation : Operation} (represents : Represents book arrivals)
    (accepted : arrivals.perform? operation = some next) :
    NamesResting book operation := by
  have answers := represents.answers
  have rests : ∀ order ∈ arrivals.orders,
      book.contains order.ref = true := by
    intro order member
    have found : arrivals.find? order.ref = some order :=
      ArrivalBook.find?_eq_some_iff.mpr ⟨member, rfl⟩
    have contains := Except.ok.inj (answers.contains order.ref)
    exact contains.trans (by rw [found]; rfl)
  have takes : ∀ ref shares, arrivals.take? ref shares = some next →
      ∃ held, book.qtyOf ref = .ok held ∧ shares ≤ held := by
    intro ref shares taken
    obtain ⟨order, member, rfl, enough, -⟩ :=
      ArrivalBook.take?_eq_some_iff.mp taken
    exact ⟨order.qty, answers.qtyOf order member, enough⟩
  cases operation with
  | add ref side price qty owner => trivial
  | cancel ref shares => exact takes ref shares accepted
  | execute ref shares => exact takes ref shares accepted
  | remove ref =>
      obtain ⟨order, member, rfl, -⟩ :=
        ArrivalBook.remove?_eq_some_iff.mp accepted
      exact rests order member
  | replace oldRef newRef price qty =>
      obtain ⟨order, member, rfl, -⟩ :=
        ArrivalBook.replace?_eq_some_iff.mp accepted
      exact rests order member

/-- The recorder's book is the list of arrivals, and no call was refused. -/
structure Serves (recorder : Recorder) (arrivals : ArrivalBook) : Prop where
  represents : Represents recorder.book arrivals
  named : ∀ call ∈ recorder.calls, NamesResting call.1 call.2

/-- An accepted call is carried out and recorded. -/
theorem Serves.apply {recorder : Recorder} {arrivals next : ArrivalBook}
    {operation : Operation} (serves : Serves recorder arrivals)
    (accepted : arrivals.perform? operation = some next) :
    ∃ recorder', OrderBook.apply recorder operation = .ok recorder' ∧
      Serves recorder' next := by
  obtain ⟨book, applied, represents⟩ := serves.represents.apply accepted
  refine ⟨recorder.note operation book, ?_, represents, ?_⟩
  · rw [apply_eq, applied, ok_bind, pure_eq_ok]
  · intro call member
    rcases List.mem_append.mp member with earlier | last
    · exact serves.named call earlier
    · rw [List.mem_singleton] at last
      subst last
      exact namesResting serves.represents accepted

/-- A call which the recorder carried out was accepted. -/
theorem Serves.applied {recorder next : Recorder} {arrivals : ArrivalBook}
    {operation : Operation} (serves : Serves recorder arrivals)
    (applied : OrderBook.apply recorder operation = .ok next) :
    ∃ after, Serves next after := by
  cases accepted : arrivals.perform? operation with
  | some after =>
      obtain ⟨next', applied', nextServes⟩ := serves.apply accepted
      rw [applied, Except.ok.injEq] at applied'
      exact ⟨after, applied' ▸ nextServes⟩
  | none =>
      obtain ⟨message, -, refused⟩ :=
        serves.represents.apply_refused accepted
      rw [apply_eq, refused] at applied
      cases applied

theorem Serves.answers {recorder : Recorder} {arrivals : ArrivalBook}
    (serves : Serves recorder arrivals) : Answers recorder arrivals :=
  { serves.represents.answers with }

/-- The recorder refines the list of arrivals, as its book does. -/
theorem refines : Refines Serves fun _ _ => True where
  answers := fun serves => serves.answers
  apply := fun serves _ accepted => serves.apply accepted
  admitsExecute := fun _ _ _ => trivial
  admitsRemove := fun _ _ => trivial

end Recorder

end ItchExchange.Engine
