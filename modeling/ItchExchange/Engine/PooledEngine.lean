import ItchExchange.Book.CentralPrices
import ItchExchange.Book.MapBookValidate
import ItchExchange.Engine.StandIn

/-!
# The engine over pooled books

A pooled book stands in for the reference book, as far as its storage and its
level maps reach.  So an engine over it replies to every list of calls like the
engine over the reference book, and the two books agree after every call.
-/

namespace ItchExchange.Engine

open ItchExchange.Core ItchExchange.Book Simulation

/-! ## Reductions fit wherever their book fits -/

theorem allow_reduce {limits : Limits} {arrivals : ArrivalBook}
    (allowed : limits.Allow arrivals) (ref : OrderRef) (shares : Qty) :
    limits.Allow (arrivals.reduce ref shares) := by
  have orders := arrivals.length_reduce_le ref shares
  have levels : ∀ side, ((arrivals.reduce ref shares).prices side).length ≤
      (arrivals.prices side).length := by
    intro side
    rw [ArrivalBook.prices_reduce]
    exact List.length_filter_le _ _
  have buy := levels .buy
  have sell := levels .sell
  have index := allowed.index
  have room := allowed.levels
  exact ⟨orders.trans allowed.orders, by omega, by omega⟩

/-! ## Storage for every call -/

section Storage

variable {limits : Limits} {engine : MatchingEngine MapBook}
  {calls : List Call}

theorem length_orders_eq (arrivals : ArrivalBook) (side : Side) :
    arrivals.orders.length = (arrivals.queue side).length +
      (arrivals.queue (opposite side)).length := by
  have split := arrivals.onSide_length_add
  rw [(arrivals.queue_perm_onSide side).length_eq,
    (arrivals.queue_perm_onSide (opposite side)).length_eq]
  cases side with
  | buy => exact split.symm
  | sell => rw [opposite, Nat.add_comm]; exact split.symm

theorem joinQueue_perm (order : Resting) (queue : List Resting) :
    (ArrivalBook.joinQueue order queue).Perm (order :: queue) := by
  unfold ArrivalBook.joinQueue
  refine List.perm_middle.trans (List.Perm.cons order ?_)
  simpa using List.perm_append_comm.trans
    (List.filter_append_perm (fun other : Resting =>
      decide (Closer order.side order.price other.price)) queue)

/-- A walk leaves no more orders than it found. -/
theorem length_walk_left_le (stp : StpMode) (order : NewOrder)
    (remaining : Qty) (opposing : List Resting) :
    (walk stp order remaining opposing).left.length ≤ opposing.length := by
  refine walk_induction (motive := fun _ opposing result =>
    result.left.length ≤ opposing.length)
    ?ended ?halts ?refused ?pullsBoth ?pulls ?exhausts ?partly
    remaining opposing
  case ended => exact fun _ => le_rfl
  case halts => exact fun _ _ _ _ => le_rfl
  case refused => exact fun _ _ _ _ _ => le_rfl
  case pullsBoth => exact fun _ head tail _ _ => Nat.le_succ _
  case pulls =>
    intro _ head tail _ rest induction
    exact Nat.le_succ_of_le induction
  case exhausts =>
    intro _ head tail _ _ rest induction
    exact Nat.le_succ_of_le induction
  case partly => exact fun _ head tail _ _ => le_rfl

/-- A call brings at most one order into the book. -/
theorem length_effect_le {event : Event} {before after : ArrivalBook}
    (effect : Effect event before after) :
    after.orders.length ≤ before.orders.length + 1 := by
  cases effect with
  | submit order call submittable report fills submitted =>
      have left := length_walk_left_le event.before.stp order order.qty
        (before.queue (opposite order.side))
      rw [length_orders_eq after order.side,
        length_orders_eq before order.side, submitted.opposing,
        submitted.own]
      change ((submission event.before order before).left).length ≤ _ at left
      split_ifs with rests
      · have joined : (ArrivalBook.joinQueue
            ((submission event.before order before).remainder order
              event.before.nextRef) (before.queue order.side)).length =
            (before.queue order.side).length + 1 := by
          rw [(joinQueue_perm _ _).length_eq, List.length_cons]
        omega
      · omega
  | cancel order call member report fills reduced stp nextRef filledQty =>
      rw [reduced]
      exact (before.length_reduce_le _ _).trans (Nat.le_succ _)
  | setStpMode mode call report fills same nextRef filledQty =>
      rw [same]
      exact Nat.le_succ _

/-- Every book which the calls lead to fits into the storage. -/
def CallsFit (limits : Limits) (engine : MatchingEngine MapBook)
    (calls : List Call) : Prop :=
  ∀ count replies later,
    engine.serve (calls.take count) = .ok (replies, later) →
      later.book.FitsIn limits

theorem CallsFit.along
    (fits : CallsFit limits engine calls) :
    Along (fun (state : MatchingEngine MapBook) call =>
      ∀ reply later, state.handle call = .ok (reply, later) →
        later.book.FitsIn limits) MatchingEngine.handle engine calls := by
  refine along_of_take fun count call rest earlier middle next ran reply later
    handled => ?_
  refine fits (count + 1) (earlier ++ [reply]) later ?_
  have split : calls.take (count + 1) = calls.take count ++ [call] := by
    rw [List.take_add, next]
    rfl
  rw [split, MatchingEngine.serve, transcript_append_eq_ok]
  exact ⟨earlier, middle, [reply], ran,
    transcript_cons_eq_ok.mpr ⟨reply, later, [], handled, rfl, rfl⟩, rfl⟩

/-- Storage for an order for each call is enough. -/
theorem callsFit_of_length {start : MatchingEngine MapBook}
    {arrivals : ArrivalBook}
    (represents : MapBook.Represents start.book arrivals) {orders : Nat}
    (bound : arrivals.orders.length + calls.length ≤ orders)
    (enough : orders ≤ limits.orders) (index : 2 * orders ≤ limits.index)
    (levels : 2 * orders ≤ limits.levels) :
    CallsFit limits start calls := by
  have grows : ∀ {calls : List Call} {engine later : MatchingEngine MapBook}
      {replies : List Reply} {before : ArrivalBook},
      MapBook.Represents engine.book before →
        engine.serve calls = .ok (replies, later) →
          ∃ after, MapBook.Represents later.book after ∧
            after.orders.length ≤ before.orders.length + calls.length := by
    intro calls
    induction calls with
    | nil =>
        intro engine later replies before held ran
        cases ran
        exact ⟨before, held, le_rfl⟩
    | cons call rest induction =>
        intro engine later replies before held ran
        obtain ⟨reply, next, more, handled, ranRest, -⟩ :=
          transcript_cons_eq_ok.mp ran
        rw [handle_eq_call] at handled
        cases called : engine.call call with
        | error failure =>
            rw [called] at handled
            cases handled
        | ok event =>
            rw [called] at handled
            cases handled
            obtain ⟨-, middle, middleHeld, effect⟩ := call_effect held called
            obtain ⟨after, afterHeld, few⟩ := induction middleHeld ranRest
            have one := length_effect_le effect
            refine ⟨after, afterHeld, ?_⟩
            rw [List.length_cons]
            omega
  intro count replies later ran
  obtain ⟨after, held, few⟩ := grows represents ran
  have taken := List.length_take_le' count calls
  exact MapBook.FitsIn.of_length held (by omega) (by omega) (by omega)

end Storage

/-! ## A pooled book stands in -/

section Pooled

variable {M : Type} {hash : OrderRef → UInt64}
  {holds : Side → M → (Price → Option LevelHandle) → Nat → Prop}
  {admits : M → Price → Prop} {limits : Limits}
  {book : BookT M hash} {map : MapBook}

/-- Both books hold the same orders, and the pooled one has room for them. -/
def HoldAlike
    (holds : Side → M → (Price → Option LevelHandle) → Nat → Prop)
    (limits : Limits) (book : BookT M hash) (map : MapBook) : Prop :=
  ∃ arrivals, BookT.Represents holds limits book arrivals ∧
    MapBook.Represents map arrivals ∧ limits.Allow arrivals

variable [LevelMap M]

theorem HoldAlike.agree (implements : LevelMap.Implements holds admits)
    (alike : HoldAlike holds limits book map) : Agree book map := by
  obtain ⟨arrivals, represents, mapRepresents, -⟩ := alike
  exact (represents.answers implements).agree mapRepresents.answers

/-- What the reference book accepts, its list of arrivals accepts. -/
theorem accepted_of_applied {arrivals : ArrivalBook} {later : MapBook}
    (represents : MapBook.Represents map arrivals) {operation : Operation}
    (applied : OrderBook.apply map operation = .ok later) :
    ∃ next, arrivals.perform? operation = some next ∧
      MapBook.Represents later next := by
  cases performed : arrivals.perform? operation with
  | none =>
      obtain ⟨message, -, failed⟩ := represents.apply_refused performed
      rw [applied] at failed
      cases failed
  | some next =>
      obtain ⟨other, done, represents'⟩ := represents.apply performed
      obtain rfl := Except.ok.inj (applied.symm.trans done)
      exact ⟨next, rfl, represents'⟩

/-- An operation which leads to orders the storage has room for. -/
theorem HoldAlike.apply (implements : LevelMap.Implements holds admits)
    (alike : HoldAlike holds limits book map) {operation : Operation}
    {later : MapBook} (applied : OrderBook.apply map operation = .ok later)
    (room : ∀ arrivals next, limits.Allow arrivals →
      MapBook.Represents later next →
        arrivals.perform? operation = some next → limits.Allow next)
    (priced : operation.Priced)
    (admitted : BookT.Admits admits book operation) :
    ∃ next, OrderBook.apply book operation = .ok next ∧
      HoldAlike holds limits next later := by
  obtain ⟨arrivals, represents, mapRepresents, allowed⟩ := alike
  obtain ⟨next, accepted, laterRepresents⟩ :=
    accepted_of_applied mapRepresents applied
  have fits := room arrivals next allowed laterRepresents accepted
  obtain ⟨book', done, represents'⟩ :=
    represents.apply implements accepted fits priced admitted
  exact ⟨book', done, next, represents', laterRepresents, fits⟩

theorem HoldAlike.execute (implements : LevelMap.Implements holds admits)
    (alike : HoldAlike holds limits book map) (ref : OrderRef)
    (shares : Qty) :
    Simulates (fun result value => HoldAlike holds limits result.2 value.2)
      (OrderBook.execute book ref shares)
      (OrderBook.execute map ref shares) := by
  rintro ⟨reported, later⟩ executed
  have applied : OrderBook.apply map (.execute ref shares) = .ok later := by
    rw [OrderBook.apply, executed]
    rfl
  obtain ⟨next, done, alike'⟩ := alike.apply implements applied
    (fun arrivals next allowed _ accepted => by
      obtain ⟨order, -, -, -, rfl⟩ :=
        ArrivalBook.take?_eq_some_iff.mp accepted
      exact allow_reduce allowed ref shares)
    (fun _ price => by cases price) trivial
  obtain ⟨reported', executedToo⟩ := apply_execute_eq_ok done
  exact ⟨(reported', next), executedToo, alike'⟩

theorem HoldAlike.remove (implements : LevelMap.Implements holds admits)
    (alike : HoldAlike holds limits book map) (ref : OrderRef) :
    Simulates (HoldAlike holds limits) (OrderBook.remove book ref)
      (OrderBook.remove map ref) := by
  intro later removed
  have applied : OrderBook.apply map (.remove ref) = .ok later := removed
  exact alike.apply implements applied
    (fun arrivals next allowed _ accepted => by
      obtain ⟨order, -, -, rfl⟩ :=
        ArrivalBook.remove?_eq_some_iff.mp accepted
      exact allow_reduce allowed ref order.qty)
    (fun _ price => by cases price) trivial

omit [LevelMap M] in
/-- The reference book knows no references but those which rest. -/
theorem resting_of_require {arrivals : ArrivalBook}
    (represents : MapBook.Represents map arrivals) {ref : OrderRef}
    {message : String} {entry : MapBook.Entry}
    (required : map.require ref message = .ok entry) :
    ∃ order ∈ arrivals.orders, order.ref = ref := by
  cases found : arrivals.find? ref with
  | none =>
      obtain ⟨position, represents⟩ := represents
      rw [represents.require_absent found] at required
      cases required
  | some order =>
      obtain ⟨member, same⟩ := ArrivalBook.find?_eq_some_iff.mp found
      exact ⟨order, member, same⟩

theorem HoldAlike.qtyOf (implements : LevelMap.Implements holds admits)
    (alike : HoldAlike holds limits book map) (ref : OrderRef) :
    Simulates Eq (OrderBook.qtyOf book ref) (OrderBook.qtyOf map ref) := by
  obtain ⟨arrivals, represents, mapRepresents, -⟩ := alike
  intro qty answered
  obtain ⟨entry, required, -⟩ := bind_eq_ok_iff.mp answered
  obtain ⟨order, member, rfl⟩ := resting_of_require mapRepresents required
  rw [mapRepresents.answers.qtyOf order member] at answered
  exact ⟨order.qty, (represents.answers implements).qtyOf order member,
    Except.ok.inj answered⟩

theorem HoldAlike.ownerOf (implements : LevelMap.Implements holds admits)
    (alike : HoldAlike holds limits book map) (ref : OrderRef) :
    Simulates Eq (OrderBook.ownerOf book ref)
      (OrderBook.ownerOf map ref) := by
  obtain ⟨arrivals, represents, mapRepresents, -⟩ := alike
  intro owner answered
  obtain ⟨entry, required, -⟩ := bind_eq_ok_iff.mp answered
  obtain ⟨order, member, rfl⟩ := resting_of_require mapRepresents required
  rw [mapRepresents.answers.ownerOf order member] at answered
  exact ⟨order.owner, (represents.answers implements).ownerOf order member,
    Except.ok.inj answered⟩

/-- The level maps of the side take the price. -/
def TakesPrice (admits : M → Price → Prop) (book : BookT M hash)
    (side : Side) (price : Price) : Prop :=
  admits (book.ladders.get side) price

theorem pooledBook_standsIn (implements : LevelMap.Implements holds admits) :
    StandsIn (@HoldAlike M hash holds limits) (TakesPrice admits)
      fun map : MapBook => map.FitsIn limits where
  isEmpty := fun alike => (alike.agree implements).isEmpty
  best := fun alike => (alike.agree implements).best
  frontAt := fun alike => (alike.agree implements).frontAt
  orderCount := fun alike => (alike.agree implements).orderCount
  qtyOf := fun alike => alike.qtyOf implements
  ownerOf := fun alike => alike.ownerOf implements
  execute := fun alike => alike.execute implements
  remove := fun alike => alike.remove implements
  add := by
    intro book map alike ref side price qty owner later taken notZero added
      fits
    have applied : OrderBook.apply map (.add ref side price qty owner) =
        .ok later := added
    refine alike.apply implements applied
      (fun _ _ _ represents _ => fits.allow represents) ?_ taken
    intro other isPrice
    cases isPrice
    exact notZero

variable {calls : List Call} {replies : List Reply}
  {final : MatchingEngine MapBook}

/-- An order which may come to rest does so at a price of this kind. -/
def Call.OfKind (kind : Price → Prop) : Call → Prop
  | .submit order =>
      order.type = .market ∨ order.tif = .ioc ∨ kind order.price
  | .cancel _ => True
  | .setStpMode _ => True

theorem Call.OfKind.takes {kind : Price → Prop} {call : Call}
    (isKind : call.OfKind kind)
    (engine : MatchingEngine (BookT M hash)) :
    TakesCall (TakesPrice fun (_ : M) price => kind price) engine call := by
  cases call with
  | submit order =>
      rintro state - ⟨-, -, mayRest⟩
      rcases isKind with market | ioc | isKind
      · exact absurd (Or.inl market) mayRest
      · exact absurd (Or.inr ioc) mayRest
      · exact isKind
  | cancel ref => trivial
  | setStpMode mode => trivial

/-! ## The replies do not depend on the book -/

/--
An engine over a pooled book replies like the engine over the reference book to
every list of calls which that one accepts, and their books agree after every
call.  The books may hold orders which were added without the engine.  The
storage has to have room for what the reference book holds, and the level maps
have to be open to the prices at which orders come to rest.
-/
theorem pooledEngine_servesAlike [ValidatedLevelMap M]
    {start : BookT M hash} {kind : Price → Prop}
    (openTo : LevelMap.OpenTo kind holds)
    {orderCapacity levelCapacity indexCapacity : UInt32} {quarantine : Nat}
    (made : BookT.make orderCapacity levelCapacity indexCapacity quarantine =
      .ok start) {operations : List Operation}
    (within : AcceptedWithin start.storage operations)
    (areKind : ∀ operation ∈ operations, operation.OfKind kind)
    (filled : OrderBook.run start operations = .ok book)
    (filledMap : OrderBook.run ({} : MapBook) operations = .ok map)
    (stp : StpMode) (nextRef : OrderRef) (stats : EngineStats)
    (served : (⟨map, stp, nextRef, stats⟩ : MatchingEngine MapBook).serve
      calls = .ok (replies, final))
    (fits : CallsFit start.storage ⟨map, stp, nextRef, stats⟩ calls)
    (callsOfKind : ∀ call ∈ calls, call.OfKind kind) (count : Nat) :
    ∃ engine' engine,
      (⟨book, stp, nextRef, stats⟩ : MatchingEngine (BookT M hash)).serve
          (calls.take count) = .ok (replies.take count, engine') ∧
        (⟨map, stp, nextRef, stats⟩ : MatchingEngine MapBook).serve
          (calls.take count) = .ok (replies.take count, engine) ∧
        SameEngine Agree engine' engine := by
  obtain ⟨other, arrivals, reached, arrived, mapRepresents, stays⟩ :=
    within.runsWithin.reaches operations.length
  rw [List.take_length] at reached arrived stays
  obtain rfl := Except.ok.inj (filledMap.symm.trans reached)
  obtain ⟨book', ran, represents⟩ :=
    (BookT.represents_of_make openTo.implements made).run openTo.implements
      arrived stays within.priced (BookT.admitsRun_of_kind areKind start)
  obtain rfl := Except.ok.inj (filled.symm.trans ran)
  have room : start.storage.Allow arrivals :=
    (within.fits operations.length map (by rwa [List.take_length])).allow
      mapRepresents
  have taken : Along (TakesCall (TakesPrice fun (_ : M) price => kind price))
      MatchingEngine.handle
      (⟨book, stp, nextRef, stats⟩ : MatchingEngine (BookT M hash)) calls :=
    along_of_mem fun engine call member =>
      (callsOfKind call member).takes engine
  obtain ⟨engine, reachedEngine⟩ := transcript_take served count
  obtain ⟨⟨replies', engine'⟩, servedToo, rfl, same⟩ :=
    (pooledBook_standsIn openTo.implements).serve
      ⟨⟨arrivals, represents, mapRepresents, room⟩, rfl, rfl, rfl⟩
      (taken.take count) (fits.along.take count) _ reachedEngine
  exact ⟨engine', engine, servedToo, reachedEngine,
    { same with book := same.book.agree openTo.implements }⟩

end Pooled

/-- Two offers far apart which were added without the engine. -/
def makers : List Operation :=
  [.add 1000000 .sell 250000 40 0, .add 1000001 .sell 900000 25 7]

def makersBook : MapBook :=
  (OrderBook.run ({} : MapBook) makers).toOption.getD {}

/-- A sweep through both offers, a rest between ticks, and a cancel. -/
def takers : List Call :=
  [.submit
      { clientId := 1, owner := 3, side := .buy, price := 900000, qty := 90 },
    .setStpMode .cancelBoth,
    .submit
      { clientId := 2, owner := 3, side := .sell, price := 250000, qty := 5 },
    .submit { clientId := 3, side := .sell, price := 250050, qty := 8 },
    .cancel 2]

theorem makers_within :
    AcceptedWithin ⟨8, 16, 16⟩ makers ∧
      ∀ operation ∈ makers, operation.OfKind PriceLadder.Central := by
  have value : (ArrivalBook.empty.run? makers).isSome = true := by decide
  obtain ⟨arrivals, accepted⟩ := Option.isSome_iff_exists.mp value
  have central : ∀ operation ∈ makers,
      operation.OfKind PriceLadder.Central := by
    simp only [makers, Operation.OfKind, Operation.price?,
      PriceLadder.central_iff]
    simp
  exact ⟨acceptedWithin_of_length accepted
    (fun operation member price isPrice =>
      PriceLadder.openTo.notZero (central operation member price isPrice))
    (by decide) (by decide) (by decide), central⟩

theorem pooledEngine_servesAlike_takers :
    ∃ (start book : FlatBook) (replies : List Reply)
      (engine' : MatchingEngine FlatBook) (engine : MatchingEngine MapBook),
      OrderBook.run start makers = .ok book ∧
        (⟨book, .cancelNewest, 1, {}⟩ : MatchingEngine FlatBook).serve takers =
          .ok (replies, engine') ∧
        replies.map (fun reply => reply.fills.length) = [2, 0, 0, 0, 0] ∧
        SameEngine Agree engine' engine := by
  obtain ⟨start, made, storage⟩ : ∃ start : FlatBook,
      BookT.make 8 16 8 0 = .ok start ∧ start.storage = ⟨8, 16, 16⟩ :=
    ⟨_, rfl, rfl⟩
  have within : AcceptedWithin start.storage makers :=
    storage ▸ makers_within.1
  obtain ⟨book, map, filled, filledMap, -⟩ :=
    BookT.agree_of_openTo PriceLadder.openTo made within makers_within.2
      makers.length
  rw [List.take_length] at filled filledMap
  obtain ⟨arrivals, arrived, represents⟩ :=
    MapBook.represents_empty.run_accepted filledMap
  have few := ArrivalBook.length_run?_le arrived
  have sameMap : makersBook = map := by
    rw [makersBook, filledMap]
    rfl
  have served : ((⟨makersBook, .cancelNewest, 1, {}⟩ :
      MatchingEngine MapBook).serve takers).map
        (fun result => result.1.map fun reply => reply.fills.length) =
      .ok [2, 0, 0, 0, 0] := by
    decide +kernel
  rw [sameMap] at served
  cases ran : (⟨map, .cancelNewest, 1, {}⟩ : MatchingEngine MapBook).serve
      takers with
  | error failure =>
      rw [ran] at served
      cases served
  | ok result =>
      obtain ⟨replies, final⟩ := result
      rw [ran] at served
      obtain ⟨engine', engine, servedToo, -, same⟩ :=
        pooledEngine_servesAlike PriceLadder.openTo made within
          makers_within.2 filled filledMap .cancelNewest 1 {} ran
          (storage ▸ callsFit_of_length represents
            (show arrivals.orders.length + takers.length ≤ 8 from
              (Nat.add_le_add_right few _).trans (by decide))
            (by decide) (by decide) (by decide))
          (by
            simp only [takers, Call.OfKind, PriceLadder.central_iff]
            simp) takers.length
      have whole : replies.take takers.length = replies := by
        have shape := congrArg List.length (Except.ok.inj served)
        rw [List.length_map] at shape
        exact List.take_of_length_le (by rw [shape]; decide)
      rw [List.take_length, whole] at servedToo
      exact ⟨start, book, replies, engine', engine, filled, servedToo,
        Except.ok.inj served, same⟩

end ItchExchange.Engine
