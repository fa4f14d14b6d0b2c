import ItchExchange.Book.MapBookArrivals
import ItchExchange.Replay.Encoding

/-!
# From bytes to book operations

The replay loop over framed messages dispatches them one after another, and
stops at the end of the input.  Over encoded book messages, every dispatch
performs the call which its message encodes, so the replay carries a book
through the same states as the calls themselves.
-/

namespace ItchExchange.Replay

open ItchExchange.Core ItchExchange.Book ItchExchange.Wire

namespace BookBuilder

/-! ## The loop -/

section Drive

variable {B O : Type} [OrderBook B] [Observer O B]

/-- The induction is on the frames which are left. -/
theorem driveWithin_framed {bodies : List (List UInt8)}
    (messages : ∀ body ∈ bodies, Message body) {turns : Nat}
    {cursor : FrameCursor} (rest : cursor.rest = framed bodies)
    (enough : bodies.length < turns) (builder : BookBuilder B O) :
    driveWithin turns cursor builder =
      (builder.dispatchAll bodies >>= fun later =>
        .ok (.endOfInput,
          { buf := cursor.buf
            pos := cursor.pos + (framed bodies).length },
          later)) := by
  induction bodies generalizing turns cursor builder with
  | nil =>
      obtain ⟨turns, rfl⟩ := Nat.exists_eq_succ_of_ne_zero
        (Nat.ne_of_gt enough)
      have stopped : front cursor.rest = .stop .endOfInput .none := by
        rw [rest]
        rfl
      rw [driveWithin, FrameCursor.next_eq, stopped]
      rfl
  | cons body bodies induction =>
      obtain ⟨turns, rfl⟩ := Nat.exists_eq_succ_of_ne_zero
        (Nat.ne_of_gt (Nat.zero_lt_of_lt enough))
      obtain ⟨message, others⟩ := List.forall_mem_cons.mp messages
      rw [framed_cons] at rest
      have found := front_eq_frame_iff.mpr ⟨message, rest⟩
      have behind : FrameCursor.rest
          { cursor with
            pos := cursor.pos + (kLengthPrefixSize + body.length)
            error := .none } = framed bodies := by
        rw [FrameCursor.rest, ← List.drop_drop, ← FrameCursor.rest, rest]
        exact List.drop_left' length_frameOf
      rw [driveWithin, FrameCursor.next_eq, found, dispatchAll]
      cases dispatched : dispatch body builder with
      | error failure => simp only [dispatched, error_bind]
      | ok outcome =>
          have later := induction others behind
            (Nat.lt_of_succ_lt_succ enough) outcome.2
          simp only [dispatched, ok_bind, later, framed_cons,
            List.length_append, length_frameOf, Nat.add_assoc]

/-- A replay of framed messages dispatches them and consumes all bytes. -/
theorem drive_framed {bodies : List (List UInt8)}
    (messages : ∀ body ∈ bodies, Message body)
    (builder : BookBuilder B O) :
    drive (framed bodies) builder =
      (builder.dispatchAll bodies >>= fun later =>
        .ok (.endOfInput,
          { buf := framed bodies, pos := (framed bodies).length },
          later)) := by
  have enough : bodies.length < (framed bodies).length + 1 := by
    induction bodies with
    | nil => exact Nat.one_pos
    | cons body bodies induction =>
        have shorter := induction (List.forall_mem_cons.mp messages).2
        rw [framed_cons, List.length_append, length_frameOf,
          List.length_cons]
        unfold kLengthPrefixSize
        omega
  have start : FrameCursor.rest { buf := framed bodies } = framed bodies :=
    rfl
  rw [drive, driveWithin_framed messages start enough]
  simp only [Nat.zero_add]

end Drive

/-! ## One message -/

section Perform

variable {B : Type} [OrderBook B]
  {builder : BookBuilder B NullObserver} {message : BookMessage}

/-- What a message leaves behind, when its call leads to the book. -/
structure Performed (builder : BookBuilder B NullObserver)
    (message : BookMessage) (book : B)
    (later : BookBuilder B NullObserver) : Prop where
  book : later.book = book
  resolved : later.resolved = builder.resolved
  locate : later.locate = builder.locate
  executedShares : later.stats.executedShares =
    builder.stats.executedShares + message.executedShares.toUInt64

/-- The indicator of a side is decoded to that side. -/
theorem indicator_decoded (side : Side) :
    (indicator side = 'B'.toUInt8 ∨ indicator side = 'S'.toUInt8) ∧
      (if indicator side = 'B'.toUInt8 then Side.buy else Side.sell) =
        side := by
  cases side <;> decide

variable {ts : Timestamp} {ref : OrderRef} {side : Side} {shares : Qty}
  {price : Price} {book : B}

theorem doAdd_of_add
    (added : OrderBook.add builder.book ref side price shares 0 =
      .ok book) :
    builder.doAdd ref (indicator side) price shares ts =
      .ok { builder with
        book
        stats :=
          { builder.stats with
            adds := builder.stats.adds + 1
            applied := builder.stats.applied + 1 } } := by
  obtain ⟨known, decoded⟩ := indicator_decoded side
  simp only [doAdd, assertMsg_of known, ok_bind, decoded,
    Observer.beforeAdd, added, Observer.afterApply, pure_eq_ok]

theorem doExecute_of_execute {reported : Qty}
    (present : OrderBook.sideOf builder.book ref = .ok side)
    (executed : OrderBook.execute builder.book ref shares =
      .ok (reported, book)) :
    builder.doExecute ref shares ts =
      .ok { builder with
        book
        stats :=
          { builder.stats with
            executions := builder.stats.executions + 1
            executedShares :=
              builder.stats.executedShares + shares.toUInt64
            applied := builder.stats.applied + 1 } } := by
  simp only [doExecute, present, ok_bind, Observer.noteReduction, executed,
    Observer.afterApply, pure_eq_ok]

theorem doCancel_of_cancel
    (present : OrderBook.sideOf builder.book ref = .ok side)
    (cancelled : OrderBook.cancel builder.book ref shares = .ok book) :
    builder.doCancel ref shares ts =
      .ok { builder with
        book
        stats :=
          { builder.stats with
            cancels := builder.stats.cancels + 1
            applied := builder.stats.applied + 1 } } := by
  simp only [doCancel, present, ok_bind, Observer.noteReduction, cancelled,
    Observer.afterApply, pure_eq_ok]

theorem doDelete_of_remove {qty : Qty}
    (present : OrderBook.sideOf builder.book ref = .ok side)
    (holds : OrderBook.qtyOf builder.book ref = .ok qty)
    (removed : OrderBook.remove builder.book ref = .ok book) :
    builder.doDelete ref ts =
      .ok { builder with
        book
        stats :=
          { builder.stats with
            deletes := builder.stats.deletes + 1
            applied := builder.stats.applied + 1 } } := by
  simp only [doDelete, present, holds, ok_bind, Observer.noteReduction,
    removed, Observer.afterApply, pure_eq_ok]

theorem doReplace_of_replace {newRef : OrderRef} {qty : Qty}
    (present : OrderBook.sideOf builder.book ref = .ok side)
    (holds : OrderBook.qtyOf builder.book ref = .ok qty)
    (replaced : OrderBook.replace builder.book ref newRef price shares =
      .ok book) :
    builder.doReplace ref newRef price shares ts =
      .ok { builder with
        book
        stats :=
          { builder.stats with
            replaces := builder.stats.replaces + 1
            applied := builder.stats.applied + 1 } } := by
  simp only [doReplace, present, holds, ok_bind, Observer.noteReduction,
    Observer.beforeAdd, replaced, Observer.afterApply, pure_eq_ok]

/-- A call which is carried out is carried out by its message. -/
theorem perform_of_apply {arrivals next : ArrivalBook}
    (answers : Answers builder.book arrivals)
    (accepted : arrivals.perform? message.operation = some next)
    (applied : OrderBook.apply builder.book message.operation = .ok book) :
    ∃ later, builder.perform message = .ok later ∧
      Performed builder message book later := by
  cases message with
  | addOrder envelope ref side shares price =>
      exact ⟨_, doAdd_of_add applied, rfl, rfl, rfl,
        (UInt64.add_zero _).symm⟩
  | addOrderWithMpid envelope ref side shares price =>
      exact ⟨_, doAdd_of_add applied, rfl, rfl, rfl,
        (UInt64.add_zero _).symm⟩
  | orderExecuted envelope ref shares =>
      obtain ⟨order, member, rfl, -, -⟩ :=
        ArrivalBook.take?_eq_some_iff.mp accepted
      obtain ⟨reported, executed⟩ := apply_execute_eq_ok applied
      exact ⟨_, doExecute_of_execute (answers.sideOf order member) executed,
        rfl, rfl, rfl, rfl⟩
  | orderExecutedWithPrice envelope ref shares =>
      obtain ⟨order, member, rfl, -, -⟩ :=
        ArrivalBook.take?_eq_some_iff.mp accepted
      obtain ⟨reported, executed⟩ := apply_execute_eq_ok applied
      exact ⟨_, doExecute_of_execute (answers.sideOf order member) executed,
        rfl, rfl, rfl, rfl⟩
  | orderCancel envelope ref shares =>
      obtain ⟨order, member, rfl, -, -⟩ :=
        ArrivalBook.take?_eq_some_iff.mp accepted
      exact ⟨_, doCancel_of_cancel (answers.sideOf order member) applied,
        rfl, rfl, rfl, (UInt64.add_zero _).symm⟩
  | orderDelete envelope ref =>
      obtain ⟨order, member, rfl, -⟩ :=
        ArrivalBook.remove?_eq_some_iff.mp accepted
      exact ⟨_, doDelete_of_remove (answers.sideOf order member)
          (answers.qtyOf order member) applied,
        rfl, rfl, rfl, (UInt64.add_zero _).symm⟩
  | orderReplace envelope originalRef newRef shares price =>
      obtain ⟨order, member, rfl, -⟩ :=
        ArrivalBook.replace?_eq_some_iff.mp accepted
      exact ⟨_, doReplace_of_replace (answers.sideOf order member)
          (answers.qtyOf order member) applied,
        rfl, rfl, rfl, (UInt64.add_zero _).symm⟩

end Perform

/-! ## Assertions which trip -/

/-- The computation stops at an assertion. -/
def Trips {α : Type} (result : Checked α) : Prop :=
  ∃ text, result = .error (.assertion text)

theorem Trips.bind {α β : Type} {first : Checked α}
    (trips : Trips first) (next : α → Checked β) :
    Trips (first >>= next) := by
  obtain ⟨text, rfl⟩ := trips
  exact ⟨text, rfl⟩

/-- A part which returns or trips comes before one which trips. -/
theorem trips_bind {α β : Type} {first : Checked α} {next : α → Checked β}
    (returns : (∃ value, first = .ok value) ∨ Trips first)
    (trips : ∀ value, Trips (next value)) : Trips (first >>= next) := by
  rcases returns with ⟨value, rfl⟩ | tripsFirst
  · exact trips value
  · exact tripsFirst.bind next

section Trips

variable {builder : BookBuilder MapBook NullObserver}
  {message : BookMessage}

theorem sideOf_returns_or_trips (book : MapBook) (ref : OrderRef) :
    (∃ side, OrderBook.sideOf book ref = .ok side) ∨
      Trips (OrderBook.sideOf book ref) := by
  change (∃ side, MapBook.sideOf book ref = .ok side) ∨
    Trips (MapBook.sideOf book ref)
  unfold MapBook.sideOf MapBook.require
  cases book.orders[ref]? with
  | none => exact Or.inr ⟨_, rfl⟩
  | some entry => exact Or.inl ⟨entry.side, rfl⟩

theorem qtyOf_returns_or_trips (book : MapBook) (ref : OrderRef) :
    (∃ qty, OrderBook.qtyOf book ref = .ok qty) ∨
      Trips (OrderBook.qtyOf book ref) := by
  change (∃ qty, MapBook.qtyOf book ref = .ok qty) ∨
    Trips (MapBook.qtyOf book ref)
  unfold MapBook.qtyOf MapBook.require
  cases book.orders[ref]? with
  | none => exact Or.inr ⟨_, rfl⟩
  | some entry => exact Or.inl ⟨entry.qty, rfl⟩

theorem doAdd_trips {ref : OrderRef} {side : Side} {shares : Qty}
    {price : Price} {ts : Timestamp}
    (trips : Trips
      (OrderBook.add builder.book ref side price shares 0)) :
    Trips (builder.doAdd ref (indicator side) price shares ts) := by
  obtain ⟨known, decoded⟩ := indicator_decoded side
  rw [doAdd, assertMsg_of known, ok_bind, decoded]
  exact trips.bind _

theorem doExecute_trips {ref : OrderRef} {shares : Qty} {ts : Timestamp}
    (trips : Trips
      (OrderBook.apply builder.book (.execute ref shares))) :
    Trips (builder.doExecute ref shares ts) := by
  have executed : Trips (OrderBook.execute builder.book ref shares) := by
    obtain ⟨text, failed⟩ := trips
    rcases bind_eq_error_iff.mp failed with stopped | ⟨_, -, stopped⟩
    · exact ⟨text, stopped⟩
    · cases stopped
  refine trips_bind (sideOf_returns_or_trips builder.book ref)
    fun side => ?_
  exact executed.bind _

/-- A call which trips an assertion trips one in its message. -/
theorem perform_trips
    (trips : Trips (OrderBook.apply builder.book message.operation)) :
    Trips (builder.perform message) := by
  have present := sideOf_returns_or_trips builder.book
  have holds := qtyOf_returns_or_trips builder.book
  cases message with
  | addOrder envelope ref side shares price => exact doAdd_trips trips
  | addOrderWithMpid envelope ref side shares price =>
      exact doAdd_trips trips
  | orderExecuted envelope ref shares => exact doExecute_trips trips
  | orderExecutedWithPrice envelope ref shares =>
      exact doExecute_trips trips
  | orderCancel envelope ref shares =>
      refine trips_bind (present ref) fun side => ?_
      exact trips.bind _
  | orderDelete envelope ref =>
      refine trips_bind (present ref) fun side => ?_
      refine trips_bind (holds ref) fun qty => ?_
      exact trips.bind _
  | orderReplace envelope originalRef newRef shares price =>
      refine trips_bind (present originalRef) fun side => ?_
      refine trips_bind (holds originalRef) fun qty => ?_
      exact trips.bind _

end Trips

/-! ## All messages -/

section Run

variable {builder : BookBuilder MapBook NullObserver} {locate : UInt16}
  {arrivals final : ArrivalBook} {messages : List BookMessage}

/-- The shares which the messages execute, as a natural number. -/
def executedTotal (messages : List BookMessage) : Nat :=
  (messages.map fun message => message.executedShares.toNat).sum

theorem executedTotal_cons (message : BookMessage) :
    UInt64.ofNat (executedTotal (message :: messages)) =
      message.executedShares.toUInt64 +
        UInt64.ofNat (executedTotal messages) := by
  rw [executedTotal, List.map_cons, List.sum_cons, UInt64.ofNat_add,
    UInt64.ofNat_uInt32ToNat, executedTotal]

/-- Messages whose calls the book carries out lead to the same book. -/
theorem dispatchAll_accepted
    (represents : MapBook.Represents builder.book arrivals)
    (resolved : builder.resolved = true) (same : builder.locate = locate)
    (accepted : arrivals.run? (messages.map BookMessage.operation) =
      some final) :
    ∃ later,
      builder.dispatchAll (messages.map (BookMessage.encode · locate)) =
          .ok later ∧
        OrderBook.run builder.book (messages.map BookMessage.operation) =
          .ok later.book ∧
        later.stats.executedShares = builder.stats.executedShares +
          UInt64.ofNat (executedTotal messages) := by
  induction messages generalizing builder arrivals with
  | nil => exact ⟨builder, rfl, rfl, (UInt64.add_zero _).symm⟩
  | cons message messages induction =>
      rw [List.map_cons, ArrivalBook.run?_cons] at accepted
      obtain ⟨next, performed, acceptedRest⟩ :=
        Option.bind_eq_some_iff.mp accepted
      obtain ⟨book, applied, nextRepresents⟩ := represents.apply performed
      have answers : Answers
          (builder.seen message.envelope.timestamp).book arrivals :=
        represents.answers
      obtain ⟨middle, done, rfl, stillResolved, stillSame, counted⟩ :=
        perform_of_apply answers performed applied
      obtain ⟨later, dispatched, ran, total⟩ := induction nextRepresents
        (stillResolved.trans resolved) (stillSame.trans same) acceptedRest
      refine ⟨later, ?_, ?_, ?_⟩
      · rw [List.map_cons, dispatchAll, dispatch_encode resolved same, done]
        exact dispatched
      · rw [List.map_cons, OrderBook.run_cons, applied, ok_bind, ran]
      · rw [total, counted, executedTotal_cons, UInt64.add_assoc]
        rfl

/-- Messages one of whose calls trips an assertion trip one, too. -/
theorem dispatchAll_refused
    (represents : MapBook.Represents builder.book arrivals)
    (resolved : builder.resolved = true) (same : builder.locate = locate)
    (refused : arrivals.run? (messages.map BookMessage.operation) =
      none) :
    Trips
      (builder.dispatchAll
        (messages.map (BookMessage.encode · locate))) := by
  induction messages generalizing builder arrivals with
  | nil => simp at refused
  | cons message messages induction =>
      rw [List.map_cons, ArrivalBook.run?_cons] at refused
      rw [List.map_cons, dispatchAll, dispatch_encode resolved same]
      cases performed : arrivals.perform? message.operation with
      | none =>
          obtain ⟨text, -, failed⟩ := represents.apply_refused performed
          have trips : Trips (OrderBook.apply
              (builder.seen message.envelope.timestamp).book
              message.operation) := ⟨text, failed⟩
          exact ((perform_trips trips).bind _).bind _
      | some next =>
          rw [performed, Option.bind_some] at refused
          obtain ⟨book, applied, nextRepresents⟩ :=
            represents.apply performed
          have answers : Answers
              (builder.seen message.envelope.timestamp).book arrivals :=
            represents.answers
          obtain ⟨middle, done, rfl, stillResolved, stillSame, -⟩ :=
            perform_of_apply answers performed applied
          rw [done]
          exact induction nextRepresents (stillResolved.trans resolved)
            (stillSame.trans same) refused

end Run

/-! ## The whole feed -/

/-- A stock directory message and book messages, each behind its length. -/
def encodeFeed (symbol : TrackedSymbol) (locate : UInt16)
    (directory : Envelope .stockDirectory) (messages : List BookMessage) :
    List UInt8 :=
  framed (encodeDirectory directory symbol locate ::
    messages.map (BookMessage.encode · locate))

/-- A builder over an empty book. -/
def tracking (symbol : TrackedSymbol) :
    BookBuilder MapBook NullObserver where
  book := {}
  symbol := symbol.characters
  observer := {}

/-- The directory message makes the builder follow the locate. -/
theorem dispatch_directory (symbol : TrackedSymbol) (locate : UInt16)
    (directory : Envelope .stockDirectory) :
    ∃ start,
      dispatch (encodeDirectory directory symbol locate)
          (tracking symbol) = .ok (true, start) ∧
        start.book = {} ∧ start.resolved = true ∧
        start.locate = locate ∧ start.stats.executedShares = 0 :=
  ⟨_, dispatch_encodeDirectory rfl rfl directory locate, rfl, rfl, rfl, rfl⟩

theorem messages_of_feed (symbol : TrackedSymbol) (locate : UInt16)
    (directory : Envelope .stockDirectory) (messages : List BookMessage) :
    ∀ body ∈ encodeDirectory directory symbol locate ::
      messages.map (BookMessage.encode · locate), Message body := by
  refine List.forall_mem_cons.mpr
    ⟨message_encodeDirectory directory symbol locate, ?_⟩
  intro body member
  obtain ⟨message, -, rfl⟩ := List.mem_map.mp member
  exact message.message_encode locate

/--
Bytes on the wire become exactly the calls which they encode.  The replay trips
an assertion exactly when the calls do; otherwise it consumes every byte, ends at
the end of the input, and leaves the book which the calls leave.
-/
theorem drive_appliesOperations (symbol : TrackedSymbol) (locate : UInt16)
    (directory : Envelope .stockDirectory) (messages : List BookMessage) :
    let feed := encodeFeed symbol locate directory messages
    let replayed := drive feed (tracking symbol)
    let direct := OrderBook.run ({} : MapBook)
      (messages.map BookMessage.operation)
    (Trips replayed ↔ Trips direct) ∧
      (Trips direct ∨
        ∃ cursor later, replayed = .ok (.endOfInput, cursor, later) ∧
          cursor.offset = feed.length ∧
          direct = .ok later.book ∧
          later.stats.executedShares =
            UInt64.ofNat (executedTotal messages)) := by
  intro feed replayed direct
  obtain ⟨start, found, empty, resolved, same, none⟩ :=
    dispatch_directory symbol locate directory
  have represents : MapBook.Represents start.book ArrivalBook.empty := by
    rw [empty]
    exact MapBook.represents_empty
  have replay : replayed =
      (start.dispatchAll (messages.map (BookMessage.encode · locate)) >>=
        fun later =>
          .ok (.endOfInput, { buf := feed, pos := feed.length }, later)) := by
    have whole := drive_framed
      (messages_of_feed symbol locate directory messages) (tracking symbol)
    rwa [dispatchAll, found, ok_bind] at whole
  cases accepted :
    ArrivalBook.empty.run? (messages.map BookMessage.operation) with
  | none =>
      obtain ⟨text, -, failed⟩ :=
        MapBook.represents_empty.run_refused accepted
      have trips : Trips direct := ⟨text, failed⟩
      have tripsToo : Trips replayed := by
        rw [replay]
        exact (dispatchAll_refused represents resolved same accepted).bind _
      exact ⟨⟨fun _ => trips, fun _ => tripsToo⟩, Or.inl trips⟩
  | some final =>
      obtain ⟨later, dispatched, ran, total⟩ :=
        dispatchAll_accepted represents resolved same accepted
      rw [dispatched, ok_bind] at replay
      rw [empty] at ran
      rw [none, UInt64.zero_add] at total
      have direct_eq : direct = .ok later.book := ran
      refine ⟨?_, Or.inr ⟨_, later, replay, rfl, ran, total⟩⟩
      rw [replay, direct_eq]
      constructor <;>
      · rintro ⟨text, failed⟩
        cases failed

/-- A message of this type which is empty but for its header. -/
def blankEnvelope (type : MsgType) (timestamp : Timestamp)
    (small : timestamp.toNat < 2 ^ 48) : Envelope type where
  background := List.replicate type.size 0
  timestamp
  sized := List.length_replicate
  small

/-- A bid is executed in part, replaced and withdrawn. -/
def bidWithdrawn : List BookMessage :=
  [.addOrder (blankEnvelope _ 7 (by decide)) 1 .buy 500 250000,
    .orderExecuted (blankEnvelope _ 8 (by decide)) 1 200,
    .orderReplace (blankEnvelope _ 9 (by decide)) 1 2 400 250100,
    .orderCancel (blankEnvelope _ 9 (by decide)) 2 100,
    .addOrderWithMpid (blankEnvelope _ 9 (by decide)) 3 .sell 50 260000,
    .orderExecutedWithPrice (blankEnvelope _ 9 (by decide)) 3 20,
    .orderDelete (blankEnvelope _ 10 (by decide)) 2]

/-- The symbol of the feed. -/
def trackedAmd : TrackedSymbol where
  characters := ['A'.toUInt8, 'M'.toUInt8, 'D'.toUInt8]
  nonempty := by decide
  short := by decide
  unpadded := by decide

theorem drive_appliesOperations_bidWithdrawn :
    ∃ cursor later,
      drive (encodeFeed trackedAmd 331 (blankEnvelope _ 6 (by decide))
          bidWithdrawn) (tracking trackedAmd) =
        .ok (.endOfInput, cursor, later) ∧
      OrderBook.run ({} : MapBook) (bidWithdrawn.map BookMessage.operation) =
        .ok later.book ∧
      later.stats.executedShares = 220 ∧ later.book.qtyOf 3 = .ok 30 := by
  have value : (OrderBook.run ({} : MapBook)
      (bidWithdrawn.map BookMessage.operation)).map
        (fun book => book.qtyOf 3) = .ok (.ok 30) := by
    decide +kernel
  have applied := drive_appliesOperations trackedAmd 331
    (blankEnvelope _ 6 (by decide)) bidWithdrawn
  obtain ⟨text, failed⟩ | ⟨cursor, later, replayed, -, direct, executed⟩ :=
    applied.2
  · rw [failed] at value
    cases value
  · rw [direct] at value
    exact ⟨cursor, later, replayed, direct, executed, Except.ok.inj value⟩

end BookBuilder

end ItchExchange.Replay
