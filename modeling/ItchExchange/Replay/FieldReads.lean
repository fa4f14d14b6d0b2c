import ItchExchange.Replay.ReplayObserver
import ItchExchange.Replay.WireToBook
import ItchExchange.Wire.WireBuilder

/-!
# What a replay reads of a feed

A builder reads a few members of eleven message types.  Messages which are the
same to these reads are the same to a builder, whatever their tracking numbers,
attributions, match numbers and execution prices are.
-/

namespace ItchExchange.Replay

open ItchExchange.Core ItchExchange.Book ItchExchange.Wire

/-- The members which a builder reads of a message. -/
def readsOf : MsgType → List Member
  | .stockDirectory =>
      [⟨.stockLocate, .beU16⟩, ⟨.timestamp, .beU48⟩, ⟨.stock, .alpha 8⟩]
  | .addOrder | .addOrderWithMpid =>
      [⟨.stockLocate, .beU16⟩, ⟨.timestamp, .beU48⟩,
        ⟨.orderReferenceNumber, .beU64⟩, ⟨.buySellIndicator, .char⟩,
        ⟨.shares, .beU32⟩, ⟨.price, .price4⟩]
  | .orderExecuted | .orderExecutedWithPrice =>
      [⟨.stockLocate, .beU16⟩, ⟨.timestamp, .beU48⟩,
        ⟨.orderReferenceNumber, .beU64⟩, ⟨.executedShares, .beU32⟩]
  | .orderCancel =>
      [⟨.stockLocate, .beU16⟩, ⟨.timestamp, .beU48⟩,
        ⟨.orderReferenceNumber, .beU64⟩, ⟨.cancelledShares, .beU32⟩]
  | .orderDelete =>
      [⟨.stockLocate, .beU16⟩, ⟨.timestamp, .beU48⟩,
        ⟨.orderReferenceNumber, .beU64⟩]
  | .orderReplace =>
      [⟨.stockLocate, .beU16⟩, ⟨.timestamp, .beU48⟩,
        ⟨.originalOrderReferenceNumber, .beU64⟩,
        ⟨.newOrderReferenceNumber, .beU64⟩, ⟨.shares, .beU32⟩,
        ⟨.price, .price4⟩]
  | .tradeNonCross | .crossTrade | .brokenTrade =>
      [⟨.stockLocate, .beU16⟩, ⟨.timestamp, .beU48⟩]
  | _ => []

/-- The values of the members of a message. -/
abbrev Record := (member : Member) → member.type.Value

namespace BookBuilder

variable {B O : Type} [OrderBook B] [Observer O B]

/-- What a builder does with a message of this type which holds these values. -/
def onRecord (builder : BookBuilder B O) (record : Record) :
    MsgType → Checked (BookBuilder B O)
  | .stockDirectory =>
      let builder := builder.seen (record ⟨.timestamp, .beU48⟩)
      let sym := trimAlpha (record ⟨.stock, .alpha 8⟩)
      .ok
        (if builder.resolved = true then builder
        else if builder.symbol = [] ∨ sym = builder.symbol then
          { builder with
            symbol := sym
            locate := record ⟨.stockLocate, .beU16⟩
            resolved := true }
        else builder)
  | .addOrder | .addOrderWithMpid =>
      whenMine builder (record ⟨.stockLocate, .beU16⟩)
        (record ⟨.timestamp, .beU48⟩) fun builder =>
          builder.doAdd (record ⟨.orderReferenceNumber, .beU64⟩)
            (record ⟨.buySellIndicator, .char⟩) (record ⟨.price, .price4⟩)
            (record ⟨.shares, .beU32⟩) (record ⟨.timestamp, .beU48⟩)
  | .orderExecuted | .orderExecutedWithPrice =>
      whenMine builder (record ⟨.stockLocate, .beU16⟩)
        (record ⟨.timestamp, .beU48⟩) fun builder =>
          builder.doExecute (record ⟨.orderReferenceNumber, .beU64⟩)
            (record ⟨.executedShares, .beU32⟩) (record ⟨.timestamp, .beU48⟩)
  | .orderCancel =>
      whenMine builder (record ⟨.stockLocate, .beU16⟩)
        (record ⟨.timestamp, .beU48⟩) fun builder =>
          builder.doCancel (record ⟨.orderReferenceNumber, .beU64⟩)
            (record ⟨.cancelledShares, .beU32⟩) (record ⟨.timestamp, .beU48⟩)
  | .orderDelete =>
      whenMine builder (record ⟨.stockLocate, .beU16⟩)
        (record ⟨.timestamp, .beU48⟩) fun builder =>
          builder.doDelete (record ⟨.orderReferenceNumber, .beU64⟩)
            (record ⟨.timestamp, .beU48⟩)
  | .orderReplace =>
      whenMine builder (record ⟨.stockLocate, .beU16⟩)
        (record ⟨.timestamp, .beU48⟩) fun builder =>
          builder.doReplace (record ⟨.originalOrderReferenceNumber, .beU64⟩)
            (record ⟨.newOrderReferenceNumber, .beU64⟩)
            (record ⟨.price, .price4⟩) (record ⟨.shares, .beU32⟩)
            (record ⟨.timestamp, .beU48⟩)
  | .tradeNonCross | .brokenTrade =>
      whenMine builder (record ⟨.stockLocate, .beU16⟩)
        (record ⟨.timestamp, .beU48⟩) fun builder => .ok builder.ignoreTrade
  | .crossTrade =>
      whenMine builder (record ⟨.stockLocate, .beU16⟩)
        (record ⟨.timestamp, .beU48⟩) fun builder =>
          let stats := builder.stats
          .ok
            { builder with
              stats :=
                { stats with crossesIgnored := stats.crossesIgnored + 1 } }
  | _ => .ok builder

/-- A message is dispatched by its type and the values of its members. -/
theorem dispatch_eq_onRecord {type : MsgType} {p : List UInt8}
    (code : loadBe8 p 0 = type.code) (builder : BookBuilder B O) :
    dispatch p builder =
      (builder.onRecord (View.mk p : View type).get type).map
        fun builder => (true, builder) := by
  rw [dispatch, code, MsgType.ofByte?_code]
  have handled : ∀ handled : Checked (BookBuilder B O),
      (handled >>= fun builder => pure (true, builder)) =
        handled.map fun builder => (true, builder) := by
    intro handled
    cases handled <;> rfl
  cases type <;> exact handled _

/-- Values which are not read make no difference. -/
theorem onRecord_congr {type : MsgType} {record other : Record}
    (same : ∀ member ∈ readsOf type, record member = other member)
    (builder : BookBuilder B O) :
    builder.onRecord record type = builder.onRecord other type := by
  cases type <;> simp_all [onRecord, readsOf]

end BookBuilder

/-! ## Feeds -/

/-- Messages of this type, with the same values in what a builder reads. -/
structure SameReads (type : MsgType) (first second : List UInt8) : Prop where
  code : loadBe8 first 0 = type.code
  code' : loadBe8 second 0 = type.code
  fields : ∀ member ∈ readsOf type,
    (View.mk first : View type).get member =
      (View.mk second : View type).get member

section Feeds

variable {B O : Type} [OrderBook B] [Observer O B]

/--
A replay does not depend on the members which no handler reads: feeds whose
messages are the same otherwise end with the same builder, or stop at the same
message with the same failure.
-/
theorem dispatchAll_sameReads {bodies others : List (List UInt8)}
    (same : List.Forall₂ (fun first second => ∃ type,
      SameReads type first second) bodies others)
    (builder : BookBuilder B O) :
    builder.dispatchAll bodies = builder.dispatchAll others := by
  induction same generalizing builder with
  | nil => rfl
  | cons here _ induction =>
      obtain ⟨type, code, code', fields⟩ := here
      rw [BookBuilder.dispatchAll, BookBuilder.dispatchAll,
        BookBuilder.dispatch_eq_onRecord code,
        BookBuilder.dispatch_eq_onRecord code',
        BookBuilder.onRecord_congr fields]
      congr 1
      funext result
      exact induction result.2

theorem SameReads.refl {type : MsgType} {body : List UInt8}
    (code : loadBe8 body 0 = type.code) : SameReads type body body :=
  ⟨code, code, fun _ _ => rfl⟩

/--
A directory message, a bid of five shares, and three of them which are executed
at this price.
-/
def bidExecutedAt (price : UInt8) : List (List UInt8) :=
  ['R'.toUInt8 :: List.replicate 38 0,
    'A'.toUInt8 :: List.replicate 17 0 ++
      [1, 'B'.toUInt8, 0, 0, 0, 5] ++ List.replicate 8 0 ++ [0, 3, 208, 144],
    'C'.toUInt8 :: List.replicate 17 0 ++
      [1, 0, 0, 0, 3] ++ List.replicate 12 0 ++ [price]]

/-- Two shares are left of the bid, whatever the price of the execution. -/
theorem dispatchAll_sameReads_bidExecutedAt :
    ∃ last, (replaying MapBook {} [] 1 true).dispatchAll (bidExecutedAt 10) =
        .ok last ∧
      (replaying MapBook {} [] 1 true).dispatchAll (bidExecutedAt 20) =
        .ok last ∧
      last.resolved = true ∧ last.stats.executedShares = 3 ∧
      last.book.qtyOf 1 = .ok 2 := by
  have value : ((replaying MapBook {} [] 1 true).dispatchAll
      (bidExecutedAt 10)).map (fun last =>
        (last.resolved, last.stats.executedShares, last.book.qtyOf 1)) =
          .ok (true, 3, .ok 2) := by
    decide +kernel
  have fields : ∀ member ∈ readsOf .orderExecutedWithPrice,
      (View.mk ((bidExecutedAt 10).getD 2 []) :
          View .orderExecutedWithPrice).get member =
        (View.mk ((bidExecutedAt 20).getD 2 []) :
          View .orderExecutedWithPrice).get member := by
    simp only [readsOf, List.forall_mem_cons]
    exact ⟨rfl, rfl, rfl, rfl, by simp⟩
  have reads : List.Forall₂ (fun first second => ∃ type,
      SameReads type first second) (bidExecutedAt 10) (bidExecutedAt 20) :=
    .cons ⟨.stockDirectory, .refl rfl⟩
      (.cons ⟨.addOrder, .refl rfl⟩
        (.cons ⟨.orderExecutedWithPrice, rfl, rfl, fields⟩ .nil))
  have same := dispatchAll_sameReads reads (replaying MapBook {} [] 1 true)
  cases ran : (replaying MapBook {} [] 1 true).dispatchAll
      (bidExecutedAt 10) with
  | error failure =>
      rw [ran] at value
      cases value
  | ok last =>
      rw [ran] at value
      simp only [Except.map, Except.ok.injEq, Prod.mk.injEq] at value
      exact ⟨last, rfl, same.symm.trans ran, value⟩

/-- The values which a draft shows. -/
def shown (draft : Draft) : Record :=
  fun member => member.type.kept (draft.record member)

theorem readsOf_subset (type : MsgType) : readsOf type ⊆ type.accessors := by
  cases type <;> decide

theorem dispatchAll_shows {bodies : List (List UInt8)} {drafts : List Draft}
    (shows : List.Forall₂ Draft.Shows bodies drafts)
    (builder : BookBuilder B O) :
    builder.dispatchAll bodies =
      drafts.foldlM (fun builder draft =>
        builder.onRecord (shown draft) draft.type) builder := by
  induction shows generalizing builder with
  | nil => rfl
  | cons here _ induction =>
      rw [BookBuilder.dispatchAll, List.foldlM_cons,
        BookBuilder.dispatch_eq_onRecord here.isOfType.code,
        BookBuilder.onRecord_congr fun member inside =>
          here.values member (readsOf_subset _ inside)]
      change (Except.map _ (builder.onRecord (shown _) _) >>= _) = _
      cases builder.onRecord (shown _) _ with
      | error failure => rfl
      | ok later => exact induction later

/--
A replay of a feed which was built by any calls does what its messages stand
for, one after another: the values are those which were put last.
-/
theorem drive_calls {calls : List Call} {drafts : List Draft}
    (drafted : Draft.calls? [] calls = some drafts)
    (builder : BookBuilder B O) :
    ∃ session, Session.calls {} calls = .ok session ∧
      (BookBuilder.drive session.builder.buf builder).map
          (fun ended => ended.2.2) =
        drafts.foldlM (fun builder draft =>
          builder.onRecord (shown draft) draft.type) builder := by
  obtain ⟨session, bodies, ran, built⟩ := built_nothing.calls drafted
  refine ⟨session, ran, ?_⟩
  rw [built.buf, BookBuilder.drive_framed (seen_of_shows built.forall₂).1,
    ← dispatchAll_shows built.forall₂]
  cases builder.dispatchAll bodies <;> rfl

/-- A directory message and a bid, whose fields are put in turns. -/
def bidInTurns : List Call :=
  [.begin .stockDirectory, .begin .addOrder,
    .put 1 ⟨.price, .price4⟩ (250000 : UInt32),
    .put 1 ⟨.shares, .beU32⟩ (5 : UInt32),
    .put 0 ⟨.stock, .alpha 8⟩ ['X'.toUInt8],
    .put 1 ⟨.buySellIndicator, .char⟩ 'B'.toUInt8,
    .put 1 ⟨.shares, .beU32⟩ (7 : UInt32),
    .put 1 ⟨.orderReferenceNumber, .beU64⟩ (1 : UInt64)]

theorem drive_calls_bidInTurns :
    ∃ drafts session, Draft.calls? [] bidInTurns = some drafts ∧
      Session.calls {} bidInTurns = .ok session ∧
      (BookBuilder.drive session.builder.buf
          (replaying MapBook {} ['X'.toUInt8] 1 true)).map
          (fun ended => ended.2.2) =
        drafts.foldlM (fun builder draft =>
          builder.onRecord (shown draft) draft.type)
          (replaying MapBook {} ['X'.toUInt8] 1 true) := by
  obtain ⟨drafts, drafted⟩ :
      ∃ drafts, Draft.calls? [] bidInTurns = some drafts := ⟨_, rfl⟩
  obtain ⟨session, ran, driven⟩ :=
    drive_calls drafted (replaying MapBook {} ['X'.toUInt8] 1 true)
  exact ⟨drafts, session, drafted, ran, driven⟩

end Feeds

end ItchExchange.Replay
