import ItchExchange.Book.AvlBook
import ItchExchange.Book.FlatBookValidate
import ItchExchange.Replay.QuantityConservation

/-!
# One journal for every book

Two replays of the same messages over two books which agree, with different
intervals of the self-check, write the same journal.  The second replay stops at
no assertion which the first one passes, as long as it is not the stricter one
and its book has the storage.
-/

namespace ItchExchange.Replay

open ItchExchange.Core ItchExchange.Book ItchExchange.Wire

/-! ## Observers of two books -/

/-- The counters are equal, other than that of the self-checks. -/
structure SameCounters (first second : ReplayCounters) : Prop where
  applied : second.applied = first.applied
  crossedStates : second.crossedStates = first.crossedStates
  peakOrders : second.peakOrders = first.peakOrders
  peakLevels : second.peakLevels = first.peakLevels
  expectedQty : second.expectedQty = first.expectedQty

/-- The observers have written the same journal. -/
structure SameJournal (first second : ReplayObserver) : Prop where
  digest : second.digest = first.digest
  counters : SameCounters first.counters second.counters

/-- The second observer asserts no more than the first one. -/
def NoStricter (first second : ReplayObserver) : Prop :=
  second.strict = first.strict ∨ second.strict = false

theorem NoStricter.congr {first second seen other : ReplayObserver}
    (noStricter : NoStricter first second)
    (firstSame : SameButExpected first seen)
    (secondSame : SameButExpected second other) : NoStricter seen other := by
  rw [NoStricter, secondSame.strict, firstSame.strict]
  exact noStricter

section Observers

variable {first second seen : ReplayObserver}

theorem SameJournal.beforeAdd (same : SameJournal first second) (side : Side)
    (qty : Qty) :
    SameJournal (first.beforeAdd side qty) (second.beforeAdd side qty) where
  digest := same.digest
  counters :=
    { same.counters with
      expectedQty := by
        unfold ReplayObserver.beforeAdd
        dsimp only
        rw [same.counters.expectedQty] }

theorem SameJournal.noteReduction (same : SameJournal first second)
    {side : Side} {qty : Qty}
    (noted : first.noteReduction side qty = .ok seen) :
    ∃ other, second.noteReduction side qty = .ok other ∧
      SameJournal seen other ∧ SameButExpected first seen ∧
      SameButExpected second other := by
  unfold ReplayObserver.noteReduction at noted ⊢
  obtain ⟨_, checked, equal⟩ := bind_eq_ok_iff.mp noted
  have held := assertMsg_eq_ok_iff.mp checked
  cases equal
  dsimp only
  rw [same.counters.expectedQty, assertMsg_of held]
  exact ⟨_, rfl, ⟨same.digest, { same.counters with expectedQty := rfl }⟩,
    ⟨rfl, rfl⟩, ⟨rfl, rfl⟩⟩

section Books

variable {B C : Type} [OrderBook B] [OrderBook C] {left : B} {right : C}

theorem insidePrice_congr (agree : Agree left right) (side : Side) :
    ReplayObserver.insidePrice right side =
      ReplayObserver.insidePrice left side := by
  rw [ReplayObserver.insidePrice, ReplayObserver.insidePrice, agree.isEmpty,
    agree.best]

theorem crosses_congr (agree : Agree left right) :
    ReplayObserver.crosses right = ReplayObserver.crosses left := by
  simp only [ReplayObserver.crosses, agree.isEmpty, insidePrice_congr agree]

theorem journalFields_congr (agree : Agree left right) (ts : Timestamp) :
    ReplayObserver.journalFields right ts =
      ReplayObserver.journalFields left ts := by
  simp only [ReplayObserver.journalFields, insidePrice_congr agree,
    agree.stats, agree.orderCount]

theorem journal_congr (agree : Agree left right) (digest : Digest)
    (ts : Timestamp) (applied : UInt64) :
    ReplayObserver.journal digest right ts applied =
      ReplayObserver.journal digest left ts applied := by
  rw [ReplayObserver.journal, ReplayObserver.journal,
    journalFields_congr agree, bookDigest_congr agree.forEachLevel]

theorem SameJournal.count (same : SameJournal first second)
    (agree : Agree left right) (noStricter : NoStricter first second)
    {counters : ReplayCounters} (counted : first.count left = .ok counters) :
    ∃ others, second.count right = .ok others ∧
      SameCounters counters others := by
  have counts := same.counters
  unfold ReplayObserver.count at counted ⊢
  dsimp only at counted ⊢
  simp only [crosses_congr agree, ← agree.stats, ← agree.orderCount,
    ReplayObserver.levelTotal] at counted ⊢
  by_cases crossing : ReplayObserver.crosses left = true
  · rw [if_pos crossing] at counted ⊢
    obtain ⟨_, lenient, counted⟩ := bind_eq_ok_iff.mp counted
    obtain ⟨_, moved, counted⟩ := bind_eq_ok_iff.mp counted
    cases moved
    obtain ⟨_, checked, equal⟩ := bind_eq_ok_iff.mp counted
    cases equal
    have notStrict := assertMsg_eq_ok_iff.mp lenient
    have conserved := assertMsg_eq_ok_iff.mp checked
    have secondNotStrict : second.strict = false :=
      noStricter.elim (fun equal => equal.trans notStrict) id
    rw [assertMsg_of secondNotStrict, ok_bind, pure_eq_ok, ok_bind]
    dsimp only
    rw [counts.expectedQty, assertMsg_of conserved, ok_bind]
    exact ⟨_, rfl, by constructor <;> simp only [counts.applied,
      counts.crossedStates, counts.peakOrders, counts.peakLevels]⟩
  · rw [if_neg crossing] at counted ⊢
    obtain ⟨_, moved, counted⟩ := bind_eq_ok_iff.mp counted
    cases moved
    obtain ⟨_, checked, equal⟩ := bind_eq_ok_iff.mp counted
    cases equal
    have conserved := assertMsg_eq_ok_iff.mp checked
    rw [ok_bind]
    dsimp only
    rw [counts.expectedQty, assertMsg_of conserved, ok_bind]
    exact ⟨_, rfl, by constructor <;> simp only [counts.applied,
      counts.crossedStates, counts.peakOrders, counts.peakLevels]⟩

theorem SameJournal.afterApply [ValidatedBook B] [ValidatedBook C]
    (same : SameJournal first second) (agree : Agree left right)
    (noStricter : NoStricter first second)
    (valid : ValidatedBook.validate right = .ok ()) {ts : Timestamp}
    (done : first.afterApply left ts = .ok seen) :
    ∃ other, second.afterApply right ts = .ok other ∧
      SameJournal seen other ∧ SameButExpected first seen ∧
      SameButExpected second other := by
  unfold ReplayObserver.afterApply at done
  obtain ⟨counters, counted, done⟩ := bind_eq_ok_iff.mp done
  obtain ⟨digest, written, done⟩ := bind_eq_ok_iff.mp done
  obtain ⟨others, otherCounted, counts⟩ :=
    same.count agree noStricter counted
  -- The interval of the first observer decides on one more counter only.
  have seenSame : seen.digest = digest ∧ SameCounters seen.counters others ∧
      SameButExpected first seen := by
    split_ifs at done
    · obtain ⟨_, -, equal⟩ := bind_eq_ok_iff.mp done
      cases equal
      exact ⟨rfl, { counts with }, rfl, rfl⟩
    · cases done
      exact ⟨rfl, counts, rfl, rfl⟩
  obtain ⟨sameDigest, sameCounters, sameFirst⟩ := seenSame
  have otherWritten : ReplayObserver.journal second.digest right ts
      others.applied = .ok digest := by
    rw [journal_congr agree, same.digest, counts.applied]
    exact written
  rw [ReplayObserver.afterApply, otherCounted, ok_bind, otherWritten, ok_bind]
  split_ifs
  · rw [valid, ok_bind]
    exact ⟨_, rfl, ⟨sameDigest.symm, { sameCounters with }⟩, sameFirst,
      rfl, rfl⟩
  · exact ⟨_, rfl, ⟨sameDigest.symm, sameCounters⟩, sameFirst, rfl, rfl⟩

theorem SameJournal.report [ValidatedBook B] [ValidatedBook C]
    (same : SameJournal first second) {update : Update}
    {arrivals : ArrivalBook}
    (reported : update.report left arrivals first = .ok seen) :
    ∃ other, update.report right arrivals second = .ok other ∧
      SameJournal seen other ∧ SameButExpected first seen ∧
      SameButExpected second other := by
  cases update with
  | add ref indicator price shares =>
      cases reported
      exact ⟨_, rfl, same.beforeAdd _ _, ⟨rfl, rfl⟩, ⟨rfl, rfl⟩⟩
  -- Three kinds of updates report one reduction, of an order which rests.
  | execute ref _ | cancel ref _ | delete ref =>
      rw [Update.report] at reported ⊢
      cases found : arrivals.find? ref with
      | none =>
          rw [found] at reported
          cases reported
          exact ⟨second, rfl, same, SameButExpected.refl _,
            SameButExpected.refl _⟩
      | some order =>
          rw [found] at reported
          exact same.noteReduction reported
  | replace oldRef newRef price shares =>
      rw [Update.report] at reported ⊢
      cases found : arrivals.find? oldRef with
      | none =>
          rw [found] at reported
          cases reported
          exact ⟨second, rfl, same, SameButExpected.refl _,
            SameButExpected.refl _⟩
      | some order =>
          rw [found] at reported
          obtain ⟨noted, firstNoted, equal⟩ := bind_eq_ok_iff.mp reported
          cases equal
          obtain ⟨other, otherNoted, otherSame, sameFirst, sameSecond⟩ :=
            same.noteReduction firstNoted
          have hooked : Observer.noteReduction C second order.side
              order.qty = .ok other := otherNoted
          dsimp only
          rw [hooked]
          exact ⟨_, rfl, otherSame.beforeAdd _ _,
            sameFirst.trans ⟨rfl, rfl⟩, sameSecond.trans ⟨rfl, rfl⟩⟩

end Books

end Observers

/-! ## Two replays of one feed -/

/-- The price which a message brings in is one at which an order can rest. -/
def PricedMessage (body : List UInt8) : Prop :=
  ∀ type update, MsgType.ofByte? (loadBe8 body 0) = some type →
    Update.ofMessage? type body = some update → update.operation.Priced

instance (body : List UInt8) : Decidable (PricedMessage body) :=
  decidable_of_iff
    (∀ type ∈ MsgType.ofByte? (loadBe8 body 0),
      ∀ update ∈ Update.ofMessage? type body,
        update.operation.price? ≠ some 0)
    ⟨fun nonzero type update isType isUpdate _ isPrice isZero =>
      nonzero type isType update isUpdate (isZero ▸ isPrice),
    fun priced type isType update isUpdate isZero =>
      priced type update isType isUpdate 0 isZero rfl⟩

/-- Trackers over both books at the same place of a feed. -/
structure Beside (limits : Limits)
    (first : Tracker MapBook ReplayObserver)
    (second : Tracker AvlBook ReplayObserver) : Prop where
  symbol : second.symbol = first.symbol
  locate : second.locate = first.locate
  resolved : second.resolved = first.resolved
  journal : SameJournal first.observer second.observer
  noStricter : NoStricter first.observer second.observer
  books : ∃ arrivals, MapBook.Represents first.book arrivals ∧
    BookT.Represents AvlLevelMap.Holds limits second.book arrivals

section Run

variable {limits : Limits} {first next : Tracker MapBook ReplayObserver}
  {second : Tracker AvlBook ReplayObserver}

/-- An update which a tracker reads has the price of its message. -/
theorem PricedMessage.priced {body : List UInt8} (priced : PricedMessage body)
    {symbol : List UInt8} {locate : UInt16} {resolved : Bool}
    {update : Update} {ts : Timestamp}
    (reading : Tracker.reads symbol locate resolved body =
      .update update ts) : update.operation.Priced := by
  unfold Tracker.reads at reading
  cases found : MsgType.ofByte? (loadBe8 body 0) with
  | none =>
      rw [found] at reading
      cases reading
  | some type =>
      rw [found] at reading
      dsimp only at reading
      by_cases directory : type = .stockDirectory
      · rw [if_pos directory] at reading
        split_ifs at reading
      · rw [if_neg directory] at reading
        cases read : Update.ofMessage? type body with
        | none =>
            rw [read] at reading
            cases reading
        | some other =>
            rw [read] at reading
            dsimp only at reading
            split_ifs at reading
            cases reading
            exact priced type update found read

theorem Beside.apply (beside : Beside limits first second) {update : Update}
    {ts : Timestamp} (applied : first.apply update ts = .ok next)
    (fits : next.book.FitsIn limits) (priced : update.operation.Priced) :
    ∃ other, second.apply update ts = .ok other ∧
      Beside limits next other := by
  obtain ⟨arrivals, represents, relation⟩ := beside.books
  obtain ⟨⟨book, told⟩, changed, rest⟩ := bind_eq_ok_iff.mp applied
  obtain ⟨seen, hooked, equal⟩ := bind_eq_ok_iff.mp rest
  cases equal
  obtain ⟨later, indicated, accepted, done, laterRepresents⟩ :=
    Tracker.change_accepted represents changed
  have admitted : BookT.Admits (fun (_ : AvlLevelMap) _ => True) second.book
      update.operation := by
    cases update.operation with
    | replace => exact fun _ _ _ _ => trivial
    | _ => trivial
  obtain ⟨other, otherDone, otherRelation⟩ :=
    relation.apply AvlLevelMap.implements accepted
      (fits.allow laterRepresents) priced admitted
  have answers := relation.answers AvlLevelMap.implements
  have otherAnswers := otherRelation.answers AvlLevelMap.implements
  have valid : ValidatedBook.validate other = .ok () :=
    otherRelation.validate AvlLevelMap.implements
      fun holds => holds.validate
  rw [Tracker.change_eq_report first.observer represents.answers indicated
    accepted done] at changed
  obtain ⟨_, reported, equal⟩ := bind_eq_ok_iff.mp changed
  cases equal
  obtain ⟨otherTold, otherReported, toldSame, toldFirst, toldSecond⟩ :
      ∃ otherTold,
        update.report second.book arrivals second.observer = .ok otherTold ∧
          SameJournal told otherTold ∧
          SameButExpected first.observer told ∧
          SameButExpected second.observer otherTold :=
    beside.journal.report reported
  obtain ⟨otherSeen, otherHooked, seenSame, seenFirst, seenSecond⟩ :=
    toldSame.afterApply (laterRepresents.answers.agree otherAnswers)
      (beside.noStricter.congr toldFirst toldSecond) valid hooked
  have otherChanged := Tracker.change_eq_report second.observer answers
    indicated accepted otherDone
  rw [otherReported] at otherChanged
  refine ⟨{ second with book := other, observer := otherSeen }, ?_, ?_⟩
  · rw [Tracker.apply, otherChanged, ok_bind, pure_eq_ok, ok_bind]
    have hook : Observer.afterApply otherTold other ts = .ok otherSeen :=
      otherHooked
    dsimp only
    rw [hook]
    rfl
  · exact ⟨beside.symbol, beside.locate, beside.resolved, seenSame,
      (beside.noStricter.congr toldFirst toldSecond).congr seenFirst
        seenSecond,
      later, laterRepresents, otherRelation⟩

/-- A message which the first tracker takes, the second one takes as well. -/
theorem Beside.step (beside : Beside limits first second)
    {body : List UInt8} (stepped : first.step body = .ok next)
    (fits : next.book.FitsIn limits) (priced : PricedMessage body) :
    ∃ other, second.step body = .ok other ∧ Beside limits next other := by
  rw [Tracker.step_eq_follow] at stepped ⊢
  rw [beside.symbol, beside.locate, beside.resolved]
  generalize reading :
    Tracker.reads first.symbol first.locate first.resolved body = read
    at stepped ⊢
  cases read with
  | nothing =>
      cases stepped
      exact ⟨second, rfl, beside⟩
  | resolution symbol locate =>
      cases stepped
      exact ⟨_, rfl, { beside with symbol := rfl, locate := rfl
                                   resolved := rfl }⟩
  | update update ts =>
      exact beside.apply stepped fits (priced.priced reading)

/-- Every state of the first replay is within the storage of the second. -/
def FeedFits (limits : Limits)
    (first : Tracker MapBook ReplayObserver) (bodies : List (List UInt8)) :
    Prop :=
  ∀ count next, first.steps (bodies.take count) = .ok next →
    next.book.FitsIn limits

theorem Beside.steps (beside : Beside limits first second)
    {bodies : List (List UInt8)} (ran : first.steps bodies = .ok next)
    (fits : FeedFits limits first bodies)
    (priced : ∀ body ∈ bodies, PricedMessage body) :
    ∃ other, second.steps bodies = .ok other ∧ Beside limits next other := by
  induction bodies generalizing first second with
  | nil =>
      cases ran
      exact ⟨second, rfl, beside⟩
  | cons body rest induction =>
      obtain ⟨middle, stepped, ranRest⟩ := bind_eq_ok_iff.mp ran
      obtain ⟨pricedHere, pricedLater⟩ := List.forall_mem_cons.mp priced
      have restFits : FeedFits limits middle rest := by
        intro count last reached
        refine fits (count + 1) last ?_
        rw [List.take_succ_cons, Tracker.steps, stepped]
        exact reached
      obtain ⟨other, otherStepped, otherBeside⟩ :=
        beside.step stepped (restFits 0 middle rfl) pricedHere
      obtain ⟨last, lastRan, lastBeside⟩ :=
        induction otherBeside ranRest restFits pricedLater
      refine ⟨last, ?_, lastBeside⟩
      rw [Tracker.steps, otherStepped, ok_bind, lastRan]

/-- The self-checks accept both books. -/
theorem Beside.validate (beside : Beside limits first second) :
    ValidatedBook.validate first.book = .ok () ∧
      ValidatedBook.validate second.book = .ok () := by
  obtain ⟨arrivals, represents, relation⟩ := beside.books
  have accepts : second.book.validate = .ok () :=
    relation.validate AvlLevelMap.implements fun holds => holds.validate
  obtain ⟨handleOf, levelOf, keys, invariant⟩ := relation
  exact ⟨represents.validate invariant.stores.small, accepts⟩

end Run

/-- A replay over the reference book. -/
abbrev reference (symbol : List UInt8) (validateEvery : UInt64)
    (strict : Bool) : BookBuilder MapBook ReplayObserver :=
  replaying MapBook {} symbol validateEvery strict

/--
The journal is a function of the feed.  If a replay over the reference book
passes every assertion and stays within the storage of a pooled book, then the
replay over the pooled book passes them as well, under any interval of the
self-check and no stricter a setting; after every prefix of the messages the two
have the same digest and counters, and the self-checks accept both books.
-/
theorem replay_writesSameJournal {start : AvlBook}
    {orderCapacity levelCapacity indexCapacity : UInt32} {quarantine : Nat}
    (made : BookT.make orderCapacity levelCapacity indexCapacity quarantine =
      .ok start)
    (symbol : List UInt8) (validateEvery otherEvery : UInt64)
    {strict otherStrict : Bool}
    (lenient : otherStrict = strict ∨ otherStrict = false)
    {bodies : List (List UInt8)}
    (priced : ∀ body ∈ bodies, PricedMessage body)
    {last : BookBuilder MapBook ReplayObserver}
    (passed : (reference symbol validateEvery strict).dispatchAll bodies =
      .ok last)
    (within : ∀ count builder,
      (reference symbol validateEvery strict).dispatchAll
          (bodies.take count) = .ok builder →
        builder.book.FitsIn start.storage) (count : Nat) :
    ∃ first second,
      (reference symbol validateEvery strict).dispatchAll
          (bodies.take count) = .ok first ∧
        (replaying AvlBook start symbol otherEvery otherStrict).dispatchAll
            (bodies.take count) = .ok second ∧
        SameJournal first.observer second.observer ∧
        ValidatedBook.validate first.book = .ok () ∧
        ValidatedBook.validate second.book = .ok () := by
  have tracked := BookBuilder.steps_of_dispatchAll _ passed
  rw [← List.take_append_drop count bodies, Tracker.steps_append] at tracked
  obtain ⟨reached, ran, -⟩ := bind_eq_ok_iff.mp tracked
  obtain ⟨first, dispatched, rfl⟩ := BookBuilder.dispatchAll_of_steps _ ran
  have begun : Beside start.storage
      (reference symbol validateEvery strict).tracker
      (replaying AvlBook start symbol otherEvery otherStrict).tracker :=
    ⟨rfl, rfl, rfl, ⟨rfl, ⟨rfl, rfl, rfl, rfl, rfl⟩⟩, lenient,
      ArrivalBook.empty, MapBook.represents_empty,
      BookT.represents_of_make AvlLevelMap.implements made⟩
  have fits : FeedFits start.storage
      (reference symbol validateEvery strict).tracker
      (bodies.take count) := by
    intro shorter next ranShorter
    rw [List.take_take] at ranShorter
    obtain ⟨builder, same, rfl⟩ :=
      BookBuilder.dispatchAll_of_steps _ ranShorter
    exact within _ builder same
  obtain ⟨other, otherRan, beside⟩ := begun.steps ran fits
    fun body member => priced body (List.mem_of_mem_take member)
  obtain ⟨second, otherDispatched, rfl⟩ :=
    BookBuilder.dispatchAll_of_steps _ otherRan
  exact ⟨first, second, dispatched, otherDispatched, beside.journal,
    beside.validate⟩

/-- A feed with fewer messages than the storage has places stays within it. -/
theorem fitsIn_of_length {limits : Limits} {symbol : List UInt8}
    {validateEvery : UInt64} {strict : Bool} {bodies : List (List UInt8)}
    (orders : bodies.length ≤ limits.orders)
    (index : 2 * bodies.length ≤ limits.index)
    (levels : 2 * bodies.length ≤ limits.levels) (count : Nat)
    (builder : BookBuilder MapBook ReplayObserver)
    (ran : (reference symbol validateEvery strict).dispatchAll
      (bodies.take count) = .ok builder) : builder.book.FitsIn limits := by
  obtain ⟨later, relation, bound⟩ := Tracker.represents_steps
    (show MapBook.Represents
        (reference symbol validateEvery strict).tracker.book .empty from
      MapBook.represents_empty)
    (BookBuilder.steps_of_dispatchAll _ ran)
  have taken := List.length_take_le' count bodies
  have none : ArrivalBook.empty.orders.length = 0 := rfl
  exact MapBook.FitsIn.of_length relation (by omega) (by omega) (by omega)

theorem replay_writesSameJournal_cancel :
    ∃ (start : AvlBook) (last : BookBuilder MapBook ReplayObserver),
      BookT.make 8 16 8 0 = .ok start ∧
        (reference [] 1 false).dispatchAll addThenCancel = .ok last ∧
        ∃ first second,
          (reference [] 1 false).dispatchAll (addThenCancel.take 3) =
              .ok first ∧
            (replaying AvlBook start [] 2 false).dispatchAll
                (addThenCancel.take 3) = .ok second ∧
            SameJournal first.observer second.observer ∧
            ValidatedBook.validate first.book = .ok () ∧
            ValidatedBook.validate second.book = .ok () := by
  obtain ⟨start, made, storage⟩ : ∃ start : AvlBook,
      BookT.make 8 16 8 0 = .ok start ∧ start.storage = ⟨8, 16, 16⟩ :=
    ⟨_, rfl, rfl⟩
  have value : ((plainly []).dispatchAll addThenCancel).map
      (fun builder => builder.stats.applied) = .ok 2 := by
    decide
  cases accepted : (plainly []).dispatchAll addThenCancel with
  | error failure =>
      rw [accepted] at value
      cases value
  | ok plain =>
      rcases replay_follows [] 1 false
          (neverFull_of_length (by simp [addThenCancel])) accepted with
        ⟨last, passed, -⟩ | ⟨isStrict, -⟩
      · refine ⟨start, last, made, passed, ?_⟩
        exact replay_writesSameJournal made [] 1 2 (Or.inr rfl) (by decide)
          passed
          (fun count builder => fitsIn_of_length
            (by rw [storage]; decide) (by rw [storage]; decide)
            (by rw [storage]; decide) count builder) 3
      · cases isStrict

end ItchExchange.Replay
