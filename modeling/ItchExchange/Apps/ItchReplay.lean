import ItchExchange.Replay.FeedStatistics
import ItchExchange.Replay.PooledJournal
import ItchExchange.Wire.GzipFrames

/-!
# The replay tool

`itch_replay.cpp`: a feed is driven into a builder with the checking observer,
out of a mapped file or through the buffered reader, and the outcome is what the
observer and the builder counted.  Neither the way of the bytes nor the book
which is replayed into makes a difference to the outcome.
-/

namespace ItchExchange.Apps

open ItchExchange.Core ItchExchange.Book ItchExchange.Wire
open ItchExchange.Replay

/-! ## Driving a builder -/

section Drive

variable {B O : Type} [OrderBook B] [Observer O B]

/-- The body of the loops; the result of `dispatch` is dropped. -/
def dispatched (builder : BookBuilder B O) (body : List UInt8) :
    Checked (BookBuilder B O) :=
  (BookBuilder.dispatch body builder).map Prod.snd

/-- The branch of `drive` for a plain file. -/
def driveMapped (file : List UInt8) (builder : BookBuilder B O) :
    Checked (BookBuilder B O) :=
  (forEachFrame { buf := file } dispatched builder).map fun ended =>
    ended.2.2

/-- The branches for streamed input, with the turns their loop may take. -/
def driveStreamed {σ : Type} [ByteSource σ] (source : σ) (capacity turns : Nat)
    (builder : BookBuilder B O) : Checked (BookBuilder B O) := do
  let reader ← FrameReader.make source capacity
  let (_, _, builder) ← forEachFrameStreamed turns reader dispatched builder
  pure builder

theorem foldlM_dispatched (bodies : List (List UInt8))
    (builder : BookBuilder B O) :
    bodies.foldlM dispatched builder = builder.dispatchAll bodies := by
  induction bodies generalizing builder with
  | nil => rfl
  | cons body rest induction =>
      rw [List.foldlM_cons, BookBuilder.dispatchAll, dispatched]
      cases BookBuilder.dispatch body builder with
      | error failure => rfl
      | ok result => exact induction result.2

variable {bytes rest : List UInt8} {bodies : List (List UInt8)}

/-- A mapped file is dispatched frame by frame. -/
theorem driveMapped_eq_dispatchAll (splits : Splits bytes bodies rest)
    (builder : BookBuilder B O) :
    driveMapped bytes builder = builder.dispatchAll bodies := by
  cases stopped : front rest with
  | frame body tail => exact absurd stopped (splits.ends body tail)
  | stop status error =>
      rw [driveMapped, splits.forEachFrame stopped, foldlM_dispatched]
      cases builder.dispatchAll bodies <;> rfl

/--
Driving a builder out of a stream is driving it out of the mapped file, whatever
the chunks of the stream, the size of the buffer, the book and the observer are.
Both stop at the same message, with the same failure, or end with the same
builder.
-/
theorem driveStreamed_eq_driveMapped {σ : Type} [ByteSource σ]
    {remaining : σ → List UInt8} (delivers : ByteSource.Delivers remaining)
    (source : σ) {capacity : Nat} (large : kMinBufferSize ≤ capacity)
    (splits : Splits (remaining source) bodies rest) {turns : Nat}
    (enough : bodies.length < turns) (builder : BookBuilder B O) :
    driveStreamed source capacity turns builder =
        driveMapped (remaining source) builder ∧
      driveMapped (remaining source) builder =
        builder.dispatchAll bodies := by
  have mapped := driveMapped_eq_dispatchAll splits builder
  obtain ⟨reader, status, last, made, -, loop⟩ :=
    splits.forEachFrameStreamed delivers source large
  refine ⟨?_, mapped⟩
  rw [mapped, driveStreamed, made, ok_bind, loop turns enough,
    foldlM_dispatched]
  cases builder.dispatchAll bodies <;> rfl

end Drive

/-- A directory message, a bid of five shares, and a cancel of two of them. -/
def bidThenCancel : List (List UInt8) :=
  ['R'.toUInt8 :: List.replicate 38 0,
    'A'.toUInt8 :: List.replicate 17 0 ++
      [1, 'B'.toUInt8, 0, 0, 0, 5] ++ List.replicate 8 0 ++ [0, 3, 208, 144],
    'X'.toUInt8 :: List.replicate 17 0 ++ [1, 0, 0, 0, 2]]

/-- These messages byte by byte, and a byte of a frame which is cut off. -/
def cutFeed : MemorySource where
  data := framed bidThenCancel ++ [0]
  chunk := 1

theorem splits_cutFeed : Splits cutFeed.data bidThenCancel [0] where
  whole := rfl
  messages := by
    simp only [bidThenCancel, List.forall_mem_cons]
    exact ⟨⟨_, rfl, by decide⟩, ⟨_, rfl, by decide⟩, ⟨_, rfl, by decide⟩,
      by simp⟩
  ends := by
    intro body tail found
    cases found

theorem driveStreamed_eq_driveMapped_cutFeed :
    driveStreamed cutFeed kMinBufferSize 4
          (replaying MapBook {} [] 1 true) =
        driveMapped cutFeed.data (replaying MapBook {} [] 1 true) ∧
      driveMapped cutFeed.data (replaying MapBook {} [] 1 true) =
        (replaying MapBook {} [] 1 true).dispatchAll bidThenCancel :=
  driveStreamed_eq_driveMapped memorySource_delivers cutFeed le_rfl
    splits_cutFeed (by decide) _

section Gzip

open GzipSource StreamDecoding

variable {B O : Type} [OrderBook B] [Observer O B] {σ Z : Type}
  [ByteSource σ] [Inflater Z]

end Gzip

/-! ## The outcome of a replay -/

namespace ItchReplay

/-- What the tool reports, other than the time which it took. -/
structure Outcome where
  digest : UInt64
  applied : UInt64
  messages : UInt64
  crossed : UInt64
  validations : UInt64
  peakOrders : UInt64
  peakLevels : UInt64
  symbol : List UInt8
deriving DecidableEq, Repr

def outcomeOf {B : Type} (builder : BookBuilder B ReplayObserver) :
    Outcome :=
  let c := builder.observer.counters
  { digest := builder.observer.digest.value
    applied := c.applied
    messages := builder.stats.messages
    crossed := c.crossedStates
    validations := c.fullValidations
    peakOrders := c.peakOrders
    peakLevels := c.peakLevels
    symbol := builder.symbol }

/-- `replay_once` over a fresh book, and over either way of driving. -/
def replayOnce {B : Type} [OrderBook B] [ValidatedBook B] (book : B)
    (symbol : List UInt8) (validateEvery : UInt64) (strict : Bool)
    (drive : BookBuilder B ReplayObserver →
      Checked (BookBuilder B ReplayObserver)) : Checked Outcome := do
  let builder ← drive (replaying B book symbol validateEvery strict)
  ValidatedBook.validate builder.book
  pure (outcomeOf builder)

/-- Nothing is different but how often the structure was checked. -/
structure SameOutcome (first second : Outcome) : Prop where
  digest : second.digest = first.digest
  applied : second.applied = first.applied
  messages : second.messages = first.messages
  crossed : second.crossed = first.crossed
  peakOrders : second.peakOrders = first.peakOrders
  peakLevels : second.peakLevels = first.peakLevels
  symbol : second.symbol = first.symbol

section Outcomes

variable {M : Type} [LevelMap M] [ValidatedLevelMap M]
  {hash : OrderRef → UInt64} {kind : Price → Prop}
  {holds : Side → M → (Price → Option LevelHandle) → Nat → Prop}
  {rest : List UInt8} {bodies : List (List UInt8)}

omit [LevelMap M] [ValidatedLevelMap M] in
theorem sameOutcome_of_alongside {limits : Limits}
    {first : BookBuilder MapBook ReplayObserver}
    {second : BookBuilder (BookT M hash) ReplayObserver}
    (alongside : Alongside holds limits second.tracker first.tracker)
    (messages : second.stats.messages = first.stats.messages) :
    SameOutcome (outcomeOf first) (outcomeOf second) where
  digest := congrArg Digest.value alongside.journal.digest
  applied := alongside.journal.counters.applied
  messages := messages
  crossed := alongside.journal.counters.crossedStates
  peakOrders := alongside.journal.counters.peakOrders
  peakLevels := alongside.journal.counters.peakLevels
  symbol := alongside.symbol

/--
If the tool reports an outcome for a mapped file and the reference book, then it
reports the same outcome for every pooled book whose level maps are open to the
prices of the feed and whose storage has the room, out of a stream in any
chunks, under any interval of the self-check and no stricter a setting.
-/
theorem replayOnce_sameOutcome (openTo : LevelMap.OpenTo kind holds)
    {start : BookT M hash}
    {orderCapacity levelCapacity indexCapacity : UInt32} {quarantine : Nat}
    (made : BookT.make orderCapacity levelCapacity indexCapacity quarantine =
      .ok start)
    (symbol : List UInt8) (validateEvery otherEvery : UInt64)
    {strict otherStrict : Bool}
    (lenient : otherStrict = strict ∨ otherStrict = false)
    {σ : Type} [ByteSource σ] {remaining : σ → List UInt8}
    (delivers : ByteSource.Delivers remaining) (source : σ) {capacity : Nat}
    (large : kMinBufferSize ≤ capacity)
    (splits : Splits (remaining source) bodies rest)
    (areKind : ∀ body ∈ bodies, MessageOfKind kind body)
    {outcome : Outcome}
    (reported : replayOnce ({} : MapBook) symbol validateEvery strict
      (driveMapped (remaining source)) = .ok outcome)
    (within : ∀ count builder,
      (reference symbol validateEvery strict).dispatchAll
          (bodies.take count) = .ok builder →
        builder.book.FitsIn start.storage)
    {turns : Nat} (enough : bodies.length < turns) :
    ∃ other,
      replayOnce start symbol otherEvery otherStrict
          (driveStreamed source capacity turns) = .ok other ∧
        SameOutcome outcome other := by
  obtain ⟨last, driven, rest⟩ := bind_eq_ok_iff.mp reported
  obtain ⟨_, -, equal⟩ := bind_eq_ok_iff.mp rest
  cases equal
  have passed : (reference symbol validateEvery strict).dispatchAll bodies =
      .ok last := (driveMapped_eq_dispatchAll splits _).symm.trans driven
  have begun : Alongside holds start.storage
      (replaying (BookT M hash) start symbol otherEvery otherStrict).tracker
      (reference symbol validateEvery strict).tracker :=
    ⟨rfl, rfl, rfl, ⟨rfl, ⟨rfl, rfl, rfl, rfl, rfl⟩⟩, lenient,
      ArrivalBook.empty, MapBook.represents_empty,
      BookT.represents_of_make openTo.implements made⟩
  have fits : FeedFits start.storage
      (reference symbol validateEvery strict).tracker bodies := by
    intro count next ran
    obtain ⟨builder, same, rfl⟩ := BookBuilder.dispatchAll_of_steps _ ran
    exact within count builder same
  obtain ⟨other, ran, alongside⟩ := begun.steps openTo fits areKind _
    (BookBuilder.steps_of_dispatchAll _ passed)
  obtain ⟨final, dispatched, rfl⟩ := BookBuilder.dispatchAll_of_steps _ ran
  have messages : final.stats.messages = last.stats.messages :=
    (BookBuilder.dispatchAll_counts dispatched).1.trans
      (BookBuilder.dispatchAll_counts passed).1.symm
  obtain ⟨arrivals, -, relation⟩ := alongside.books
  have valid : ValidatedBook.validate final.book = .ok () :=
    relation.validate openTo.implements openTo.checks
  obtain ⟨streamed, mapped⟩ := driveStreamed_eq_driveMapped delivers source
    large splits enough
    (replaying (BookT M hash) start symbol otherEvery otherStrict)
  refine ⟨outcomeOf final, ?_, sameOutcome_of_alongside alongside messages⟩
  rw [replayOnce, streamed, mapped, dispatched, ok_bind, valid, ok_bind]
  rfl

end Outcomes

/-- The same outcome over the default book, byte by byte. -/
theorem replayOnce_sameOutcome_cutFeed :
    ∃ (start : FlatBook) (outcome other : Outcome),
      BookT.make 8 16 8 0 = .ok start ∧
        replayOnce ({} : MapBook) [] 1 true (driveMapped cutFeed.data) =
          .ok outcome ∧
        replayOnce start [] 2 false (driveStreamed cutFeed kMinBufferSize 4) =
          .ok other ∧
        other.applied = 2 ∧ SameOutcome outcome other := by
  obtain ⟨start, made, storage⟩ : ∃ start : FlatBook,
      BookT.make 8 16 8 0 = .ok start ∧ start.storage = ⟨8, 16, 16⟩ :=
    ⟨_, rfl, rfl⟩
  have value : (replayOnce ({} : MapBook) [] 1 true
      (driveMapped cutFeed.data)).map (fun outcome => outcome.applied) =
        .ok 2 := by
    decide +kernel
  cases reported : replayOnce ({} : MapBook) [] 1 true
      (driveMapped cutFeed.data) with
  | error failure =>
      rw [reported] at value
      cases value
  | ok outcome =>
      rw [reported] at value
      obtain ⟨other, streamed, same⟩ := replayOnce_sameOutcome
        PriceLadder.openTo made [] 1 2 (Or.inr rfl) memorySource_delivers
        cutFeed le_rfl splits_cutFeed (by decide) reported
        (fun count builder => fitsIn_of_length
          (by rw [storage]; decide) (by rw [storage]; decide)
          (by rw [storage]; decide) count builder)
        (show bidThenCancel.length < 4 by decide)
      exact ⟨start, outcome, other, made, rfl, streamed,
        same.applied.trans (Except.ok.inj value), same⟩

end ItchReplay

end ItchExchange.Apps
