import ItchExchange.Book.CentralPrices
import ItchExchange.Library.Simulation
import ItchExchange.Replay.SameJournal

/-!
# One journal for every pooled book

The pooled book may have any level maps, as long as they are open to the prices
of the feed: the price ladders of the default book are open to central prices.
A tracker over such a book simulates the tracker over the reference book, so a
replay over it writes the same journal.
-/

namespace ItchExchange.Replay

open ItchExchange.Core ItchExchange.Book ItchExchange.Wire Simulation

/-- The price which a message brings in is of this kind. -/
def MessageOfKind (kind : Price → Prop) (body : List UInt8) : Prop :=
  ∀ type update, MsgType.ofByte? (loadBe8 body 0) = some type →
    Update.ofMessage? type body = some update →
      update.operation.OfKind kind

instance (kind : Price → Prop) [DecidablePred kind] (body : List UInt8) :
    Decidable (MessageOfKind kind body) :=
  decidable_of_iff
    (∀ type ∈ MsgType.ofByte? (loadBe8 body 0),
      ∀ update ∈ Update.ofMessage? type body, update.operation.OfKind kind)
    ⟨fun all type update isType => all type isType update,
    fun isKind type isType update => isKind type update isType⟩

/-- An update which a tracker reads has the price of its message. -/
theorem MessageOfKind.ofKind {kind : Price → Prop} {body : List UInt8}
    (isKind : MessageOfKind kind body) {symbol : List UInt8}
    {locate : UInt16} {resolved : Bool} {update : Update} {ts : Timestamp}
    (reading : Tracker.reads symbol locate resolved body =
      .update update ts) : update.operation.OfKind kind := by
  unfold Tracker.reads at reading
  cases found : MsgType.ofByte? (loadBe8 body 0) with
  | none =>
      rw [found] at reading
      cases reading
  | some type =>
      rw [found] at reading
      dsimp only at reading
      by_cases directory : type = .stockDirectory
      · rw [if_pos directory] at reading
        split_ifs at reading
      · rw [if_neg directory] at reading
        cases read : Update.ofMessage? type body with
        | none =>
            rw [read] at reading
            cases reading
        | some other =>
            rw [read] at reading
            dsimp only at reading
            split_ifs at reading
            cases reading
            exact isKind type update found read

namespace Tracker

variable {B O : Type} [OrderBook B] [Observer O B]

/-- A message, as a step which puts nothing out. -/
def note (tracker : Tracker B O) (body : List UInt8) :
    Checked (Unit × Tracker B O) :=
  (tracker.step body).map fun next => ((), next)

theorem transcript_note (tracker : Tracker B O) (bodies : List (List UInt8)) :
    transcript note tracker bodies =
      (tracker.steps bodies).map fun last =>
        (bodies.map fun _ => (), last) := by
  induction bodies generalizing tracker with
  | nil => rfl
  | cons body rest induction =>
      rw [transcript, steps, note]
      cases tracker.step body with
      | error failure => rfl
      | ok next =>
          change (transcript note next rest >>= _) = _
          rw [induction, ok_bind]
          cases next.steps rest <;> rfl

end Tracker

section Pooled

variable {M : Type} [LevelMap M] [ValidatedLevelMap M]
  {hash : OrderRef → UInt64} {kind : Price → Prop}
  {holds : Side → M → (Price → Option LevelHandle) → Nat → Prop}
  {limits : Limits}

/-- Trackers over both books at the same place of a feed. -/
structure Alongside
    (holds : Side → M → (Price → Option LevelHandle) → Nat → Prop)
    (limits : Limits) (second : Tracker (BookT M hash) ReplayObserver)
    (first : Tracker MapBook ReplayObserver) : Prop where
  symbol : second.symbol = first.symbol
  locate : second.locate = first.locate
  resolved : second.resolved = first.resolved
  journal : SameJournal first.observer second.observer
  noStricter : NoStricter first.observer second.observer
  books : ∃ arrivals, MapBook.Represents first.book arrivals ∧
    BookT.Represents holds limits second.book arrivals

variable {first next : Tracker MapBook ReplayObserver}
  {second : Tracker (BookT M hash) ReplayObserver}

theorem Alongside.apply (openTo : LevelMap.OpenTo kind holds)
    (alongside : Alongside holds limits second first) {update : Update}
    {ts : Timestamp} (applied : first.apply update ts = .ok next)
    (fits : next.book.FitsIn limits)
    (isKind : update.operation.OfKind kind) :
    ∃ other, second.apply update ts = .ok other ∧
      Alongside holds limits other next := by
  obtain ⟨arrivals, represents, relation⟩ := alongside.books
  obtain ⟨⟨book, told⟩, changed, rest⟩ := bind_eq_ok_iff.mp applied
  obtain ⟨seen, hooked, equal⟩ := bind_eq_ok_iff.mp rest
  cases equal
  obtain ⟨later, indicated, accepted, done, laterRepresents⟩ :=
    Tracker.change_accepted represents changed
  obtain ⟨other, otherDone, otherRelation⟩ :=
    relation.apply openTo.implements accepted (fits.allow laterRepresents)
      (fun price isPrice => openTo.notZero (isKind price isPrice))
      (BookT.admits_of_kind isKind second.book)
  have answers := relation.answers openTo.implements
  have otherAnswers := otherRelation.answers openTo.implements
  have valid : ValidatedBook.validate other = .ok () :=
    otherRelation.validate openTo.implements openTo.checks
  rw [Tracker.change_eq_report first.observer represents.answers indicated
    accepted done] at changed
  obtain ⟨_, reported, equal⟩ := bind_eq_ok_iff.mp changed
  cases equal
  obtain ⟨otherTold, otherReported, toldSame, toldFirst, toldSecond⟩ :
      ∃ otherTold,
        update.report second.book arrivals second.observer = .ok otherTold ∧
          SameJournal told otherTold ∧
          SameButExpected first.observer told ∧
          SameButExpected second.observer otherTold :=
    alongside.journal.report reported
  have stillNoStricter := alongside.noStricter.congr toldFirst toldSecond
  obtain ⟨otherSeen, otherHooked, seenSame, seenFirst, seenSecond⟩ :=
    toldSame.afterApply (laterRepresents.answers.agree otherAnswers)
      stillNoStricter valid hooked
  have hook : Observer.afterApply otherTold other ts = .ok otherSeen :=
    otherHooked
  refine ⟨{ second with book := other, observer := otherSeen }, ?_,
    alongside.symbol, alongside.locate, alongside.resolved, seenSame,
    stillNoStricter.congr seenFirst seenSecond, later, laterRepresents,
    otherRelation⟩
  rw [Tracker.apply, Tracker.change_eq_report second.observer answers
    indicated accepted otherDone, otherReported, ok_bind, pure_eq_ok, ok_bind]
  dsimp only
  rw [hook]
  rfl

theorem Alongside.step (openTo : LevelMap.OpenTo kind holds)
    (alongside : Alongside holds limits second first) {body : List UInt8}
    (fits : ∀ next, first.step body = .ok next → next.book.FitsIn limits)
    (isKind : MessageOfKind kind body) :
    Simulates (Alongside holds limits) (second.step body)
      (first.step body) := by
  intro next stepped
  have fitsNext := fits next stepped
  rw [Tracker.step_eq_follow] at stepped ⊢
  rw [alongside.symbol, alongside.locate, alongside.resolved]
  generalize reading :
    Tracker.reads first.symbol first.locate first.resolved body = read
    at stepped ⊢
  cases read with
  | nothing =>
      cases stepped
      exact ⟨second, rfl, alongside⟩
  | resolution symbol locate =>
      cases stepped
      exact ⟨_, rfl, { alongside with symbol := rfl, locate := rfl
                                      resolved := rfl }⟩
  | update update ts =>
      exact alongside.apply openTo stepped fitsNext (isKind.ofKind reading)

/-- Every state of the first replay is within the storage of the second. -/
theorem FeedFits.along {bodies : List (List UInt8)}
    (fits : FeedFits limits first bodies) :
    Along (fun (tracker : Tracker MapBook ReplayObserver) body =>
        ∀ next, tracker.step body = .ok next → next.book.FitsIn limits)
      Tracker.note first bodies := by
  refine along_of_take fun count body rest earlier middle dropped ran next
    stepped => fits (count + 1) next ?_
  have reached : first.steps (bodies.take count) = .ok middle := by
    rw [Tracker.transcript_note] at ran
    cases stepsTo : first.steps (bodies.take count) with
    | error failure =>
        rw [stepsTo] at ran
        cases ran
    | ok last =>
        rw [stepsTo] at ran
        cases ran
        rfl
  have split : bodies.take (count + 1) = bodies.take count ++ [body] := by
    rw [List.take_add, dropped]
    rfl
  rw [split, Tracker.steps_append, reached, ok_bind, Tracker.steps, stepped]
  rfl

/-- A whole replay. -/
theorem Alongside.steps (openTo : LevelMap.OpenTo kind holds)
    (alongside : Alongside holds limits second first)
    {bodies : List (List UInt8)} (fits : FeedFits limits first bodies)
    (areKind : ∀ body ∈ bodies, MessageOfKind kind body) :
    Simulates (Alongside holds limits) (second.steps bodies)
      (first.steps bodies) := by
  have whole : Simulates
      (fun result value => result.1 = value.1 ∧
        Alongside holds limits result.2 value.2)
      (transcript Tracker.note second bodies)
      (transcript Tracker.note first bodies) := by
    refine Simulates.transcript (Alongside holds limits) ?_ alongside
      (along_of_mem fun _ => areKind) fits.along
    intro second first body alongside isKind fits
    refine Simulates.map (alongside.step openTo fits isKind) ?_
    exact fun _ _ later => ⟨rfl, later⟩
  intro last ran
  rw [Tracker.transcript_note, Tracker.transcript_note, ran] at whole
  obtain ⟨result, reached, -, later⟩ := whole _ rfl
  cases stepsTo : second.steps bodies with
  | error failure =>
      rw [stepsTo] at reached
      cases reached
  | ok other =>
      rw [stepsTo] at reached
      cases reached
      exact ⟨other, rfl, later⟩

end Pooled

end ItchExchange.Replay
