import ItchExchange.Engine.Calls

/-!
# An engine never leaves its book crossed

`Sound` is what every run keeps: the sides are apart, every resting order has a
price, and its reference lies below the next reference.  A remainder rests only
when the walk ended because the touch no longer crosses, or because nothing
opposes it any more; every order left on the opposing side is then at least as
far away as that touch.
-/

namespace ItchExchange.Engine

open ItchExchange.Core ItchExchange.Book
open ItchExchange.Book.MapBook (Represents)

/-- Every order of a side stays away from every order of the other side. -/
def Apart (side : Side) (arrivals : ArrivalBook) : Prop :=
  ∀ own ∈ arrivals.queue side,
    ∀ other ∈ arrivals.queue (opposite side),
      Closer (opposite side) own.price other.price

theorem Apart.swap {side : Side} {arrivals : ArrivalBook}
    (apart : Apart side arrivals) : Apart (opposite side) arrivals := by
  intro own ownMember other otherMember
  rw [opposite_opposite] at otherMember ⊢
  have closer := apart other otherMember own ownMember
  cases side <;> exact closer

/-- The sides are apart whichever side is taken first. -/
theorem Apart.of_any {first : Side} {arrivals : ArrivalBook}
    (apart : Apart first arrivals) (second : Side) :
    Apart second arrivals := by
  rcases eq_or_eq_opposite second first with rfl | rfl
  · exact apart
  · exact apart.swap

/-- What every run of the engine keeps. -/
structure Sound (engine : MatchingEngine MapBook) (arrivals : ArrivalBook) :
    Prop where
  apart : Apart .buy arrivals
  priced : ∀ order ∈ arrivals.orders, order.price ≠ 0
  known : ∀ order ∈ arrivals.orders,
    order.ref ≠ 0 ∧ order.ref < engine.nextRef

theorem sound_start (stp : StpMode) :
    Sound (MatchingEngine.start stp) ArrivalBook.empty where
  apart := fun _ member =>
    absurd (ArrivalBook.mem_queue.mp member).1 List.not_mem_nil
  priced := fun _ member => absurd member List.not_mem_nil
  known := fun _ member => absurd member List.not_mem_nil

/-- An order stays away from a touch it does not cross. -/
theorem closer_of_not_crosses {order : NewOrder} {touch : Price}
    (stays : crosses order touch = false) :
    Closer (opposite order.side) order.price touch := by
  by_contra near
  have crossing := crosses_iff_not_closer.mpr (.inr near)
  rw [stays] at crossing
  cases crossing

theorem Closer.trans_not_closer {side : Side} {first second third : Price}
    (left : Closer side first second) (right : ¬ Closer side third second) :
    Closer side first third := by
  rcases Closer.trichotomy side second third with closer | rfl | closer
  · exact left.trans closer
  · exact left
  · exact absurd closer right

/-- No order of a queue is closer to the inside than its head. -/
theorem not_closer_head {arrivals : ArrivalBook} {side : Side}
    {head : Resting} {tail : List Resting}
    (equal : arrivals.queue side = head :: tail) :
    ∀ other ∈ arrivals.queue side,
      ¬ Closer side other.price head.price := by
  intro other member
  obtain ⟨-, best, -⟩ := ArrivalBook.head_of_queue equal
  obtain ⟨resting, onSide⟩ := ArrivalBook.mem_queue.mp member
  rw [← best]
  exact ArrivalBook.not_closer_best
    (ArrivalBook.mem_prices.mpr ⟨other, resting, onSide, rfl⟩)

/-- A remainder which rests stays away from all which is left to oppose it. -/
theorem remainder_apart {order : NewOrder} {stp : StpMode}
    {opposing : List Resting} {after : ArrivalBook} {side : Side}
    (rests : (walk stp order order.qty opposing).Rests order)
    (left : after.queue side = (walk stp order order.qty opposing).left) :
    ∀ other ∈ after.queue side,
      side = opposite order.side →
        Closer side order.price other.price := by
  rintro other member rfl
  cases equal : after.queue (opposite order.side) with
  | nil =>
      rw [equal] at member
      exact absurd member List.not_mem_nil
  | cons head tail =>
      have isHead : head ∈ (walk stp order order.qty opposing).left.head? := by
        rw [← left, equal]
        rfl
      have stays := walk_stays stp order order.qty opposing rests.1
        rests.2.1 head isHead
      exact Closer.trans_not_closer
        (closer_of_not_crosses stays)
        (not_closer_head equal other member)

/-! ## One call -/

/-- The reference an event reports for an order which rests. -/
def Event.restedRef (event : Event) : Option OrderRef :=
  event.report?.bind fun report =>
    if report.outcome = .rested then some report.restingRef else none

section Step

variable {event : Event} {before after : ArrivalBook}

/-- The next reference moves exactly when a reference is reported. -/
theorem restedRef_cases (effect : Effect event before after) :
    event.restedRef = some event.before.nextRef ∧
        event.after.nextRef = event.before.nextRef + 1 ∨
      event.restedRef = none ∧
        event.after.nextRef = event.before.nextRef := by
  cases effect with
  | submit order call submittable report fills submitted =>
      have nextRef := submitted.nextRef
      unfold Event.restedRef
      rw [report, Option.bind_some]
      by_cases rests : (submission event.before order before).Rests order
      · rw [if_pos rests] at nextRef
        rw [if_pos (Walk.report_rested_iff.mpr rests),
          (Walk.report_of_rests _ rests).1]
        exact Or.inl ⟨rfl, nextRef⟩
      · rw [if_neg rests] at nextRef
        rw [if_neg fun rested => rests (Walk.report_rested_iff.mp rested)]
        exact Or.inr ⟨rfl, nextRef⟩
  | cancel order call member report fills reduced stp nextRef filledQty =>
      exact Or.inr ⟨by simp [Event.restedRef, report], nextRef⟩
  | setStpMode mode call report fills same nextRef filledQty =>
      exact Or.inr ⟨by simp [Event.restedRef, report], nextRef⟩

/-- A submission keeps the sides apart. -/
theorem apart_submit {engine final : MatchingEngine MapBook}
    {order : NewOrder} (apart : Apart order.side before)
    (submitted : Submitted order (submission engine order before) engine
      final before after) : Apart order.side after := by
  intro own ownMember other otherMember
  rcases submitted.from_own ownMember with old | ⟨rests, rfl⟩
  · obtain ⟨earlier, earlierMember, -, samePrice⟩ :=
      submitted.from_opposing otherMember
    rw [← samePrice]
    exact apart own old earlier earlierMember
  · exact remainder_apart rests submitted.opposing other otherMember rfl

theorem apart_reduce {side : Side} {order : Resting} {shares : Qty}
    (apart : Apart side before) :
    Apart side (before.reduce order.ref shares) := by
  have kept : ∀ side, ∀ resting ∈ (before.reduce order.ref shares).queue side,
      ∃ earlier ∈ before.queue side, earlier.price = resting.price := by
    intro side resting member
    rw [ArrivalBook.queue_reduce] at member
    obtain ⟨earlier, earlierMember, left⟩ := mem_reduceIn.mp member
    exact ⟨earlier, earlierMember, (Resting.lessAt_eq_some left).2.2.1.symm⟩
  intro own ownMember other otherMember
  obtain ⟨earlierOwn, earlierOwnMember, samePrice⟩ := kept _ own ownMember
  obtain ⟨earlier, earlierMember, sameOther⟩ := kept _ other otherMember
  rw [← samePrice, ← sameOther]
  exact apart earlierOwn earlierOwnMember earlier earlierMember

/-- What a submission leaves has a price and a reference below the next. -/
theorem sound_submit {engine final : MatchingEngine MapBook}
    {order : NewOrder} (sound : Sound engine before)
    (submittable : Submittable order)
    (submitted : Submitted order (submission engine order before) engine
      final before after)
    (counted : engine.nextRef ≠ 0)
    (unwrapped : final.nextRef = engine.nextRef ∨
      engine.nextRef < final.nextRef) : Sound final after := by
  have notLess : engine.nextRef ≤ final.nextRef := by
    rcases unwrapped with same | less
    · exact same ▸ UInt64.le_refl _
    · exact UInt64.le_of_lt less
  have earlierFine : ∀ earlier ∈ before.orders, earlier.price ≠ 0 ∧
      earlier.ref ≠ 0 ∧ earlier.ref < final.nextRef := by
    intro earlier member
    obtain ⟨nonzero, below⟩ := sound.known earlier member
    exact ⟨sound.priced earlier member, nonzero,
      UInt64.lt_of_lt_of_le below notLess⟩
  have fine : ∀ resting ∈ after.orders, resting.price ≠ 0 ∧
      resting.ref ≠ 0 ∧ resting.ref < final.nextRef := by
    intro resting member
    rcases mem_queues member order.side with own | opposing
    · rcases submitted.from_own own with old | ⟨rests, rfl⟩
      · exact earlierFine resting (ArrivalBook.mem_queue.mp old).1
      · have priced : order.price > 0 := by
          rcases submittable.2 with market | priced
          · rw [rests.2.2.1] at market
            cases market
          · exact priced
        have moved : engine.nextRef < final.nextRef := by
          rcases unwrapped with same | less
          · have next := submitted.nextRef
            rw [if_pos rests, same] at next
            exact absurd next (by grind)
          · exact less
        exact ⟨UInt32.pos_iff_ne_zero.mp priced, counted, moved⟩
    · obtain ⟨earlier, earlierMember, sameRef, samePrice⟩ :=
        submitted.from_opposing opposing
      rw [← sameRef, ← samePrice]
      exact earlierFine earlier (ArrivalBook.mem_queue.mp earlierMember).1
  constructor
  case apart =>
    exact (apart_submit (sound.apart.of_any order.side) submitted).of_any _
  case priced => exact fun resting member => (fine resting member).1
  case known => exact fun resting member => (fine resting member).2

/-- Every accepted call keeps the engine sound. -/
theorem sound_step (effect : Effect event before after)
    (sound : Sound event.before before) (counted : event.before.nextRef ≠ 0)
    (unwrapped : event.after.nextRef = event.before.nextRef ∨
      event.before.nextRef < event.after.nextRef) :
    Sound event.after after := by
  cases effect with
  | submit order call submittable report fills submitted =>
      exact sound_submit sound submittable submitted counted unwrapped
  | cancel order call member report fills reduced stp nextRef filledQty =>
      subst reduced
      have earlier : ∀ resting ∈ (before.reduce order.ref order.qty).orders,
          ArrivalBook.From before.orders resting := fun resting =>
        ArrivalBook.from_reduce
      constructor
      case apart => exact apart_reduce sound.apart
      case priced =>
        intro resting left
        obtain ⟨old, oldMember, -, samePrice⟩ := earlier resting left
        exact samePrice ▸ sound.priced old oldMember
      case known =>
        intro resting left
        obtain ⟨old, oldMember, sameRef, -⟩ := earlier resting left
        rw [nextRef, ← sameRef]
        exact sound.known old oldMember
  | setStpMode mode call report fills same nextRef filledQty =>
      subst same
      exact ⟨sound.apart, sound.priced, nextRef ▸ sound.known⟩

end Step

/-! ## Whole runs -/

/-- The references reported for orders which rest, in order. -/
def restedRefs (events : List Event) : List OrderRef :=
  events.filterMap Event.restedRef

/-- Counting on from `first` without wrapping gives consecutive references. -/
structure Numbered (first last : OrderRef) (refs : List OrderRef) : Prop where
  consecutive : refs.map UInt64.toNat = List.range' first.toNat refs.length
  last : last.toNat = first.toNat + refs.length

/-- A run whose reference counter does not wrap keeps the engine sound. -/
theorem play_sound (engine : MatchingEngine MapBook) {before : ArrivalBook}
    {calls : List Call} {events : List Event}
    (represents : Represents engine.book before)
    (sound : Sound engine before) (counted : engine.nextRef ≠ 0)
    (played : engine.play calls = .ok events)
    (unwrapped :
      engine.nextRef.toNat + (restedRefs events).length < 2 ^ 64) :
    (∃ after, Represents (engine.final events).book after ∧
      Sound (engine.final events) after) ∧
      Numbered engine.nextRef (engine.final events).nextRef
        (restedRefs events) := by
  induction calls generalizing engine before events with
  | nil =>
      rw [MatchingEngine.play, Except.ok.injEq] at played
      subst played
      exact ⟨⟨before, represents, sound⟩, by simp [restedRefs], rfl⟩
  | cons call rest induction =>
      obtain ⟨event, more, called, playedRest, rfl⟩ := play_cons.mp played
      obtain ⟨rfl, after, afterRepresents, effect⟩ :=
        call_effect represents called
      rw [MatchingEngine.final]
      rcases restedRef_cases effect with ⟨reported, moved⟩ | ⟨silent, same⟩
      · have refs : restedRefs (event :: more) =
            event.before.nextRef :: restedRefs more :=
          List.filterMap_cons_some reported
        rw [refs, List.length_cons] at unwrapped
        have next : event.after.nextRef.toNat =
            event.before.nextRef.toNat + 1 := by
          rw [moved, UInt64.toNat_add, UInt64.toNat_one]
          exact Nat.mod_eq_of_lt (by omega)
        have less : event.before.nextRef < event.after.nextRef := by
          rw [UInt64.lt_iff_toNat_lt, next]
          exact Nat.lt_succ_self _
        have counted' : event.after.nextRef ≠ 0 := by
          intro zero
          rw [zero] at next
          exact absurd next (by simp)
        obtain ⟨kept, numbered, last⟩ := induction _ afterRepresents
          (sound_step effect sound counted (Or.inr less)) counted'
          playedRest (by omega)
        refine ⟨kept, ?_, ?_⟩
        · rw [refs, List.map_cons, numbered, List.length_cons,
            List.range'_succ, next]
        · rw [refs, List.length_cons, last, next]
          omega
      · have refs : restedRefs (event :: more) = restedRefs more :=
          List.filterMap_cons_none silent
        rw [refs] at unwrapped ⊢
        rw [← same] at unwrapped ⊢
        exact induction _ afterRepresents
          (sound_step effect sound counted (Or.inl same))
          (same ▸ counted) playedRest unwrapped

/-- The call passes the checks a client has to pass. -/
def Acceptable (engine : MatchingEngine MapBook) : Call → Prop
  | .submit order => Submittable order
  | .cancel ref => engine.book.contains ref = true
  | .setStpMode _ => True

/-- A sound engine carries out every acceptable call. -/
theorem call_accepted {engine : MatchingEngine MapBook}
    {before : ArrivalBook} (represents : Represents engine.book before)
    (sound : Sound engine before) {call : Call}
    (acceptable : Acceptable engine call) :
    ∃ event, engine.call call = .ok event := by
  cases call with
  | submit order =>
      have welcome : Welcome order engine.nextRef before :=
        { submittable := acceptable
          nonzero := fun resting member =>
            (sound.known resting (ArrivalBook.mem_queue.mp member).1).1
          fresh := by
            rw [ArrivalBook.find?_eq_none_iff]
            intro resting member same
            have below := (sound.known resting member).2
            rw [same] at below
            exact absurd below (UInt64.lt_irrefl _) }
      rcases submit_cases represents order [] with
        ⟨-, final, after, submitted, -⟩ | ⟨refused, -⟩
      · exact ⟨_, bind_eq_ok_iff.mpr ⟨_, submitted, rfl⟩⟩
      · exact absurd welcome refused
  | cancel ref =>
      have contains := Except.ok.inj (represents.answers.contains ref)
      have resting : (before.find? ref).isSome = true :=
        contains.symm.trans acceptable
      obtain ⟨order, found⟩ := Option.isSome_iff_exists.mp resting
      obtain ⟨member, rfl⟩ := ArrivalBook.find?_eq_some_iff.mp found
      obtain ⟨book, removed, -⟩ :=
        remove_related MapBook.refines represents member
      exact ⟨_, bind_eq_ok_iff.mpr
        ⟨_, bind_eq_ok_iff.mpr ⟨book, removed, rfl⟩, rfl⟩⟩
  | setStpMode mode => exact ⟨_, rfl⟩

theorem not_crossed {engine : MatchingEngine MapBook}
    {arrivals : ArrivalBook} (represents : Represents engine.book arrivals)
    (apart : Apart .buy arrivals) :
    OrderBook.crossed engine.book = false := by
  have answers := represents.answers
  rw [← Bool.not_eq_true]
  intro crossed
  simp only [OrderBook.crossed, answers.isEmpty, answers.best,
    Bool.and_eq_true, Bool.not_eq_true', decide_eq_true_eq] at crossed
  obtain ⟨⟨bids, asks⟩, meets⟩ := crossed
  obtain ⟨bid, bidMember, bidSide, bidPrice⟩ :=
    ArrivalBook.mem_prices.mp (ArrivalBook.best_mem_prices bids)
  obtain ⟨ask, askMember, askSide, askPrice⟩ :=
    ArrivalBook.mem_prices.mp (ArrivalBook.best_mem_prices asks)
  have closer : bid.price < ask.price :=
    apart bid (ArrivalBook.mem_queue.mpr ⟨bidMember, bidSide⟩) ask
      (ArrivalBook.mem_queue.mpr ⟨askMember, askSide⟩)
  rw [bidPrice, askPrice] at closer
  exact UInt32.not_le.mpr closer meets

/--
A book which only the engine drives is never crossed or locked.  After every
run the resting orders have a price, a quantity and a reference below the next
one; the references reported for rested orders are distinct and not zero; and
the engine carries out every further call which passes its checks.  The counter
of references has wrapped only after `2 ^ 64 - 1` rested orders.
-/
theorem engine_neverCrossed (stp : StpMode) (calls : List Call)
    (events : List Event)
    (played : (MatchingEngine.start stp).play calls = .ok events)
    (unwrapped : (restedRefs events).length < 2 ^ 64 - 1) :
    let final := (MatchingEngine.start stp).final events
    OrderBook.crossed final.book = false ∧
      (∀ ref resting, final.book.restingOrder ref = some resting →
        resting.price > 0 ∧ resting.qty > 0 ∧ ref < final.nextRef) ∧
      (restedRefs events).Nodup ∧
      (∀ ref ∈ restedRefs events, ref ≠ 0) ∧
      ∀ call, Acceptable final call →
        ∃ event, final.call call = .ok event := by
  have first : (MatchingEngine.start stp).nextRef.toNat = 1 := rfl
  obtain ⟨⟨after, represents, sound⟩, numbered, -⟩ :=
    play_sound (MatchingEngine.start stp)
      MapBook.represents_empty (sound_start stp)
      (show (1 : OrderRef) ≠ 0 by decide) played (by omega)
  refine ⟨not_crossed represents sound.apart, ?_, ?_, ?_, ?_⟩
  · intro ref resting found
    rw [represents.restingOrder] at found
    obtain ⟨member, rfl⟩ := ArrivalBook.find?_eq_some_iff.mp found
    exact ⟨UInt32.pos_iff_ne_zero.mpr (sound.priced resting member),
      UInt32.pos_iff_ne_zero.mpr (after.positive resting member),
      (sound.known resting member).2⟩
  · refine List.Nodup.of_map UInt64.toNat ?_
    rw [numbered]
    exact List.nodup_range'
  · rintro ref member rfl
    have inRange : (0 : OrderRef).toNat ∈
        (restedRefs events).map UInt64.toNat :=
      List.mem_map_of_mem member
    rw [numbered, first, List.mem_range'_1] at inRange
    exact absurd inRange.1 (by decide)
  · exact fun call acceptable => call_accepted represents sound acceptable

/-- Both sides quoted, an offer which trades and rests, and a cancel. -/
def quotes : List Call :=
  [.submit { clientId := 1, owner := 3, side := .buy, price := 100, qty := 4 },
    .submit { clientId := 2, side := .sell, price := 102, qty := 5 },
    .setStpMode .cancelNewest,
    .submit { clientId := 3, side := .sell, price := 100, qty := 6 },
    .cancel 2]

def quoteEvents : List Event :=
  ((MatchingEngine.start .off).play quotes).toOption.getD []

theorem engine_neverCrossed_quotes :
    restedRefs quoteEvents = [1, 2, 3] ∧
      OrderBook.crossed
        ((MatchingEngine.start .off).final quoteEvents).book = false := by
  have law := engine_neverCrossed .off quotes quoteEvents rfl (by decide)
  exact ⟨by decide, law.1⟩

end ItchExchange.Engine
