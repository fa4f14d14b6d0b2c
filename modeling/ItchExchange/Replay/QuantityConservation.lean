import ItchExchange.Replay.ReplayObserver
import ItchExchange.Replay.TrackedArrivals
import Mathlib.Algebra.Order.BigOperators.Group.List

/-!
# Conservation of quantity through a replay

The observer adds up quantities from the messages alone.  What it expects on a
side is the quantity resting there, so its two quantity assertions never fire
on messages which the book accepts.  Whether the book accepts them is what a
replay with the observer of the plain path says.
-/

namespace ItchExchange.Replay

open ItchExchange.Core ItchExchange.Book ItchExchange.Wire

/-! ## The quantity which rests on a side of the reference book -/

/-- The sum of the remaining quantities of the orders of a side. -/
def restingQty (book : MapBook) (side : Side) : Nat :=
  ((book.orders.toList.filter fun pair => decide (pair.2.side = side)).map
    fun pair => pair.2.qty.toNat).sum

/-- An entry with its reference. -/
def restingOf (pair : OrderRef × MapBook.Entry) : Resting where
  ref := pair.1
  side := pair.2.side
  price := pair.2.price
  qty := pair.2.qty
  owner := pair.2.owner

/-- The entries of the book are the orders of the list, in another order. -/
theorem entries_perm {book : MapBook} {arrivals : ArrivalBook}
    (represents : MapBook.Represents book arrivals) :
    (book.orders.toList.map restingOf).Perm arrivals.orders := by
  obtain ⟨position, represents⟩ := represents
  have distinct : (book.orders.toList.map restingOf).Nodup := by
    refine List.Nodup.of_map Resting.ref ?_
    rw [List.map_map]
    refine List.pairwise_map.mpr ?_
    refine Std.ExtTreeMap.distinct_keys_toList.imp ?_
    intro first second different equal
    have same : first.1 = second.1 := equal
    exact different (Std.LawfulEqCmp.compare_eq_iff_eq.mpr same)
  refine (List.perm_ext_iff_of_nodup distinct
    arrivals.distinct.of_map).mpr fun order => ?_
  rw [List.mem_map]
  constructor
  · rintro ⟨⟨ref, entry⟩, member, rfl⟩
    rw [Std.ExtTreeMap.mem_toList_iff_getElem?_eq_some,
      represents.entries] at member
    obtain ⟨order, found, rfl⟩ := Option.map_eq_some_iff.mp member
    obtain ⟨resting, rfl⟩ := ArrivalBook.find?_eq_some_iff.mp found
    exact resting
  · intro member
    refine ⟨(order.ref, MapBook.entryOf position order), ?_, rfl⟩
    rw [Std.ExtTreeMap.mem_toList_iff_getElem?_eq_some]
    exact represents.entry member

theorem restingQty_eq {book : MapBook} {arrivals : ArrivalBook}
    (represents : MapBook.Represents book arrivals) (side : Side) :
    restingQty book side = naturalQty (arrivals.onSide side) := by
  have rearranged := ((entries_perm represents).filter
    fun order => decide (order.side = side)).map fun order => order.qty.toNat
  rw [List.filter_map, List.map_map] at rearranged
  exact rearranged.sum_nat

/-! ## What the observer expects -/

/-- On each side the observer expects what rests there, in 64 bits. -/
def Expects (observer : ReplayObserver) (arrivals : ArrivalBook) : Prop :=
  ∀ side, observer.counters.expectedQty.get side =
    wordQty (arrivals.onSide side)

/-- The observers differ in what they expect alone. -/
structure SameButExpected (first second : ReplayObserver) : Prop where
  validateEvery : second.validateEvery = first.validateEvery
  strict : second.strict = first.strict

theorem SameButExpected.refl (observer : ReplayObserver) :
    SameButExpected observer observer :=
  ⟨rfl, rfl⟩

theorem SameButExpected.trans {first second third : ReplayObserver}
    (before : SameButExpected first second)
    (after : SameButExpected second third) : SameButExpected first third :=
  ⟨after.validateEvery.trans before.validateEvery,
    after.strict.trans before.strict⟩

section Reports

variable {observer : ReplayObserver} {arrivals next : ArrivalBook}

/-- An order holds no more than its side. -/
theorem qty_le_wordQty {orders : List Resting} {order : Resting}
    (small : orders.length < 2 ^ 32) (member : order ∈ orders) :
    order.qty.toUInt64 ≤ wordQty orders := by
  have listed : order.qty.toNat ∈
      orders.map fun order => order.qty.toNat :=
    List.mem_map_of_mem member
  rw [UInt64.le_iff_toNat_le, wordQty_toNat small, UInt32.toNat_toUInt64]
  exact List.single_le_sum (fun _ _ => Nat.zero_le _) _ listed

/-- A reduction of no more than what is expected. -/
theorem ReplayObserver.noteReduction_of {side : Side} {qty : Qty}
    (held : observer.counters.expectedQty.get side ≥ qty.toUInt64) :
    observer.noteReduction side qty =
      .ok { observer with
        counters :=
          { observer.counters with
            expectedQty := observer.counters.expectedQty.set side
              (observer.counters.expectedQty.get side - qty.toUInt64) } } := by
  rw [ReplayObserver.noteReduction, assertMsg_of held]
  rfl

/-- A reduction the list accepts is one the observer accepts. -/
theorem Expects.noteReduction (expects : Expects observer arrivals)
    (small : arrivals.orders.length < 2 ^ 32) {order : Resting}
    {shares : Qty} (member : order ∈ arrivals.orders)
    (enough : shares ≤ order.qty) :
    ∃ noted, observer.noteReduction order.side shares = .ok noted ∧
      Expects noted (arrivals.reduce order.ref shares) ∧
      SameButExpected observer noted := by
  have inSide : order ∈ arrivals.onSide order.side :=
    ArrivalBook.mem_onSide.mpr ⟨member, rfl⟩
  have few : (arrivals.onSide order.side).length < 2 ^ 32 :=
    lt_of_le_of_lt (List.length_filter_le _ _) small
  have held : observer.counters.expectedQty.get order.side ≥
      shares.toUInt64 := by
    rw [expects]
    refine UInt64.le_trans ?_ (qty_le_wordQty few inSide)
    simpa [UInt64.le_iff_toNat_le] using UInt32.le_iff_toNat_le.mp enough
  have noted := ReplayObserver.noteReduction_of held
  refine ⟨_, noted, ?_, rfl, rfl⟩
  intro side
  dsimp only
  rw [PerSide.get_set]
  split_ifs with same
  · subst same
    rw [expects, ArrivalBook.onSide_reduce, wordQty_reduceIn
      (arrivals.onSide_refs_nodup order.side) inSide enough]
  · rw [ArrivalBook.onSide_reduce_of_ne member (Ne.symm same), expects]

/-- An order which joins the list joins what the observer expects. -/
theorem Expects.beforeAdd (expects : Expects observer arrivals)
    {order : Resting} (accepted : arrivals.insert? order = some next) :
    Expects (observer.beforeAdd order.side order.qty) next := by
  obtain ⟨positive, fresh, rfl⟩ :=
    ArrivalBook.insert?_eq_some_iff.mp accepted
  intro side
  unfold ReplayObserver.beforeAdd
  dsimp only
  rw [PerSide.get_set, ArrivalBook.onSide_add]
  by_cases same : side = order.side
  · subst same
    rw [if_pos rfl, if_pos rfl, expects, wordQty_append, wordQty_cons,
      wordQty_nil, UInt64.add_zero]
  · rw [if_neg same, if_neg (Ne.symm same), expects]

/-- The hook before an accepted operation stops at no assertion. -/
theorem Expects.report {B : Type} [OrderBook B] [ValidatedBook B]
    (expects : Expects observer arrivals)
    (small : arrivals.orders.length < 2 ^ 32) (book : B)
    {update : Update}
    (accepted : arrivals.perform? update.operation = some next) :
    ∃ told, update.report book arrivals observer = .ok told ∧
      Expects told next ∧ SameButExpected observer told := by
  cases update with
  | add ref indicator price shares =>
      exact ⟨_, rfl, expects.beforeAdd accepted, rfl, rfl⟩
  | execute ref shares =>
      obtain ⟨order, member, rfl, enough, rfl⟩ :=
        ArrivalBook.take?_eq_some_iff.mp accepted
      rw [Update.report, ArrivalBook.find?_eq_some_iff.mpr ⟨member, rfl⟩]
      exact expects.noteReduction small member enough
  | cancel ref shares =>
      obtain ⟨order, member, rfl, enough, rfl⟩ :=
        ArrivalBook.take?_eq_some_iff.mp accepted
      rw [Update.report, ArrivalBook.find?_eq_some_iff.mpr ⟨member, rfl⟩]
      exact expects.noteReduction small member enough
  | delete ref =>
      obtain ⟨order, member, rfl, rfl⟩ :=
        ArrivalBook.remove?_eq_some_iff.mp accepted
      rw [Update.report, ArrivalBook.find?_eq_some_iff.mpr ⟨member, rfl⟩]
      exact expects.noteReduction small member (UInt32.le_refl _)
  | replace oldRef newRef price shares =>
      obtain ⟨order, member, rfl, inserted⟩ :=
        ArrivalBook.replace?_eq_some_iff.mp accepted
      rw [Update.report, ArrivalBook.find?_eq_some_iff.mpr ⟨member, rfl⟩]
      obtain ⟨noted, reduced, reducedExpects, same⟩ :=
        expects.noteReduction small member (UInt32.le_refl _)
      have told : (Observer.noteReduction B observer order.side order.qty :
          Checked ReplayObserver) = .ok noted := reduced
      dsimp only
      rw [told, ok_bind]
      exact ⟨_, rfl, reducedExpects.beforeAdd inserted, same.validateEvery,
        same.strict⟩

end Reports

/-! ## The hook after an update -/

section AfterApply

variable {B : Type} [OrderBook B] {book : B} {observer : ReplayObserver}
  {arrivals : ArrivalBook}

/-- The checks before the journal can only find the book crossed. -/
theorem Expects.count (expects : Expects observer arrivals)
    (answers : Answers book arrivals) :
    (∃ counters, observer.count book = .ok counters ∧
        counters.expectedQty = observer.counters.expectedQty) ∨
      observer.strict = true ∧
        observer.count book =
          .error (.assertion ReplayObserver.bookCrossed) := by
  have agreed :
      (OrderBook.stats book).totalQty.buy =
          observer.counters.expectedQty.buy ∧
        (OrderBook.stats book).totalQty.sell =
          observer.counters.expectedQty.sell := by
    rw [answers.stats]
    exact ⟨(expects .buy).symm, (expects .sell).symm⟩
  unfold ReplayObserver.count
  dsimp only
  split_ifs with crossed
  · cases strict : observer.strict with
    | true => exact Or.inr ⟨rfl, rfl⟩
    | false =>
        left
        rw [assertMsg_of rfl, ok_bind, pure_eq_ok, ok_bind,
          assertMsg_of agreed]
        exact ⟨_, rfl, rfl⟩
  · left
    rw [ok_bind, assertMsg_of agreed]
    exact ⟨_, rfl, rfl⟩

/-- A journal entry reads the book only by queries which answer. -/
theorem journal_returns (answers : Answers book arrivals)
    (digest : Digest) (ts : Timestamp) (applied : UInt64) :
    ∃ later, ReplayObserver.journal digest book ts applied = .ok later := by
  unfold ReplayObserver.journal
  dsimp only
  split_ifs with structural
  · rw [bookDigest, bookFed, answers.forEachLevel, ok_bind,
      answers.forEachLevel, ok_bind]
    exact ⟨_, rfl⟩
  · exact ⟨_, rfl⟩

/-- Behind an update only a crossed book can stop a strict observer. -/
theorem Expects.afterApply [ValidatedBook B]
    (expects : Expects observer arrivals) (answers : Answers book arrivals)
    (valid : ValidatedBook.validate book = .ok ()) (ts : Timestamp) :
    (∃ later, observer.afterApply book ts = .ok later ∧
        Expects later arrivals ∧ SameButExpected observer later) ∨
      observer.strict = true ∧
        observer.afterApply book ts =
          .error (.assertion ReplayObserver.bookCrossed) := by
  rcases expects.count answers with
    ⟨counters, counted, same⟩ | ⟨strict, crossed⟩
  · left
    obtain ⟨digest, written⟩ := journal_returns answers observer.digest ts
      counters.applied
    rw [ReplayObserver.afterApply, counted, ok_bind, written, ok_bind]
    split_ifs with due
    · rw [valid]
      refine ⟨_, rfl, fun side => ?_, rfl, rfl⟩
      dsimp only
      rw [same, expects]
    · refine ⟨_, rfl, fun side => ?_, rfl, rfl⟩
      dsimp only
      rw [same, expects]
  · right
    rw [ReplayObserver.afterApply, crossed]
    exact ⟨strict, rfl⟩

end AfterApply

/-! ## A replay next to the plain one -/

/-- The observed tracker is where the plain one is, and expects the book. -/
structure Follows (observed : Tracker MapBook ReplayObserver)
    (plain : Tracker MapBook NullObserver) : Prop where
  book : observed.book = plain.book
  symbol : observed.symbol = plain.symbol
  locate : observed.locate = plain.locate
  resolved : observed.resolved = plain.resolved
  expects : ∃ arrivals, MapBook.Represents plain.book arrivals ∧
    Expects observed.observer arrivals

section Run

variable {observed : Tracker MapBook ReplayObserver}
  {plain next : Tracker MapBook NullObserver}

/-- An update which the plain tracker carries out changes the arrivals. -/
theorem apply_accepted {arrivals : ArrivalBook}
    (represents : MapBook.Represents plain.book arrivals) {update : Update}
    {ts : Timestamp} (applied : plain.apply update ts = .ok next) :
    ∃ later, update.Indicated ∧
      arrivals.perform? update.operation = some later ∧
      OrderBook.apply plain.book update.operation = .ok next.book ∧
      MapBook.Represents next.book later ∧
      next = { plain with book := next.book } := by
  obtain ⟨⟨book, _⟩, changed, rest⟩ := bind_eq_ok_iff.mp applied
  obtain ⟨_, _, equal⟩ := bind_eq_ok_iff.mp rest
  cases equal
  obtain ⟨later, indicated, performed, done, relation⟩ :=
    Tracker.change_accepted represents changed
  exact ⟨later, indicated, performed, done, relation, rfl⟩

/-- A message which the plain tracker takes is taken, or finds a crossing. -/
theorem Follows.step (follows : Follows observed plain)
    (before : plain.book.orderCount < 2 ^ 32)
    {body : List UInt8} (stepped : plain.step body = .ok next)
    (after : next.book.orderCount < 2 ^ 32) :
    (∃ later, observed.step body = .ok later ∧ Follows later next ∧
        later.observer.strict = observed.observer.strict) ∨
      observed.observer.strict = true ∧
        observed.step body =
          .error (.assertion ReplayObserver.bookCrossed) := by
  obtain ⟨sameBook, sameSymbol, sameLocate, sameResolved, arrivals,
    represents, expects⟩ := follows
  rw [Tracker.step_eq_follow] at stepped ⊢
  rw [sameSymbol, sameLocate, sameResolved]
  generalize reading :
    Tracker.reads plain.symbol plain.locate plain.resolved body = read
    at stepped ⊢
  cases read with
  | nothing =>
      cases stepped
      exact Or.inl ⟨observed, rfl, ⟨sameBook, sameSymbol, sameLocate,
        sameResolved, arrivals, represents, expects⟩, rfl⟩
  | resolution symbol locate =>
      cases stepped
      exact Or.inl ⟨_, rfl, ⟨sameBook, rfl, rfl, rfl, arrivals, represents,
        expects⟩, rfl⟩
  | update update ts =>
      obtain ⟨later, indicated, accepted, applied, relation, onlyBook⟩ :=
        apply_accepted represents stepped
      have few : arrivals.orders.length < 2 ^ 32 := by
        rw [← represents.answers.orderCount]
        exact before
      have stillFew : later.orders.length < 2 ^ 32 := by
        rw [← relation.answers.orderCount]
        exact after
      obtain ⟨told, reported, toldExpects, same⟩ :=
        expects.report few plain.book accepted
      have changed := Tracker.change_eq_report observed.observer
        represents.answers indicated
        accepted applied
      rw [reported] at changed
      change (∃ later, observed.apply update ts = .ok later ∧ _) ∨ _ ∧
        observed.apply update ts = _
      rw [Tracker.apply, sameBook, changed, ok_bind, pure_eq_ok, ok_bind]
      rcases toldExpects.afterApply relation.answers
          (relation.validate stillFew) ts with
        ⟨seen, done, seenExpects, sameSeen⟩ | ⟨strict, crossed⟩
      · left
        have hooked : Observer.afterApply told next.book ts = .ok seen :=
          done
        dsimp only
        rw [hooked]
        refine ⟨_, rfl, ⟨rfl, ?_, ?_, ?_, later, relation, seenExpects⟩,
          sameSeen.strict.trans same.strict⟩
        · rw [onlyBook]
          exact sameSymbol
        · rw [onlyBook]
          exact sameLocate
        · rw [onlyBook]
          exact sameResolved
      · right
        have hooked : Observer.afterApply told next.book ts =
            .error (.assertion ReplayObserver.bookCrossed) := crossed
        dsimp only
        rw [hooked]
        exact ⟨same.strict.symm.trans strict, rfl⟩

/-- No state of a plain replay holds `2 ^ 32` orders. -/
def FewOrders (plain : Tracker MapBook NullObserver)
    (bodies : List (List UInt8)) : Prop :=
  ∀ count next, plain.steps (bodies.take count) = .ok next →
    next.book.orderCount < 2 ^ 32

theorem FewOrders.rest {body : List UInt8} {rest : List (List UInt8)}
    (few : FewOrders plain (body :: rest))
    (stepped : plain.step body = .ok next) : FewOrders next rest := by
  intro count last ran
  refine few (count + 1) last ?_
  rw [List.take_succ_cons, Tracker.steps, stepped]
  exact ran

theorem Follows.steps {bodies : List (List UInt8)}
    (follows : Follows observed plain) (few : FewOrders plain bodies)
    (ran : plain.steps bodies = .ok next) :
    (∃ later, observed.steps bodies = .ok later ∧ Follows later next) ∨
      observed.observer.strict = true ∧
        observed.steps bodies =
          .error (.assertion ReplayObserver.bookCrossed) := by
  induction bodies generalizing observed plain with
  | nil =>
      cases ran
      exact Or.inl ⟨observed, rfl, follows⟩
  | cons body rest induction =>
      obtain ⟨middle, stepped, ranRest⟩ := bind_eq_ok_iff.mp ran
      have before : plain.book.orderCount < 2 ^ 32 := few 0 plain rfl
      have restFew := few.rest stepped
      have after : middle.book.orderCount < 2 ^ 32 := restFew 0 middle rfl
      rw [Tracker.steps]
      rcases follows.step before stepped after with
        ⟨later, done, laterFollows, sameStrict⟩ | ⟨strict, crossed⟩
      · rw [done, ok_bind, ← sameStrict]
        exact induction laterFollows restFew ranRest
      · rw [crossed]
        exact Or.inr ⟨strict, rfl⟩

end Run

/-- A builder of the plain replay path which has seen nothing. -/
def plainly (symbol : List UInt8) : BookBuilder MapBook NullObserver where
  book := {}
  symbol := symbol
  observer := {}

/-- What is expected, what the book counts and what rests are one quantity. -/
def Conserved (builder : BookBuilder MapBook ReplayObserver) : Prop :=
  ∀ side,
    builder.observer.counters.expectedQty.get side =
        builder.book.stats.totalQty.get side ∧
      (builder.book.stats.totalQty.get side).toNat =
        restingQty builder.book side

/-- No prefix of the messages leaves `2 ^ 32` orders resting. -/
def NeverFull (symbol : List UInt8) (bodies : List (List UInt8)) : Prop :=
  ∀ count plain,
    (plainly symbol).dispatchAll (bodies.take count) = .ok plain →
      plain.book.orderCount < 2 ^ 32

/-- As few orders rest as messages were dispatched. -/
theorem neverFull_of_length {symbol : List UInt8}
    {bodies : List (List UInt8)} (short : bodies.length < 2 ^ 32) :
    NeverFull symbol bodies := by
  intro count plain ran
  obtain ⟨later, relation, bound⟩ := Tracker.represents_steps
    (show MapBook.Represents (plainly symbol).tracker.book .empty from
      MapBook.represents_empty)
    (BookBuilder.steps_of_dispatchAll _ ran)
  have orderCount : plain.book.orderCount = later.orders.length :=
    relation.answers.orderCount
  have taken : (bodies.take count).length ≤ bodies.length :=
    List.length_take_le' _ _
  have start : ArrivalBook.empty.orders.length = 0 := rfl
  omega

theorem Follows.conserved {builder : BookBuilder MapBook ReplayObserver}
    {plain : BookBuilder MapBook NullObserver}
    (follows : Follows builder.tracker plain.tracker)
    (few : plain.book.orderCount < 2 ^ 32) :
    builder.book = plain.book ∧ Conserved builder := by
  obtain ⟨sameBook, -, -, -, arrivals, represents, expects⟩ := follows
  have same : builder.book = plain.book := sameBook
  have relation : MapBook.Represents builder.book arrivals := by
    rw [same]
    exact represents
  have small : arrivals.orders.length < 2 ^ 32 := by
    rw [← represents.answers.orderCount]
    exact few
  have implements := relation.implements small
  refine ⟨same, fun side => ?_⟩
  have total := implements.totalQty side
  rw [restingQty_eq relation]
  refine ⟨?_, total⟩
  have expected : builder.observer.counters.expectedQty.get side =
      wordQty (arrivals.onSide side) := expects side
  rw [expected, ← UInt64.toNat_inj, total,
    wordQty_toNat
      (lt_of_le_of_lt (MapBook.length_onSide_le arrivals side) small)]

/--
A replay with the observer ends in the book of the plain replay with its
quantity conserved, or a strict observer found the book crossed.
-/
inductive EndsConserved (strict : Bool)
    (plain : BookBuilder MapBook NullObserver) :
    Checked (BookBuilder MapBook ReplayObserver) → Prop
  | conserved (builder : BookBuilder MapBook ReplayObserver) :
      builder.book = plain.book → Conserved builder →
        EndsConserved strict plain (.ok builder)
  | crossed : strict = true →
      EndsConserved strict plain
        (.error (.assertion ReplayObserver.bookCrossed))

/-- The replay follows the plain one, or a strict observer stops it. -/
theorem replay_follows (symbol : List UInt8) (validateEvery : UInt64)
    (strict : Bool) {bodies : List (List UInt8)}
    (few : NeverFull symbol bodies) {plain : BookBuilder MapBook NullObserver}
    (accepted : (plainly symbol).dispatchAll bodies = .ok plain) :
    (∃ builder,
        (replaying MapBook {} symbol validateEvery strict).dispatchAll
            bodies = .ok builder ∧
          Follows builder.tracker plain.tracker) ∨
      strict = true ∧
        (replaying MapBook {} symbol validateEvery strict).dispatchAll
            bodies = .error (.assertion ReplayObserver.bookCrossed) := by
  set start := replaying MapBook {} symbol validateEvery strict with begun
  have tracked := BookBuilder.steps_of_dispatchAll _ accepted
  have follows : Follows start.tracker (plainly symbol).tracker :=
    ⟨rfl, rfl, rfl, rfl, ArrivalBook.empty, MapBook.represents_empty,
      fun side => by cases side <;> rfl⟩
  have fewTracked : FewOrders (plainly symbol).tracker bodies := by
    intro shorter next ran
    obtain ⟨builder, dispatched, rfl⟩ :=
      BookBuilder.dispatchAll_of_steps _ ran
    exact few _ builder dispatched
  have replayed := follows.steps fewTracked tracked
  rcases replayed with ⟨later, done, laterFollows⟩ | ⟨isStrict, crossed⟩
  · obtain ⟨builder, dispatched, rfl⟩ :=
      BookBuilder.dispatchAll_of_steps _ done
    exact Or.inl ⟨builder, dispatched, laterFollows⟩
  · rw [← BookBuilder.tracker_dispatchAll] at crossed
    cases dispatched : start.dispatchAll bodies with
    | error failure =>
        rw [dispatched] at crossed
        rw [Except.error.inj crossed]
        exact Or.inr ⟨isStrict, rfl⟩
    | ok builder =>
        rw [dispatched] at crossed
        cases crossed

theorem NeverFull.take {symbol : List UInt8} {bodies : List (List UInt8)}
    (few : NeverFull symbol bodies) (count : Nat) :
    NeverFull symbol (bodies.take count) := by
  intro shorter plain ran
  rw [List.take_take] at ran
  exact few _ plain ran

/--
Quantity is conserved through a replay.  As long as the book itself accepts the
messages, a replay with the observer has the book of the plain replay, and what
the observer expects on a side is what the book counts and what rests there; if
it stops, then a strict observer found the book crossed.
-/
theorem replay_conservesQuantity (symbol : List UInt8)
    (validateEvery : UInt64) (strict : Bool) (bodies : List (List UInt8))
    (few : NeverFull symbol bodies) (count : Nat)
    (plain : BookBuilder MapBook NullObserver)
    (accepted :
      (plainly symbol).dispatchAll (bodies.take count) = .ok plain) :
    EndsConserved strict plain
      ((replaying MapBook {} symbol validateEvery strict).dispatchAll
        (bodies.take count)) := by
  rcases replay_follows symbol validateEvery strict (few.take count)
      accepted with ⟨builder, done, follows⟩ | ⟨isStrict, crossed⟩
  · rw [done]
    obtain ⟨same, conserved⟩ := follows.conserved (few count plain accepted)
    exact .conserved _ same conserved
  · rw [crossed]
    exact .crossed isStrict

/-- A directory message, an add of five shares and a cancel of two. -/
def addThenCancel : List (List UInt8) :=
  ['R'.toUInt8 :: List.replicate 38 0,
    'A'.toUInt8 :: List.replicate 17 0 ++
      [1, 'B'.toUInt8, 0, 0, 0, 5] ++ List.replicate 11 0 ++ [100],
    'X'.toUInt8 :: List.replicate 17 0 ++ [1, 0, 0, 0, 2]]

theorem replay_conservesQuantity_cancel :
    ∃ plain,
      (plainly []).dispatchAll (addThenCancel.take 3) = .ok plain ∧
        plain.stats.applied = 2 ∧
        EndsConserved true plain
          ((replaying MapBook {} [] 1 true).dispatchAll
            (addThenCancel.take 3)) := by
  have value : ((plainly []).dispatchAll (addThenCancel.take 3)).map
      (fun builder => builder.stats.applied) = .ok 2 := by
    decide
  cases accepted : (plainly []).dispatchAll (addThenCancel.take 3) with
  | error failure =>
      rw [accepted] at value
      cases value
  | ok plain =>
      rw [accepted] at value
      exact ⟨plain, rfl, Except.ok.inj value,
        replay_conservesQuantity [] 1 true addThenCancel
          (neverFull_of_length (by simp [addThenCancel])) 3 plain accepted⟩

end ItchExchange.Replay
