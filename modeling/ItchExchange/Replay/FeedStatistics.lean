import ItchExchange.Replay.ForeignTraffic
import ItchExchange.Replay.QuantityConservation

/-!
# What the statistics of a builder count

A builder counts the messages for whose type it has a handler.  Its statistics
account for a feed exactly where it has a handler for every message of it.
-/

namespace ItchExchange.Replay

open ItchExchange.Core ItchExchange.Book ItchExchange.Wire

/-- The types for which a builder has a handler. -/
def handledTypes : List MsgType :=
  .stockDirectory :: bookTypes ++ [.tradeNonCross, .crossTrade, .brokenTrade]

def Handled (body : List UInt8) : Prop :=
  ∃ type ∈ handledTypes, MsgType.ofByte? (loadBe8 body 0) = some type

instance : DecidablePred Handled :=
  fun _ => inferInstanceAs (Decidable (∃ type ∈ handledTypes, _))

/-- The mutations by kind, as the counters add up. -/
def BuilderStats.kinds (stats : BuilderStats) : UInt64 :=
  stats.adds + stats.executions + stats.cancels + stats.deletes +
    stats.replaces

/-- The statistics account for all messages of a feed. -/
structure AccountsFor (symbol : List UInt8) (bodies : List (List UInt8))
    (stats : BuilderStats) : Prop where
  messages : stats.messages.toNat = bodies.length
  firstTs : ∀ body ∈ bodies.head?, stats.firstTs = timestampOf body
  lastTs : ∀ body ∈ bodies.getLast?, stats.lastTs = timestampOf body
  kinds : stats.applied = stats.kinds
  /-- The relevant messages behind the one which resolves the symbol. -/
  applied : stats.applied.toNat = (relevant symbol bodies).tail.length

theorem handled_of_traffic {locate : UInt16} {body : List UInt8}
    (traffic : IsTrafficOf locate body) : Handled body := by
  obtain ⟨⟨type, listed, found⟩, -⟩ := traffic
  exact ⟨type, List.mem_append_left _ (List.mem_cons_of_mem _ listed), found⟩

/-- A number of mutations, which nothing else of the statistics shows. -/
structure Mutates (count : Nat) (before after : BuilderStats) : Prop where
  messages : after.messages = before.messages
  firstTs : after.firstTs = before.firstTs
  lastTs : after.lastTs = before.lastTs
  applied : after.applied = before.applied + UInt64.ofNat count
  kinds : after.kinds = before.kinds + UInt64.ofNat count

theorem Mutates.unchanged {before after : BuilderStats}
    (messages : after.messages = before.messages)
    (firstTs : after.firstTs = before.firstTs)
    (lastTs : after.lastTs = before.lastTs)
    (applied : after.applied = before.applied)
    (kinds : after.kinds = before.kinds) : Mutates 0 before after :=
  ⟨messages, firstTs, lastTs, applied.trans (UInt64.add_zero _).symm,
    kinds.trans (UInt64.add_zero _).symm⟩

namespace BookBuilder

variable {B O : Type} [OrderBook B] [Observer O B]
  {builder next final : BookBuilder B O}

/-! ## One message -/

/-- Whatever a computation returns has made one mutation. -/
def MutatesOnce (builder : BookBuilder B O)
    (run : Checked (BookBuilder B O)) : Prop :=
  ∀ next, run = .ok next → Mutates 1 builder.stats next.stats

omit [OrderBook B] [Observer O B] in
theorem MutatesOnce.bind {α : Type} {first : Checked α}
    {rest : α → Checked (BookBuilder B O)}
    (each : ∀ value, MutatesOnce builder (rest value)) :
    MutatesOnce builder (first >>= rest) := by
  intro next done
  obtain ⟨value, -, later⟩ := bind_eq_ok_iff.mp done
  exact each value next later

omit [OrderBook B] [Observer O B] in
/-- The last line of a mutation raises one counter of its kind. -/
theorem MutatesOnce.returns {later : BookBuilder B O}
    (one : Mutates 1 builder.stats later.stats) :
    MutatesOnce builder (.ok later) := by
  rintro next ⟨⟩
  exact one

theorem mutates_doAdd (ref : OrderRef) (indicator : UInt8) (price : Price)
    (shares : Qty) (ts : Timestamp) :
    MutatesOnce builder (builder.doAdd ref indicator price shares ts) :=
  .bind fun _ => .bind fun _ => .bind fun _ => .returns
    ⟨rfl, rfl, rfl, rfl, by simp only [BuilderStats.kinds]; ac_rfl⟩

theorem mutates_doExecute (ref : OrderRef) (shares : Qty) (ts : Timestamp) :
    MutatesOnce builder (builder.doExecute ref shares ts) :=
  .bind fun _ => .bind fun _ => .bind fun _ => .bind fun _ => .returns
    ⟨rfl, rfl, rfl, rfl, by simp only [BuilderStats.kinds]; ac_rfl⟩

theorem mutates_doCancel (ref : OrderRef) (shares : Qty) (ts : Timestamp) :
    MutatesOnce builder (builder.doCancel ref shares ts) :=
  .bind fun _ => .bind fun _ => .bind fun _ => .bind fun _ => .returns
    ⟨rfl, rfl, rfl, rfl, by simp only [BuilderStats.kinds]; ac_rfl⟩

theorem mutates_doDelete (ref : OrderRef) (ts : Timestamp) :
    MutatesOnce builder (builder.doDelete ref ts) :=
  .bind fun _ => .bind fun _ => .bind fun _ => .bind fun _ => .bind fun _ =>
    .returns ⟨rfl, rfl, rfl, rfl, by simp only [BuilderStats.kinds]; ac_rfl⟩

theorem mutates_doReplace (oldRef newRef : OrderRef) (price : Price)
    (shares : Qty) (ts : Timestamp) :
    MutatesOnce builder (builder.doReplace oldRef newRef price shares ts) :=
  .bind fun _ => .bind fun _ => .bind fun _ => .bind fun _ => .bind fun _ =>
    .returns ⟨rfl, rfl, rfl, rfl, by simp only [BuilderStats.kinds]; ac_rfl⟩

omit [OrderBook B] [Observer O B] in
/-- A handler mutates the book for the tracked symbol only. -/
theorem mutates_whenMine {locate : UInt16} {ts : Timestamp}
    {body : BookBuilder B O → Checked (BookBuilder B O)} {count : Nat}
    (handled : builder.whenMine locate ts body = .ok next)
    (mutates : body (builder.seen ts) = .ok next →
      Mutates count (builder.seen ts).stats next.stats) :
    Mutates
      (if builder.resolved = true ∧ locate = builder.locate then count else 0)
      (builder.seen ts).stats next.stats := by
  have same : (builder.seen ts).mine locate = true ↔
      builder.resolved = true ∧ locate = builder.locate := by
    rw [mine, Bool.and_eq_true, decide_eq_true_eq]
    rfl
  unfold whenMine at handled
  dsimp only at handled
  by_cases acting : builder.resolved = true ∧ locate = builder.locate
  · rw [if_pos (same.mpr acting)] at handled
    rw [if_pos acting]
    exact mutates handled
  · rw [if_neg (mt same.mp acting)] at handled
    rw [if_neg acting, ← Except.ok.inj handled]
    exact Mutates.unchanged rfl rfl rfl rfl rfl

omit [OrderBook B] [Observer O B] in
theorem mutates_counts {locate : UInt16} {ts : Timestamp}
    {body : BookBuilder B O → Checked (BookBuilder B O)}
    (handled : builder.whenMine locate ts body = .ok next)
    (mutates : body (builder.seen ts) = .ok next →
      Mutates 0 (builder.seen ts).stats next.stats) :
    Mutates 0 (builder.seen ts).stats next.stats := by
  have counted := mutates_whenMine handled mutates
  rwa [ite_self] at counted

omit [OrderBook B] [Observer O B] in
theorem mutates_onStockDirectory (v : StockDirectoryView) :
    Mutates 0 (builder.seen v.timestamp).stats
      (builder.onStockDirectory v).stats := by
  unfold onStockDirectory
  dsimp only
  split_ifs <;> exact Mutates.unchanged rfl rfl rfl rfl rfl

/-- A message without a handler leaves the builder alone. -/
theorem dispatch_unhandled {body : List UInt8} {isKnown : Bool}
    (unhandled : ¬ Handled body)
    (dispatched : dispatch body builder = .ok (isKnown, next)) :
    next = builder := by
  unfold dispatch at dispatched
  cases found : MsgType.ofByte? (loadBe8 body 0) with
  | none =>
      rw [found] at dispatched
      cases dispatched
      rfl
  | some type =>
      rw [found] at dispatched
      have other : type ∉ handledTypes := fun listed =>
        unhandled ⟨type, listed, found⟩
      cases type <;> first
        | exact absurd (by decide) other
        | cases dispatched; rfl

omit [OrderBook B] [Observer O B] in
/-- What a dispatched message ends with is what its handler returns. -/
theorem handler_returns {handler : Checked (BookBuilder B O)}
    {isKnown : Bool}
    (dispatched : (handler >>= fun later =>
      (pure (true, later) : Checked (Bool × BookBuilder B O))) =
        .ok (isKnown, next)) : handler = .ok next := by
  obtain ⟨later, returned, equal⟩ := bind_eq_ok_iff.mp dispatched
  cases equal
  exact returned

/-- A message with a handler is seen, and mutates the book at most once. -/
theorem dispatch_handled {body : List UInt8} {isKnown : Bool}
    (handled : Handled body)
    (dispatched : dispatch body builder = .ok (isKnown, next)) :
    Mutates
      (if builder.resolved = true ∧ IsTrafficOf builder.locate body then 1
        else 0)
      (builder.seen (timestampOf body)).stats next.stats := by
  obtain ⟨type, listed, found⟩ := handled
  have traffic : IsTrafficOf builder.locate body ↔
      type ∈ bookTypes ∧ locateOf body = builder.locate := by
    simp [IsTrafficOf, found]
  unfold dispatch at dispatched
  rw [found] at dispatched
  by_cases moves : type ∈ bookTypes
  · simp only [traffic, moves, true_and]
    cases type
    case addOrder =>
      exact mutates_whenMine (handler_returns dispatched)
        (mutates_doAdd _ _ _ _ _ _)
    case addOrderWithMpid =>
      exact mutates_whenMine (handler_returns dispatched)
        (mutates_doAdd _ _ _ _ _ _)
    case orderExecuted =>
      exact mutates_whenMine (handler_returns dispatched)
        (mutates_doExecute _ _ _ _)
    case orderExecutedWithPrice =>
      exact mutates_whenMine (handler_returns dispatched)
        (mutates_doExecute _ _ _ _)
    case orderCancel =>
      exact mutates_whenMine (handler_returns dispatched)
        (mutates_doCancel _ _ _ _)
    case orderDelete =>
      exact mutates_whenMine (handler_returns dispatched)
        (mutates_doDelete _ _ _)
    case orderReplace =>
      exact mutates_whenMine (handler_returns dispatched)
        (mutates_doReplace _ _ _ _ _ _)
    all_goals exact absurd moves (by decide)
  · simp only [traffic, moves, false_and, and_false, if_false]
    cases type
    case stockDirectory =>
      cases handler_returns dispatched
      exact mutates_onStockDirectory ⟨body⟩
    case tradeNonCross =>
      refine mutates_counts (handler_returns dispatched) fun done => ?_
      cases done
      exact Mutates.unchanged rfl rfl rfl rfl rfl
    case crossTrade =>
      refine mutates_counts (handler_returns dispatched) fun done => ?_
      cases done
      exact Mutates.unchanged rfl rfl rfl rfl rfl
    case brokenTrade =>
      refine mutates_counts (handler_returns dispatched) fun done => ?_
      cases done
      exact Mutates.unchanged rfl rfl rfl rfl rfl
    all_goals first
      | exact absurd (by decide) moves
      | exact absurd listed (by decide)

/-! ## A whole feed -/

/-- The first of some dispatched messages. -/
theorem dispatchAll_cons {body : List UInt8} {rest : List (List UInt8)}
    (ran : builder.dispatchAll (body :: rest) = .ok final) :
    ∃ isKnown middle, dispatch body builder = .ok (isKnown, middle) ∧
      builder.tracker.step body = .ok middle.tracker ∧
        middle.dispatchAll rest = .ok final := by
  obtain ⟨⟨isKnown, middle⟩, dispatched, ranRest⟩ := bind_eq_ok_iff.mp ran
  refine ⟨isKnown, middle, dispatched, ?_, ranRest⟩
  rw [← tracker_dispatch, dispatched]
  rfl

/-- The messages about the book of the tracked symbol which follow. -/
def traffic (builder : BookBuilder B O) (bodies : List (List UInt8)) : Nat :=
  if builder.resolved = true then
    bodies.countP fun body => decide (IsTrafficOf builder.locate body)
  else (relevant builder.symbol bodies).tail.length

theorem traffic_cons {body : List UInt8} {rest : List (List UInt8)}
    (stepped : builder.tracker.step body = .ok next.tracker) :
    builder.traffic (body :: rest) =
      (if builder.resolved = true ∧ IsTrafficOf builder.locate body then 1
        else 0) + next.traffic rest := by
  cases resolved : builder.resolved with
  | true =>
      have tracked : builder.tracker.resolved = true := resolved
      obtain ⟨nextResolved, sameLocate⟩ :=
        Tracker.step_resolved tracked stepped
      have after : next.resolved = true := nextResolved
      have locate : next.locate = builder.locate := sameLocate
      rw [traffic, traffic, if_pos resolved, if_pos after, locate,
        List.countP_cons]
      simp only [true_and, decide_eq_true_eq]
      omega
  | false =>
      have tracked : builder.tracker.resolved = false := resolved
      rw [traffic, traffic, if_neg (by simp [resolved])]
      simp only [Bool.false_eq_true, false_and, if_false, Nat.zero_add]
      by_cases directory : IsDirectoryOf builder.symbol body
      · have moved :=
          Tracker.step_directory tracked directory
        have same := Except.ok.inj (stepped.symm.trans moved)
        have after : next.resolved = true := congrArg Tracker.resolved same
        have locate : next.locate = StockDirectoryView.stockLocate ⟨body⟩ :=
          congrArg Tracker.locate same
        rw [relevant, if_pos directory, if_pos after, locate, List.tail_cons,
          List.countP_eq_length_filter]
      · have stays :=
          Tracker.step_unresolved tracked directory
        have same := Except.ok.inj (stepped.symm.trans stays)
        have after : next.resolved = builder.resolved :=
          congrArg Tracker.resolved same
        have symbol : next.symbol = builder.symbol :=
          congrArg Tracker.symbol same
        rw [relevant, if_neg directory, after, resolved, symbol,
          if_neg Bool.false_ne_true]

theorem dispatchAll_counts {bodies : List (List UInt8)}
    (ran : builder.dispatchAll bodies = .ok final) :
    final.stats.messages = builder.stats.messages +
        UInt64.ofNat (bodies.countP fun body => decide (Handled body)) ∧
      final.stats.applied = builder.stats.applied +
        UInt64.ofNat (builder.traffic bodies) ∧
      final.stats.kinds = builder.stats.kinds +
        UInt64.ofNat (builder.traffic bodies) := by
  induction bodies generalizing builder with
  | nil =>
      have none : builder.traffic [] = 0 := by
        rw [traffic]
        split_ifs <;> rfl
      cases ran
      rw [none]
      simp
  | cons body rest induction =>
      obtain ⟨isKnown, middle, dispatched, stepped, ranRest⟩ :=
        dispatchAll_cons ran
      obtain ⟨messages, applied, kinds⟩ := induction ranRest
      rw [traffic_cons stepped, messages, applied, kinds, List.countP_cons,
        UInt64.ofNat_add, UInt64.ofNat_add]
      by_cases handled : Handled body
      · obtain ⟨seenMessages, -, -, seenApplied, seenKinds⟩ :=
          dispatch_handled handled dispatched
        rw [seenMessages, seenApplied, seenKinds,
          if_pos (decide_eq_true handled)]
        have counted : (builder.seen (timestampOf body)).stats.messages =
            builder.stats.messages + 1 := rfl
        have sameApplied : (builder.seen (timestampOf body)).stats.applied =
            builder.stats.applied := rfl
        have sameKinds : (builder.seen (timestampOf body)).stats.kinds =
            builder.stats.kinds := rfl
        rw [counted, sameApplied, sameKinds]
        refine ⟨?_, UInt64.add_assoc _ _ _, UInt64.add_assoc _ _ _⟩
        rw [UInt64.add_assoc, UInt64.add_comm 1]
        rfl
      · have foreign : ¬ (builder.resolved = true ∧
            IsTrafficOf builder.locate body) :=
          fun both => handled (handled_of_traffic both.2)
        rw [dispatch_unhandled handled dispatched, if_neg foreign]
        simp [handled]

theorem dispatchAll_lastTs {bodies : List (List UInt8)}
    (ran : builder.dispatchAll bodies = .ok final)
    (handled : ∀ body ∈ bodies, Handled body) :
    final.stats.lastTs =
      (bodies.getLast?.map timestampOf).getD builder.stats.lastTs := by
  induction bodies generalizing builder with
  | nil =>
      cases ran
      rfl
  | cons body rest induction =>
      obtain ⟨isKnown, middle, dispatched, -, ranRest⟩ := dispatchAll_cons ran
      obtain ⟨handledHere, handledLater⟩ := List.forall_mem_cons.mp handled
      have seen : middle.stats.lastTs = timestampOf body :=
        (dispatch_handled handledHere dispatched).lastTs
      rw [induction ranRest handledLater, seen, List.getLast?_cons]
      cases rest.getLast? <;> rfl

/-- The first time stays, as long as the counter of messages does not wrap. -/
theorem dispatchAll_firstTs {bodies : List (List UInt8)}
    (ran : builder.dispatchAll bodies = .ok final)
    (handled : ∀ body ∈ bodies, Handled body)
    (begun : builder.stats.messages ≠ 0)
    (few : builder.stats.messages.toNat + bodies.length < 2 ^ 64) :
    final.stats.firstTs = builder.stats.firstTs := by
  induction bodies generalizing builder with
  | nil =>
      cases ran
      rfl
  | cons body rest induction =>
      obtain ⟨isKnown, middle, dispatched, -, ranRest⟩ := dispatchAll_cons ran
      obtain ⟨handledHere, handledLater⟩ := List.forall_mem_cons.mp handled
      have mutates := dispatch_handled handledHere dispatched
      have counted : middle.stats.messages = builder.stats.messages + 1 :=
        mutates.messages
      have kept : middle.stats.firstTs = builder.stats.firstTs :=
        mutates.firstTs.trans (if_neg begun)
      rw [List.length_cons] at few
      have grown : middle.stats.messages.toNat =
          builder.stats.messages.toNat + 1 := by
        rw [counted, UInt64.toNat_add, UInt64.toNat_one]
        exact Nat.mod_eq_of_lt (by omega)
      have some : middle.stats.messages ≠ 0 := by
        rw [ne_eq, ← UInt64.toNat_inj, grown, UInt64.toNat_zero]
        exact Nat.succ_ne_zero _
      rw [induction ranRest handledLater some (by omega), kept]

end BookBuilder

theorem length_relevant_le (symbol : List UInt8)
    (bodies : List (List UInt8)) :
    (relevant symbol bodies).length ≤ bodies.length := by
  induction bodies with
  | nil => exact Nat.le_refl _
  | cons body rest induction =>
      rw [relevant]
      split_ifs
      · exact Nat.succ_le_succ (List.length_filter_le _ _)
      · exact induction.trans (Nat.le_succ _)

/--
The statistics of a builder account for a feed exactly where it has a handler
for every message, and the counters do not wrap.
-/
theorem stats_accountsFor_iff {B O : Type} [OrderBook B] [Observer O B]
    (book : B) (symbol : List UInt8) (observer : O)
    {bodies : List (List UInt8)} {final : BookBuilder B O}
    (ran : ({ book, symbol, observer } : BookBuilder B O).dispatchAll bodies =
      .ok final) :
    AccountsFor symbol bodies final.stats ↔
      (∀ body ∈ bodies, Handled body) ∧ bodies.length < 2 ^ 64 := by
  obtain ⟨messages, applied, kinds⟩ := BookBuilder.dispatchAll_counts ran
  have most : (bodies.countP fun body => decide (Handled body)) ≤
      bodies.length := List.countP_le_length
  have seen : final.stats.messages.toNat =
      (bodies.countP fun body => decide (Handled body)) % 2 ^ 64 := by
    rw [messages, UInt64.zero_add, UInt64.toNat_ofNat']
  constructor
  · intro accounts
    rw [accounts.messages] at seen
    have all : (bodies.countP fun body => decide (Handled body)) =
        bodies.length := by
      omega
    rw [List.countP_eq_length] at all
    exact ⟨fun body member => of_decide_eq_true (all body member), by omega⟩
  · rintro ⟨handled, few⟩
    have all : (bodies.countP fun body => decide (Handled body)) =
        bodies.length :=
      List.countP_eq_length.mpr fun body member =>
        decide_eq_true (handled body member)
    have counts := length_relevant_le symbol bodies
    constructor
    case messages => rw [seen, all, Nat.mod_eq_of_lt few]
    case firstTs =>
      intro first isFirst
      cases bodies with
      | nil => cases isFirst
      | cons body rest =>
          obtain rfl : body = first := Option.some.inj isFirst
          obtain ⟨isKnown, middle, dispatched, -, ranRest⟩ :=
            BookBuilder.dispatchAll_cons ran
          obtain ⟨handledHere, handledLater⟩ := List.forall_mem_cons.mp handled
          have mutates := BookBuilder.dispatch_handled handledHere dispatched
          have one : middle.stats.messages = 1 := mutates.messages
          rw [List.length_cons] at few
          rw [BookBuilder.dispatchAll_firstTs ranRest handledLater
            (by rw [one]; decide) (by rw [one, UInt64.toNat_one]; omega)]
          exact mutates.firstTs
    case lastTs =>
      intro last isLast
      rw [BookBuilder.dispatchAll_lastTs ran handled, Option.mem_def.mp isLast]
      rfl
    case kinds =>
      rw [applied, kinds]
      rfl
    case applied =>
      have start : BookBuilder.traffic
          ({ book, symbol, observer } : BookBuilder B O) bodies =
            (relevant symbol bodies).tail.length := rfl
      rw [applied, UInt64.zero_add, UInt64.toNat_ofNat', start]
      refine Nat.mod_eq_of_lt ?_
      rw [List.length_tail]
      omega

theorem stats_accountsFor_iff_cancel :
    ∃ final : BookBuilder MapBook NullObserver,
      (plainly []).dispatchAll addThenCancel = .ok final ∧
        (AccountsFor [] addThenCancel final.stats ↔
          (∀ body ∈ addThenCancel, Handled body) ∧
            addThenCancel.length < 2 ^ 64) := by
  have value : ((plainly []).dispatchAll addThenCancel).map
      (fun builder => builder.stats.applied) = .ok 2 := by
    decide
  cases ran : (plainly []).dispatchAll addThenCancel with
  | error failure =>
      rw [ran] at value
      cases value
  | ok final =>
      exact ⟨final, rfl, stats_accountsFor_iff ({} : MapBook) [] _ ran⟩

/-- A system event message, which a builder does not count. -/
theorem stats_missSystemEvent :
    ∃ final : BookBuilder MapBook NullObserver,
      Message ('S'.toUInt8 :: List.replicate 11 0) ∧
        (plainly []).dispatchAll ['S'.toUInt8 :: List.replicate 11 0] =
            .ok final ∧
          final.stats.messages = 0 ∧
            ¬ AccountsFor [] ['S'.toUInt8 :: List.replicate 11 0]
              final.stats := by
  refine ⟨_, ⟨_, rfl, by decide⟩, rfl, rfl, fun accounts => ?_⟩
  have counted := accounts.messages
  cases counted

end ItchExchange.Replay
