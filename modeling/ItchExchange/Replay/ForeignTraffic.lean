import ItchExchange.Replay.ReplayObserver

/-!
# Foreign traffic

Two replays are compared: one of a whole sequence of messages, and one of the
messages of the tracked symbol alone.  They end alike, because every other
message leaves the tracker of the builder as it is.
-/

namespace ItchExchange.Replay

open ItchExchange.Core ItchExchange.Book ItchExchange.Wire

/-- `A`, `F`, `E`, `C`, `X`, `D` and `U`. -/
def bookTypes : List MsgType :=
  [.addOrder, .addOrderWithMpid, .orderExecuted, .orderExecutedWithPrice,
    .orderCancel, .orderDelete, .orderReplace]

/-- A message about an order of the locate. -/
def IsTrafficOf (locate : UInt16) (body : List UInt8) : Prop :=
  (∃ type ∈ bookTypes, MsgType.ofByte? (loadBe8 body 0) = some type) ∧
    locateOf body = locate

/-- A stock directory message which matches; the empty symbol matches any. -/
def IsDirectoryOf (symbol : List UInt8) (body : List UInt8) : Prop :=
  MsgType.ofByte? (loadBe8 body 0) = some .stockDirectory ∧
    (symbol = [] ∨
      trimAlpha (StockDirectoryView.stock ⟨body⟩) = symbol)

instance (locate : UInt16) : DecidablePred (IsTrafficOf locate) :=
  fun _ => inferInstanceAs (Decidable (_ ∧ _))

instance (symbol : List UInt8) : DecidablePred (IsDirectoryOf symbol) :=
  fun _ => inferInstanceAs (Decidable (_ ∧ _))

/--
The first stock directory message which matches the symbol, and after it the
messages about orders of the locate which it resolves.
-/
def relevant (symbol : List UInt8) : List (List UInt8) → List (List UInt8)
  | [] => []
  | body :: rest =>
      if IsDirectoryOf symbol body then
        body :: rest.filter fun later =>
          decide (IsTrafficOf (StockDirectoryView.stockLocate ⟨body⟩) later)
      else relevant symbol rest

theorem Update.ofMessage?_eq_none {type : MsgType} (body : List UInt8)
    (other : type ∉ bookTypes) : Update.ofMessage? type body = none := by
  cases type <;> first | rfl | simp [bookTypes] at other

namespace Tracker

variable {B O : Type} [OrderBook B] [Observer O B]
  {tracker next : Tracker B O} {body : List UInt8}

/-- An update leaves the symbol alone. -/
theorem apply_eq_ok {update : Update} {ts : Timestamp}
    (applied : tracker.apply update ts = .ok next) :
    next.symbol = tracker.symbol ∧ next.locate = tracker.locate ∧
      next.resolved = tracker.resolved := by
  obtain ⟨⟨book, observer⟩, -, rest⟩ := bind_eq_ok_iff.mp applied
  obtain ⟨later, -, equal⟩ := bind_eq_ok_iff.mp rest
  cases equal
  exact ⟨rfl, rfl, rfl⟩

/-- Once resolved, only an order of the locate moves the tracker. -/
theorem step_foreign (resolved : tracker.resolved = true)
    (foreign : ¬ IsTrafficOf tracker.locate body) :
    tracker.step body = .ok tracker := by
  unfold step
  cases known : MsgType.ofByte? (loadBe8 body 0) with
  | none => rfl
  | some type =>
      dsimp only
      by_cases directory : type = .stockDirectory
      · rw [if_pos directory, track, if_pos resolved]
      · rw [if_neg directory]
        cases decoded : Update.ofMessage? type body with
        | none => rfl
        | some update =>
            dsimp only
            refine if_neg fun mine => foreign ⟨⟨type, ?_, known⟩, mine.2⟩
            by_contra other
            rw [Update.ofMessage?_eq_none body other] at decoded
            cases decoded

/-- Resolution happens once. -/
theorem step_resolved (resolved : tracker.resolved = true)
    (stepped : tracker.step body = .ok next) :
    next.resolved = true ∧ next.locate = tracker.locate := by
  by_cases traffic : IsTrafficOf tracker.locate body
  · obtain ⟨⟨type, listed, known⟩, mine⟩ := traffic
    unfold step at stepped
    rw [known] at stepped
    have update : type ≠ .stockDirectory := by
      rintro rfl
      simp [bookTypes] at listed
    dsimp only at stepped
    rw [if_neg update] at stepped
    cases decoded : Update.ofMessage? type body with
    | none =>
        rw [decoded] at stepped
        cases stepped
        exact ⟨resolved, rfl⟩
    | some change =>
        rw [decoded] at stepped
        dsimp only at stepped
        rw [if_pos ⟨resolved, mine⟩] at stepped
        obtain ⟨-, sameLocate, sameResolved⟩ := apply_eq_ok stepped
        exact ⟨sameResolved.trans resolved, sameLocate⟩
  · rw [step_foreign resolved traffic, Except.ok.injEq] at stepped
    subst stepped
    exact ⟨resolved, rfl⟩

/-- Before it is resolved, only a directory message moves the tracker. -/
theorem step_unresolved (unresolved : tracker.resolved = false)
    (other : ¬ IsDirectoryOf tracker.symbol body) :
    tracker.step body = .ok tracker := by
  unfold step
  cases known : MsgType.ofByte? (loadBe8 body 0) with
  | none => rfl
  | some type =>
      dsimp only
      by_cases directory : type = .stockDirectory
      · subst directory
        rw [if_pos rfl, track, unresolved, if_neg Bool.false_ne_true,
          if_neg fun matched => other ⟨known, matched⟩]
      · rw [if_neg directory]
        cases Update.ofMessage? type body with
        | none => rfl
        | some update =>
            dsimp only
            refine if_neg fun mine => ?_
            rw [unresolved] at mine
            exact Bool.false_ne_true mine.1

/-- A directory message which matches resolves the symbol. -/
theorem step_directory (unresolved : tracker.resolved = false)
    (directory : IsDirectoryOf tracker.symbol body) :
    tracker.step body =
      .ok { tracker with
        symbol := trimAlpha (StockDirectoryView.stock ⟨body⟩)
        locate := StockDirectoryView.stockLocate ⟨body⟩
        resolved := true } := by
  unfold step
  rw [directory.1]
  dsimp only
  rw [if_pos rfl, track, unresolved, if_neg Bool.false_ne_true,
    if_pos directory.2]

theorem steps_resolved (resolved : tracker.resolved = true)
    (bodies : List (List UInt8)) :
    tracker.steps bodies =
      tracker.steps (bodies.filter fun body =>
        decide (IsTrafficOf tracker.locate body)) := by
  induction bodies generalizing tracker with
  | nil => rfl
  | cons body rest induction =>
      by_cases traffic : IsTrafficOf tracker.locate body
      · rw [List.filter_cons_of_pos (by simpa using traffic), steps, steps]
        cases stepped : tracker.step body with
        | error failure => rfl
        | ok next =>
            obtain ⟨nextResolved, same⟩ := step_resolved resolved stepped
            rw [ok_bind, ok_bind, ← same]
            exact induction nextResolved
      · rw [List.filter_cons_of_neg (by simpa using traffic), steps,
          step_foreign resolved traffic, ok_bind]
        exact induction resolved

/-- A tracker sees nothing but the relevant messages. -/
theorem steps_relevant (unresolved : tracker.resolved = false)
    (bodies : List (List UInt8)) :
    tracker.steps bodies = tracker.steps (relevant tracker.symbol bodies) := by
  induction bodies with
  | nil => rfl
  | cons body rest induction =>
      rw [relevant]
      split_ifs with directory
      · rw [steps, steps, step_directory unresolved directory, ok_bind,
          ok_bind]
        exact steps_resolved rfl rest
      · rw [steps, step_unresolved unresolved directory, ok_bind]
        exact induction

end Tracker

/--
Traffic which is not the book traffic of the tracked symbol has no influence: a
replay of any messages ends with the same book and the same observer as a
replay of the relevant ones, or stops at the same failure.
-/
theorem foreignTraffic_hasNoInfluence (book : MapBook)
    (symbol : List UInt8) (validateEvery : UInt64) (strict : Bool)
    (bodies : List (List UInt8)) :
    outcome ((replaying MapBook book symbol validateEvery
        strict).dispatchAll bodies) =
      outcome ((replaying MapBook book symbol validateEvery
        strict).dispatchAll (relevant symbol bodies)) := by
  have tracked : ∀ replayed : Checked (BookBuilder MapBook ReplayObserver),
      outcome replayed =
        (replayed.map BookBuilder.tracker).map
          fun tracker => (tracker.book, tracker.observer) := by
    intro replayed
    cases replayed <;> rfl
  rw [tracked, tracked, BookBuilder.tracker_dispatchAll,
    BookBuilder.tracker_dispatchAll]
  congr 1
  exact Tracker.steps_relevant rfl bodies

end ItchExchange.Replay
