import ItchExchange.Book.MapBookArrivals
import ItchExchange.Replay.Tracking

/-!
# Updates of a list of arrivals

An update calls one operation of the book, between the two hooks of the
observer.  Where the book answers like a list of arrivals which accepts the
operation, the first hook is told quantities which are read off the list.
-/

namespace ItchExchange.Replay

open ItchExchange.Core ItchExchange.Book ItchExchange.Wire

namespace Update

/-- The side of an indicator. -/
def sideOf (indicator : UInt8) : Side :=
  if indicator = 'B'.toUInt8 then .buy else .sell

/-- The call to the book. -/
def operation : Update → Operation
  | .add ref indicator price shares =>
      .add ref (sideOf indicator) price shares 0
  | .execute ref shares => .execute ref shares
  | .cancel ref shares => .cancel ref shares
  | .delete ref => .remove ref
  | .replace oldRef newRef price shares =>
      .replace oldRef newRef price shares

/-- The indicator of an add is `B` or `S`. -/
def Indicated : Update → Prop
  | .add _ indicator _ _ =>
      indicator = 'B'.toUInt8 ∨ indicator = 'S'.toUInt8
  | _ => True

section Report

variable {B O : Type} [OrderBook B] [Observer O B]

/-- What the observer is told before the call, for an accepted update. -/
def report (book : B) (arrivals : ArrivalBook) (observer : O) :
    Update → Checked O
  | .add _ indicator price shares =>
      .ok (Observer.beforeAdd observer book (sideOf indicator) price shares)
  | .execute ref shares =>
      match arrivals.find? ref with
      | none => .ok observer
      | some order => Observer.noteReduction B observer order.side shares
  | .cancel ref shares =>
      match arrivals.find? ref with
      | none => .ok observer
      | some order => Observer.noteReduction B observer order.side shares
  | .delete ref =>
      match arrivals.find? ref with
      | none => .ok observer
      | some order => Observer.noteReduction B observer order.side order.qty
  | .replace oldRef _ price shares =>
      match arrivals.find? oldRef with
      | none => .ok observer
      | some order => do
          let observer ←
            Observer.noteReduction B observer order.side order.qty
          pure (Observer.beforeAdd observer book order.side price shares)

end Report

end Update

namespace Tracker

variable {B O : Type} [OrderBook B] [Observer O B] {book later : B}
  {observer seen : O} {update : Update} {arrivals next : ArrivalBook}

/-- An update which is carried out carries out its operation. -/
theorem change_applies
    (changed : change book observer update = .ok (later, seen)) :
    update.Indicated ∧
      OrderBook.apply book update.operation = .ok later := by
  cases update with
  | add ref indicator price shares =>
      obtain ⟨_, known, rest⟩ := bind_eq_ok_iff.mp changed
      obtain ⟨_, added, equal⟩ := bind_eq_ok_iff.mp rest
      cases equal
      have indicated : indicator = 'B'.toUInt8 ∨ indicator = 'S'.toUInt8 :=
        assertMsg_eq_ok_iff.mp known
      exact ⟨indicated, added⟩
  | execute ref shares =>
      obtain ⟨_, -, rest⟩ := bind_eq_ok_iff.mp changed
      obtain ⟨_, -, rest⟩ := bind_eq_ok_iff.mp rest
      obtain ⟨⟨reported, _⟩, executed, equal⟩ := bind_eq_ok_iff.mp rest
      cases equal
      refine ⟨trivial, ?_⟩
      change (OrderBook.execute book ref shares >>= fun pair =>
        pure pair.2) = _
      rw [executed]
      rfl
  | cancel ref shares =>
      obtain ⟨_, -, rest⟩ := bind_eq_ok_iff.mp changed
      obtain ⟨_, -, rest⟩ := bind_eq_ok_iff.mp rest
      obtain ⟨_, cancelled, equal⟩ := bind_eq_ok_iff.mp rest
      cases equal
      exact ⟨trivial, cancelled⟩
  | delete ref =>
      obtain ⟨_, -, rest⟩ := bind_eq_ok_iff.mp changed
      obtain ⟨_, -, rest⟩ := bind_eq_ok_iff.mp rest
      obtain ⟨_, -, rest⟩ := bind_eq_ok_iff.mp rest
      obtain ⟨_, removed, equal⟩ := bind_eq_ok_iff.mp rest
      cases equal
      exact ⟨trivial, removed⟩
  | replace oldRef newRef price shares =>
      obtain ⟨_, -, rest⟩ := bind_eq_ok_iff.mp changed
      obtain ⟨_, -, rest⟩ := bind_eq_ok_iff.mp rest
      obtain ⟨_, -, rest⟩ := bind_eq_ok_iff.mp rest
      obtain ⟨_, replaced, equal⟩ := bind_eq_ok_iff.mp rest
      cases equal
      exact ⟨trivial, replaced⟩

/-- An update which the reference book carries out changes its arrivals. -/
theorem change_accepted {O : Type} [Observer O MapBook]
    {book later : MapBook} {observer seen : O} {arrivals : ArrivalBook}
    (represents : MapBook.Represents book arrivals)
    (changed : change book observer update = .ok (later, seen)) :
    ∃ next, update.Indicated ∧
      arrivals.perform? update.operation = some next ∧
      OrderBook.apply book update.operation = .ok later ∧
      MapBook.Represents later next := by
  obtain ⟨indicated, applied⟩ := change_applies changed
  have ran : OrderBook.run book [update.operation] = .ok later := by
    rw [OrderBook.run_cons, applied]
    rfl
  obtain ⟨next, accepted, relation⟩ := represents.run_accepted ran
  rw [ArrivalBook.run?_cons] at accepted
  obtain ⟨middle, performed, equal⟩ := Option.bind_eq_some_iff.mp accepted
  cases equal
  exact ⟨next, indicated, performed, applied, relation⟩

/-- An accepted update reports, and carries its operation out. -/
theorem change_eq_report (observer : O) (answers : Answers book arrivals)
    (indicated : update.Indicated)
    (accepted : arrivals.perform? update.operation = some next)
    (applied : OrderBook.apply book update.operation = .ok later) :
    change book observer update =
      (update.report book arrivals observer >>= fun seen =>
        pure (later, seen)) := by
  cases update with
  | add ref indicator price shares =>
      have added : OrderBook.add book ref (Update.sideOf indicator) price
          shares 0 = .ok later := applied
      have known : indicator = 'B'.toUInt8 ∨ indicator = 'S'.toUInt8 :=
        indicated
      rw [change, assertMsg_of known, ok_bind]
      change (OrderBook.add book ref (Update.sideOf indicator) price shares
        0 >>= _) = _
      rw [added]
      rfl
  | execute ref shares =>
      obtain ⟨order, member, rfl, -, -⟩ :=
        ArrivalBook.take?_eq_some_iff.mp accepted
      obtain ⟨reported, executed⟩ := apply_execute_eq_ok applied
      rw [change, answers.sideOf order member, executed, Update.report,
        ArrivalBook.find?_eq_some_iff.mpr ⟨member, rfl⟩]
      rfl
  | cancel ref shares =>
      obtain ⟨order, member, rfl, -, -⟩ :=
        ArrivalBook.take?_eq_some_iff.mp accepted
      have cancelled : OrderBook.cancel book order.ref shares =
          .ok later := applied
      rw [change, answers.sideOf order member, cancelled, Update.report,
        ArrivalBook.find?_eq_some_iff.mpr ⟨member, rfl⟩]
      rfl
  | delete ref =>
      obtain ⟨order, member, rfl, -⟩ :=
        ArrivalBook.remove?_eq_some_iff.mp accepted
      have removed : OrderBook.remove book order.ref = .ok later := applied
      rw [change, answers.sideOf order member, answers.qtyOf order member,
        removed, Update.report,
        ArrivalBook.find?_eq_some_iff.mpr ⟨member, rfl⟩]
      rfl
  | replace oldRef newRef price shares =>
      obtain ⟨order, member, rfl, -⟩ :=
        ArrivalBook.replace?_eq_some_iff.mp accepted
      have replaced : OrderBook.replace book order.ref newRef price shares =
          .ok later := applied
      rw [change, answers.sideOf order member, answers.qtyOf order member,
        replaced, Update.report,
        ArrivalBook.find?_eq_some_iff.mpr ⟨member, rfl⟩]
      dsimp only
      rw [bind_assoc]
      rfl

/-! ## What a message is to a tracker -/

/-- A message, as a tracker with a symbol takes it. -/
inductive Reading where
  | nothing
  | resolution (symbol : List UInt8) (locate : UInt16)
  | update (update : Update) (ts : Timestamp)

/-- Only the symbol, its locate and whether it is resolved matter. -/
def reads (symbol : List UInt8) (locate : UInt16) (resolved : Bool)
    (body : List UInt8) : Reading :=
  match MsgType.ofByte? (loadBe8 body 0) with
  | none => .nothing
  | some type =>
      if type = .stockDirectory then
        let v : StockDirectoryView := ⟨body⟩
        if resolved = false ∧ (symbol = [] ∨ trimAlpha v.stock = symbol) then
          .resolution (trimAlpha v.stock) v.stockLocate
        else .nothing
      else
        match Update.ofMessage? type body with
        | none => .nothing
        | some update =>
            if resolved = true ∧ locateOf body = locate then
              .update update (timestampOf body)
            else .nothing

def follow (tracker : Tracker B O) : Reading → Checked (Tracker B O)
  | .nothing => .ok tracker
  | .resolution symbol locate =>
      .ok { tracker with symbol, locate, resolved := true }
  | .update update ts => tracker.apply update ts

theorem step_eq_follow (tracker : Tracker B O) (body : List UInt8) :
    tracker.step body =
      tracker.follow
        (reads tracker.symbol tracker.locate tracker.resolved body) := by
  unfold step reads
  cases MsgType.ofByte? (loadBe8 body 0) with
  | none => rfl
  | some type =>
      dsimp only
      by_cases directory : type = .stockDirectory
      · rw [if_pos directory, if_pos directory, track]
        cases resolved : tracker.resolved with
        | true => rfl
        | false =>
            rw [if_neg Bool.false_ne_true]
            simp only [true_and]
            split_ifs <;> rfl
      · rw [if_neg directory, if_neg directory]
        cases Update.ofMessage? type body with
        | none => rfl
        | some update =>
            dsimp only
            split_ifs <;> rfl

/-! ## Arrivals through a feed -/

section Feed

variable {O : Type} [Observer O MapBook] {tracker next : Tracker MapBook O}
  {arrivals : ArrivalBook}

/-- A message brings at most one order into the reference book. -/
theorem represents_step (represents : MapBook.Represents tracker.book arrivals)
    {body : List UInt8} (stepped : tracker.step body = .ok next) :
    ∃ later, MapBook.Represents next.book later ∧
      later.orders.length ≤ arrivals.orders.length + 1 := by
  rw [step_eq_follow] at stepped
  generalize reads tracker.symbol tracker.locate tracker.resolved body =
    read at stepped
  cases read with
  | nothing =>
      cases stepped
      exact ⟨arrivals, represents, Nat.le_succ _⟩
  | resolution symbol locate =>
      cases stepped
      exact ⟨arrivals, represents, Nat.le_succ _⟩
  | update update ts =>
      obtain ⟨⟨book, _⟩, changed, rest⟩ := bind_eq_ok_iff.mp stepped
      obtain ⟨_, _, equal⟩ := bind_eq_ok_iff.mp rest
      cases equal
      obtain ⟨later, -, accepted, -, relation⟩ :=
        change_accepted represents changed
      exact ⟨later, relation, ArrivalBook.length_perform?_le accepted⟩

theorem represents_steps
    (represents : MapBook.Represents tracker.book arrivals)
    {bodies : List (List UInt8)} (ran : tracker.steps bodies = .ok next) :
    ∃ later, MapBook.Represents next.book later ∧
      later.orders.length ≤ arrivals.orders.length + bodies.length := by
  induction bodies generalizing tracker arrivals with
  | nil =>
      cases ran
      exact ⟨arrivals, represents, Nat.le_refl _⟩
  | cons body rest induction =>
      obtain ⟨middle, stepped, ranRest⟩ := bind_eq_ok_iff.mp ran
      obtain ⟨later, relation, bound⟩ := represents_step represents stepped
      obtain ⟨last, lastRelation, total⟩ := induction relation ranRest
      refine ⟨last, lastRelation, ?_⟩
      rw [List.length_cons]
      omega

end Feed

end Tracker

end ItchExchange.Replay
