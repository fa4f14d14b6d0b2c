import ItchExchange.Engine.Submit

/-!
# Runs of the engine over `MapBook`

An `Event` is one call with what it returned, between the engine before and
after it.  `play` carries a list of calls out.  `Effect` says once what an
accepted call does to the list of arrivals behind the book; the invariants of
whole runs are derived from it.
-/

namespace ItchExchange.Engine

open ItchExchange.Core ItchExchange.Book
open ItchExchange.Book.MapBook (Represents)

/-- A call a client makes. -/
inductive Call where
  | submit (order : NewOrder)
  | cancel (ref : OrderRef)
  | setStpMode (mode : StpMode)
deriving DecidableEq, Repr

/-- A call that was carried out; only `submit` reports and fills. -/
structure Event where
  before : MatchingEngine MapBook
  call : Call
  report? : Option Report := none
  fills : List Fill := []
  after : MatchingEngine MapBook

def MatchingEngine.call (engine : MatchingEngine MapBook) :
    Call → Checked Event
  | .submit order => do
      let (report, after, fills) ← engine.submit order []
      pure
        { before := engine
          call := .submit order
          report? := some report
          fills
          after }
  | .cancel ref => do
      let after ← engine.cancel ref
      pure { before := engine, call := .cancel ref, after }
  | .setStpMode mode =>
      .ok
        { before := engine
          call := .setStpMode mode
          after := engine.setStpMode mode }

/-- The events of a list of calls, one call after another. -/
def MatchingEngine.play (engine : MatchingEngine MapBook) :
    List Call → Checked (List Event)
  | [] => .ok []
  | call :: rest => do
      let event ← engine.call call
      let events ← event.after.play rest
      pure (event :: events)

/-- The engine after the last event. -/
def MatchingEngine.final (engine : MatchingEngine MapBook) :
    List Event → MatchingEngine MapBook
  | [] => engine
  | event :: rest => event.after.final rest

/-- An engine in front of an empty book. -/
def MatchingEngine.start (stp : StpMode) : MatchingEngine MapBook where
  book := {}
  stp

/-! ## What one call does -/

/-- The effect of an event on the arrivals behind the book. -/
inductive Effect (event : Event) (before after : ArrivalBook) : Prop where
  | submit (order : NewOrder)
      (call : event.call = .submit order)
      (submittable : Submittable order)
      (report : event.report? =
        some ((submission event.before order before).report order
          event.before.nextRef))
      (fills : event.fills = (submission event.before order before).fills)
      (submitted : Submitted order (submission event.before order before)
        event.before event.after before after)
  | cancel (order : Resting)
      (call : event.call = .cancel order.ref)
      (member : order ∈ before.orders)
      (report : event.report? = none)
      (fills : event.fills = [])
      (reduced : after = before.reduce order.ref order.qty)
      (stp : event.after.stp = event.before.stp)
      (nextRef : event.after.nextRef = event.before.nextRef)
      (filledQty :
        event.after.stats.filledQty = event.before.stats.filledQty)
  | setStpMode (mode : StpMode)
      (call : event.call = .setStpMode mode)
      (report : event.report? = none)
      (fills : event.fills = [])
      (same : after = before)
      (nextRef : event.after.nextRef = event.before.nextRef)
      (filledQty :
        event.after.stats.filledQty = event.before.stats.filledQty)

section Call

variable {engine : MatchingEngine MapBook} {before : ArrivalBook}
  {event : Event}

/-- What an accepted call does. -/
theorem call_effect (represents : Represents engine.book before)
    {call : Call} (accepted : engine.call call = .ok event) :
    event.before = engine ∧
      ∃ after, Represents event.after.book after ∧
        Effect event before after := by
  cases call with
  | submit order =>
      obtain ⟨⟨report, final, fills⟩, ran, equal⟩ :=
        bind_eq_ok_iff.mp accepted
      simp only [pure_eq_ok, Except.ok.injEq] at equal
      subst equal
      rcases submit_cases represents order [] with
        ⟨submittable, other, after, submitted, effect⟩ | ⟨-, message, failed⟩
      · rw [submitted, Except.ok.injEq, Prod.mk.injEq,
          Prod.mk.injEq] at ran
        obtain ⟨rfl, rfl, rfl⟩ := ran
        exact ⟨rfl, after, effect.represents,
          .submit order rfl submittable rfl rfl effect⟩
      · rw [failed] at ran
        cases ran
  | cancel ref =>
      obtain ⟨final, ran, equal⟩ := bind_eq_ok_iff.mp accepted
      simp only [pure_eq_ok, Except.ok.injEq] at equal
      subst equal
      obtain ⟨book, removed, equal⟩ := bind_eq_ok_iff.mp ran
      simp only [pure_eq_ok, Except.ok.injEq] at equal
      subst equal
      cases taken : before.perform? (.remove ref) with
      | none =>
          obtain ⟨message, -, failed⟩ := represents.apply_refused taken
          change OrderBook.remove engine.book ref = _ at failed
          rw [removed] at failed
          cases failed
      | some after =>
          obtain ⟨other, applied, relation⟩ := represents.apply taken
          change OrderBook.remove engine.book ref = _ at applied
          rw [removed, Except.ok.injEq] at applied
          subst applied
          obtain ⟨order, member, rfl, rfl⟩ :=
            ArrivalBook.remove?_eq_some_iff.mp taken
          exact ⟨rfl, _, relation,
            .cancel order rfl member rfl rfl rfl rfl rfl rfl⟩
  | setStpMode mode =>
      simp only [MatchingEngine.call, Except.ok.injEq] at accepted
      subst accepted
      exact ⟨rfl, before, represents,
        .setStpMode mode rfl rfl rfl rfl rfl rfl⟩

theorem play_cons {call : Call} {rest : List Call} {events : List Event} :
    engine.play (call :: rest) = .ok events ↔
      ∃ event more, engine.call call = .ok event ∧
        event.after.play rest = .ok more ∧ events = event :: more := by
  rw [MatchingEngine.play, bind_eq_ok_iff]
  simp only [bind_eq_ok_iff, pure_eq_ok, Except.ok.injEq]
  constructor
  · rintro ⟨event, called, more, played, rfl⟩
    exact ⟨event, more, called, played, rfl⟩
  · rintro ⟨event, more, called, played, rfl⟩
    exact ⟨event, called, more, played, rfl⟩

end Call

end ItchExchange.Engine
