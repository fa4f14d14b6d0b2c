import ItchExchange.Replay.FeedStatistics

/-!
# The log of a replay

What a replay does to its book is a list of updates, each with the book before
and behind it.  The book it ends with is the one which the operations of these
updates lead to, and an observer which never stops has been folded over them.
-/

namespace ItchExchange.Replay

open ItchExchange.Core ItchExchange.Book ItchExchange.Wire

/-- An update which was applied, with the book around it. -/
structure Applied (B : Type) where
  before : B
  update : Update
  ts : Timestamp
  behind : B

/-- Each entry performs its operation on the book which the last one left. -/
def Linked {B : Type} [OrderBook B] (book : B) : List (Applied B) → B → Prop
  | [], last => book = last
  | entry :: rest, last =>
      entry.before = book ∧
        OrderBook.apply book entry.update.operation = .ok entry.behind ∧
        Linked entry.behind rest last

/-- The update a message about the book stands for. -/
def Update.ofBody? (body : List UInt8) : Option Update :=
  (MsgType.ofByte? (loadBe8 body 0)).bind fun type => ofMessage? type body

/-- What a message asks for, and when. -/
def asked (body : List UInt8) : Option Update × Timestamp :=
  (Update.ofBody? body, timestampOf body)

/--
The log of a replay which starts without a symbol: its entries are the relevant
messages behind the directory message, and they lead from one book to the other.
-/
structure IsLogOf {B : Type} [OrderBook B] (symbol : List UInt8)
    (bodies : List (List UInt8)) (book last : B)
    (entries : List (Applied B)) : Prop where
  asked : (entries.map fun entry => (some entry.update, entry.ts)) =
    (relevant symbol bodies).tail.map asked
  linked : Linked book entries last

theorem IsLogOf.length {B : Type} [OrderBook B] {symbol : List UInt8}
    {bodies : List (List UInt8)} {book last : B} {entries : List (Applied B)}
    (isLog : IsLogOf symbol bodies book last entries) :
    entries.length = (relevant symbol bodies).tail.length := by
  have same := congrArg List.length isLog.asked
  rwa [List.length_map, List.length_map] at same

/-- The side, the price and the quantity of the order an update brings in. -/
def Update.brings? {B : Type} [OrderBook B] (book : B) :
    Update → Option (Side × Price × Qty)
  | .add _ indicator price shares => some (sideOf indicator, price, shares)
  | .replace oldRef _ price shares =>
      match OrderBook.sideOf book oldRef with
      | .ok side => some (side, price, shares)
      | .error _ => none
  | _ => none

namespace Tracker

variable {B O : Type} [OrderBook B] [Observer O B]

/-- The updates which the messages apply to the book. -/
def log (tracker : Tracker B O) : List (List UInt8) → List (Applied B)
  | [] => []
  | body :: rest =>
      match tracker.step body with
      | .error _ => []
      | .ok next =>
          match reads tracker.symbol tracker.locate tracker.resolved body with
          | .update update ts =>
              ⟨tracker.book, update, ts, next.book⟩ :: next.log rest
          | _ => next.log rest

variable {tracker next last : Tracker B O} {body : List UInt8}
  {rest bodies : List (List UInt8)}

/-- A message which is no update leaves the book and the observer alone. -/
theorem step_quiet (stepped : tracker.step body = .ok next)
    (quiet : ∀ update ts,
      reads tracker.symbol tracker.locate tracker.resolved body ≠
        .update update ts) :
    next.book = tracker.book ∧ next.observer = tracker.observer := by
  rw [step_eq_follow] at stepped
  cases read : reads tracker.symbol tracker.locate tracker.resolved body with
  | nothing =>
      rw [read] at stepped
      cases stepped
      exact ⟨rfl, rfl⟩
  | resolution symbol locate =>
      rw [read] at stepped
      cases stepped
      exact ⟨rfl, rfl⟩
  | update update ts => exact absurd read (quiet update ts)

theorem log_quiet (stepped : tracker.step body = .ok next)
    (quiet : ∀ update ts,
      reads tracker.symbol tracker.locate tracker.resolved body ≠
        .update update ts) :
    tracker.log (body :: rest) = next.log rest := by
  rw [log, stepped]
  cases read : reads tracker.symbol tracker.locate tracker.resolved body with
  | update update ts => exact absurd read (quiet update ts)
  | _ => rfl

theorem step_update {update : Update} {ts : Timestamp}
    (stepped : tracker.step body = .ok next)
    (read : reads tracker.symbol tracker.locate tracker.resolved body =
      .update update ts) : tracker.apply update ts = .ok next := by
  rwa [step_eq_follow, read] at stepped

theorem log_update {update : Update} {ts : Timestamp}
    (stepped : tracker.step body = .ok next)
    (read : reads tracker.symbol tracker.locate tracker.resolved body =
      .update update ts) :
    tracker.log (body :: rest) =
      ⟨tracker.book, update, ts, next.book⟩ :: next.log rest := by
  rw [log, stepped, read]

/-- What holds of a run follows from what its updates do. -/
theorem log_induction {motive : Tracker B O → List (Applied B) → Prop}
    (ends : motive last [])
    (quiet : ∀ {tracker next : Tracker B O} {entries},
      next.book = tracker.book → next.observer = tracker.observer →
        motive next entries → motive tracker entries)
    (update : ∀ {tracker next : Tracker B O} {entries} {update ts},
      tracker.apply update ts = .ok next → motive next entries →
        motive tracker (⟨tracker.book, update, ts, next.book⟩ :: entries))
    (ran : tracker.steps bodies = .ok last) :
    motive tracker (tracker.log bodies) := by
  induction bodies generalizing tracker with
  | nil =>
      cases ran
      exact ends
  | cons body rest induction =>
      obtain ⟨next, stepped, ranRest⟩ := bind_eq_ok_iff.mp ran
      by_cases isUpdate : ∃ change ts, reads tracker.symbol tracker.locate
          tracker.resolved body = .update change ts
      · obtain ⟨change, ts, read⟩ := isUpdate
        rw [log_update stepped read]
        exact update (step_update stepped read) (induction ranRest)
      · have noUpdate : ∀ change ts, reads tracker.symbol tracker.locate
            tracker.resolved body ≠ .update change ts :=
          fun change ts read => isUpdate ⟨change, ts, read⟩
        obtain ⟨sameBook, sameObserver⟩ := step_quiet stepped noUpdate
        rw [log_quiet stepped noUpdate]
        exact quiet sameBook sameObserver (induction ranRest)

/-- The log leads to the book which the replay ends with. -/
theorem log_linked (ran : tracker.steps bodies = .ok last) :
    Linked tracker.book (tracker.log bodies) last.book := by
  refine log_induction
    (motive := fun tracker entries => Linked tracker.book entries last.book)
    rfl ?quiet ?update ran
  case quiet =>
    intro tracker next entries sameBook _ linked
    rwa [← sameBook]
  case update =>
    intro tracker next entries update ts applied linked
    obtain ⟨⟨book, seen⟩, changed, hooked⟩ := bind_eq_ok_iff.mp applied
    obtain ⟨observer, -, equal⟩ := bind_eq_ok_iff.mp hooked
    cases equal
    exact ⟨rfl, (change_applies changed).2, linked⟩

/-! ## Observers which never stop -/

section Fold

variable (applied : O → B → Timestamp → O)

/-- Both hooks around an update, for an observer which ignores reductions. -/
def collect (observer : O) (entry : Applied B) : O :=
  let observer :=
    match entry.update.brings? entry.before with
    | some (side, price, qty) =>
        Observer.beforeAdd observer entry.before side price qty
    | none => observer
  applied observer entry.behind entry.ts

theorem change_told {book later : B} {observer told : O} {update : Update}
    (ignores : ∀ (observer : O) side qty,
      Observer.noteReduction B observer side qty = .ok observer)
    (changed : change book observer update = .ok (later, told)) :
    told =
      match update.brings? book with
      | some (side, price, qty) =>
          Observer.beforeAdd observer book side price qty
      | none => observer := by
  cases update with
  | add ref indicator price shares =>
      obtain ⟨_, -, rest⟩ := bind_eq_ok_iff.mp changed
      obtain ⟨_, -, equal⟩ := bind_eq_ok_iff.mp rest
      cases equal
      rfl
  | execute ref shares =>
      obtain ⟨side, -, rest⟩ := bind_eq_ok_iff.mp changed
      rw [ignores, ok_bind] at rest
      obtain ⟨_, -, equal⟩ := bind_eq_ok_iff.mp rest
      cases equal
      rfl
  | cancel ref shares =>
      obtain ⟨side, -, rest⟩ := bind_eq_ok_iff.mp changed
      rw [ignores, ok_bind] at rest
      obtain ⟨_, -, equal⟩ := bind_eq_ok_iff.mp rest
      cases equal
      rfl
  | delete ref =>
      obtain ⟨side, -, rest⟩ := bind_eq_ok_iff.mp changed
      obtain ⟨qty, -, rest⟩ := bind_eq_ok_iff.mp rest
      rw [ignores, ok_bind] at rest
      obtain ⟨_, -, equal⟩ := bind_eq_ok_iff.mp rest
      cases equal
      rfl
  | replace oldRef newRef price shares =>
      obtain ⟨side, isSide, rest⟩ := bind_eq_ok_iff.mp changed
      obtain ⟨qty, -, rest⟩ := bind_eq_ok_iff.mp rest
      rw [ignores, ok_bind] at rest
      obtain ⟨_, -, equal⟩ := bind_eq_ok_iff.mp rest
      cases equal
      rw [Update.brings?, isSide]

/-- Such an observer is folded over the log. -/
theorem observer_eq_foldl
    (ignores : ∀ (observer : O) side qty,
      Observer.noteReduction B observer side qty = .ok observer)
    (applies : ∀ observer (book : B) ts,
      Observer.afterApply observer book ts = .ok (applied observer book ts))
    (ran : tracker.steps bodies = .ok last) :
    last.observer =
      (tracker.log bodies).foldl (collect applied) tracker.observer := by
  refine log_induction (motive := fun tracker entries =>
    last.observer = entries.foldl (collect applied) tracker.observer)
    rfl ?quiet ?update ran
  case quiet =>
    intro tracker next entries _ sameObserver folded
    rwa [← sameObserver]
  case update =>
    intro tracker next entries update ts stepped folded
    obtain ⟨⟨book, told⟩, changed, hooked⟩ := bind_eq_ok_iff.mp stepped
    obtain ⟨observer, seen, equal⟩ := bind_eq_ok_iff.mp hooked
    cases equal
    rw [applies] at seen
    cases seen
    rw [folded, List.foldl_cons, collect, change_told ignores changed]

end Fold

/-! ## The messages of the log -/

theorem reads_eq_update_iff {symbol body : List UInt8} {locate : UInt16}
    {resolved : Bool} {update : Update} {ts : Timestamp} :
    reads symbol locate resolved body = .update update ts ↔
      (resolved = true ∧ IsTrafficOf locate body) ∧
        Update.ofBody? body = some update ∧ ts = timestampOf body := by
  unfold reads IsTrafficOf Update.ofBody?
  cases found : MsgType.ofByte? (loadBe8 body 0) with
  | none => simp
  | some type =>
      rw [Option.bind_some]
      dsimp only
      by_cases directory : type = .stockDirectory
      · subst directory
        rw [if_pos rfl]
        have other : ¬ MsgType.stockDirectory ∈ bookTypes := by decide
        split_ifs <;> simp [other]
      rw [if_neg directory]
      by_cases listed : type ∈ bookTypes
      · cases decoded : Update.ofMessage? type body with
        | none => simp
        | some change =>
            by_cases tracked : resolved = true ∧ locateOf body = locate
            · simp [listed, tracked, eq_comm]
            · simp only [if_neg tracked]
              simp [listed, tracked]
      · rw [Update.ofMessage?_eq_none body listed]
        simp [listed]

theorem ofBody?_of_traffic {locate : UInt16}
    (traffic : IsTrafficOf locate body) :
    ∃ update, Update.ofBody? body = some update := by
  obtain ⟨⟨type, listed, found⟩, -⟩ := traffic
  rw [Update.ofBody?, found]
  cases type <;> first
    | exact ⟨_, rfl⟩
    | exact absurd listed (by decide)

/-- Once resolved, the log is the traffic of the tracked symbol. -/
theorem log_resolved (resolved : tracker.resolved = true)
    (ran : tracker.steps bodies = .ok last) :
    ((tracker.log bodies).map fun entry => (some entry.update, entry.ts)) =
      (bodies.filter fun body =>
        decide (IsTrafficOf tracker.locate body)).map asked := by
  induction bodies generalizing tracker with
  | nil => rfl
  | cons body rest induction =>
      obtain ⟨next, stepped, ranRest⟩ := bind_eq_ok_iff.mp ran
      obtain ⟨nextResolved, same⟩ := step_resolved resolved stepped
      have later := induction nextResolved ranRest
      rw [same] at later
      by_cases traffic : IsTrafficOf tracker.locate body
      · obtain ⟨update, decoded⟩ := ofBody?_of_traffic traffic
        have read : reads tracker.symbol tracker.locate tracker.resolved body =
            .update update (timestampOf body) :=
          reads_eq_update_iff.mpr ⟨⟨resolved, traffic⟩, decoded, rfl⟩
        rw [log_update stepped read, List.filter_cons_of_pos
          (by simpa using traffic), List.map_cons, List.map_cons, later,
          asked, decoded]
      · have quiet : ∀ update ts, reads tracker.symbol tracker.locate
            tracker.resolved body ≠ .update update ts :=
          fun update ts read => traffic (reads_eq_update_iff.mp read).1.2
        rw [log_quiet stepped quiet, List.filter_cons_of_neg
          (by simpa using traffic), later]

/-- From the start, it is what is relevant behind the directory message. -/
theorem log_relevant (unresolved : tracker.resolved = false)
    (ran : tracker.steps bodies = .ok last) :
    ((tracker.log bodies).map fun entry => (some entry.update, entry.ts)) =
      (relevant tracker.symbol bodies).tail.map asked := by
  induction bodies with
  | nil => rfl
  | cons body rest induction =>
      obtain ⟨next, stepped, ranRest⟩ := bind_eq_ok_iff.mp ran
      have quiet : ∀ update ts, reads tracker.symbol tracker.locate
          tracker.resolved body ≠ .update update ts := by
        intro update ts read
        have := (reads_eq_update_iff.mp read).1.1
        rw [unresolved] at this
        cases this
      rw [log_quiet stepped quiet, relevant]
      by_cases directory : IsDirectoryOf tracker.symbol body
      · rw [step_directory unresolved directory] at stepped
        cases stepped
        rw [if_pos directory]
        exact log_resolved rfl ranRest
      · rw [step_unresolved unresolved directory] at stepped
        cases stepped
        rw [if_neg directory]
        exact induction ranRest

theorem steps_resolvedStays (resolved : tracker.resolved = true)
    (ran : tracker.steps bodies = .ok last) : last.resolved = true := by
  induction bodies generalizing tracker with
  | nil =>
      cases ran
      exact resolved
  | cons body rest induction =>
      obtain ⟨next, stepped, ranRest⟩ := bind_eq_ok_iff.mp ran
      exact induction (step_resolved resolved stepped).1 ranRest

theorem isLogOf_log (unresolved : tracker.resolved = false)
    (ran : tracker.steps bodies = .ok last) :
    IsLogOf tracker.symbol bodies tracker.book last.book
      (tracker.log bodies) :=
  ⟨log_relevant unresolved ran, log_linked ran⟩

/-- Nothing is logged before the symbol is resolved. -/
theorem resolved_of_log (ran : tracker.steps bodies = .ok last)
    (some : tracker.log bodies ≠ []) : last.resolved = true := by
  induction bodies generalizing tracker with
  | nil => exact absurd rfl some
  | cons body rest induction =>
      obtain ⟨next, stepped, ranRest⟩ := bind_eq_ok_iff.mp ran
      by_cases isUpdate : ∃ update ts, reads tracker.symbol tracker.locate
          tracker.resolved body = .update update ts
      · obtain ⟨update, ts, read⟩ := isUpdate
        have resolved := (reads_eq_update_iff.mp read).1.1
        exact steps_resolvedStays (step_resolved resolved stepped).1 ranRest
      · refine induction ranRest ?_
        rwa [← log_quiet stepped fun update ts read =>
          isUpdate ⟨update, ts, read⟩]

end Tracker

end ItchExchange.Replay
