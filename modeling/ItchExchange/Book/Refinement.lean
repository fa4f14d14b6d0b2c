import ItchExchange.Book.ArrivalBook

/-!
# What it means for a book to refine the list of arrivals

`Answers` says that every query of a book gives the answer which the list of
arrivals gives.  `Refines` is the simulation: related states answer alike, and
an operation the list accepts is carried out by the book and leads to related
states again.

A book with finite storage carries out an operation only within its limits.
`Refines` therefore has a parameter `admits`, a condition on the state before
the operation; reductions must always be admitted, because they only give
storage back.
-/

namespace ItchExchange.Book

open ItchExchange.Core

variable {B : Type} [OrderBook B]

/-- Every query of the book gives the answer of the list of arrivals. -/
structure Answers (book : B) (arrivals : ArrivalBook) : Prop where
  isEmpty : ∀ side, OrderBook.isEmpty book side = arrivals.isEmpty side
  best : ∀ side, OrderBook.best book side = arrivals.best side
  qtyAt : ∀ side price,
    OrderBook.qtyAt book side price = .ok (arrivals.qtyAt side price)
  ordersAt : ∀ side price,
    OrderBook.ordersAt book side price = .ok (arrivals.ordersAt side price)
  frontAt : ∀ side price,
    OrderBook.frontAt book side price = .ok (arrivals.frontAt side price)
  stats : OrderBook.stats book = arrivals.stats
  orderCount : OrderBook.orderCount book = arrivals.orders.length
  contains : ∀ ref,
    OrderBook.contains book ref = .ok (arrivals.find? ref).isSome
  sideOf : ∀ order ∈ arrivals.orders,
    OrderBook.sideOf book order.ref = .ok order.side
  priceOf : ∀ order ∈ arrivals.orders,
    OrderBook.priceOf book order.ref = .ok order.price
  qtyOf : ∀ order ∈ arrivals.orders,
    OrderBook.qtyOf book order.ref = .ok order.qty
  ownerOf : ∀ order ∈ arrivals.orders,
    OrderBook.ownerOf book order.ref = .ok order.owner
  forEachLevel : ∀ side,
    OrderBook.forEachLevel book side = .ok (arrivals.visits side)

/-- Two books give the same answer to every query. -/
structure Agree {C : Type} [OrderBook C] (left : B) (right : C) : Prop where
  isEmpty : ∀ side, OrderBook.isEmpty left side = OrderBook.isEmpty right side
  best : ∀ side, OrderBook.best left side = OrderBook.best right side
  crossed : OrderBook.crossed left = OrderBook.crossed right
  qtyAt : ∀ side price,
    OrderBook.qtyAt left side price = OrderBook.qtyAt right side price
  ordersAt : ∀ side price,
    OrderBook.ordersAt left side price = OrderBook.ordersAt right side price
  frontAt : ∀ side price,
    OrderBook.frontAt left side price = OrderBook.frontAt right side price
  stats : OrderBook.stats left = OrderBook.stats right
  orderCount : OrderBook.orderCount left = OrderBook.orderCount right
  contains : ∀ ref,
    OrderBook.contains left ref = OrderBook.contains right ref
  ofResting : ∀ ref, OrderBook.contains right ref = .ok true →
    OrderBook.sideOf left ref = OrderBook.sideOf right ref ∧
      OrderBook.priceOf left ref = OrderBook.priceOf right ref ∧
      OrderBook.qtyOf left ref = OrderBook.qtyOf right ref ∧
      OrderBook.ownerOf left ref = OrderBook.ownerOf right ref
  forEachLevel : ∀ side,
    OrderBook.forEachLevel left side = OrderBook.forEachLevel right side

/-- Books which answer like the same list of arrivals agree. -/
theorem Answers.agree {C : Type} [OrderBook C] {left : B} {right : C}
    {arrivals : ArrivalBook} (leftAnswers : Answers left arrivals)
    (rightAnswers : Answers right arrivals) : Agree left right where
  isEmpty := fun side =>
    (leftAnswers.isEmpty side).trans (rightAnswers.isEmpty side).symm
  best := fun side =>
    (leftAnswers.best side).trans (rightAnswers.best side).symm
  crossed := by
    simp only [OrderBook.crossed, leftAnswers.isEmpty, leftAnswers.best,
      rightAnswers.isEmpty, rightAnswers.best]
  qtyAt := fun side price =>
    (leftAnswers.qtyAt side price).trans (rightAnswers.qtyAt side price).symm
  ordersAt := fun side price =>
    (leftAnswers.ordersAt side price).trans
      (rightAnswers.ordersAt side price).symm
  frontAt := fun side price =>
    (leftAnswers.frontAt side price).trans
      (rightAnswers.frontAt side price).symm
  stats := leftAnswers.stats.trans rightAnswers.stats.symm
  orderCount := leftAnswers.orderCount.trans rightAnswers.orderCount.symm
  contains := fun ref =>
    (leftAnswers.contains ref).trans (rightAnswers.contains ref).symm
  ofResting := by
    intro ref resting
    rw [rightAnswers.contains, Except.ok.injEq,
      Option.isSome_iff_exists] at resting
    obtain ⟨order, found⟩ := resting
    obtain ⟨member, rfl⟩ := ArrivalBook.find?_eq_some_iff.mp found
    rw [leftAnswers.sideOf order member, rightAnswers.sideOf order member,
      leftAnswers.priceOf order member, rightAnswers.priceOf order member,
      leftAnswers.qtyOf order member, rightAnswers.qtyOf order member,
      leftAnswers.ownerOf order member, rightAnswers.ownerOf order member]
    exact ⟨rfl, rfl, rfl, rfl⟩
  forEachLevel := fun side =>
    (leftAnswers.forEachLevel side).trans
      (rightAnswers.forEachLevel side).symm

/-- The book type simulates the list of arrivals where `admits` allows it. -/
structure Refines (related : B → ArrivalBook → Prop)
    (admits : B → Operation → Prop) : Prop where
  answers : ∀ {book arrivals}, related book arrivals →
    Answers book arrivals
  apply : ∀ {book arrivals operation next}, related book arrivals →
    admits book operation → arrivals.perform? operation = some next →
      ∃ book', OrderBook.apply book operation = .ok book' ∧
        related book' next
  admitsExecute : ∀ book ref shares, admits book (.execute ref shares)
  admitsRemove : ∀ book ref, admits book (.remove ref)

/-- Every step of the run meets the condition in the state before it. -/
def AdmitsRun (admits : B → Operation → Prop) (book : B) :
    List Operation → Prop
  | [] => True
  | operation :: rest =>
      admits book operation ∧
        ∀ next, OrderBook.apply book operation = .ok next →
          AdmitsRun admits next rest

/-- The first steps of an admitted run are an admitted run. -/
theorem AdmitsRun.take {admits : B → Operation → Prop} {book : B}
    {operations : List Operation}
    (admitted : AdmitsRun admits book operations) (count : Nat) :
    AdmitsRun admits book (operations.take count) := by
  induction count generalizing book operations with
  | zero => trivial
  | succ count induction =>
      cases operations with
      | nil => trivial
      | cons operation rest =>
          obtain ⟨here, later⟩ := admitted
          exact ⟨here, fun next applied => induction (later next applied)⟩

section Refines

variable {related : B → ArrivalBook → Prop}
  {admits : B → Operation → Prop}

/-- A whole run the list accepts is carried out, and stays related. -/
theorem Refines.run (refines : Refines related admits) {book : B}
    {arrivals final : ArrivalBook} {operations : List Operation}
    (relation : related book arrivals)
    (admitted : AdmitsRun admits book operations)
    (accepted : arrivals.run? operations = some final) :
    ∃ book', OrderBook.run book operations = .ok book' ∧
      related book' final := by
  induction operations generalizing book arrivals with
  | nil =>
      rw [ArrivalBook.run?_nil, Option.some.injEq] at accepted
      exact ⟨book, rfl, accepted ▸ relation⟩
  | cons operation rest induction =>
      rw [ArrivalBook.run?_cons] at accepted
      obtain ⟨next, applied, acceptedRest⟩ :=
        Option.bind_eq_some_iff.mp accepted
      obtain ⟨here, later⟩ := admitted
      obtain ⟨nextBook, nextApplied, nextRelation⟩ :=
        refines.apply relation here applied
      obtain ⟨finalBook, ran, finalRelation⟩ :=
        induction nextRelation (later nextBook nextApplied) acceptedRest
      refine ⟨finalBook, ?_, finalRelation⟩
      rw [OrderBook.run_cons, nextApplied, ok_bind, ran]

/-- `execute` reports the shares it was asked for. -/
theorem apply_execute_eq_ok {book next : B} {ref : OrderRef}
    {shares : Qty}
    (applied : OrderBook.apply book (.execute ref shares) = .ok next) :
    ∃ reported,
      OrderBook.execute book ref shares = .ok (reported, next) := by
  unfold OrderBook.apply at applied
  obtain ⟨⟨reported, result⟩, executed, equal⟩ :=
    bind_eq_ok_iff.mp applied
  simp only [pure_eq_ok, Except.ok.injEq] at equal
  exact ⟨reported, equal ▸ executed⟩

end Refines

/-! ## Acceptance of single operations by the list -/

namespace ArrivalBook

variable {book next : ArrivalBook}

theorem insert?_eq_some_iff {order : Resting} :
    book.insert? order = some next ↔
      ∃ (positive : order.qty ≠ 0) (fresh : book.find? order.ref = none),
        book.add order fresh positive = next := by
  unfold insert?
  split_ifs with positive fresh
  · simp [positive, fresh]
  · simp [fresh]
  · simp [positive]

theorem take?_eq_some_iff {ref : OrderRef} {shares : Qty} :
    book.take? ref shares = some next ↔
      ∃ order ∈ book.orders, order.ref = ref ∧ shares ≤ order.qty ∧
        book.reduce ref shares = next := by
  unfold take?
  cases found : book.find? ref with
  | none =>
      rw [find?_eq_none_iff] at found
      simp only [reduceCtorEq, false_iff, not_exists, not_and]
      intro order member atRef
      exact absurd atRef (found order member)
  | some order =>
      obtain ⟨member, atRef⟩ := find?_eq_some_iff.mp found
      dsimp only
      constructor
      · intro equal
        split_ifs at equal with enough
        exact ⟨order, member, atRef, enough, Option.some.inj equal⟩
      · rintro ⟨other, otherMember, otherRef, enough, equal⟩
        have same := eq_of_ref_eq otherMember member
          (otherRef.trans atRef.symm)
        subst same
        rw [if_pos enough, equal]

theorem remove?_eq_some_iff {ref : OrderRef} :
    book.remove? ref = some next ↔
      ∃ order ∈ book.orders, order.ref = ref ∧
        book.reduce ref order.qty = next := by
  unfold remove?
  cases found : book.find? ref with
  | none =>
      rw [find?_eq_none_iff] at found
      simp only [reduceCtorEq, false_iff, not_exists, not_and]
      intro order member atRef
      exact absurd atRef (found order member)
  | some order =>
      obtain ⟨member, atRef⟩ := find?_eq_some_iff.mp found
      simp only [Option.some.injEq]
      constructor
      · exact fun equal => ⟨order, member, atRef, equal⟩
      · rintro ⟨other, otherMember, otherRef, equal⟩
        have same := eq_of_ref_eq otherMember member
          (otherRef.trans atRef.symm)
        exact same ▸ equal

theorem replace?_eq_some_iff {oldRef newRef : OrderRef} {price : Price}
    {qty : Qty} :
    book.replace? oldRef newRef price qty = some next ↔
      ∃ old ∈ book.orders, old.ref = oldRef ∧
        (book.reduce oldRef old.qty).insert?
          ⟨newRef, old.side, price, qty, old.owner⟩ = some next := by
  unfold replace?
  cases found : book.find? oldRef with
  | none =>
      rw [find?_eq_none_iff] at found
      simp only [reduceCtorEq, false_iff, not_exists, not_and]
      intro order member atRef
      exact absurd atRef (found order member)
  | some order =>
      obtain ⟨member, atRef⟩ := find?_eq_some_iff.mp found
      dsimp only
      constructor
      · exact fun equal => ⟨order, member, atRef, equal⟩
      · rintro ⟨other, otherMember, otherRef, equal⟩
        have same := eq_of_ref_eq otherMember member
          (otherRef.trans atRef.symm)
        exact same ▸ equal

theorem take?_eq_none_iff {ref : OrderRef} {shares : Qty} :
    book.take? ref shares = none ↔
      book.find? ref = none ∨
        ∃ order ∈ book.orders, order.ref = ref ∧
          ¬ shares ≤ order.qty := by
  unfold take?
  cases found : book.find? ref with
  | none => simp
  | some order =>
      obtain ⟨member, atRef⟩ := find?_eq_some_iff.mp found
      simp only [ite_eq_right_iff, reduceCtorEq, imp_false, false_or]
      constructor
      · exact fun tooMany => ⟨order, member, atRef, tooMany⟩
      · rintro ⟨other, otherMember, otherRef, tooMany⟩
        have same := eq_of_ref_eq otherMember member
          (otherRef.trans atRef.symm)
        exact same ▸ tooMany

theorem remove?_eq_none_iff {ref : OrderRef} :
    book.remove? ref = none ↔ book.find? ref = none := by
  unfold remove?
  cases book.find? ref <;> simp

theorem replace?_eq_none_iff {oldRef newRef : OrderRef} {price : Price}
    {qty : Qty} :
    book.replace? oldRef newRef price qty = none ↔
      book.find? oldRef = none ∨
        ∃ old ∈ book.orders, old.ref = oldRef ∧
          (book.reduce oldRef old.qty).insert?
            ⟨newRef, old.side, price, qty, old.owner⟩ = none := by
  unfold replace?
  cases found : book.find? oldRef with
  | none => simp
  | some order =>
      obtain ⟨member, atRef⟩ := find?_eq_some_iff.mp found
      simp only [reduceCtorEq, false_or]
      constructor
      · exact fun refused => ⟨order, member, atRef, refused⟩
      · rintro ⟨other, otherMember, otherRef, refused⟩
        have same := eq_of_ref_eq otherMember member
          (otherRef.trans atRef.symm)
        exact same ▸ refused

/-! ## Where resting orders come from -/

/-- The order rests under a reference and at a price of the given ones. -/
def From (orders : List Resting) (resting : Resting) : Prop :=
  ∃ earlier ∈ orders,
    earlier.ref = resting.ref ∧ earlier.price = resting.price

theorem from_reduce {ref : OrderRef} {shares : Qty} {resting : Resting}
    (member : resting ∈ (book.reduce ref shares).orders) :
    From book.orders resting := by
  obtain ⟨earlier, earlierMember, left⟩ := mem_reduceIn.mp member
  obtain ⟨sameRef, -, samePrice, -⟩ := Resting.lessAt_eq_some left
  exact ⟨earlier, earlierMember, sameRef.symm, samePrice.symm⟩

theorem from_insert? {order resting : Resting}
    (accepted : book.insert? order = some next)
    (member : resting ∈ next.orders) :
    resting ∈ book.orders ∨ resting = order := by
  obtain ⟨positive, fresh, rfl⟩ := insert?_eq_some_iff.mp accepted
  simpa [add] using member

/-- An order rests after a call because it did before, or the call added it. -/
theorem from_perform? {operation : Operation} {resting : Resting}
    (accepted : book.perform? operation = some next)
    (member : resting ∈ next.orders) :
    From book.orders resting ∨
      operation.ref? = some resting.ref ∧
        operation.price? = some resting.price := by
  cases operation with
  | add ref side price qty owner =>
      rcases from_insert? accepted member with old | rfl
      · exact Or.inl ⟨resting, old, rfl, rfl⟩
      · exact Or.inr ⟨rfl, rfl⟩
  | cancel ref shares =>
      obtain ⟨order, -, -, -, rfl⟩ := take?_eq_some_iff.mp accepted
      exact Or.inl (from_reduce member)
  | execute ref shares =>
      obtain ⟨order, -, -, -, rfl⟩ := take?_eq_some_iff.mp accepted
      exact Or.inl (from_reduce member)
  | remove ref =>
      obtain ⟨order, -, -, rfl⟩ := remove?_eq_some_iff.mp accepted
      exact Or.inl (from_reduce member)
  | replace oldRef newRef price qty =>
      obtain ⟨old, -, -, inserted⟩ := replace?_eq_some_iff.mp accepted
      rcases from_insert? inserted member with kept | rfl
      · exact Or.inl (from_reduce kept)
      · exact Or.inr ⟨rfl, rfl⟩

/-- A property of references and prices which a run brings in holds of all. -/
theorem from_run? {operations : List Operation}
    (property : OrderRef → Price → Prop)
    (accepted : book.run? operations = some next)
    (start : ∀ resting ∈ book.orders, property resting.ref resting.price)
    (brought : ∀ operation ∈ operations, ∀ ref price,
      operation.ref? = some ref → operation.price? = some price →
        property ref price) :
    ∀ resting ∈ next.orders, property resting.ref resting.price := by
  induction operations generalizing book with
  | nil =>
      rw [run?_nil, Option.some.injEq] at accepted
      exact accepted ▸ start
  | cons operation rest induction =>
      rw [run?_cons] at accepted
      obtain ⟨middle, applied, acceptedRest⟩ :=
        Option.bind_eq_some_iff.mp accepted
      refine induction acceptedRest ?_ fun other member =>
        brought other (List.mem_cons_of_mem operation member)
      intro resting member
      rcases from_perform? applied member with
        ⟨earlier, earlierMember, sameRef, samePrice⟩ | ⟨ref, price⟩
      · rw [← sameRef, ← samePrice]
        exact start earlier earlierMember
      · exact brought operation List.mem_cons_self _ _ ref price

end ArrivalBook

end ItchExchange.Book
