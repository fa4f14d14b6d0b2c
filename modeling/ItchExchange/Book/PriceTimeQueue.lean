import ItchExchange.Book.Refinement

/-!
# A side of the book as one queue

Price-time priority lists the orders of a side best price first and oldest
first within a price.  `queue` is that list.  A reduction acts on it as on any
list of orders, and a new order joins it behind every order whose price is at
least as aggressive.
-/

namespace ItchExchange.Book.ArrivalBook

open ItchExchange.Core

/-- The orders of a side, best price first and oldest first at a price. -/
def queue (book : ArrivalBook) (side : Side) : List Resting :=
  (book.prices side).flatMap (book.level side)

variable {book : ArrivalBook} {side : Side}

theorem mem_queue {order : Resting} :
    order ∈ book.queue side ↔ order ∈ book.orders ∧ order.side = side := by
  simp only [queue, List.mem_flatMap, mem_level, mem_prices]
  constructor
  · rintro ⟨price, -, member, onSide, -⟩
    exact ⟨member, onSide⟩
  · rintro ⟨member, onSide⟩
    exact ⟨order.price, ⟨order, member, onSide, rfl⟩, member, onSide, rfl⟩

theorem queue_eq_nil_iff :
    book.queue side = [] ↔ book.isEmpty side = true := by
  rw [isEmpty, List.isEmpty_iff, List.eq_nil_iff_forall_not_mem,
    List.eq_nil_iff_forall_not_mem]
  simp only [mem_queue, mem_onSide]

/-- The head of the queue is the first order at the best price. -/
theorem head_of_queue {head : Resting} {tail : List Resting}
    (equal : book.queue side = head :: tail) :
    book.isEmpty side = false ∧ book.best side = head.price ∧
      book.frontAt side head.price = head.ref ∧
      head ∈ book.orders ∧ head.side = side := by
  have member : head ∈ book.queue side := by
    rw [equal]
    exact List.mem_cons_self
  obtain ⟨resting, onSide⟩ := mem_queue.mp member
  have nonempty : book.isEmpty side = false := by
    rw [← Bool.not_eq_true, ← queue_eq_nil_iff, equal]
    exact List.cons_ne_nil _ _
  cases prices : book.prices side with
  | nil =>
      rw [isEmpty_eq_prices_isEmpty, prices] at nonempty
      cases nonempty
  | cons price rest =>
      have present : book.level side price ≠ [] :=
        level_ne_nil_iff.mpr (by rw [prices]; exact List.mem_cons_self)
      cases level : book.level side price with
      | nil => exact absurd level present
      | cons first others =>
          rw [queue, prices, List.flatMap_cons, level,
            List.cons_append] at equal
          have isFirst : first = head := (List.cons.inj equal).1
          subst isFirst
          have atPrice : first.price = price :=
            (mem_level.mp (by rw [level]; exact List.mem_cons_self)).2.2
          refine ⟨nonempty, ?_, ?_, resting, onSide⟩
          · rw [best, prices, atPrice]
            rfl
          · rw [frontAt, atPrice, level]
            rfl

theorem flatMap_filter_of_nil {α β : Type} {image : α → List β}
    {keep : α → Bool} {elements : List α}
    (dropped : ∀ element ∈ elements, keep element = false →
      image element = []) :
    (elements.filter keep).flatMap image = elements.flatMap image := by
  induction elements with
  | nil => rfl
  | cons head tail induction =>
      have rest := induction fun element inTail =>
        dropped element (List.mem_cons_of_mem head inTail)
      rw [List.filter_cons, List.flatMap_cons]
      split_ifs with kept
      · rw [List.flatMap_cons, rest]
      · rw [dropped head List.mem_cons_self (by simpa using kept), rest,
          List.nil_append]

theorem prices_reduce (ref : OrderRef) (shares : Qty) :
    (book.reduce ref shares).prices side =
      (book.prices side).filter fun price =>
        !((book.reduce ref shares).level side price).isEmpty := by
  symm
  apply prices_eq_of_pairwise
  · exact (book.prices_pairwise side).sublist List.filter_sublist
  · intro price
    rw [← mem_prices, List.mem_filter, ← level_ne_nil_iff,
      ← level_ne_nil_iff]
    simp only [Bool.not_eq_true', List.isEmpty_eq_false_iff]
    constructor
    · exact And.right
    · intro left
      refine ⟨fun empty => left ?_, left⟩
      rw [level_reduce, empty, reduceIn_nil]

/-- A reduction acts on the queue as on the list of arrivals. -/
theorem queue_reduce (ref : OrderRef) (shares : Qty) :
    (book.reduce ref shares).queue side =
      reduceIn ref shares (book.queue side) := by
  have levels : (book.reduce ref shares).level side = fun price =>
      (book.level side price).filterMap (Resting.lessAt ref shares) :=
    funext fun price => level_reduce ref shares side price
  rw [queue, prices_reduce, flatMap_filter_of_nil]
  · rw [levels, queue, reduceIn, List.filterMap_flatMap]
  · intro price _ dropped
    simpa using dropped

theorem queue_refs_nodup (book : ArrivalBook) (side : Side) :
    ((book.queue side).map Resting.ref).Nodup := by
  refine List.Nodup.map_on ?_ ?_
  · intro first firstMember second secondMember equal
    exact eq_of_ref_eq (mem_queue.mp firstMember).1
      (mem_queue.mp secondMember).1 equal
  · refine List.nodup_flatMap.mpr ⟨?_, ?_⟩
    · intro price _
      exact List.Nodup.of_map _ (book.level_refs_nodup side price)
    · refine (book.prices_pairwise side).imp ?_
      intro first second closer order firstMember secondMember
      have firstPrice := (mem_level.mp firstMember).2.2
      have secondPrice := (mem_level.mp secondMember).2.2
      rw [← firstPrice, ← secondPrice] at closer
      exact Closer.irrefl side _ closer

/-- Exhausting the head of the queue leaves the tail. -/
theorem queue_reduce_head_exhausted {head : Resting} {tail : List Resting}
    (equal : book.queue side = head :: tail) :
    (book.reduce head.ref head.qty).queue side = tail := by
  have distinct := book.queue_refs_nodup side
  rw [equal, List.map_cons, List.nodup_cons] at distinct
  have tailSame : reduceIn head.ref head.qty tail = tail :=
    reduceIn_of_absent fun other inTail same =>
      distinct.1 (same ▸ List.mem_map_of_mem inTail)
  have dropped : head.lessAt head.ref head.qty = none := by
    simp [Resting.lessAt, Resting.less]
  rw [queue_reduce, equal]
  unfold reduceIn at tailSame ⊢
  rw [List.filterMap_cons_none dropped, tailSame]

/-- A partial fill leaves the head in place with the rest of its quantity. -/
theorem queue_reduce_head_remaining {head : Resting} {tail : List Resting}
    {shares : Qty} (equal : book.queue side = head :: tail)
    (remaining : head.qty ≠ shares) :
    (book.reduce head.ref shares).queue side =
      { head with qty := head.qty - shares } :: tail := by
  have distinct := book.queue_refs_nodup side
  rw [equal, List.map_cons, List.nodup_cons] at distinct
  have tailSame : reduceIn head.ref shares tail = tail :=
    reduceIn_of_absent fun other inTail same =>
      distinct.1 (same ▸ List.mem_map_of_mem inTail)
  have kept : head.lessAt head.ref shares =
      some { head with qty := head.qty - shares } := by
    simp [Resting.lessAt, Resting.less, remaining]
  rw [queue_reduce, equal]
  unfold reduceIn at tailSame ⊢
  rw [List.filterMap_cons_some kept, tailSame]

/-- A reduction does not touch the queue of the other side. -/
theorem queue_reduce_of_ne {order : Resting} {shares : Qty}
    (member : order ∈ book.orders) (elsewhere : order.side ≠ side) :
    (book.reduce order.ref shares).queue side = book.queue side := by
  rw [queue_reduce]
  refine reduceIn_of_absent fun other otherMember equal => elsewhere ?_
  obtain ⟨resting, onSide⟩ := mem_queue.mp otherMember
  rw [← eq_of_ref_eq resting member equal]
  exact onSide

/-! ## A new order joins the queue -/

/-- Behind every order whose price is at least as aggressive. -/
def joinQueue (order : Resting) (queue : List Resting) : List Resting :=
  queue.filter (fun other =>
      decide (¬ Closer order.side order.price other.price)) ++
    order :: queue.filter (fun other =>
      decide (Closer order.side order.price other.price))

theorem mem_joinQueue {order other : Resting} {queue : List Resting} :
    other ∈ joinQueue order queue ↔ other = order ∨ other ∈ queue := by
  unfold joinQueue
  by_cases closer : Closer order.side order.price other.price
  · simp [closer]
  · simp [closer, or_comm]

/-- The prices of a side which are closer to the inside than `price`. -/
def pricesBefore (book : ArrivalBook) (side : Side) (price : Price) :
    List Price :=
  (book.prices side).filter fun other => decide (Closer side other price)

/-- The prices of a side which are further from the inside than `price`. -/
def pricesBehind (book : ArrivalBook) (side : Side) (price : Price) :
    List Price :=
  (book.prices side).filter fun other => decide (Closer side price other)

/-- A strictly receding list keeps its order around any of its prices. -/
theorem pairwise_around (book : ArrivalBook) (side : Side) (price : Price) :
    (book.pricesBefore side price ++
      price :: book.pricesBehind side price).Pairwise (Closer side) := by
  have sorted := book.prices_pairwise side
  rw [List.pairwise_append, List.pairwise_cons]
  refine ⟨sorted.sublist List.filter_sublist,
    ⟨?_, sorted.sublist List.filter_sublist⟩, ?_⟩
  · intro behind member
    simpa [pricesBehind] using (List.mem_filter.mp member).2
  · intro before beforeMember other otherMember
    have closer : Closer side before price := by
      simpa [pricesBefore] using (List.mem_filter.mp beforeMember).2
    rcases List.mem_cons.mp otherMember with rfl | inBehind
    · exact closer
    · exact closer.trans (by
        simpa [pricesBehind] using (List.mem_filter.mp inBehind).2)

theorem mem_around {book : ArrivalBook} {side : Side} {price other : Price} :
    other ∈ book.pricesBefore side price ++
        price :: book.pricesBehind side price ↔
      other = price ∨ other ∈ book.prices side := by
  rw [List.mem_append, List.mem_cons, pricesBefore, pricesBehind,
    List.mem_filter, List.mem_filter]
  simp only [decide_eq_true_eq]
  constructor
  · rintro (⟨member, -⟩ | rfl | ⟨member, -⟩)
    · exact Or.inr member
    · exact Or.inl rfl
    · exact Or.inr member
  · rintro (rfl | member)
    · exact Or.inr (Or.inl rfl)
    · rcases Closer.trichotomy side other price with closer | equal | closer
      · exact Or.inl ⟨member, closer⟩
      · exact Or.inr (Or.inl equal)
      · exact Or.inr (Or.inr ⟨member, closer⟩)

/-- The queue, split at any price. -/
theorem queue_split (book : ArrivalBook) (side : Side) (price : Price) :
    book.queue side =
      (book.pricesBefore side price).flatMap (book.level side) ++
        (book.level side price ++
          (book.pricesBehind side price).flatMap (book.level side)) := by
  have around :
      (book.pricesBefore side price ++
          price :: book.pricesBehind side price).filter
          (fun other => !(book.level side other).isEmpty) =
        book.prices side := by
    apply prices_eq_of_pairwise
    · exact (book.pairwise_around side price).sublist List.filter_sublist
    · intro other
      rw [← mem_prices, ← level_ne_nil_iff, List.mem_filter, mem_around,
        ← level_ne_nil_iff]
      simp only [Bool.not_eq_true', List.isEmpty_eq_false_iff]
      exact ⟨And.right, fun present => ⟨Or.inr present, present⟩⟩
  rw [queue, ← around, flatMap_filter_of_nil, List.flatMap_append,
    List.flatMap_cons]
  intro other _ dropped
  simpa using dropped

/-- A list whose kept elements all stand behind the others, split again. -/
theorem filter_split {α : Type} {keep : α → Prop} [DecidablePred keep]
    {ahead behind : List α} (dropped : ∀ element ∈ ahead, ¬ keep element)
    (kept : ∀ element ∈ behind, keep element) :
    (ahead ++ behind).filter (fun element => decide (¬ keep element)) =
        ahead ∧
      (ahead ++ behind).filter (fun element => decide (keep element)) =
        behind := by
  rw [List.filter_append, List.filter_append]
  constructor
  · rw [List.filter_eq_self.mpr, List.filter_eq_nil_iff.mpr,
      List.append_nil]
    · simpa using kept
    · simpa using dropped
  · rw [List.filter_eq_nil_iff.mpr, List.filter_eq_self.mpr,
      List.nil_append]
    · simpa using kept
    · simpa using dropped

/-- A new order joins the queue of its side. -/
theorem queue_add {order : Resting} {fresh : book.find? order.ref = none}
    {positive : order.qty ≠ 0} :
    (book.add order fresh positive).queue order.side =
      joinQueue order (book.queue order.side) := by
  have prices :
      (book.add order fresh positive).prices order.side =
        book.pricesBefore order.side order.price ++
          order.price :: book.pricesBehind order.side order.price := by
    symm
    apply prices_eq_of_pairwise (book.pairwise_around _ _)
    intro price
    rw [mem_around, ← mem_prices, ← level_ne_nil_iff, ← level_ne_nil_iff,
      level_add]
    by_cases same : order.price = price
    · simp [same]
    · simp [same, Ne.symm same]
  have otherLevels : ∀ {prices : List Price},
      (∀ price ∈ prices, price ≠ order.price) →
        prices.flatMap ((book.add order fresh positive).level order.side) =
          prices.flatMap (book.level order.side) := by
    intro prices different
    refine List.flatMap_congr fun price member => ?_
    rw [level_add, if_neg]
    exact fun both => different price member both.2.symm
  have beforeCloser : ∀ price ∈ book.pricesBefore order.side order.price,
      Closer order.side price order.price := fun price member => by
    simpa [pricesBefore] using (List.mem_filter.mp member).2
  have behindFurther : ∀ price ∈ book.pricesBehind order.side order.price,
      Closer order.side order.price price := fun price member => by
    simpa [pricesBehind] using (List.mem_filter.mp member).2
  have notBehind : ∀ other,
      other ∈ (book.pricesBefore order.side order.price).flatMap
          (book.level order.side) ∨
        other ∈ book.level order.side order.price →
      ¬ Closer order.side order.price other.price := by
    rintro other (before | level)
    · obtain ⟨price, member, inLevel⟩ := List.mem_flatMap.mp before
      rw [(mem_level.mp inLevel).2.2]
      exact (beforeCloser price member).asymm
    · rw [(mem_level.mp level).2.2]
      exact Closer.irrefl _ _
  have behind : ∀ other ∈
      (book.pricesBehind order.side order.price).flatMap
        (book.level order.side),
      Closer order.side order.price other.price := by
    intro other member
    obtain ⟨price, inPrices, inLevel⟩ := List.mem_flatMap.mp member
    rw [(mem_level.mp inLevel).2.2]
    exact behindFurther price inPrices
  have ownLevel :
      (book.add order fresh positive).level order.side order.price =
        book.level order.side order.price ++ [order] := by
    rw [level_add, if_pos ⟨rfl, rfl⟩]
  obtain ⟨ahead, further⟩ := filter_split
    (fun other member => notBehind other (List.mem_append.mp member)) behind
  rw [joinQueue, queue_split book order.side order.price,
    ← List.append_assoc, ahead, further]
  rw [queue, prices, List.flatMap_append, List.flatMap_cons, ownLevel,
    otherLevels fun price member equal =>
      Closer.irrefl _ _ (equal ▸ beforeCloser price member),
    otherLevels fun price member equal =>
      Closer.irrefl _ _ (equal ▸ behindFurther price member)]
  simp only [List.append_assoc, List.singleton_append]

/-- A new order leaves the queue of the other side alone. -/
theorem queue_add_of_ne {order : Resting}
    (fresh : book.find? order.ref = none) (positive : order.qty ≠ 0)
    (elsewhere : order.side ≠ side) :
    (book.add order fresh positive).queue side = book.queue side := by
  have levels : (book.add order fresh positive).level side =
      book.level side := funext fun price => by
    rw [level_add, if_neg fun both => elsewhere both.1]
  have prices : (book.add order fresh positive).prices side =
      book.prices side := by
    apply prices_eq_of_pairwise (prices_pairwise _ _)
    intro price
    rw [← mem_prices, ← level_ne_nil_iff, ← level_ne_nil_iff, levels]
  rw [queue, queue, prices, levels]

end ItchExchange.Book.ArrivalBook
