import ItchExchange.Book.MapBook
import ItchExchange.Book.Refinement

/-!
# `MapBook` represents the list of arrivals

The three containers of `MapBook` are tied to one list of resting orders by
`RepresentsAt`.  Its parameter `position` gives the list node of every resting
reference: the entries store it, the queues consist of it, and injectivity is
what makes the erasure of a stored iterator drop exactly its own reference.

The 64 bit totals are related to the list by `wordQty`, the sum in 64 bits, so
no bound on the number of orders is needed for an operation to succeed.  The
bound only enters when the counters are read as natural numbers.
-/

namespace ItchExchange.Book.MapBook

open ItchExchange.Core
open Std (ExtTreeMap)

section Levels

variable (book : MapBook) (side : Side) (replaced : LevelMap side)

@[simp]
theorem levels_setLevels_self :
    (book.setLevels side replaced).levels side = replaced := by
  cases side <;> rfl

@[simp]
theorem levels_setLevels_of_ne {other : Side} (distinct : other ≠ side) :
    (book.setLevels side replaced).levels other = book.levels other := by
  cases side <;> cases other <;> first | rfl | exact absurd rfl distinct

/-- The price maps do not depend on the other fields. -/
@[simp]
theorem levels_mk_setLevels (side other : Side)
    (replaced : LevelMap side) (orders : ExtTreeMap OrderRef Entry)
    (stats : BookStats) (nextNode : Nat) :
    MapBook.levels
        { book.setLevels side replaced with orders, stats, nextNode } other =
      (book.setLevels side replaced).levels other := by
  cases other <;> rfl

@[simp]
theorem levels_with (orders : ExtTreeMap OrderRef Entry)
    (stats : BookStats) :
    MapBook.levels { book with orders, stats } side = book.levels side := by
  cases side <;> rfl

@[simp]
theorem setLevels_orders :
    (book.setLevels side replaced).orders = book.orders := by
  cases side <;> rfl

@[simp]
theorem setLevels_stats :
    (book.setLevels side replaced).stats = book.stats := by
  cases side <;> rfl

@[simp]
theorem setLevels_nextNode :
    (book.setLevels side replaced).nextNode = book.nextNode := by
  cases side <;> rfl

end Levels

/-- The entry of a resting order whose list node is known. -/
def entryOf (position : OrderRef → Nat) (order : Resting) : Entry where
  side := order.side
  price := order.price
  qty := order.qty
  owner := order.owner
  pos := position order.ref

/-- The list node of a resting order. -/
def nodeOf (position : OrderRef → Nat) (order : Resting) : Node :=
  ⟨position order.ref, order.ref⟩

/-- The level holding the given orders; an empty level must not exist. -/
def levelOf (position : OrderRef → Nat) (orders : List Resting) :
    Option Level :=
  if orders = [] then none
  else some { qty := wordQty orders, fifo := orders.map (nodeOf position) }

/-- The containers of the book hold exactly the given arrivals. -/
structure RepresentsAt (position : OrderRef → Nat) (book : MapBook)
    (arrivals : ArrivalBook) : Prop where
  entries : ∀ ref,
    book.orders[ref]? = (arrivals.find? ref).map (entryOf position)
  entryCount : book.orders.size = arrivals.orders.length
  positionBound : ∀ order ∈ arrivals.orders,
    position order.ref < book.nextNode
  positionInjective : ∀ first ∈ arrivals.orders,
    ∀ second ∈ arrivals.orders,
      position first.ref = position second.ref → first.ref = second.ref
  levels : ∀ side price,
    (book.levels side)[price]? = levelOf position (arrivals.level side price)
  totalQty : ∀ side,
    book.stats.totalQty.get side = wordQty (arrivals.onSide side)
  levelCount : ∀ side,
    book.stats.levelCount.get side = UInt32.ofNat (book.levels side).size
  orderCount :
    book.stats.orderCount = UInt32.ofNat arrivals.orders.length

/-- The book holds exactly the given arrivals. -/
def Represents (book : MapBook) (arrivals : ArrivalBook) : Prop :=
  ∃ position, RepresentsAt position book arrivals

/-- The empty book represents no arrivals. -/
theorem represents_empty : Represents {} ArrivalBook.empty := by
  refine ⟨fun _ => 0, ?_, ?_, ?_, ?_, ?_, ?_, ?_, ?_⟩
  · intro ref
    have none : ArrivalBook.empty.find? ref = none := rfl
    rw [none]
    exact ExtTreeMap.getElem?_empty
  · rfl
  · exact fun order member => absurd member List.not_mem_nil
  · exact fun first member => absurd member List.not_mem_nil
  · intro side price
    cases side <;> exact ExtTreeMap.getElem?_empty
  · intro side
    cases side <;> rfl
  · intro side
    cases side <;> rfl
  · rfl

/-! ## Arrival of an order -/

/-- Only the positions of the resting orders count. -/
theorem levelOf_congr {first second : OrderRef → Nat}
    {orders : List Resting}
    (agree : ∀ order ∈ orders, first order.ref = second order.ref) :
    levelOf first orders = levelOf second orders := by
  have sameNodes : orders.map (nodeOf first) = orders.map (nodeOf second) :=
    List.map_congr_left fun order member => by
      rw [nodeOf, nodeOf, agree order member]
  rw [levelOf, levelOf, sameNodes]

/-- The level after one more order has joined the back of its queue. -/
theorem levelOf_append (position : OrderRef → Nat)
    (orders : List Resting) (order : Resting) :
    levelOf position (orders ++ [order]) =
      some
        { qty :=
            ((levelOf position orders).getD {}).qty + order.qty.toUInt64
          fifo :=
            ((levelOf position orders).getD {}).fifo ++
              [nodeOf position order] } := by
  rw [levelOf, if_neg (by simp)]
  cases orders with
  | nil => simp [levelOf]
  | cons head tail => simp [levelOf, UInt64.add_assoc]

/-- The order comes last in its level, at the next position. -/
theorem RepresentsAt.insert {position : OrderRef → Nat} {book : MapBook}
    {arrivals : ArrivalBook}
    (represents : RepresentsAt position book arrivals) {order : Resting}
    (fresh : arrivals.find? order.ref = none) (positive : order.qty ≠ 0) :
    RepresentsAt (Function.update position order.ref book.nextNode)
      (book.insert order.ref order.side order.price order.qty order.owner)
      (arrivals.add order fresh positive) := by
  have absent := ArrivalBook.find?_eq_none_iff.mp fresh
  have kept : ∀ other ∈ arrivals.orders,
      Function.update position order.ref book.nextNode other.ref =
        position other.ref :=
    fun other member => Function.update_of_ne (absent other member) _ _
  have ownNode :
      Function.update position order.ref book.nextNode order.ref =
        book.nextNode :=
    Function.update_self _ _ _
  have noEntry : book.orders[order.ref]? = none := by
    rw [represents.entries, fresh]
    rfl
  have notMember : order.ref ∉ book.orders := by
    rw [ExtTreeMap.mem_iff_isSome_getElem?, noEntry]
    simp
  have levelKept : ∀ side price,
      levelOf (Function.update position order.ref book.nextNode)
          (arrivals.level side price) =
        (book.levels side)[price]? := by
    intro side price
    rw [represents.levels]
    exact levelOf_congr fun other member =>
      kept other (ArrivalBook.mem_level.mp member).1
  refine ⟨?_, ?_, ?_, ?_, ?_, ?_, ?_, ?_⟩
  · intro ref
    simp only [MapBook.insert, ExtTreeMap.getElem?_insertIfNew,
      ArrivalBook.find?_add]
    by_cases same : ref = order.ref
    · subst same
      simp [notMember, entryOf]
    · have compared : ¬ compare order.ref ref = .eq := by
        simpa using Ne.symm same
      rw [if_neg (fun both => compared both.1), if_neg same,
        represents.entries]
      cases found : arrivals.find? ref with
      | none => rfl
      | some other =>
          obtain ⟨member, atRef⟩ := ArrivalBook.find?_eq_some_iff.mp found
          simp [entryOf, kept other member]
  · simp [MapBook.insert, ExtTreeMap.size_insertIfNew, notMember,
      represents.entryCount, ArrivalBook.add]
  · intro other member
    rcases List.mem_append.mp member with old | new
    · rw [kept other old]
      exact Nat.lt_succ_of_lt (represents.positionBound other old)
    · rw [List.mem_singleton.mp new, ownNode]
      exact Nat.lt_succ_self _
  · intro first firstMember second secondMember equal
    rcases List.mem_append.mp firstMember with firstOld | firstNew <;>
      rcases List.mem_append.mp secondMember with secondOld | secondNew
    · rw [kept first firstOld, kept second secondOld] at equal
      exact represents.positionInjective first firstOld second secondOld
        equal
    · rw [List.mem_singleton.mp secondNew, kept first firstOld,
        ownNode] at equal
      exact absurd equal (represents.positionBound first firstOld).ne
    · rw [List.mem_singleton.mp firstNew, kept second secondOld,
        ownNode] at equal
      exact absurd equal.symm (represents.positionBound second secondOld).ne
    · rw [List.mem_singleton.mp firstNew, List.mem_singleton.mp secondNew]
  · intro side price
    rw [ArrivalBook.level_add]
    simp only [MapBook.insert, levels_mk_setLevels]
    by_cases sameSide : side = order.side
    · subst sameSide
      rw [levels_setLevels_self, ExtTreeMap.getElem?_insert]
      by_cases samePrice : order.price = price
      · subst samePrice
        simp [levelOf_append, levelKept, nodeOf]
      · simp [samePrice, levelKept]
    · rw [levels_setLevels_of_ne _ _ _ sameSide,
        if_neg (fun both => sameSide both.1.symm), levelKept]
  · intro side
    rw [ArrivalBook.onSide_add]
    by_cases sameSide : side = order.side
    · subst sameSide
      simp [MapBook.insert, represents.totalQty]
    · simp [MapBook.insert, sameSide, Ne.symm sameSide,
        represents.totalQty]
  · intro side
    simp only [MapBook.insert, levels_mk_setLevels]
    by_cases sameSide : side = order.side
    · subst sameSide
      rw [levels_setLevels_self, ExtTreeMap.size_insert,
        ExtTreeMap.contains_eq_isSome_getElem?]
      cases (book.levels order.side)[order.price]? with
      | none => simp [represents.levelCount]
      | some level => simp [represents.levelCount]
    · rw [levels_setLevels_of_ne _ _ _ sameSide]
      split_ifs
      · rw [PerSide.get_set_of_ne sameSide, represents.levelCount]
      · exact represents.levelCount side
  · simp [MapBook.insert, represents.orderCount, ArrivalBook.add]

/-! ## Reduction of an order -/

/-- Erasing the stored iterator of an order drops exactly that order. -/
theorem erasePos_map (position : OrderRef → Nat) {orders : List Resting}
    {order : Resting}
    (distinct : (orders.map Resting.ref).Nodup)
    (injective : ∀ other ∈ orders,
      position other.ref = position order.ref → other.ref = order.ref)
    (member : order ∈ orders) :
    erasePos (position order.ref) (orders.map (nodeOf position)) =
      .ok ((reduceIn order.ref order.qty orders).map (nodeOf position)) := by
  induction orders with
  | nil => simp at member
  | cons head tail induction =>
      rw [List.map_cons, List.nodup_cons] at distinct
      rw [List.map_cons, erasePos]
      by_cases same : head.ref = order.ref
      · have headIs : head = order := by
          rcases List.mem_cons.mp member with equal | inTail
          · exact equal.symm
          · exact absurd (same ▸ List.mem_map_of_mem inTail) distinct.1
        subst headIs
        have tailSame : reduceIn head.ref head.qty tail = tail := by
          refine reduceIn_of_absent fun other inTail equal => ?_
          exact distinct.1 (equal ▸ List.mem_map_of_mem inTail)
        have dropped : head.lessAt head.ref head.qty = none := by
          simp [Resting.lessAt, Resting.less]
        unfold reduceIn at tailSame ⊢
        rw [List.filterMap_cons_none dropped, tailSame]
        simp [nodeOf]
      · have elsewhere : ¬ position head.ref = position order.ref :=
          fun equal => same (injective head List.mem_cons_self equal)
        have inTail : order ∈ tail := by
          rcases List.mem_cons.mp member with equal | inTail
          · exact absurd (equal ▸ rfl) same
          · exact inTail
        have rest := induction distinct.2
          (fun other otherTail =>
            injective other (List.mem_cons_of_mem head otherTail))
          inTail
        have kept : head.lessAt order.ref order.qty = some head :=
          if_neg same
        unfold reduceIn at rest ⊢
        rw [List.filterMap_cons_some kept, if_neg (by exact elsewhere), rest]
        rfl

/-- A level keeps its nodes while something is left of the order. -/
theorem levelOf_remaining {position : OrderRef → Nat}
    {orders : List Resting} {order : Resting} {shares : Qty}
    (distinct : (orders.map Resting.ref).Nodup)
    (member : order ∈ orders) (enough : shares ≤ order.qty)
    (remaining : order.qty ≠ shares) :
    levelOf position (reduceIn order.ref shares orders) =
      some
        { qty := wordQty orders - shares.toUInt64
          fifo := orders.map (nodeOf position) } := by
  have sameRefs := refs_reduceIn_remaining distinct member remaining
  have nonempty : reduceIn order.ref shares orders ≠ [] := by
    intro empty
    rw [empty, List.map_nil, eq_comm, List.map_eq_nil_iff] at sameRefs
    rw [sameRefs] at member
    exact absurd member List.not_mem_nil
  have sameNodes :
      (reduceIn order.ref shares orders).map (nodeOf position) =
        orders.map (nodeOf position) := by
    have mapped := congrArg
      (List.map fun ref => (⟨position ref, ref⟩ : Node)) sameRefs
    rw [List.map_map, List.map_map] at mapped
    exact mapped
  rw [levelOf, if_neg nonempty, sameNodes,
    wordQty_reduceIn distinct member enough]

/-- A resting order has its entry. -/
theorem RepresentsAt.entry {position : OrderRef → Nat} {book : MapBook}
    {arrivals : ArrivalBook}
    (represents : RepresentsAt position book arrivals) {order : Resting}
    (member : order ∈ arrivals.orders) :
    book.orders[order.ref]? = some (entryOf position order) := by
  rw [represents.entries, ArrivalBook.find?_eq_some_iff.mpr ⟨member, rfl⟩]
  rfl

/--
What a reduction has to establish about the containers, field by field, for
the result to represent the reduced list.
-/
theorem RepresentsAt.of_reduced {position : OrderRef → Nat}
    {book next : MapBook} {arrivals : ArrivalBook}
    (represents : RepresentsAt position book arrivals) {order : Resting}
    {shares : Qty}
    (member : order ∈ arrivals.orders) (enough : shares ≤ order.qty)
    (entries : ∀ ref,
      next.orders[ref]? =
        if ref = order.ref then (order.less shares).map (entryOf position)
        else book.orders[ref]?)
    (entryCount :
      next.orders.size = (arrivals.reduce order.ref shares).orders.length)
    (otherSide : ∀ side, side ≠ order.side →
      next.levels side = book.levels side)
    (ownSide : ∀ price,
      (next.levels order.side)[price]? =
        if price = order.price then
          levelOf position
            (reduceIn order.ref shares
              (arrivals.level order.side order.price))
        else (book.levels order.side)[price]?)
    (totalQty :
      next.stats.totalQty =
        book.stats.totalQty.set order.side
          (book.stats.totalQty.get order.side - shares.toUInt64))
    (levelCount : ∀ side,
      next.stats.levelCount.get side = UInt32.ofNat (next.levels side).size)
    (orderCount :
      next.stats.orderCount =
        UInt32.ofNat (arrivals.reduce order.ref shares).orders.length)
    (nextNode : next.nextNode = book.nextNode) :
    RepresentsAt position next (arrivals.reduce order.ref shares) where
  entries := by
    intro ref
    rw [entries]
    split_ifs with same
    · rw [same, ArrivalBook.find?_reduce_self member]
    · rw [ArrivalBook.find?_reduce_of_ne same, represents.entries]
  entryCount := entryCount
  positionBound := by
    intro result resultMember
    obtain ⟨other, otherMember, equal⟩ := mem_reduceIn.mp resultMember
    rw [(Resting.lessAt_eq_some equal).1, nextNode]
    exact represents.positionBound other otherMember
  positionInjective := by
    intro first firstMember second secondMember equal
    obtain ⟨before, beforeMember, firstEqual⟩ :=
      mem_reduceIn.mp firstMember
    obtain ⟨other, otherMember, secondEqual⟩ :=
      mem_reduceIn.mp secondMember
    rw [(Resting.lessAt_eq_some firstEqual).1,
      (Resting.lessAt_eq_some secondEqual).1] at equal ⊢
    exact represents.positionInjective before beforeMember other otherMember
      equal
  levels := by
    intro side price
    by_cases sameSide : side = order.side
    · subst sameSide
      rw [ownSide]
      split_ifs with samePrice
      · rw [samePrice, ArrivalBook.level_reduce]
      · rw [represents.levels, ArrivalBook.level_reduce_of_ne member]
        exact fun both => samePrice both.2.symm
    · rw [otherSide side sameSide, represents.levels,
        ArrivalBook.level_reduce_of_ne member]
      exact fun both => sameSide both.1.symm
  totalQty := by
    intro side
    rw [totalQty]
    by_cases sameSide : side = order.side
    · subst sameSide
      rw [PerSide.get_set_self, represents.totalQty,
        ArrivalBook.onSide_reduce,
        wordQty_reduceIn (arrivals.onSide_refs_nodup _)
          (ArrivalBook.mem_onSide.mpr ⟨member, rfl⟩) enough]
    · rw [PerSide.get_set_of_ne sameSide, represents.totalQty,
        ArrivalBook.onSide_reduce_of_ne member (Ne.symm sameSide)]
  levelCount := levelCount
  orderCount := orderCount

theorem size_ne_zero {side : Side} {levels : LevelMap side}
    {price : Price} (present : levels.contains price) :
    levels.size ≠ 0 := by
  intro zero
  rw [ExtTreeMap.eq_empty_iff_size_eq_zero.mpr zero] at present
  simp at present

section Reduce

variable {position : OrderRef → Nat} {book : MapBook}
  {arrivals : ArrivalBook} {order : Resting} {shares : Qty}

/-- The level of a resting order, as the book stores it. -/
theorem RepresentsAt.ownLevel
    (represents : RepresentsAt position book arrivals)
    (member : order ∈ arrivals.orders) :
    (book.levels order.side)[order.price]? =
      some
        { qty := wordQty (arrivals.level order.side order.price)
          fifo :=
            (arrivals.level order.side order.price).map
              (nodeOf position) } := by
  have inLevel : order ∈ arrivals.level order.side order.price :=
    ArrivalBook.mem_level.mpr ⟨member, rfl, rfl⟩
  rw [represents.levels, levelOf, if_neg (List.ne_nil_of_mem inLevel)]

/-- The book after the quantity of an order and of its side was charged. -/
private def charged (book : MapBook) (ref : OrderRef) (entry : Entry)
    (shares : Qty) : MapBook :=
  { book with
    orders := book.orders.insert ref { entry with qty := entry.qty - shares }
    stats :=
      { book.stats with
        totalQty := book.stats.totalQty.set entry.side
          (book.stats.totalQty.get entry.side - shares.toUInt64) } }

private theorem reduce_eq (book : MapBook) (ref : OrderRef) (entry : Entry)
    (shares : Qty) :
    book.reduce ref entry shares =
      (charged book ref entry shares).reduceLevel ref
        { entry with qty := entry.qty - shares } shares :=
  rfl

private theorem levels_charged (book : MapBook) (ref : OrderRef)
    (entry : Entry) (shares : Qty) (side : Side) :
    (charged book ref entry shares).levels side = book.levels side := by
  cases side <;> rfl

/-- An order which keeps some quantity keeps its place. -/
theorem RepresentsAt.reduce_remaining
    (represents : RepresentsAt position book arrivals)
    (member : order ∈ arrivals.orders) (enough : shares ≤ order.qty)
    (remaining : order.qty ≠ shares) :
    ∃ next,
      book.reduce order.ref (entryOf position order) shares = .ok next ∧
        RepresentsAt position next (arrivals.reduce order.ref shares) := by
  have leftNonzero : order.qty - shares ≠ 0 := by grind
  have inLevel : order ∈ arrivals.level order.side order.price :=
    ArrivalBook.mem_level.mpr ⟨member, rfl, rfl⟩
  have sameLength :
      (arrivals.reduce order.ref shares).orders.length =
        arrivals.orders.length :=
    length_reduceIn_remaining arrivals.distinct member remaining
  have levelPresent : (book.levels order.side).contains order.price := by
    rw [ExtTreeMap.contains_eq_isSome_getElem?, represents.ownLevel member]
    rfl
  have entryPresent : book.orders.contains order.ref := by
    rw [ExtTreeMap.contains_eq_isSome_getElem?, represents.entry member]
    rfl
  have computed :
      book.reduce order.ref (entryOf position order) shares =
        .ok ((charged book order.ref (entryOf position order)
            shares).setLevels order.side
          ((book.levels order.side).insert order.price
            { qty :=
                wordQty (arrivals.level order.side order.price) -
                  shares.toUInt64
              fifo :=
                (arrivals.level order.side order.price).map
                  (nodeOf position) })) := by
    simp only [reduce_eq, reduceLevel, levels_charged, entryOf,
      represents.ownLevel member, leftNonzero, if_false]
  refine ⟨_, computed, represents.of_reduced member enough
    ?_ ?_ ?_ ?_ ?_ ?_ ?_ ?_⟩
  · intro ref
    simp only [setLevels_orders, charged, ExtTreeMap.getElem?_insert]
    by_cases same : ref = order.ref
    · simp [same, Resting.less, remaining, entryOf]
    · simp [same, Ne.symm same]
  · simp only [setLevels_orders, charged]
    rw [ExtTreeMap.size_insert, if_pos entryPresent, represents.entryCount,
      sameLength]
  · intro side distinct
    rw [levels_setLevels_of_ne _ _ _ distinct, levels_charged]
  · intro price
    rw [levels_setLevels_self, ExtTreeMap.getElem?_insert]
    by_cases same : price = order.price
    · subst same
      simp only [inside_eq_eq_iff, if_true]
      exact (levelOf_remaining (arrivals.level_refs_nodup _ _) inLevel
        enough remaining).symm
    · simp [same, Ne.symm same]
  · simp only [setLevels_stats, charged, entryOf]
  · intro side
    rw [setLevels_stats]
    refine (represents.levelCount side).trans ?_
    by_cases sameSide : side = order.side
    · subst sameSide
      rw [levels_setLevels_self, ExtTreeMap.size_insert,
        if_pos levelPresent]
    · rw [levels_setLevels_of_ne _ _ _ sameSide, levels_charged]
  · simp only [setLevels_stats, charged]
    rw [represents.orderCount, sameLength]
  · simp only [setLevels_nextNode, charged]

/-- An order which is left with nothing leaves the book. -/
theorem RepresentsAt.reduce_exhausted
    (represents : RepresentsAt position book arrivals)
    (member : order ∈ arrivals.orders) :
    ∃ next,
      book.reduce order.ref (entryOf position order) order.qty = .ok next ∧
        RepresentsAt position next
          (arrivals.reduce order.ref order.qty) := by
  have inLevel : order ∈ arrivals.level order.side order.price :=
    ArrivalBook.mem_level.mpr ⟨member, rfl, rfl⟩
  have shorter :
      (arrivals.reduce order.ref order.qty).orders.length + 1 =
        arrivals.orders.length :=
    length_reduceIn_exhausted arrivals.distinct member
  have levelPresent : (book.levels order.side).contains order.price := by
    rw [ExtTreeMap.contains_eq_isSome_getElem?, represents.ownLevel member]
    rfl
  have entryPresent : book.orders.contains order.ref := by
    rw [ExtTreeMap.contains_eq_isSome_getElem?, represents.entry member]
    rfl
  have erased := erasePos_map position
    (arrivals.level_refs_nodup order.side order.price)
    (fun other otherMember =>
      represents.positionInjective other
        (ArrivalBook.mem_level.mp otherMember).1 order member)
    inLevel
  have levelQty := wordQty_reduceIn
    (arrivals.level_refs_nodup order.side order.price) inLevel
    (UInt32.le_refl order.qty)
  have entries : ∀ ref,
      ((charged book order.ref (entryOf position order)
          order.qty).orders.erase order.ref)[ref]? =
        if ref = order.ref then
          (order.less order.qty).map (entryOf position)
        else book.orders[ref]? := by
    intro ref
    rw [charged, ExtTreeMap.getElem?_erase, ExtTreeMap.getElem?_insert]
    by_cases same : ref = order.ref
    · simp [same, Resting.less]
    · simp [same, Ne.symm same]
  have entryCount :
      ((charged book order.ref (entryOf position order)
          order.qty).orders.erase order.ref).size =
        (arrivals.reduce order.ref order.qty).orders.length := by
    rw [charged, ExtTreeMap.size_erase, ExtTreeMap.size_insert,
      if_pos entryPresent, if_pos (by simp), represents.entryCount]
    omega
  have orderCount :
      book.stats.orderCount - 1 =
        UInt32.ofNat (arrivals.reduce order.ref order.qty).orders.length := by
    rw [represents.orderCount, ← shorter]
    simp
  by_cases cleared :
      reduceIn order.ref order.qty
        (arrivals.level order.side order.price) = []
  · have nothingLeft :
        wordQty (arrivals.level order.side order.price) -
          order.qty.toUInt64 = 0 := by
      rw [← levelQty, cleared, wordQty_nil]
    have computed :
        book.reduce order.ref (entryOf position order) order.qty =
          .ok
            { (charged book order.ref (entryOf position order)
                order.qty).setLevels order.side
                ((book.levels order.side).erase order.price) with
              orders :=
                (charged book order.ref (entryOf position order)
                  order.qty).orders.erase order.ref
              stats :=
                { totalQty :=
                    book.stats.totalQty.set order.side
                      (book.stats.totalQty.get order.side -
                        order.qty.toUInt64)
                  levelCount :=
                    book.stats.levelCount.set order.side
                      (book.stats.levelCount.get order.side - 1)
                  orderCount := book.stats.orderCount - 1 } } := by
      simp only [reduce_eq, reduceLevel, levels_charged, entryOf,
        represents.ownLevel member, UInt32.sub_self, if_true, erased,
        cleared, ok_bind, List.map_nil, List.isEmpty_nil, nothingLeft,
        assertMsg_of]
      rfl
    refine ⟨_, computed, represents.of_reduced member
      (UInt32.le_refl order.qty) entries entryCount
      ?_ ?_ rfl ?_ orderCount ?_⟩
    · intro side distinct
      rw [levels_mk_setLevels, levels_setLevels_of_ne _ _ _ distinct,
        levels_charged]
    · intro price
      rw [levels_mk_setLevels, levels_setLevels_self,
        ExtTreeMap.getElem?_erase, cleared]
      by_cases same : price = order.price
      · subst same
        simp [levelOf]
      · simp [same, Ne.symm same]
    · intro side
      rw [levels_mk_setLevels]
      by_cases sameSide : side = order.side
      · subst sameSide
        rw [levels_setLevels_self, ExtTreeMap.size_erase,
          if_pos levelPresent, PerSide.get_set_self, represents.levelCount]
        obtain ⟨size, isSize⟩ :=
          Nat.exists_eq_succ_of_ne_zero (size_ne_zero levelPresent)
        simp [isSize]
      · rw [levels_setLevels_of_ne _ _ _ sameSide, levels_charged,
          PerSide.get_set_of_ne sameSide]
        exact represents.levelCount side
    · exact setLevels_nextNode _ _ _
  · have computed :
        book.reduce order.ref (entryOf position order) order.qty =
          .ok
            { (charged book order.ref (entryOf position order)
                order.qty).setLevels order.side
                ((book.levels order.side).insert order.price
                  { qty :=
                      wordQty (arrivals.level order.side order.price) -
                        order.qty.toUInt64
                    fifo :=
                      (reduceIn order.ref order.qty
                        (arrivals.level order.side order.price)).map
                          (nodeOf position) }) with
              orders :=
                (charged book order.ref (entryOf position order)
                  order.qty).orders.erase order.ref
              stats :=
                { totalQty :=
                    book.stats.totalQty.set order.side
                      (book.stats.totalQty.get order.side -
                        order.qty.toUInt64)
                  levelCount := book.stats.levelCount
                  orderCount := book.stats.orderCount - 1 } } := by
      have someLeft :
          ¬ (((reduceIn order.ref order.qty
            (arrivals.level order.side order.price)).map
              (nodeOf position)).isEmpty = true) := by
        simpa using cleared
      simp only [reduce_eq, reduceLevel, levels_charged, entryOf,
        represents.ownLevel member, UInt32.sub_self, if_true, erased,
        ok_bind, someLeft]
      rfl
    refine ⟨_, computed, represents.of_reduced member
      (UInt32.le_refl order.qty) entries entryCount
      ?_ ?_ rfl ?_ orderCount ?_⟩
    · intro side distinct
      rw [levels_mk_setLevels, levels_setLevels_of_ne _ _ _ distinct,
        levels_charged]
    · intro price
      rw [levels_mk_setLevels, levels_setLevels_self,
        ExtTreeMap.getElem?_insert, ← levelQty]
      by_cases same : price = order.price
      · subst same
        simp [levelOf, cleared]
      · simp [same, Ne.symm same]
    · intro side
      rw [levels_mk_setLevels]
      refine (represents.levelCount side).trans ?_
      by_cases sameSide : side = order.side
      · subst sameSide
        rw [levels_setLevels_self, ExtTreeMap.size_insert,
          if_pos levelPresent]
      · rw [levels_setLevels_of_ne _ _ _ sameSide, levels_charged]
    · exact setLevels_nextNode _ _ _

/-- A reduction within the order's quantity never stops at an assertion. -/
theorem RepresentsAt.reduce
    (represents : RepresentsAt position book arrivals)
    (member : order ∈ arrivals.orders) (enough : shares ≤ order.qty) :
    ∃ next,
      book.reduce order.ref (entryOf position order) shares = .ok next ∧
        RepresentsAt position next (arrivals.reduce order.ref shares) := by
  by_cases remaining : order.qty = shares
  · subst remaining
    exact represents.reduce_exhausted member
  · exact represents.reduce_remaining member enough remaining

end Reduce

/-! ## The operations -/

section Operations

variable {position : OrderRef → Nat} {book : MapBook}
  {arrivals : ArrivalBook}

/-- `require` finds the entry of a resting order. -/
theorem RepresentsAt.require
    (represents : RepresentsAt position book arrivals) {order : Resting}
    (member : order ∈ arrivals.orders) (message : String) :
    book.require order.ref message = .ok (entryOf position order) := by
  rw [MapBook.require, represents.entry member]

/-- `require` reports an order which does not rest. -/
theorem RepresentsAt.require_absent
    (represents : RepresentsAt position book arrivals) {ref : OrderRef}
    (absent : arrivals.find? ref = none) (message : String) :
    book.require ref message = .error (.assertion message) := by
  rw [MapBook.require, represents.entries, absent]
  rfl

theorem RepresentsAt.add
    (represents : RepresentsAt position book arrivals) {order : Resting}
    (fresh : arrivals.find? order.ref = none) (positive : order.qty ≠ 0) :
    ∃ next,
      book.add order.ref order.side order.price order.qty order.owner =
          .ok next ∧
        Represents next (arrivals.add order fresh positive) := by
  have noEntry : book.orders[order.ref]? = none := by
    rw [represents.entries, fresh]
    rfl
  have someQty : 0 < order.qty := UInt32.pos_iff_ne_zero.mpr positive
  refine ⟨_, ?_, _, represents.insert fresh positive⟩
  simp [MapBook.add, noEntry, someQty]

theorem RepresentsAt.cancel
    (represents : RepresentsAt position book arrivals) {order : Resting}
    {shares : Qty} (member : order ∈ arrivals.orders)
    (enough : shares ≤ order.qty) :
    ∃ next, book.cancel order.ref shares = .ok next ∧
      RepresentsAt position next (arrivals.reduce order.ref shares) := by
  obtain ⟨next, reduced, relation⟩ := represents.reduce member enough
  refine ⟨next, ?_, relation⟩
  have held : shares ≤ (entryOf position order).qty := enough
  simp [MapBook.cancel, represents.require member, held, reduced]

theorem RepresentsAt.execute
    (represents : RepresentsAt position book arrivals) {order : Resting}
    {shares : Qty} (member : order ∈ arrivals.orders)
    (enough : shares ≤ order.qty) :
    ∃ next, book.execute order.ref shares = .ok (shares, next) ∧
      RepresentsAt position next (arrivals.reduce order.ref shares) := by
  obtain ⟨next, reduced, relation⟩ := represents.reduce member enough
  refine ⟨next, ?_, relation⟩
  have held : shares ≤ (entryOf position order).qty := enough
  simp [MapBook.execute, represents.require member, held, reduced]

theorem RepresentsAt.remove
    (represents : RepresentsAt position book arrivals) {order : Resting}
    (member : order ∈ arrivals.orders) :
    ∃ next, book.remove order.ref = .ok next ∧
      RepresentsAt position next
        (arrivals.reduce order.ref order.qty) := by
  obtain ⟨next, reduced, relation⟩ :=
    represents.reduce member (UInt32.le_refl order.qty)
  have held : (entryOf position order).qty = order.qty := rfl
  refine ⟨next, ?_, relation⟩
  simp [MapBook.remove, represents.require member, held, reduced]

/-- What the list of arrivals accepts, `MapBook` carries out. -/
theorem Represents.apply {operation : Operation} {next : ArrivalBook}
    (represents : Represents book arrivals)
    (accepted : arrivals.perform? operation = some next) :
    ∃ book', OrderBook.apply book operation = .ok book' ∧
      Represents book' next := by
  obtain ⟨position, represents⟩ := represents
  cases operation with
  | add ref side price qty owner =>
      obtain ⟨positive, fresh, rfl⟩ :=
        ArrivalBook.insert?_eq_some_iff.mp accepted
      exact represents.add fresh positive
  | cancel ref shares =>
      obtain ⟨order, member, rfl, enough, rfl⟩ :=
        ArrivalBook.take?_eq_some_iff.mp accepted
      obtain ⟨book', cancelled, relation⟩ :=
        represents.cancel member enough
      exact ⟨book', cancelled, position, relation⟩
  | execute ref shares =>
      obtain ⟨order, member, rfl, enough, rfl⟩ :=
        ArrivalBook.take?_eq_some_iff.mp accepted
      obtain ⟨book', executed, relation⟩ :=
        represents.execute member enough
      refine ⟨book', ?_, position, relation⟩
      change (book.execute order.ref shares >>= fun pair => pure pair.2) = _
      rw [executed, ok_bind, pure_eq_ok]
  | remove ref =>
      obtain ⟨order, member, rfl, rfl⟩ :=
        ArrivalBook.remove?_eq_some_iff.mp accepted
      obtain ⟨book', removed, relation⟩ := represents.remove member
      exact ⟨book', removed, position, relation⟩
  | replace oldRef newRef price qty =>
      obtain ⟨old, member, rfl, inserted⟩ :=
        ArrivalBook.replace?_eq_some_iff.mp accepted
      obtain ⟨positive, fresh, rfl⟩ :=
        ArrivalBook.insert?_eq_some_iff.mp inserted
      obtain ⟨middle, removed, relation⟩ := represents.remove member
      obtain ⟨book', added, final⟩ := relation.add fresh positive
      refine ⟨book', ?_, final⟩
      change book.replace old.ref newRef price qty = _
      simp [MapBook.replace, represents.require member, removed, entryOf,
        added]

/-- The messages of the checks which callers have to pass. -/
def preconditionMessages : List String :=
  ["an order with no quantity cannot rest",
    "order reference added twice",
    "cancel for an order that is not resting",
    "cancel for more than the order holds",
    "execution against an order that is not resting",
    "execution for more than the order holds",
    "delete for an order that is not resting",
    "replace of an order that is not resting"]

/-- What the arrivals refuse the book refuses, by one of its assertions. -/
theorem RepresentsAt.add_refused
    (represents : RepresentsAt position book arrivals) {order : Resting}
    (refused : arrivals.insert? order = none) :
    ∃ message ∈ preconditionMessages,
      book.add order.ref order.side order.price order.qty order.owner =
        .error (.assertion message) := by
  by_cases positive : order.qty = 0
  · refine ⟨"an order with no quantity cannot rest",
      by simp [preconditionMessages], ?_⟩
    simp [MapBook.add, positive]
  · have someQty : 0 < order.qty := UInt32.pos_iff_ne_zero.mpr positive
    have known : arrivals.find? order.ref ≠ none := by
      intro fresh
      simp [ArrivalBook.insert?, positive, fresh] at refused
    refine ⟨"order reference added twice",
      by simp [preconditionMessages], ?_⟩
    have entryKnown : book.orders[order.ref]? ≠ none := by
      rw [represents.entries]
      simpa using known
    simp [MapBook.add, someQty, entryKnown]

/--
What the list of arrivals refuses stops `MapBook` at a check of the call, never
at an assertion about its own containers.
-/
theorem Represents.apply_refused {operation : Operation}
    (represents : Represents book arrivals)
    (refused : arrivals.perform? operation = none) :
    ∃ message ∈ preconditionMessages,
      OrderBook.apply book operation = .error (.assertion message) := by
  obtain ⟨position, represents⟩ := represents
  cases operation with
  | add ref side price qty owner => exact represents.add_refused refused
  | cancel ref shares =>
      rcases ArrivalBook.take?_eq_none_iff.mp refused with
        absent | ⟨order, member, rfl, tooMany⟩
      · refine ⟨"cancel for an order that is not resting",
          by simp [preconditionMessages], ?_⟩
        change book.cancel ref shares = _
        simp [MapBook.cancel, represents.require_absent absent]
      · refine ⟨"cancel for more than the order holds",
          by simp [preconditionMessages], ?_⟩
        change book.cancel order.ref shares = _
        simp [MapBook.cancel, represents.require member, entryOf, tooMany]
  | execute ref shares =>
      rcases ArrivalBook.take?_eq_none_iff.mp refused with
        absent | ⟨order, member, rfl, tooMany⟩
      · refine ⟨"execution against an order that is not resting",
          by simp [preconditionMessages], ?_⟩
        change (book.execute ref shares >>= fun pair => pure pair.2) = _
        simp [MapBook.execute, represents.require_absent absent]
      · refine ⟨"execution for more than the order holds",
          by simp [preconditionMessages], ?_⟩
        change
          (book.execute order.ref shares >>= fun pair => pure pair.2) = _
        simp [MapBook.execute, represents.require member, entryOf, tooMany]
  | remove ref =>
      have absent := ArrivalBook.remove?_eq_none_iff.mp refused
      refine ⟨"delete for an order that is not resting",
        by simp [preconditionMessages], ?_⟩
      change book.remove ref = _
      simp [MapBook.remove, represents.require_absent absent]
  | replace oldRef newRef price qty =>
      rcases ArrivalBook.replace?_eq_none_iff.mp refused with
        absent | ⟨old, member, rfl, insertRefused⟩
      · refine ⟨"replace of an order that is not resting",
          by simp [preconditionMessages], ?_⟩
        change book.replace oldRef newRef price qty = _
        simp [MapBook.replace, represents.require_absent absent]
      · obtain ⟨middle, removed, relation⟩ := represents.remove member
        obtain ⟨message, known, failed⟩ :=
          relation.add_refused insertRefused
        refine ⟨message, known, ?_⟩
        change book.replace old.ref newRef price qty = _
        simp [MapBook.replace, represents.require member, removed, entryOf,
          failed]

end Operations

/-! ## The queries -/

section Queries

variable {position : OrderRef → Nat} {book : MapBook}
  {arrivals : ArrivalBook}

/-- A side's map holds its levels in the order of the side's prices. -/
theorem RepresentsAt.toList
    (represents : RepresentsAt position book arrivals) (side : Side) :
    (book.levels side).toList =
      (arrivals.prices side).map fun price =>
        (price,
          { qty := wordQty (arrivals.level side price)
            fifo := (arrivals.level side price).map (nodeOf position) }) := by
  have inMap : ∀ price level,
      (price, level) ∈ (book.levels side).toList ↔
        levelOf position (arrivals.level side price) = some level := by
    intro price level
    rw [ExtTreeMap.mem_toList_iff_getElem?_eq_some, represents.levels]
  have keys :
      (book.levels side).toList.map Prod.fst = arrivals.prices side := by
    apply ArrivalBook.prices_eq_of_pairwise
    · rw [List.pairwise_map]
      exact ExtTreeMap.ordered_keys_toList.imp fun ordered =>
        inside_eq_lt_iff.mp ordered
    · intro price
      rw [← ArrivalBook.mem_prices, ← ArrivalBook.level_ne_nil_iff,
        List.mem_map]
      constructor
      · rintro ⟨⟨key, level⟩, member, rfl⟩
        have stored := (inMap key level).mp member
        intro empty
        simp [levelOf, empty] at stored
      · intro nonempty
        exact ⟨(price, _), (inMap price _).mpr (if_neg nonempty), rfl⟩
  rw [← keys, List.map_map]
  conv_lhs => rw [← List.map_id (book.levels side).toList]
  refine List.map_congr_left fun pair member => ?_
  obtain ⟨price, level⟩ := pair
  have stored := (inMap price level).mp member
  unfold levelOf at stored
  split_ifs at stored with empty
  simp only [Option.some.injEq] at stored
  simp [← stored]

/-- A side has as many levels as the arrivals have prices there. -/
theorem RepresentsAt.size
    (represents : RepresentsAt position book arrivals) (side : Side) :
    (book.levels side).size = (arrivals.prices side).length := by
  rw [← ExtTreeMap.length_toList, represents.toList, List.length_map]

/-- `MapBook` answers every query like the list of arrivals. -/
theorem Represents.answers (represents : Represents book arrivals) :
    Answers book arrivals := by
  obtain ⟨position, represents⟩ := represents
  have atLevel : ∀ side price,
      (book.levels side)[price]? =
        levelOf position (arrivals.level side price) :=
    represents.levels
  constructor
  case isEmpty =>
    intro side
    change (book.levels side).isEmpty = _
    rw [← ExtTreeMap.isEmpty_toList, represents.toList,
      ArrivalBook.isEmpty_eq_prices_isEmpty]
    simp
  case best =>
    intro side
    change ((book.levels side).toList.head?.map Prod.fst).getD kNoPrice = _
    rw [represents.toList, ArrivalBook.best]
    cases arrivals.prices side <;> rfl
  case qtyAt =>
    intro side price
    change Except.ok (book.qtyAt side price) = _
    rw [MapBook.qtyAt, atLevel, ArrivalBook.qtyAt, levelOf]
    split_ifs with empty
    · rw [empty]
      rfl
    · rfl
  case ordersAt =>
    intro side price
    change Except.ok (book.ordersAt side price) = _
    rw [MapBook.ordersAt, atLevel, ArrivalBook.ordersAt, levelOf]
    split_ifs with empty
    · rw [empty]
      rfl
    · simp
  case frontAt =>
    intro side price
    change Except.ok (book.frontAt side price) = _
    rw [MapBook.frontAt, atLevel, ArrivalBook.frontAt, levelOf]
    cases arrivals.level side price <;> rfl
  case stats =>
    change book.stats = _
    have total : book.stats.totalQty = arrivals.stats.totalQty :=
      PerSide.ext_get fun side => by
        rw [represents.totalQty]
        cases side <;> rfl
    have count : book.stats.levelCount = arrivals.stats.levelCount :=
      PerSide.ext_get fun side => by
        rw [represents.levelCount, represents.size]
        cases side <;> rfl
    cases equal : book.stats with
    | mk totalQty levelCount orderCount =>
        have orders := represents.orderCount
        rw [equal] at total count orders
        simp only at total count orders
        rw [total, count, orders]
        rfl
  case orderCount => exact represents.entryCount
  case contains =>
    intro ref
    change Except.ok (book.orders[ref]?).isSome = _
    rw [represents.entries, Option.isSome_map]
  case sideOf =>
    intro order member
    change book.sideOf order.ref = _
    simp [MapBook.sideOf, represents.require member, entryOf]
  case priceOf =>
    intro order member
    change book.priceOf order.ref = _
    simp [MapBook.priceOf, represents.require member, entryOf]
  case qtyOf =>
    intro order member
    change book.qtyOf order.ref = _
    simp [MapBook.qtyOf, represents.require member, entryOf]
  case ownerOf =>
    intro order member
    change book.ownerOf order.ref = _
    simp [MapBook.ownerOf, represents.require member, entryOf]
  case forEachLevel =>
    intro side
    change Except.ok (book.forEachLevel side) = _
    rw [MapBook.forEachLevel, represents.toList, ArrivalBook.visits,
      List.map_map]
    simp [ArrivalBook.qtyAt, ArrivalBook.ordersAt, Function.comp_def, nodeOf]

/-- `MapBook` refines the list of arrivals, without any limit. -/
theorem refines :
    Refines Represents fun (_ : MapBook) _ => True where
  answers := fun represents => represents.answers
  apply := fun represents _ accepted => represents.apply accepted
  admitsExecute := fun _ _ _ => trivial
  admitsRemove := fun _ _ => trivial

end Queries

end ItchExchange.Book.MapBook
