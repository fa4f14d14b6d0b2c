import ItchExchange.Book.ArrivalBook
import ItchExchange.Book.FlatBook
import ItchExchange.Library.LinkedQueue

/-!
# The records and queues of the pooled book

`Heap` relates the two pools to a list of resting orders: every order has its
record, and every level its record and its queue.  Inside one operation the list
is ahead of the pools or behind them, so `Heap` knows order slots which are in
no queue, and levels which may be empty.

Every part of `add` and `reduce` has one lemma about what it does to the heap.
-/

namespace ItchExchange.Book

open ItchExchange.Core
open LinkedQueue

/-! ## The orders at one level -/

/-- A level is named by its side and its price. -/
abbrev LevelKey := Side × Price

instance lawfulBEqLevelKey : LawfulBEq LevelKey := inferInstance

namespace Resting

/-- The level at which an order rests. -/
def key (order : Resting) : LevelKey := (order.side, order.price)

end Resting

/-- The orders at a level, in arrival order. -/
def atKey (key : LevelKey) (resting : List Resting) : List Resting :=
  resting.filter fun order => decide (order.key = key)

theorem mem_atKey {key : LevelKey} {resting : List Resting}
    {order : Resting} :
    order ∈ atKey key resting ↔ order ∈ resting ∧ order.key = key := by
  simp [atKey]

theorem atKey_append (key : LevelKey) (left right : List Resting) :
    atKey key (left ++ right) = atKey key left ++ atKey key right :=
  List.filter_append ..

theorem ArrivalBook.level_eq_atKey (arrivals : ArrivalBook) (side : Side)
    (price : Price) :
    arrivals.level side price = atKey (side, price) arrivals.orders := by
  unfold level atKey Resting.key
  simp only [Prod.mk.injEq]

/-- Take shares from one reference, and keep an order of which none are left. -/
def Resting.subtractAt (ref : OrderRef) (shares : Qty) (order : Resting) :
    Resting :=
  if order.ref = ref then { order with qty := order.qty - shares } else order

/-- The order of this reference with so many shares less. -/
def subtractIn (ref : OrderRef) (shares : Qty) (resting : List Resting) :
    List Resting :=
  resting.map (Resting.subtractAt ref shares)

section Subtract

variable {ref : OrderRef} {shares : Qty} {resting : List Resting}
  {order : Resting}

@[simp]
theorem Resting.ref_subtractAt (order : Resting) :
    (order.subtractAt ref shares).ref = order.ref := by
  unfold subtractAt
  split_ifs <;> rfl

@[simp]
theorem Resting.key_subtractAt (order : Resting) :
    (order.subtractAt ref shares).key = order.key := by
  unfold subtractAt
  split_ifs <;> rfl

@[simp]
theorem refs_subtractIn :
    (subtractIn ref shares resting).map Resting.ref =
      resting.map Resting.ref := by
  simp [subtractIn]

/-- A level only sees the change if the order rests there. -/
theorem atKey_subtractIn (key : LevelKey) :
    atKey key (subtractIn ref shares resting) =
      subtractIn ref shares (atKey key resting) := by
  unfold atKey subtractIn
  rw [List.filter_map]
  congr 2
  funext order
  simp

theorem subtractIn_of_absent
    (absent : ∀ order ∈ resting, order.ref ≠ ref) :
    subtractIn ref shares resting = resting :=
  (List.map_congr_left fun order member =>
    if_neg (absent order member)).trans (List.map_id' resting)

/-- Orders at different levels have different references. -/
theorem ref_ne_of_key_ne {key : LevelKey} {other : Resting}
    (distinct : (resting.map Resting.ref).Nodup) (member : order ∈ resting)
    (inKey : other ∈ atKey key resting) (different : key ≠ order.key) :
    other.ref ≠ order.ref := by
  intro sameRef
  obtain ⟨otherResting, rfl⟩ := mem_atKey.mp inKey
  exact different (congrArg Resting.key
    (List.inj_on_of_nodup_map distinct otherResting member sameRef))

/-- An order from which everything was taken counts for nothing. -/
theorem wordQty_subtractIn :
    wordQty (subtractIn ref shares resting) =
      wordQty (reduceIn ref shares resting) := by
  induction resting with
  | nil => rfl
  | cons head tail induction =>
      unfold subtractIn reduceIn at induction ⊢
      rw [List.map_cons, wordQty_cons, induction, List.filterMap_cons]
      unfold Resting.subtractAt Resting.lessAt Resting.less
      by_cases same : head.ref = ref
      · by_cases exhausted : head.qty = shares
        · simp [same, exhausted]
        · simp [same, exhausted]
      · simp [same]

/-- While something is left, taking shares is a reduction. -/
theorem subtractIn_of_remaining
    (distinct : (resting.map Resting.ref).Nodup) (member : order ∈ resting)
    (remaining : order.qty ≠ shares) :
    subtractIn order.ref shares resting =
      reduceIn order.ref shares resting := by
  have inj := List.inj_on_of_nodup_map distinct
  unfold subtractIn reduceIn
  rw [← List.filterMap_eq_map]
  refine List.filterMap_congr fun other otherMember => ?_
  unfold Resting.subtractAt Resting.lessAt Resting.less
  by_cases same : other.ref = order.ref
  · obtain rfl := inj otherMember member same
    simp [remaining]
  · simp [same]

/-- The orders under other references. -/
def without (ref : OrderRef) (resting : List Resting) : List Resting :=
  resting.filter fun order => decide (order.ref ≠ ref)

theorem mem_without :
    order ∈ without ref resting ↔ order ∈ resting ∧ order.ref ≠ ref := by
  simp [without]

theorem atKey_without (key : LevelKey) :
    atKey key (without ref resting) = without ref (atKey key resting) := by
  unfold atKey without
  rw [List.filter_filter, List.filter_filter]
  simp only [Bool.and_comm]

/-- What is before and behind an order is the list without it. -/
theorem exists_split (distinct : (resting.map Resting.ref).Nodup)
    (member : order ∈ resting) :
    ∃ front back, resting = front ++ order :: back ∧
      without order.ref resting = front ++ back := by
  obtain ⟨front, back, rfl⟩ := List.append_of_mem member
  refine ⟨front, back, rfl, ?_⟩
  rw [List.map_append, List.map_cons, List.nodup_middle, List.nodup_cons,
    ← List.map_append] at distinct
  have others : ∀ other ∈ front ++ back, other.ref ≠ order.ref := by
    intro other otherMember same
    exact distinct.1 (same ▸ List.mem_map_of_mem otherMember)
  unfold without
  rw [List.filter_append, List.filter_cons_of_neg (by simp),
    ← List.filter_append, List.filter_eq_self]
  intro other otherMember
  exact decide_eq_true (others other otherMember)

theorem without_of_absent (absent : ∀ order ∈ resting, order.ref ≠ ref) :
    without ref resting = resting :=
  List.filter_eq_self.mpr fun order member =>
    decide_eq_true (absent order member)

end Subtract

/-! ## The heap -/

/-- The sizes of the two pools and of the table of the index. -/
structure Limits where
  orders : Nat
  levels : Nat
  index : Nat

/-- The handles of a list of orders. -/
def handles (handleOf : OrderRef → OrderHandle) (resting : List Resting) :
    List OrderHandle :=
  resting.map fun order => handleOf order.ref

/-- The record holds the order, and names its level. -/
structure IsOrder (record : Order) (order : Resting) (lh : LevelHandle) :
    Prop where
  ref : record.ref = order.ref
  side : record.side = order.side
  price : record.price = order.price
  qty : record.qty = order.qty
  owner : record.owner = order.owner
  level : record.level = lh

/-- The queue of the level runs through the orders, and its record sums them. -/
structure IsLevel (handleOf : OrderRef → OrderHandle) (orders : Pool Order)
    (record : Level) (price : Price) (resting : List Resting) : Prop where
  linked : Linked (fun h => (orders.value h).prev)
    (fun h => (orders.value h).next) Handle.null (handles handleOf resting)
    Handle.null
  totalQty : record.totalQty = wordQty resting
  head : record.head = (handles handleOf resting).headD Handle.null
  tail : record.tail = (handles handleOf resting).getLastD Handle.null
  price : record.price = price
  orderCount : record.orderCount = UInt32.ofNat resting.length

/--
The pools hold these orders, at these levels, and nothing else but the order
slots `extra`, which are in no queue.
-/
structure Heap (limits : Limits) (handleOf : OrderRef → OrderHandle)
    (levelOf : LevelKey → LevelHandle) (orders : Pool Order)
    (levels : Pool Level) (extra : List OrderHandle) (keys : List LevelKey)
    (resting : List Resting) : Prop where
  distinct : (resting.map Resting.ref).Nodup
  ordersServe : orders.Serves limits.orders (extra ++ handles handleOf resting)
  levelsServe : levels.Serves limits.levels (keys.map levelOf)
  record : ∀ order ∈ resting,
    IsOrder (orders.value (handleOf order.ref)) order (levelOf order.key)
  covered : ∀ order ∈ resting, order.key ∈ keys
  level : ∀ key ∈ keys,
    IsLevel handleOf orders (levels.value (levelOf key)) key.2
      (atKey key resting)

section Heap

variable {limits : Limits} {handleOf : OrderRef → OrderHandle}
  {levelOf : LevelKey → LevelHandle} {orders : Pool Order}
  {levels : Pool Level} {extra : List OrderHandle} {keys : List LevelKey}
  {resting : List Resting} {order : Resting} {key : LevelKey}

theorem mem_handles {h : OrderHandle} :
    h ∈ handles handleOf resting ↔
      ∃ order ∈ resting, handleOf order.ref = h :=
  List.mem_map

theorem handle_mem (member : order ∈ resting) :
    handleOf order.ref ∈ handles handleOf resting :=
  mem_handles.mpr ⟨order, member, rfl⟩

theorem handles_append (left right : List Resting) :
    handles handleOf (left ++ right) =
      handles handleOf left ++ handles handleOf right :=
  List.map_append

theorem handles_cons (head : Resting) (tail : List Resting) :
    handles handleOf (head :: tail) =
      handleOf head.ref :: handles handleOf tail :=
  rfl

/-- Only the handles of the resting orders count. -/
theorem handles_congr {handleOf' : OrderRef → OrderHandle}
    (same : ∀ order ∈ resting, handleOf' order.ref = handleOf order.ref) :
    handles handleOf' resting = handles handleOf resting :=
  List.map_congr_left same

theorem handles_atKey_sublist (key : LevelKey) :
    (handles handleOf (atKey key resting)).Sublist
      (handles handleOf resting) :=
  List.filter_sublist.map _

theorem handle_live (member : order ∈ resting) :
    handleOf order.ref ∈ extra ++ handles handleOf resting :=
  List.mem_append_right _ (handle_mem member)

theorem level_live (member : key ∈ keys) :
    levelOf key ∈ keys.map levelOf :=
  List.mem_map_of_mem member

section Facts

variable (heap : Heap limits handleOf levelOf orders levels extra keys resting)

include heap

/-- No order handle is used twice. -/
theorem Heap.live_nodup : (extra ++ handles handleOf resting).Nodup :=
  List.Nodup.of_map _ heap.ordersServe.nodup

theorem Heap.handles_nodup : (handles handleOf resting).Nodup :=
  (List.nodup_append.mp heap.live_nodup).2.1

theorem Heap.queue_nodup (key : LevelKey) :
    (handles handleOf (atKey key resting)).Nodup :=
  heap.handles_nodup.sublist (handles_atKey_sublist key)

theorem Heap.keys_nodup : keys.Nodup :=
  List.Nodup.of_map levelOf (List.Nodup.of_map _ heap.levelsServe.nodup)

/-- Resting orders are told apart by their handles. -/
theorem Heap.eq_of_handle {first second : Resting}
    (firstMember : first ∈ resting) (secondMember : second ∈ resting)
    (equal : handleOf first.ref = handleOf second.ref) : first = second :=
  List.inj_on_of_nodup_map heap.handles_nodup firstMember secondMember equal

/-- An order slot in no queue is not that of a resting order. -/
theorem Heap.not_mem_extra {h : OrderHandle}
    (member : h ∈ handles handleOf resting) : h ∉ extra := fun inExtra =>
  (List.nodup_append.mp heap.live_nodup).2.2 h inExtra h member rfl

/-- The end of a queue is told apart from its orders. -/
theorem Heap.null_not_mem_queue (key : LevelKey) :
    Handle.null ∉ handles handleOf (atKey key resting) := by
  intro isNull
  obtain ⟨order, member, equal⟩ :=
    mem_handles.mp ((handles_atKey_sublist key).subset isNull)
  exact heap.ordersServe.ne_null (handle_live member) equal

/-- A level without a tail has no head. -/
theorem Heap.head_eq_null (member : key ∈ keys)
    (noTail : (levels.value (levelOf key)).tail = Handle.null) :
    (levels.value (levelOf key)).head = Handle.null := by
  have level := heap.level key member
  have notNull := heap.null_not_mem_queue key
  rw [level.tail] at noTail
  rw [level.head]
  cases isEmpty : handles handleOf (atKey key resting) with
  | nil => rfl
  | cons first rest =>
      rw [isEmpty] at noTail notNull
      have last :=
        getLastD_mem_of_ne_nil (List.cons_ne_nil first rest) Handle.null
      exact absurd (noTail ▸ last) notNull

/-- Levels are told apart by their handles. -/
theorem Heap.eq_of_level {first second : LevelKey}
    (firstMember : first ∈ keys) (secondMember : second ∈ keys)
    (equal : levelOf first = levelOf second) : first = second :=
  List.inj_on_of_nodup_map (List.Nodup.of_map _ heap.levelsServe.nodup)
    firstMember secondMember equal

theorem Heap.handle_ne_null (member : order ∈ resting) :
    handleOf order.ref ≠ Handle.null :=
  heap.ordersServe.ne_null (handle_live member)

theorem Heap.null_not_mem_handles : Handle.null ∉ handles handleOf resting := by
  intro member
  obtain ⟨order, orderMember, isNull⟩ := mem_handles.mp member
  exact heap.handle_ne_null orderMember isNull

theorem Heap.level_ne_null (member : key ∈ keys) :
    levelOf key ≠ Handle.null :=
  heap.levelsServe.ne_null (level_live member)

/-- The record of a resting order can be read. -/
theorem Heap.get_order (member : order ∈ resting) :
    orders.get (handleOf order.ref) =
      .ok (orders.value (handleOf order.ref)) :=
  heap.ordersServe.get (handle_live member)

/-- So can the record of a level with orders. -/
theorem Heap.get_level (member : key ∈ keys) :
    levels.get (levelOf key) = .ok (levels.value (levelOf key)) :=
  heap.levelsServe.get (level_live member)

/-- The links of a resting order stay inside its queue, or are null. -/
theorem Heap.neighbours (member : order ∈ resting) :
    ((orders.value (handleOf order.ref)).prev = Handle.null ∨
      (orders.value (handleOf order.ref)).prev ∈
        handles handleOf (atKey order.key resting)) ∧
    ((orders.value (handleOf order.ref)).next = Handle.null ∨
      (orders.value (handleOf order.ref)).next ∈
        handles handleOf (atKey order.key resting)) := by
  have linked := (heap.level order.key (heap.covered order member)).linked
  obtain ⟨front, back, whole⟩ :=
    List.append_of_mem (mem_atKey.mpr ⟨member, rfl⟩)
  rw [whole, handles_append] at linked ⊢
  obtain ⟨prev, next⟩ := Linked.neighbours linked
  dsimp only at prev next
  rw [prev, next]
  refine ⟨?_, ?_⟩
  · exact (getLastD_mem _ _).imp_right (List.mem_append_left _)
  · refine (headD_mem _ _).imp_right fun inBack => ?_
    exact List.mem_append_right _ (List.mem_cons_of_mem _ inBack)

/-- An order is not linked to itself. -/
theorem Heap.neighbours_ne (member : order ∈ resting) :
    (orders.value (handleOf order.ref)).prev ≠ handleOf order.ref ∧
      (orders.value (handleOf order.ref)).next ≠ handleOf order.ref := by
  have linked := (heap.level order.key (heap.covered order member)).linked
  have distinct := heap.queue_nodup order.key
  have notNull := heap.handle_ne_null member
  obtain ⟨front, back, whole⟩ :=
    List.append_of_mem (mem_atKey.mpr ⟨member, rfl⟩)
  rw [whole, handles_append, handles_cons] at linked distinct
  obtain ⟨prev, next⟩ := Linked.neighbours linked
  have alone := (List.nodup_cons.mp (List.nodup_middle.mp distinct)).1
  rw [List.mem_append, not_or] at alone
  rw [prev, next]
  constructor
  · intro same
    rcases getLastD_mem (handles handleOf front) Handle.null with
      isNull | inFront
    · exact notNull (same.symm.trans isNull)
    · exact alone.1 (same ▸ inFront)
  · intro same
    rcases headD_mem (handles handleOf back) Handle.null with
      isNull | inBack
    · exact notNull (same.symm.trans isNull)
    · exact alone.2 (same ▸ inBack)

/-- No order is in two queues. -/
theorem Heap.key_unique {first second : LevelKey} {h : OrderHandle}
    (inFirst : h ∈ handles handleOf (atKey first resting))
    (inSecond : h ∈ handles handleOf (atKey second resting)) :
    first = second := by
  obtain ⟨one, oneMember, rfl⟩ := mem_handles.mp inFirst
  obtain ⟨other, otherMember, equal⟩ := mem_handles.mp inSecond
  obtain ⟨oneResting, rfl⟩ := mem_atKey.mp oneMember
  obtain ⟨otherResting, rfl⟩ := mem_atKey.mp otherMember
  rw [heap.eq_of_handle otherResting oneResting equal]

end Facts

/-- A level depends on the records of its own orders only. -/
theorem IsLevel.congr {orders' : Pool Order} {record : Level} {price : Price}
    (level : IsLevel handleOf orders record price resting)
    {handleOf' : OrderRef → OrderHandle}
    (sameHandles : ∀ order ∈ resting,
      handleOf' order.ref = handleOf order.ref)
    (samePrev : ∀ h ∈ handles handleOf resting,
      (orders'.value h).prev = (orders.value h).prev)
    (sameNext : ∀ h ∈ handles handleOf resting,
      (orders'.value h).next = (orders.value h).next) :
    IsLevel handleOf' orders' record price resting := by
  have same := handles_congr sameHandles
  refine ⟨?_, level.totalQty, ?_, ?_, level.price, level.orderCount⟩
  · rw [same]
    exact level.linked.congr samePrev sameNext
  · rw [same, level.head]
  · rw [same, level.tail]

/-! ## Slots come and go -/

/-- Order slots in no queue are handed out and given back. -/
theorem Heap.replaceExtra
    (heap : Heap limits handleOf levelOf orders levels extra keys resting)
    {orders' : Pool Order} {extra' : List OrderHandle}
    (serves : orders'.Serves limits.orders
      (extra' ++ handles handleOf resting))
    (same : ∀ h ∈ handles handleOf resting,
      orders'.value h = orders.value h) :
    Heap limits handleOf levelOf orders' levels extra' keys resting where
  distinct := heap.distinct
  ordersServe := serves
  levelsServe := heap.levelsServe
  record := by
    intro order member
    rw [same _ (handle_mem member)]
    exact heap.record order member
  covered := heap.covered
  level := by
    intro key member
    have queue : ∀ h ∈ handles handleOf (atKey key resting),
        orders'.value h = orders.value h :=
      fun h inQueue => same h ((handles_atKey_sublist key).subset inQueue)
    exact (heap.level key member).congr (fun _ _ => rfl)
      (fun h inQueue => by rw [queue h inQueue])
      (fun h inQueue => by rw [queue h inQueue])

/-- A level without orders is given back. -/
theorem Heap.dropLevel
    (heap : Heap limits handleOf levelOf orders levels extra keys resting)
    (isEmpty : atKey key resting = []) {levels' : Pool Level}
    (serves : levels'.Serves limits.levels ((keys.erase key).map levelOf))
    (same : ∀ other ∈ (keys.erase key).map levelOf,
      levels'.value other = levels.value other) :
    Heap limits handleOf levelOf orders levels' extra (keys.erase key)
      resting where
  distinct := heap.distinct
  ordersServe := heap.ordersServe
  levelsServe := serves
  record := heap.record
  covered := by
    intro order member
    refine (List.mem_erase_of_ne ?_).mpr (heap.covered order member)
    rintro rfl
    have inQueue := mem_atKey.mpr ⟨member, rfl⟩
    rw [isEmpty] at inQueue
    cases inQueue
  level := by
    intro other member
    rw [same _ (level_live member)]
    exact heap.level other (List.mem_of_mem_erase member)

/-- A level of a new key joins, with an empty queue. -/
theorem Heap.newLevel
    (heap : Heap limits handleOf levelOf orders levels extra keys resting)
    (absent : key ∉ keys) {lh : LevelHandle} {levels' : Pool Level}
    (serves : levels'.Serves limits.levels (lh :: keys.map levelOf))
    (same : ∀ other ∈ keys.map levelOf,
      levels'.value other = levels.value other)
    (isEmpty : IsLevel handleOf orders (levels'.value lh) key.2 []) :
    Heap limits handleOf (Function.update levelOf key lh) orders levels' extra
      (key :: keys) resting := by
  have kept : ∀ other ∈ keys, Function.update levelOf key lh other =
      levelOf other := by
    intro other member
    rw [Function.update_of_ne]
    rintro rfl
    exact absent member
  refine
    { distinct := heap.distinct
      ordersServe := heap.ordersServe
      levelsServe := ?_
      record := ?_
      covered := fun order member =>
        List.mem_cons_of_mem key (heap.covered order member)
      level := ?_ }
  · rw [List.map_cons, Function.update_self, List.map_congr_left kept]
    exact serves
  · intro order member
    rw [kept _ (heap.covered order member)]
    exact heap.record order member
  · intro other member
    rcases List.mem_cons.mp member with rfl | older
    · have none : atKey other resting = [] := by
        rw [List.eq_nil_iff_forall_not_mem]
        intro order inQueue
        obtain ⟨orderMember, rfl⟩ := mem_atKey.mp inQueue
        exact absent (heap.covered order orderMember)
      rw [none, Function.update_self]
      exact isEmpty
    · rw [kept other older, same _ (level_live older)]
      exact heap.level other older

/-! ## An order joins the queue of its level -/

/--
What the pools must hold after a push: the new record is linked behind the tail,
the tail is linked to it, and the record of the level counts it.
-/
theorem Heap.push {extra' : List OrderHandle}
    (heap : Heap limits handleOf levelOf orders levels extra' keys resting)
    (fresh : ∀ other ∈ resting, other.ref ≠ order.ref)
    (present : order.key ∈ keys) {oh : OrderHandle} {orders' : Pool Order}
    {levels' : Pool Level}
    (ordersServe : orders'.Serves limits.orders
      (extra ++ handles handleOf resting ++ [oh]))
    (levelsServe : levels'.Serves limits.levels (keys.map levelOf))
    (record : IsOrder (orders'.value oh) order (levelOf order.key))
    (prevNew : (orders'.value oh).prev = (levels.value (levelOf order.key)).tail)
    (nextNew : (orders'.value oh).next = Handle.null)
    (older : ∀ h ∈ handles handleOf resting, orders'.value h =
      { orders.value h with
        next :=
          if h = (levels.value (levelOf order.key)).tail then oh
          else (orders.value h).next })
    (ownLevel : levels'.value (levelOf order.key) =
      { levels.value (levelOf order.key) with
        head :=
          if (levels.value (levelOf order.key)).tail = Handle.null then oh
          else (levels.value (levelOf order.key)).head
        tail := oh
        totalQty := (levels.value (levelOf order.key)).totalQty +
          order.qty.toUInt64
        orderCount := (levels.value (levelOf order.key)).orderCount + 1 })
    (otherLevels : ∀ other ∈ keys, other ≠ order.key →
      levels'.value (levelOf other) = levels.value (levelOf other)) :
    Heap limits (Function.update handleOf order.ref oh) levelOf orders' levels'
      extra keys (resting ++ [order]) := by
  have kept : ∀ other ∈ resting,
      Function.update handleOf order.ref oh other.ref = handleOf other.ref :=
    fun other member => Function.update_of_ne (fresh other member) oh handleOf
  have own : handles (Function.update handleOf order.ref oh) [order] = [oh] := by
    simp [handles]
  have level := heap.level order.key present
  have queueKept : ∀ key, handles (Function.update handleOf order.ref oh)
      (atKey key resting) = handles handleOf (atKey key resting) :=
    fun key => handles_congr fun other member =>
      kept other (mem_atKey.mp member).1
  have inQueue : ∀ {key h}, h ∈ handles handleOf (atKey key resting) →
      orders'.value h = _ :=
    fun member => older _ ((handles_atKey_sublist _).subset member)
  constructor
  case distinct =>
    rw [List.map_append, List.nodup_append]
    refine ⟨heap.distinct, by simp, ?_⟩
    rintro ref old other new rfl
    obtain ⟨other, member, rfl⟩ := List.mem_map.mp old
    exact fresh other member (List.mem_singleton.mp new)
  case ordersServe =>
    rw [handles_append, handles_congr kept, own, ← List.append_assoc]
    exact ordersServe
  case levelsServe => exact levelsServe
  case record =>
    intro other member
    rcases List.mem_append.mp member with old | new
    · rw [kept other old, older _ (handle_mem old)]
      exact { heap.record other old with }
    · rw [List.mem_singleton.mp new, Function.update_self]
      exact record
  case covered =>
    intro other member
    rcases List.mem_append.mp member with old | new
    · exact heap.covered other old
    · rw [List.mem_singleton.mp new]
      exact present
  case level =>
    intro key member
    rw [atKey_append]
    by_cases same : key = order.key
    · subst same
      have alone : atKey order.key [order] = [order] := by simp [atKey]
      rw [alone, ownLevel]
      have queue : handles (Function.update handleOf order.ref oh)
          (atKey order.key resting ++ [order]) =
            handles handleOf (atKey order.key resting) ++ [oh] := by
        rw [handles_append, own, queueKept]
      constructor
      case linked =>
        rw [queue]
        refine level.linked.push (heap.queue_nodup order.key) ?_ ?_ ?_ nextNew
        · intro h member
          rw [inQueue member, level.tail]
        · intro h member
          rw [inQueue member]
        · rw [prevNew, level.tail]
      case totalQty =>
        rw [wordQty_append, level.totalQty]
        simp
      case head =>
        rw [queue, level.tail, level.head]
        have notNull : Handle.null ∉
            handles handleOf (atKey order.key resting) := fun member =>
          heap.null_not_mem_handles
            ((handles_atKey_sublist _).subset member)
        cases empty : handles handleOf (atKey order.key resting) with
        | nil => rfl
        | cons first rest =>
            rw [empty] at notNull
            have last := getLastD_mem_of_ne_nil
              (List.cons_ne_nil first rest) Handle.null
            rw [if_neg]
            · rfl
            · intro isNull
              rw [isNull] at last
              exact notNull last
      case tail => rw [queue, getLastD_append]; rfl
      case price => exact level.price
      case orderCount =>
        rw [level.orderCount, List.length_append, UInt32.ofNat_add]
        rfl
    · have none : atKey key [order] = [] := by simp [atKey, Ne.symm same]
      rw [none, List.append_nil, otherLevels key member same]
      refine (heap.level key member).congr
        (fun other inKey => kept other (mem_atKey.mp inKey).1) ?_ ?_
      · intro h inKey
        rw [inQueue inKey]
      · intro h inKey
        rw [inQueue inKey]
        refine if_neg fun isTail => ?_
        rw [level.tail] at isTail
        rcases getLastD_mem (handles handleOf (atKey order.key resting))
            Handle.null with isNull | inOwn
        · rw [isNull] at isTail
          exact heap.null_not_mem_handles
            (isTail ▸ (handles_atKey_sublist _).subset inKey)
        · exact same (heap.key_unique inKey (isTail ▸ inOwn))

/-! ## An order loses shares -/

theorem handles_subtractIn (ref : OrderRef) (shares : Qty) :
    handles handleOf (subtractIn ref shares resting) =
      handles handleOf resting := by
  simp [handles, subtractIn]

theorem length_subtractIn (ref : OrderRef) (shares : Qty) :
    (subtractIn ref shares resting).length = resting.length :=
  List.length_map _

/--
A heap in which one order and the total of its level lost the same quantity.
-/
theorem Heap.subtract
    (heap : Heap limits handleOf levelOf orders levels extra keys resting)
    (member : order ∈ resting) {shares : Qty} (enough : shares ≤ order.qty)
    {orders' : Pool Order} {levels' : Pool Level}
    (ordersServe : orders'.Serves limits.orders
      (extra ++ handles handleOf resting))
    (levelsServe : levels'.Serves limits.levels (keys.map levelOf))
    (own : orders'.value (handleOf order.ref) =
      { orders.value (handleOf order.ref) with qty := order.qty - shares })
    (others : ∀ h ∈ handles handleOf resting, h ≠ handleOf order.ref →
      orders'.value h = orders.value h)
    (ownLevel : levels'.value (levelOf order.key) =
      { levels.value (levelOf order.key) with
        totalQty := (levels.value (levelOf order.key)).totalQty -
          shares.toUInt64 })
    (otherLevels : ∀ other ∈ keys, other ≠ order.key →
      levels'.value (levelOf other) = levels.value (levelOf other)) :
    Heap limits handleOf levelOf orders' levels' extra keys
      (subtractIn order.ref shares resting) := by
  have distinct := heap.distinct
  have links : ∀ h ∈ handles handleOf resting,
      (orders'.value h).prev = (orders.value h).prev ∧
        (orders'.value h).next = (orders.value h).next := by
    intro h inside
    by_cases same : h = handleOf order.ref
    · rw [same, own]
      exact ⟨rfl, rfl⟩
    · rw [others h inside same]
      exact ⟨rfl, rfl⟩
  have queue : ∀ key ∈ keys, IsLevel handleOf orders'
      (levels.value (levelOf key)) key.2 (atKey key resting) := by
    intro key keyMember
    have inside : ∀ h ∈ handles handleOf (atKey key resting),
        h ∈ handles handleOf resting :=
      (handles_atKey_sublist key).subset
    exact (heap.level key keyMember).congr (fun _ _ => rfl)
      (fun h inKey => (links h (inside h inKey)).1)
      (fun h inKey => (links h (inside h inKey)).2)
  constructor
  case distinct => rw [refs_subtractIn]; exact distinct
  case ordersServe => rw [handles_subtractIn]; exact ordersServe
  case levelsServe => exact levelsServe
  case record =>
    intro other otherMember
    obtain ⟨before, beforeMember, rfl⟩ := List.mem_map.mp otherMember
    have record := heap.record before beforeMember
    rw [Resting.ref_subtractAt, Resting.key_subtractAt]
    unfold Resting.subtractAt
    by_cases same : before.ref = order.ref
    · obtain rfl :=
        List.inj_on_of_nodup_map distinct beforeMember member same
      rw [own, if_pos rfl]
      exact { record with qty := rfl }
    · have different : handleOf before.ref ≠ handleOf order.ref := by
        intro sameHandle
        exact same (congrArg Resting.ref
          (heap.eq_of_handle beforeMember member sameHandle))
      rw [others _ (handle_mem beforeMember) different, if_neg same]
      exact record
  case covered =>
    intro other otherMember
    obtain ⟨before, beforeMember, rfl⟩ := List.mem_map.mp otherMember
    rw [Resting.key_subtractAt]
    exact heap.covered before beforeMember
  case level =>
    intro key keyMember
    have level := queue key keyMember
    rw [atKey_subtractIn]
    by_cases same : key = order.key
    · subst same
      have queueRefs : ((atKey order.key resting).map Resting.ref).Nodup :=
        distinct.sublist (List.filter_sublist.map _)
      rw [ownLevel]
      refine ⟨?_, ?_, ?_, ?_, level.price, ?_⟩
      · rw [handles_subtractIn]
        exact level.linked
      · rw [wordQty_subtractIn, wordQty_reduceIn queueRefs
          (mem_atKey.mpr ⟨member, rfl⟩) enough, level.totalQty]
      · rw [handles_subtractIn]
        exact level.head
      · rw [handles_subtractIn]
        exact level.tail
      · rw [length_subtractIn]
        exact level.orderCount
    · have untouched : subtractIn order.ref shares (atKey key resting) =
          atKey key resting := by
        exact subtractIn_of_absent fun other inKey =>
          ref_ne_of_key_ne distinct member inKey same
      rw [untouched, otherLevels key keyMember same]
      exact level

/-! ## An order leaves the queue of its level -/

/-- The record under `h` once the node of `record` is skipped by the links. -/
def Order.skipping (order record : Order) (h : OrderHandle) : Order :=
  { order with
    prev := if h = record.next then record.prev else order.prev
    next := if h = record.prev then record.next else order.next }

/--
What the pools must hold after an order of which nothing is left has been taken
out of its queue: its neighbours are linked to each other.
-/
theorem Heap.pull
    (heap : Heap limits handleOf levelOf orders levels extra keys resting)
    (member : order ∈ resting) (exhausted : order.qty = 0)
    {record : Order} (isRecord : orders.value (handleOf order.ref) = record)
    {level : Level} (isLevel : levels.value (levelOf order.key) = level)
    {orders' : Pool Order} {levels' : Pool Level}
    (ordersServe : orders'.Serves limits.orders
      (extra ++ handles handleOf resting))
    (levelsServe : levels'.Serves limits.levels (keys.map levelOf))
    (others : ∀ h ∈ handles handleOf resting, h ≠ handleOf order.ref →
      orders'.value h = (orders.value h).skipping record h)
    (ownLevel : levels'.value (levelOf order.key) =
      { level with
        head := if record.prev = Handle.null then record.next else level.head
        tail := if record.next = Handle.null then record.prev else level.tail
        orderCount := level.orderCount - 1 })
    (otherLevels : ∀ other ∈ keys, other ≠ order.key →
      levels'.value (levelOf other) = levels.value (levelOf other)) :
    Heap limits handleOf levelOf orders' levels'
      (handleOf order.ref :: extra) keys (without order.ref resting) := by
  have distinct := heap.distinct
  have different : ∀ {other}, other ∈ without order.ref resting →
      handleOf other.ref ≠ handleOf order.ref := by
    intro other otherMember same
    obtain ⟨otherResting, otherRef⟩ := mem_without.mp otherMember
    exact otherRef (congrArg Resting.ref
      (heap.eq_of_handle otherResting member same))
  have otherValue : ∀ {other}, other ∈ without order.ref resting →
      orders'.value (handleOf other.ref) =
        (orders.value (handleOf other.ref)).skipping record
          (handleOf other.ref) := fun otherMember =>
    others _ (handle_mem (mem_without.mp otherMember).1)
      (different otherMember)
  constructor
  case distinct =>
    exact distinct.sublist (List.filter_sublist.map _)
  case ordersServe =>
    obtain ⟨front, back, whole, left⟩ := exists_split distinct member
    refine ordersServe.perm ?_
    rw [left, whole, handles_append, handles_append]
    refine List.Perm.trans ?_ (List.perm_middle.symm.append_left extra)
    exact List.perm_middle.symm
  case levelsServe => exact levelsServe
  case record =>
    intro other otherMember
    rw [otherValue otherMember]
    exact { heap.record other (mem_without.mp otherMember).1 with }
  case covered =>
    exact fun other otherMember =>
      heap.covered other (mem_without.mp otherMember).1
  case level =>
    intro key keyMember
    rw [atKey_without]
    by_cases same : key = order.key
    · subst same
      have own := heap.level order.key keyMember
      have inQueue : order ∈ atKey order.key resting :=
        mem_atKey.mpr ⟨member, rfl⟩
      have queueRefs : ((atKey order.key resting).map Resting.ref).Nodup :=
        distinct.sublist (List.filter_sublist.map _)
      obtain ⟨front, back, whole, left⟩ := exists_split queueRefs inQueue
      have queueDistinct := heap.queue_nodup order.key
      have notNull : Handle.null ∉
          handles handleOf (atKey order.key resting) := fun isNull =>
        heap.null_not_mem_handles ((handles_atKey_sublist _).subset isNull)
      have queueValue : ∀ h ∈ handles handleOf front ++ handles handleOf back,
          orders'.value h = (orders.value h).skipping record h := by
        intro h inside
        rw [← handles_append, ← left, ← atKey_without] at inside
        obtain ⟨other, otherMember, rfl⟩ := mem_handles.mp inside
        exact otherValue (mem_atKey.mp otherMember).1
      rw [whole, handles_append] at queueDistinct notNull
      have outside : Handle.null ∉
          handles handleOf front ++ handles handleOf back := by
        intro isNull
        rcases List.mem_append.mp isNull with inFront | inBack
        · exact notNull (List.mem_append_left _ inFront)
        · exact notNull
            (List.mem_append_right _ (List.mem_cons_of_mem _ inBack))
      have linked := own.linked
      rw [whole, handles_append, handles_cons] at linked
      obtain ⟨prev, next⟩ := Linked.neighbours linked
      rw [isRecord] at prev next
      rw [left, ownLevel]
      constructor
      case linked =>
        rw [handles_append]
        refine Linked.unlink linked queueDistinct outside outside ?_ ?_
        · intro h inside
          rw [queueValue h inside, isRecord]
          rfl
        · intro h inside
          rw [queueValue h inside, isRecord]
          rfl
      case totalQty =>
        have total := own.totalQty
        rw [whole, wordQty_append, wordQty_cons, exhausted, isLevel] at total
        rw [wordQty_append, total]
        simp
      case head =>
        have head := own.head
        rw [whole, handles_append, isLevel] at head
        rw [handles_append, prev, next]
        dsimp only
        cases front with
        | nil => exact if_pos rfl
        | cons first rest =>
            rw [if_neg, head]
            · rfl
            · intro isNull
              refine outside (List.mem_append_left _ ?_)
              exact isNull ▸ getLastD_mem_of_ne_nil
                (List.cons_ne_nil _ (handles handleOf rest)) Handle.null
      case tail =>
        have tail := own.tail
        rw [whole, handles_append, isLevel, getLastD_append] at tail
        rw [handles_append, getLastD_append, prev, next]
        dsimp only
        cases back with
        | nil => exact if_pos rfl
        | cons first rest =>
            rw [if_neg, tail, handles_cons, handles_cons,
              List.getLastD_cons, List.getLastD_cons, List.getLastD_cons]
            · intro isNull
              refine outside (List.mem_append_right _ ?_)
              exact isNull ▸ headD_mem_of_ne_nil
                (List.cons_ne_nil _ (handles handleOf rest)) Handle.null
      case price => exact isLevel ▸ own.price
      case orderCount =>
        have count := own.orderCount
        rw [whole, isLevel, List.length_append, List.length_cons,
          ← Nat.add_assoc, UInt32.ofNat_add] at count
        dsimp only
        rw [count, List.length_append]
        exact UInt32.add_sub_cancel _ _
    · have untouched : without order.ref (atKey key resting) =
          atKey key resting :=
        without_of_absent fun other inKey =>
          ref_ne_of_key_ne distinct member inKey same
      have elsewhere : ∀ {link h}, h ∈ handles handleOf (atKey key resting) →
          link = Handle.null ∨
            link ∈ handles handleOf (atKey order.key resting) → h ≠ link := by
        rintro link h inKey (rfl | inOwn) rfl
        · exact heap.null_not_mem_handles
            ((handles_atKey_sublist _).subset inKey)
        · exact same (heap.key_unique inKey inOwn)
      have links := heap.neighbours member
      rw [isRecord] at links
      have queueValue : ∀ h ∈ handles handleOf (atKey key resting),
          orders'.value h = orders.value h := by
        intro h inKey
        have inside := (handles_atKey_sublist _).subset inKey
        rw [others h inside ?_, Order.skipping,
          if_neg (elsewhere inKey links.1), if_neg (elsewhere inKey links.2)]
        rw [← untouched, ← atKey_without] at inKey
        obtain ⟨other, otherMember, rfl⟩ := mem_handles.mp inKey
        exact different (mem_atKey.mp otherMember).1
      rw [untouched, otherLevels key keyMember same]
      exact (heap.level key keyMember).congr (fun _ _ => rfl)
        (fun h inKey => by rw [queueValue h inKey])
        (fun h inKey => by rw [queueValue h inKey])

end Heap

end ItchExchange.Book
