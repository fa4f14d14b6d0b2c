import ItchExchange.Book.AvlBook
import ItchExchange.Book.PoolRuns

/-!
# The queues of the pooled book

What the fields of the records say in every state of a run: the queue of each
level can be walked both ways, its orders name their level, and the handles in
the queues, in the index and in the level maps are those of the slots in use.
-/

namespace ItchExchange.Book

open ItchExchange.Core

namespace BookT

variable {M : Type} {hash : OrderRef → UInt64}

/-- The handles on the way along a link, from a handle to the null handle. -/
def walk (book : BookT M hash) (link : Order → OrderHandle) :
    Nat → OrderHandle → Checked (List OrderHandle)
  | 0, _ => .error .divergence
  | fuel + 1, h =>
      if h.isNull then pure []
      else do
        let order ← book.orders.get h
        let rest ← book.walk link fuel (link order)
        pure (h :: rest)

/-- The queue at a price of a side, from its head. -/
def queueAt [LevelMap M] (book : BookT M hash) (key : LevelKey) :
    Checked (List OrderHandle) := do
  let lh ← LevelMap.find (book.ladders.get key.1) key.2
  if lh.isNull then pure []
  else do
    let level ← book.levels.get lh
    book.walk Order.next (book.orders.capacity + 1) level.head

/-- An order of the queue of a level. -/
structure IsQueued (book : BookT M hash) (key : LevelKey) (lh : LevelHandle)
    (h : OrderHandle) (order : Order) : Prop where
  got : book.orders.get h = .ok order
  level : order.level = lh
  side : order.side = key.1
  price : order.price = key.2
  positive : 0 < order.qty
  indexed : book.index.find order.ref = .ok h

/-- The record of a level and the records of its queue. -/
structure IsQueue (book : BookT M hash) (key : LevelKey) (lh : LevelHandle)
    (level : Level) (queue : List OrderHandle) : Prop where
  price : level.price = key.2
  forward : book.walk Order.next (book.orders.capacity + 1) level.head =
    .ok queue
  backward : book.walk Order.prev (book.orders.capacity + 1) level.tail =
    .ok queue.reverse
  head : queue.head? = some level.head
  tail : queue.getLast? = some level.tail
  beforeHead : (book.orders.value level.head).prev = Handle.null
  afterTail : (book.orders.value level.tail).next = Handle.null
  distinct : queue.Nodup
  orderCount : queue.length = level.orderCount.toNat
  queued : ∀ h ∈ queue, ∃ order, IsQueued book key lh h order
  /-- The sum of 64 bits is the exact one. -/
  totalQty : level.totalQty.toNat =
    (queue.map fun h => (book.orders.value h).qty.toNat).sum

/-- The queues, the index and the level maps name the slots in use. -/
structure IsWellFormed [LevelMap M] (book : BookT M hash) : Prop where
  found : ∀ side price, ∃ lh,
    LevelMap.find (book.ladders.get side) price = .ok lh ∧
      (lh = Handle.null ∨ book.levels.isLive lh = true ∧
        ∃ level queue, book.levels.get lh = .ok level ∧
          IsQueue book (side, price) lh level queue)
  orders : ∀ h, book.orders.isLive h = true ↔
    ∃ key queue, book.queueAt key = .ok queue ∧ h ∈ queue
  oneQueue : ∀ h key other queue otherQueue,
    book.queueAt key = .ok queue → h ∈ queue →
      book.queueAt other = .ok otherQueue → h ∈ otherQueue → other = key
  levels : ∀ lh, book.levels.isLive lh = true →
    ∃! key : LevelKey,
      LevelMap.find (book.ladders.get key.1) key.2 = .ok lh
  indexed : ∀ ref h, book.index.find ref = .ok h → h ≠ Handle.null →
    book.orders.isLive h = true ∧
      ∃ order, book.orders.get h = .ok order ∧ order.ref = ref

section WellFormed

variable {limits : Limits} {handleOf : OrderRef → OrderHandle}
  {levelOf : LevelKey → LevelHandle} {book : BookT M hash}
  {keys : List LevelKey} {arrivals : ArrivalBook} {key : LevelKey}
  {holds : Side → M → (Price → Option LevelHandle) → Nat → Prop}

/-- A walk along the second of two links passes the nodes of the queue. -/
theorem walk_linked {back : OrderHandle → OrderHandle}
    {link : Order → OrderHandle} {queue : List OrderHandle}
    {before : OrderHandle}
    (linked : LinkedQueue.Linked back (fun h => link (book.orders.value h))
      before queue Handle.null)
    (got : ∀ h ∈ queue, h ≠ Handle.null ∧
      book.orders.get h = .ok (book.orders.value h))
    {fuel : Nat} (enough : queue.length < fuel) :
    book.walk link fuel (queue.headD Handle.null) = .ok queue := by
  induction queue generalizing before fuel with
  | nil =>
      obtain ⟨fuel, rfl⟩ := Nat.exists_eq_add_of_lt enough
      rfl
  | cons h rest induction =>
      obtain ⟨fuel, rfl⟩ := Nat.exists_eq_add_of_lt enough
      obtain ⟨notNull, found⟩ := got h List.mem_cons_self
      obtain ⟨-, next, later⟩ := linked
      have walked := induction later
        (fun other member => got other (List.mem_cons_of_mem h member))
        (show rest.length < (h :: rest).length + fuel by
          rw [List.length_cons]
          omega)
      dsimp only at next
      rw [List.headD_cons, walk, if_neg (mt Handle.isNull_iff.mp notNull),
        found, ok_bind, next, walked]
      rfl

section Level

variable (stores : Stores holds limits handleOf levelOf book keys
  arrivals.orders)

include stores

theorem Stores.got {h : OrderHandle}
    (member : h ∈ handles handleOf (atKey key arrivals.orders)) :
    h ≠ Handle.null ∧ book.orders.get h = .ok (book.orders.value h) := by
  obtain ⟨order, inQueue, rfl⟩ := mem_handles.mp member
  have resting := (mem_atKey.mp inQueue).1
  exact ⟨stores.holding.heap.handle_ne_null resting,
    stores.holding.heap.get_order resting⟩

theorem Stores.walk_head (present : key ∈ keys) :
    book.walk Order.next (book.orders.capacity + 1)
        (book.levels.value (levelOf key)).head =
      .ok (handles handleOf (atKey key arrivals.orders)) := by
  have level := stores.holding.heap.level key present
  rw [level.head]
  refine walk_linked level.linked (fun h member => stores.got member) ?_
  rw [handles, List.length_map]
  exact stores.length_atKey key

theorem Stores.walk_tail (present : key ∈ keys) :
    book.walk Order.prev (book.orders.capacity + 1)
        (book.levels.value (levelOf key)).tail =
      .ok (handles handleOf (atKey key arrivals.orders)).reverse := by
  have level := stores.holding.heap.level key present
  rw [level.tail, List.getLastD_eq_getLast?, ← List.head?_reverse,
    ← List.headD_eq_head?_getD]
  refine walk_linked level.linked.reverse
    (fun h member => stores.got (List.mem_reverse.mp member)) ?_
  rw [List.length_reverse, handles, List.length_map]
  exact stores.length_atKey key

theorem Stores.isQueued {h : OrderHandle}
    (member : h ∈ handles handleOf (atKey key arrivals.orders)) :
    IsQueued book key (levelOf key) h (book.orders.value h) := by
  have got := (stores.got member).2
  obtain ⟨order, inQueue, rfl⟩ := mem_handles.mp member
  obtain ⟨resting, rfl⟩ := mem_atKey.mp inQueue
  have record := stores.holding.heap.record order resting
  have find := stores.index.find order.ref
  rw [orderMap_of_mem resting, Option.getD_some] at find
  refine ⟨got, record.level, record.side, record.price, ?_, ?_⟩
  · rw [record.qty]
    exact UInt32.pos_iff_ne_zero.mpr (arrivals.positive order resting)
  · rw [record.ref]
    exact find

theorem Stores.isQueue (present : key ∈ keys) :
    IsQueue book key (levelOf key) (book.levels.value (levelOf key))
      (handles handleOf (atKey key arrivals.orders)) := by
  have heap := stores.holding.heap
  have level := heap.level key present
  have some : handles handleOf (atKey key arrivals.orders) ≠ [] :=
    mt List.map_eq_nil_iff.mp (stores.inhabited key present)
  have small : (atKey key arrivals.orders).length < 2 ^ 32 :=
    lt_of_le_of_lt (List.length_filter_le _ _) stores.small
  have linked := level.linked
  constructor
  case price => exact level.price
  case forward => exact stores.walk_head present
  case backward => exact stores.walk_tail present
  case head =>
    rw [level.head, List.headD_eq_head?_getD, List.head?_eq_some_head some]
    rfl
  case tail =>
    rw [level.tail, List.getLastD_eq_getLast?,
      List.getLast?_eq_some_getLast some]
    rfl
  case beforeHead =>
    rw [level.head]
    cases queue : handles handleOf (atKey key arrivals.orders) with
    | nil => exact absurd queue some
    | cons h rest =>
        rw [queue] at linked
        exact linked.1
  case afterTail =>
    rw [level.tail, List.getLastD_eq_getLast?, ← List.head?_reverse]
    have turned := linked.reverse
    cases queue : (handles handleOf (atKey key arrivals.orders)).reverse with
    | nil => exact absurd (List.reverse_eq_nil_iff.mp queue) some
    | cons h rest =>
        rw [queue] at turned
        exact turned.1
  case distinct => exact heap.queue_nodup key
  case orderCount =>
    rw [level.orderCount, UInt32.toNat_ofNat_of_lt' small, handles,
      List.length_map]
  case queued => exact fun h member => ⟨_, stores.isQueued member⟩
  case totalQty =>
    rw [level.totalQty, wordQty_toNat small, naturalQty, handles,
      List.map_map]
    refine congrArg List.sum (List.map_congr_left fun order inQueue => ?_)
    rw [Function.comp_apply,
      (heap.record order (mem_atKey.mp inQueue).1).qty]

end Level

variable [LevelMap M] {admits : M → Price → Prop}

theorem Stores.queueAt (implements : LevelMap.Implements holds admits)
    (stores : Stores holds limits handleOf levelOf book keys arrivals.orders)
    (key : LevelKey) :
    book.queueAt key =
      .ok (handles handleOf (atKey key arrivals.orders)) := by
  have find := implements.find (stores.holding.ladders key.1) key.2
  have heap := stores.holding.heap
  rw [BookT.queueAt, find, ok_bind]
  by_cases present : key ∈ keys
  · have notNull := heap.level_ne_null present
    rw [levelMap_of_mem present, Option.getD_some,
      if_neg (mt Handle.isNull_iff.mp notNull), heap.get_level present,
      ok_bind, stores.walk_head present]
  · rw [levelMap_eq_none_iff.mpr present, Option.getD_none]
    have none : atKey key arrivals.orders = [] := by
      rw [List.eq_nil_iff_forall_not_mem]
      intro order inQueue
      obtain ⟨resting, rfl⟩ := mem_atKey.mp inQueue
      exact present (heap.covered order resting)
    rw [none]
    rfl

/-- The handle of a level is found at its own price only. -/
theorem Stores.find_eq_iff (implements : LevelMap.Implements holds admits)
    (stores : Stores holds limits handleOf levelOf book keys arrivals.orders)
    {lh : LevelHandle} (notNull : lh ≠ Handle.null) :
    LevelMap.find (book.ladders.get key.1) key.2 = .ok lh ↔
      key ∈ keys ∧ levelOf key = lh := by
  rw [implements.find (stores.holding.ladders key.1) key.2,
    Except.ok.injEq]
  by_cases present : key ∈ keys
  · rw [levelMap_of_mem present, Option.getD_some]
    exact (and_iff_right present).symm
  · rw [levelMap_eq_none_iff.mpr present, Option.getD_none]
    exact ⟨fun null => absurd null.symm notNull,
      fun both => absurd both.1 present⟩

theorem Stores.isWellFormed (implements : LevelMap.Implements holds admits)
    (stores : Stores holds limits handleOf levelOf book keys
      arrivals.orders) : book.IsWellFormed := by
  have heap := stores.holding.heap
  have queueAt := stores.queueAt implements
  obtain ⟨vacant, split⟩ := heap.ordersServe.split
  obtain ⟨vacantLevels, splitLevels⟩ := heap.levelsServe.split
  rw [List.nil_append] at split
  constructor
  case found =>
    intro side price
    refine ⟨_, implements.find (stores.holding.ladders side) price, ?_⟩
    by_cases present : (side, price) ∈ keys
    · rw [levelMap_of_mem present, Option.getD_some]
      exact Or.inr ⟨splitLevels.isLive_iff.mpr (level_live present), _, _,
        heap.get_level present, stores.isQueue present⟩
    · rw [levelMap_eq_none_iff.mpr present]
      exact Or.inl rfl
  case orders =>
    intro h
    rw [split.isLive_iff]
    constructor
    · intro live
      obtain ⟨order, resting, rfl⟩ := mem_handles.mp live
      exact ⟨order.key, _, queueAt order.key,
        handle_mem (mem_atKey.mpr ⟨resting, rfl⟩)⟩
    · rintro ⟨key, queue, isQueue, inQueue⟩
      rw [queueAt key, Except.ok.injEq] at isQueue
      exact (handles_atKey_sublist key).subset (isQueue ▸ inQueue)
  case oneQueue =>
    intro h key other queue otherQueue isQueue inQueue isOther inOther
    rw [queueAt key, Except.ok.injEq] at isQueue
    rw [queueAt other, Except.ok.injEq] at isOther
    exact heap.key_unique (isOther ▸ inOther) (isQueue ▸ inQueue)
  case levels =>
    intro lh live
    have notNull := splitLevels.ne_null (splitLevels.isLive_iff.mp live)
    obtain ⟨key, present, rfl⟩ :=
      List.mem_map.mp (splitLevels.isLive_iff.mp live)
    refine ⟨key, (stores.find_eq_iff implements notNull).mpr
      ⟨present, rfl⟩, fun other found => ?_⟩
    obtain ⟨otherPresent, same⟩ :=
      (stores.find_eq_iff implements notNull).mp found
    exact heap.eq_of_level otherPresent present same
  case indexed =>
    intro ref h found notNull
    rw [stores.index.find ref, Except.ok.injEq] at found
    by_cases member : ref ∈ arrivals.orders.map Resting.ref
    · obtain ⟨order, resting, rfl⟩ := List.mem_map.mp member
      rw [orderMap_of_mem resting, Option.getD_some] at found
      subst found
      exact ⟨split.isLive_iff.mpr (handle_mem resting), _,
        heap.get_order resting, (heap.record order resting).ref⟩
    · rw [orderMap, if_neg member] at found
      exact absurd found.symm notNull

end WellFormed

/--
In every state of a run within the storage, over any finite map from prices to
levels, the queues and pools are well formed.
-/
theorem bookT_isWellFormed [LevelMap M]
    {holds : Side → M → (Price → Option LevelHandle) → Nat → Prop}
    (finite : LevelMap.IsFiniteMap holds) {start : BookT M hash}
    {orderCapacity levelCapacity indexCapacity : UInt32} {quarantine : Nat}
    (made : make orderCapacity levelCapacity indexCapacity quarantine =
      .ok start)
    {operations : List Operation}
    (within : RunsWithin start.storage operations) (count : Nat) :
    ∃ book, OrderBook.run start (operations.take count) = .ok book ∧
      book.IsWellFormed := by
  obtain ⟨book, map, arrivals, ran, -, -, handleOf, levelOf, keys, stores⟩ :=
    carries_of_runsWithin finite made within count
  exact ⟨book, ran, stores.isWellFormed finite.implements⟩

theorem bookT_isWellFormed_replaceAndClear :
    LevelMap.IsFiniteMap AvlLevelMap.Holds ∧
      ∃ start : AvlBook, make 8 16 8 0 = .ok start ∧
        RunsWithin start.storage MapBook.replaceAndClear ∧
        ∃ book, OrderBook.run start (MapBook.replaceAndClear.take 5) =
            .ok book ∧ book.IsWellFormed := by
  obtain ⟨start, made, storage⟩ : ∃ start : AvlBook,
      BookT.make 8 16 8 0 = .ok start ∧ start.storage = ⟨8, 16, 16⟩ :=
    ⟨_, rfl, rfl⟩
  have within : RunsWithin start.storage MapBook.replaceAndClear :=
    storage ▸ replaceAndClear_within.runsWithin
  exact ⟨AvlLevelMap.isFiniteMap, start, made, within,
    bookT_isWellFormed AvlLevelMap.isFiniteMap made within 5⟩

end BookT

end ItchExchange.Book
