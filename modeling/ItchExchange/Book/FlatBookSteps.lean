import ItchExchange.Book.FlatBookHeap

/-!
# The parts of `add` and `reduce`

One lemma for each function which `add` and `reduce` call: it returns, and this
is what the heap and the level maps hold afterwards.
-/

namespace ItchExchange.Book

open ItchExchange.Core
open LinkedQueue

/-- The level map of a side while these levels exist. -/
def levelMap (levelOf : LevelKey → LevelHandle) (keys : List LevelKey)
    (side : Side) (price : Price) : Option LevelHandle :=
  if (side, price) ∈ keys then some (levelOf (side, price)) else none

/-- The number of levels on a side. -/
def countOn (side : Side) (keys : List LevelKey) : Nat :=
  (keys.filter fun key => decide (key.1 = side)).length

section Keys

variable {levelOf : LevelKey → LevelHandle} {keys : List LevelKey}
  {key : LevelKey} {side : Side} {price : Price}

theorem levelMap_eq_none_iff :
    levelMap levelOf keys side price = none ↔ (side, price) ∉ keys := by
  simp [levelMap]

theorem levelMap_of_mem (member : (side, price) ∈ keys) :
    levelMap levelOf keys side price = some (levelOf (side, price)) :=
  if_pos member

theorem countOn_cons_self (side : Side) (price : Price)
    (keys : List LevelKey) :
    countOn side ((side, price) :: keys) = countOn side keys + 1 := by
  simp [countOn]

theorem countOn_cons_of_ne (different : key.1 ≠ side) :
    countOn side (key :: keys) = countOn side keys := by
  simp [countOn, different]

theorem countOn_perm {keys' : List LevelKey} (perm : keys'.Perm keys)
    (side : Side) : countOn side keys' = countOn side keys :=
  (perm.filter _).length_eq

/-- Erasing a level of a side lowers the count of that side by one. -/
theorem countOn_erase_self (member : (side, price) ∈ keys) :
    countOn side (keys.erase (side, price)) + 1 = countOn side keys := by
  rw [countOn_perm (List.perm_cons_erase member) side, countOn_cons_self]

/-- Erasing a level leaves the count of the other side alone. -/
theorem countOn_erase_of_ne (member : key ∈ keys) (different : key.1 ≠ side) :
    countOn side (keys.erase key) = countOn side keys := by
  rw [countOn_perm (List.perm_cons_erase member) side,
    countOn_cons_of_ne different]

theorem countOn_le_length (side : Side) (keys : List LevelKey) :
    countOn side keys ≤ keys.length :=
  List.length_filter_le _ _

/-- A new level is a new binding on its side, and on no other one. -/
theorem levelMap_cons_self (lh : LevelHandle) :
    levelMap (Function.update levelOf (side, price) lh)
        ((side, price) :: keys) side =
      Function.update (levelMap levelOf keys side) price (some lh) := by
  funext other
  by_cases same : other = price
  · subst same
    simp [levelMap]
  · simp [levelMap, same]

/-- A new level is no binding on the other side. -/
theorem levelMap_cons_of_ne {other : Side} (different : other ≠ side)
    (lh : LevelHandle) :
    levelMap (Function.update levelOf (side, price) lh)
        ((side, price) :: keys) other =
      levelMap levelOf keys other := by
  funext otherPrice
  simp [levelMap, different]

/-- An erased level is unbound on its side. -/
theorem levelMap_erase_self (distinct : keys.Nodup) :
    levelMap levelOf (keys.erase (side, price)) side =
      Function.update (levelMap levelOf keys side) price none := by
  funext other
  by_cases same : other = price
  · subst same
    simp [levelMap, distinct.not_mem_erase]
  · simp [levelMap, same, distinct.mem_erase_iff]

/-- An erased level leaves the bindings of the other side alone. -/
theorem levelMap_erase_of_ne (distinct : keys.Nodup) {other : Side}
    (different : other ≠ side) :
    levelMap levelOf (keys.erase (side, price)) other =
      levelMap levelOf keys other := by
  funext otherPrice
  simp [levelMap, different, distinct.mem_erase_iff]

end Keys

namespace BookT

variable {M : Type} {hash : OrderRef → UInt64} {limits : Limits}
  {handleOf : OrderRef → OrderHandle} {levelOf : LevelKey → LevelHandle}
  {book : BookT M hash} {extra : List OrderHandle} {keys : List LevelKey}
  {resting : List Resting} {order : Resting}

/-! ## The queue of a level -/

/-- A record as `add` fills it in, before it joins a queue. -/
structure IsNew (record : Order) (order : Resting) : Prop where
  ref : record.ref = order.ref
  side : record.side = order.side
  price : record.price = order.price
  qty : record.qty = order.qty
  owner : record.owner = order.owner
  prev : record.prev = Handle.null
  next : record.next = Handle.null

section Links

variable {orderLimit levelLimit : Nat} {live : List OrderHandle}
  {liveLevels : List LevelHandle} {oh : OrderHandle} {lh : LevelHandle}

/-- A new order is linked behind the tail of its level, or becomes the head. -/
theorem linkTail_spec (book : BookT M hash)
    (ordersServe : book.orders.Serves orderLimit live)
    (levelsServe : book.levels.Serves levelLimit liveLevels)
    (ohLive : oh ∈ live) (lhLive : lh ∈ liveLevels) {level : Level}
    (isLevel : book.levels.value lh = level)
    (noPrev : (book.orders.value oh).prev = Handle.null)
    (noHead : level.tail = Handle.null → level.head = Handle.null)
    (tailLive : level.tail = Handle.null ∨
      level.tail ∈ live ∧ level.tail ≠ oh) :
    ∃ orders levels,
      book.linkTail oh lh = .ok { book with orders, levels } ∧
      orders.Serves orderLimit live ∧ levels.Serves levelLimit liveLevels ∧
      (∀ h ∈ live, orders.value h =
        { book.orders.value h with
          prev := if h = oh then level.tail else (book.orders.value h).prev
          next :=
            if h = level.tail then oh else (book.orders.value h).next }) ∧
      ∀ other ∈ liveLevels, levels.value other =
        if other = lh then
          { level with
            head := if level.tail = Handle.null then oh else level.head }
        else book.levels.value other := by
  unfold linkTail
  rw [isLevel]
  dsimp only
  by_cases isNull : level.tail = Handle.null
  · refine ⟨book.orders,
      book.levels.modify lh fun level => { level with head := oh }, ?_,
      ordersServe, levelsServe.modify lhLive fun _ => rfl, ?_, ?_⟩
    · rw [if_pos (Handle.isNull_iff.mpr isNull),
        assertMsg_of (Handle.isNull_iff.mpr (noHead isNull))]
      rfl
    · intro h member
      have notTail : h ≠ level.tail :=
        isNull ▸ ordersServe.ne_null member
      rw [if_neg notTail, isNull]
      by_cases same : h = oh
      · rw [if_pos same, same, ← noPrev]
      · rw [if_neg same]
    · intro other member
      rw [levelsServe.value_modify lhLive _ other member, if_pos isNull]
      by_cases same : other = lh
      · rw [if_pos same, if_pos same, same, isLevel]
      · rw [if_neg same, if_neg same]
  · obtain ⟨inLive, notSelf⟩ := tailLive.resolve_left isNull
    have linked : (book.orders.modify level.tail fun last =>
        { last with next := oh }).Serves orderLimit live :=
      ordersServe.modify inLive fun _ => rfl
    refine ⟨(book.orders.modify level.tail fun last =>
        { last with next := oh }).modify oh fun order =>
          { order with prev := level.tail }, book.levels, ?_,
      linked.modify ohLive fun _ => rfl, levelsServe, ?_, ?_⟩
    · rw [if_neg (mt Handle.isNull_iff.mp isNull), ordersServe.get inLive]
      rfl
    · intro h member
      rw [linked.value_modify ohLive _ h member,
        ordersServe.value_modify inLive _ h member]
      by_cases same : h = oh
      · have notTail : h ≠ level.tail := fun equal =>
          notSelf (equal.symm.trans same)
        rw [if_pos same, if_neg notTail, if_pos same, if_neg notTail]
      · rw [if_neg same, if_neg same]
        split_ifs <;> rfl
    · intro other member
      rw [if_neg isNull]
      by_cases same : other = lh
      · rw [if_pos same, same, isLevel]
      · rw [if_neg same]

end Links

/-- The new record joins the queue of its level. -/
theorem pushBack_spec {oh : OrderHandle}
    (heap : Heap limits handleOf levelOf book.orders book.levels
      (oh :: extra) keys resting)
    (fresh : ∀ other ∈ resting, other.ref ≠ order.ref)
    (present : order.key ∈ keys)
    (record : IsNew (book.orders.value oh) order) :
    ∃ orders levels,
      book.pushBack oh (levelOf order.key) order.qty =
        .ok { book with orders, levels } ∧
      Heap limits (Function.update handleOf order.ref oh) levelOf orders
        levels extra keys (resting ++ [order]) := by
  have lhLive : levelOf order.key ∈ keys.map levelOf := level_live present
  have ohLive : oh ∈ (oh :: extra) ++ handles handleOf resting :=
    List.mem_cons_self
  have apart : ∀ h ∈ handles handleOf resting, h ≠ oh := by
    rintro h member rfl
    exact heap.not_mem_extra member List.mem_cons_self
  have live : ∀ h ∈ handles handleOf resting,
      h ∈ (oh :: extra) ++ handles handleOf resting :=
    fun h member => List.mem_append_right _ member
  have named : (book.orders.modify oh fun record =>
      { record with level := levelOf order.key }).Serves limits.orders
        ((oh :: extra) ++ handles handleOf resting) :=
    heap.ordersServe.modify ohLive fun _ => rfl
  have namedValue := heap.ordersServe.value_modify ohLive fun record : Order =>
    { record with level := levelOf order.key }
  have tailLive : (book.levels.value (levelOf order.key)).tail = Handle.null ∨
      (book.levels.value (levelOf order.key)).tail ∈
        handles handleOf resting := by
    rw [(heap.level order.key present).tail]
    exact (getLastD_mem _ _).imp_right fun inQueue =>
      (handles_atKey_sublist _).subset inQueue
  have isLevel : (book.modifyOrder oh fun record =>
      { record with level := levelOf order.key }).levels.value
        (levelOf order.key) = book.levels.value (levelOf order.key) := rfl
  obtain ⟨orders, levels, linked, ordersServe, levelsServe, value,
      levelValue⟩ :=
    linkTail_spec
      (book.modifyOrder oh fun record =>
        { record with level := levelOf order.key })
      named heap.levelsServe ohLive lhLive isLevel
      (by
        change Order.prev (Pool.value (Pool.modify _ _ _) _) = _
        rw [namedValue oh ohLive, if_pos rfl]
        exact record.prev)
      (heap.head_eq_null present)
      (tailLive.imp_right fun inQueue => ⟨live _ inQueue, apart _ inQueue⟩)
  refine ⟨orders, levels.modify (levelOf order.key) fun level =>
    { level with
      tail := oh
      totalQty := level.totalQty + order.qty.toUInt64
      orderCount := level.orderCount + 1 }, ?_, ?_⟩
  · rw [pushBack]
    change (book.levels.get (levelOf order.key) >>= _) = _
    rw [heap.levelsServe.get lhLive, ok_bind, linked]
    rfl
  · have before : (book.modifyOrder oh fun record =>
        { record with level := levelOf order.key }).orders.value oh =
          { book.orders.value oh with level := levelOf order.key } :=
      (namedValue oh ohLive).trans (if_pos rfl)
    have own := value oh ohLive
    rw [before, if_pos rfl] at own
    have notTail : oh ≠ (book.levels.value (levelOf order.key)).tail := by
      intro isTail
      rcases tailLive with isNull | inQueue
      · exact heap.ordersServe.ne_null ohLive (isTail.trans isNull)
      · exact apart _ inQueue isTail.symm
    rw [if_neg notTail] at own
    refine Heap.push heap fresh present
      (ordersServe.perm List.perm_append_comm)
      (levelsServe.modify lhLive fun _ => rfl) ?_ ?_ ?_ ?_ ?_ ?_
    · rw [own]
      exact ⟨record.ref, record.side, record.price, record.qty, record.owner,
        rfl⟩
    · rw [own]
    · rw [own]
      exact record.next
    · intro h member
      have other : (book.modifyOrder oh fun record =>
          { record with level := levelOf order.key }).orders.value h =
            book.orders.value h :=
        (namedValue h (live h member)).trans (if_neg (apart h member))
      rw [value h (live h member), other, if_neg (apart h member)]
    · rw [levelsServe.value_modify lhLive _ _ lhLive, if_pos rfl,
        levelValue _ lhLive, if_pos rfl]
    · intro other member different
      have notOwn : levelOf other ≠ levelOf order.key := fun same =>
        different (heap.eq_of_level member present same)
      rw [levelsServe.value_modify lhLive _ _ (level_live member),
        if_neg notOwn, levelValue _ (level_live member), if_neg notOwn]
      rfl

/-! ## An order leaves its queue -/

section Unlink

variable {orderLimit levelLimit : Nat} {live : List OrderHandle}
  {liveLevels : List LevelHandle} {oh : OrderHandle} {lh : LevelHandle}
  {record : Order} {level : Level}

/-- The order before one which leaves, or the head, skips to its successor. -/
theorem skipForward_spec (book : BookT M hash)
    (ordersServe : book.orders.Serves orderLimit live)
    (levelsServe : book.levels.Serves levelLimit liveLevels)
    (lhLive : lh ∈ liveLevels)
    (isRecord : book.orders.value oh = record)
    (isLevel : book.levels.value lh = level)
    (prevLive : record.prev = Handle.null ∨ record.prev ∈ live) :
    ∃ orders levels,
      book.skipForward oh lh = .ok { book with orders, levels } ∧
      orders.Serves orderLimit live ∧ levels.Serves levelLimit liveLevels ∧
      (∀ h ∈ live, orders.value h =
        { book.orders.value h with
          next :=
            if h = record.prev then record.next
            else (book.orders.value h).next }) ∧
      ∀ other ∈ liveLevels, levels.value other =
        if other = lh then
          { level with
            head :=
              if record.prev = Handle.null then record.next else level.head }
        else book.levels.value other := by
  rw [skipForward, isRecord]
  dsimp only
  by_cases isNull : record.prev = Handle.null
  · refine ⟨book.orders,
      book.levels.modify lh fun level => { level with head := record.next },
      ?_, ordersServe, levelsServe.modify lhLive fun _ => rfl, ?_, ?_⟩
    · rw [if_pos (Handle.isNull_iff.mpr isNull)]
      rfl
    · intro h member
      have notPrev : h ≠ record.prev := isNull ▸ ordersServe.ne_null member
      rw [if_neg notPrev]
    · intro other member
      rw [levelsServe.value_modify lhLive _ other member, if_pos isNull]
      by_cases same : other = lh
      · rw [if_pos same, if_pos same, same, isLevel]
      · rw [if_neg same, if_neg same]
  · have inLive := prevLive.resolve_left isNull
    refine ⟨book.orders.modify record.prev fun previous =>
        { previous with next := record.next }, book.levels, ?_,
      ordersServe.modify inLive fun _ => rfl, levelsServe, ?_, ?_⟩
    · rw [if_neg (mt Handle.isNull_iff.mp isNull), ordersServe.get inLive]
      rfl
    · intro h member
      rw [ordersServe.value_modify inLive _ h member]
      split_ifs <;> rfl
    · intro other member
      rw [if_neg isNull]
      by_cases same : other = lh
      · rw [if_pos same, same, isLevel]
      · rw [if_neg same]

/-- The order after one which leaves, or the tail, skips to its predecessor. -/
theorem skipBackward_spec (book : BookT M hash)
    (ordersServe : book.orders.Serves orderLimit live)
    (levelsServe : book.levels.Serves levelLimit liveLevels)
    (lhLive : lh ∈ liveLevels)
    (isRecord : book.orders.value oh = record)
    (isLevel : book.levels.value lh = level)
    (nextLive : record.next = Handle.null ∨ record.next ∈ live) :
    ∃ orders levels,
      book.skipBackward oh lh = .ok { book with orders, levels } ∧
      orders.Serves orderLimit live ∧ levels.Serves levelLimit liveLevels ∧
      (∀ h ∈ live, orders.value h =
        { book.orders.value h with
          prev :=
            if h = record.next then record.prev
            else (book.orders.value h).prev }) ∧
      ∀ other ∈ liveLevels, levels.value other =
        if other = lh then
          { level with
            tail :=
              if record.next = Handle.null then record.prev else level.tail }
        else book.levels.value other := by
  rw [skipBackward, isRecord]
  dsimp only
  by_cases isNull : record.next = Handle.null
  · refine ⟨book.orders,
      book.levels.modify lh fun level => { level with tail := record.prev },
      ?_, ordersServe, levelsServe.modify lhLive fun _ => rfl, ?_, ?_⟩
    · rw [if_pos (Handle.isNull_iff.mpr isNull)]
      rfl
    · intro h member
      have notNext : h ≠ record.next := isNull ▸ ordersServe.ne_null member
      rw [if_neg notNext]
    · intro other member
      rw [levelsServe.value_modify lhLive _ other member, if_pos isNull]
      by_cases same : other = lh
      · rw [if_pos same, if_pos same, same, isLevel]
      · rw [if_neg same, if_neg same]
  · have inLive := nextLive.resolve_left isNull
    refine ⟨book.orders.modify record.next fun following =>
        { following with prev := record.prev }, book.levels, ?_,
      ordersServe.modify inLive fun _ => rfl, levelsServe, ?_, ?_⟩
    · rw [if_neg (mt Handle.isNull_iff.mp isNull), ordersServe.get inLive]
      rfl
    · intro h member
      rw [ordersServe.value_modify inLive _ h member]
      split_ifs <;> rfl
    · intro other member
      rw [if_neg isNull]
      by_cases same : other = lh
      · rw [if_pos same, same, isLevel]
      · rw [if_neg same]

/-- Both links around an order which leaves skip it. -/
theorem unlink_links (book : BookT M hash)
    (ordersServe : book.orders.Serves orderLimit live)
    (levelsServe : book.levels.Serves levelLimit liveLevels)
    (ohLive : oh ∈ live) (lhLive : lh ∈ liveLevels)
    (isRecord : book.orders.value oh = record)
    (isLevel : book.levels.value lh = level)
    (prevLive : record.prev = Handle.null ∨ record.prev ∈ live)
    (nextLive : record.next = Handle.null ∨ record.next ∈ live)
    (notSelf : record.prev ≠ oh ∧ record.next ≠ oh) :
    ∃ orders levels,
      book.unlink oh lh = .ok { book with orders, levels } ∧
      orders.Serves orderLimit live ∧ levels.Serves levelLimit liveLevels ∧
      orders.value oh = record ∧
      (∀ h ∈ live, h ≠ oh →
        orders.value h = (book.orders.value h).skipping record h) ∧
      ∀ other ∈ liveLevels, levels.value other =
        if other = lh then
          { level with
            head :=
              if record.prev = Handle.null then record.next else level.head
            tail :=
              if record.next = Handle.null then record.prev else level.tail
            orderCount := level.orderCount - 1 }
        else book.levels.value other := by
  obtain ⟨orders, levels, skipped, ordersServe, levelsServe, value,
    levelValue⟩ := skipForward_spec book ordersServe levelsServe lhLive
      isRecord isLevel prevLive
  have ownValue : orders.value oh = record := by
    rw [value oh ohLive, if_neg (Ne.symm notSelf.1), isRecord]
  have ownLevel := levelValue lh lhLive
  rw [if_pos rfl] at ownLevel
  obtain ⟨orders', levels', skipped', ordersServe', levelsServe', value',
    levelValue'⟩ := skipBackward_spec { book with orders, levels }
      ordersServe levelsServe lhLive ownValue ownLevel nextLive
  refine ⟨orders', levels'.modify lh fun level =>
      { level with orderCount := level.orderCount - 1 }, ?_, ordersServe',
    levelsServe'.modify lhLive fun _ => rfl, ?_, ?_, ?_⟩
  · rw [unlink, skipped, ok_bind, skipped']
    rfl
  · rw [value' oh ohLive, if_neg (Ne.symm notSelf.2)]
    exact ownValue
  · intro h member _
    rw [value' h member, value h member]
    rfl
  · intro other member
    rw [levelsServe'.value_modify lhLive _ other member,
      levelValue' other member]
    by_cases same : other = lh
    · rw [if_pos same, if_pos same, if_pos same]
    · rw [if_neg same, if_neg same, if_neg same]
      exact (levelValue other member).trans (if_neg same)

end Unlink

/-- An order of which nothing is left leaves the queue of its level. -/
theorem unlink_spec
    (heap : Heap limits handleOf levelOf book.orders book.levels extra keys
      resting)
    (member : order ∈ resting) (exhausted : order.qty = 0) :
    ∃ orders levels,
      book.unlink (handleOf order.ref) (levelOf order.key) =
        .ok { book with orders, levels } ∧
      (orders.value (handleOf order.ref)).ref = order.ref ∧
      Heap limits handleOf levelOf orders levels
        (handleOf order.ref :: extra) keys (without order.ref resting) := by
  have present := heap.covered order member
  have links := heap.neighbours member
  have live : ∀ h ∈ handles handleOf (atKey order.key resting),
      h ∈ extra ++ handles handleOf resting := fun h inQueue =>
    List.mem_append_right _ ((handles_atKey_sublist _).subset inQueue)
  obtain ⟨orders, levels, unlinked, ordersServe, levelsServe, own, others,
      levelValue⟩ :=
    unlink_links book heap.ordersServe heap.levelsServe (handle_live member)
      (level_live present) rfl rfl (links.1.imp_right (live _))
      (links.2.imp_right (live _)) (heap.neighbours_ne member)
  refine ⟨orders, levels, unlinked, ?_,
    heap.pull member exhausted rfl rfl ordersServe levelsServe ?_ ?_ ?_⟩
  · rw [own]
    exact (heap.record order member).ref
  · intro h inside different
    exact others h (List.mem_append_right _ inside) different
  · exact (levelValue _ (level_live present)).trans (if_pos rfl)
  · intro other otherMember different
    have notOwn : levelOf other ≠ levelOf order.key := fun same =>
      different (heap.eq_of_level otherMember present same)
    exact (levelValue _ (level_live otherMember)).trans (if_neg notOwn)

/-! ## The level maps -/

/-- The heap, and the level maps which lead into it. -/
structure Holding
    (holds : Side → M → (Price → Option LevelHandle) → Nat → Prop)
    (limits : Limits) (handleOf : OrderRef → OrderHandle)
    (levelOf : LevelKey → LevelHandle) (book : BookT M hash)
    (extra : List OrderHandle) (keys : List LevelKey)
    (resting : List Resting) : Prop where
  heap : Heap limits handleOf levelOf book.orders book.levels extra keys
    resting
  ladders : ∀ side, holds side (book.ladders.get side)
    (levelMap levelOf keys side) (countOn side keys)
  levelCount : ∀ side,
    book.stats.levelCount.get side = UInt32.ofNat (countOn side keys)

section Levels

variable [LevelMap M]
  {holds : Side → M → (Price → Option LevelHandle) → Nat → Prop}
  {admits : M → Price → Prop}

/-- `level_for` finds the level of a price, or makes an empty one. -/
theorem Holding.levelFor (implements : LevelMap.Implements holds admits)
    (holding : Holding holds limits handleOf levelOf book extra keys resting)
    {side : Side} {price : Price}
    (takes : LevelMap.Takes holds (book.ladders.get side) price)
    {keys' : List LevelKey}
    (isKeys : keys' =
      if (side, price) ∈ keys then keys else (side, price) :: keys)
    (room : keys'.length ≤ limits.levels) :
    ∃ levelOf' levels ladders levelCount,
      BookT.levelFor book side price =
        .ok (levelOf' (side, price),
          { book with
            levels, ladders, stats := { book.stats with levelCount } }) ∧
      Holding holds limits handleOf levelOf'
        { book with
          levels, ladders, stats := { book.stats with levelCount } }
        extra keys' resting := by
  have find := implements.find (holding.ladders side) price
  by_cases present : (side, price) ∈ keys
  · rw [if_pos present] at isKeys
    subst isKeys
    have notNull := holding.heap.level_ne_null present
    rw [levelMap_of_mem present, Option.getD_some] at find
    refine ⟨levelOf, book.levels, book.ladders, book.stats.levelCount, ?_,
      holding⟩
    rw [BookT.levelFor, find]
    simp [notNull]
  · rw [if_neg present] at isKeys
    subst isKeys
    rw [levelMap_eq_none_iff.mpr present, Option.getD_none] at find
    rw [List.length_cons] at room
    obtain ⟨lh, levels, allocated, serves, same⟩ :=
      holding.heap.levelsServe.allocate (by rw [List.length_map]; omega)
    have notNull := serves.ne_null List.mem_cons_self
    have below : countOn side keys < Handle.kMaxCapacity := by
      have count := countOn_le_length side keys
      have size := holding.heap.levelsServe.size_le
      omega
    obtain ⟨ladder, inserted, ladderHolds⟩ :=
      takes (holding.ladders side) (levelMap_eq_none_iff.mpr present) notNull
        below
    have head : lh ∈ lh :: keys.map levelOf := List.mem_cons_self
    have apart : ∀ other ∈ keys.map levelOf, other ≠ lh := by
      rintro other member rfl
      have distinct := List.Nodup.of_map _ serves.nodup
      exact (List.nodup_cons.mp distinct).1 member
    refine ⟨Function.update levelOf (side, price) lh,
      levels.modify lh fun level =>
        { level with
          totalQty := 0, head := Handle.null, tail := Handle.null
          price, orderCount := 0 },
      book.ladders.set side ladder,
      book.stats.levelCount.set side (book.stats.levelCount.get side + 1),
      ?_, ?_, ?_, ?_⟩
    · rw [BookT.levelFor, find, Function.update_self]
      simp only [ok_bind, Handle.isNull_eq_false_iff, ne_eq, not_true,
        if_false, allocated, serves.get head, inserted, pure_eq_ok]
    · refine holding.heap.newLevel present
        (serves.modify head fun _ => rfl) ?_ ?_
      · intro other member
        rw [serves.value_modify head _ other (List.mem_cons_of_mem lh member),
          if_neg (apart other member), same other member]
      · rw [serves.value_modify head _ lh head, if_pos rfl]
        exact ⟨trivial, rfl, rfl, rfl, rfl, rfl⟩
    · intro other
      by_cases sameSide : other = side
      · subst sameSide
        rw [PerSide.get_set_self, levelMap_cons_self, countOn_cons_self]
        exact ladderHolds
      · dsimp only
        rw [PerSide.get_set_of_ne sameSide, levelMap_cons_of_ne sameSide,
          countOn_cons_of_ne (Ne.symm sameSide)]
        exact holding.ladders other
    · intro other
      by_cases sameSide : other = side
      · subst sameSide
        rw [PerSide.get_set_self, countOn_cons_self, holding.levelCount,
          UInt32.ofNat_add]
        rfl
      · dsimp only
        rw [PerSide.get_set_of_ne sameSide,
          countOn_cons_of_ne (Ne.symm sameSide)]
        exact holding.levelCount other

/-- `reduce` gives back the level of which no order is left. -/
theorem Holding.clearLevel (implements : LevelMap.Implements holds admits)
    (holding : Holding holds limits handleOf levelOf book extra keys resting)
    {side : Side} {price : Price} (present : (side, price) ∈ keys)
    (isEmpty : atKey (side, price) resting = []) :
    ∃ levels ladders levelCount,
      BookT.clearLevel book (levelOf (side, price)) side price =
        .ok { book with
          levels, ladders, stats := { book.stats with levelCount } } ∧
      Holding holds limits handleOf levelOf
        { book with
          levels, ladders, stats := { book.stats with levelCount } }
        extra (keys.erase (side, price)) resting := by
  have level := holding.heap.level _ present
  rw [isEmpty] at level
  have distinct := holding.heap.keys_nodup
  have noQty : (book.levels.value (levelOf (side, price))).totalQty = 0 :=
    level.totalQty
  have empty : (book.levels.value (levelOf (side, price))).head.isNull =
      true ∧ (book.levels.value (levelOf (side, price))).tail.isNull = true :=
    ⟨Handle.isNull_iff.mpr level.head, Handle.isNull_iff.mpr level.tail⟩
  have onSide := holding.ladders side
  rw [← countOn_erase_self present] at onSide
  obtain ⟨ladder, erased, ladderHolds⟩ :=
    implements.erase onSide (levelMap_of_mem present)
  obtain ⟨levels, freed, serves, same⟩ :=
    holding.heap.levelsServe.free (level_live present)
  have left : ((keys.erase (side, price)).map levelOf).Perm
      ((keys.map levelOf).erase (levelOf (side, price))) := by
    have perm := ((List.perm_cons_erase present).map levelOf).erase
      (levelOf (side, price))
    rw [List.map_cons, List.erase_cons_head] at perm
    exact perm.symm
  refine ⟨levels, book.ladders.set side ladder,
    book.stats.levelCount.set side (book.stats.levelCount.get side - 1),
    ?_, ?_, ?_, ?_⟩
  · rw [BookT.clearLevel, assertMsg_of noQty, ok_bind,
      assertMsg_of empty, ok_bind, erased, ok_bind, freed]
    rfl
  · refine holding.heap.dropLevel isEmpty (serves.perm left) ?_
    intro other member
    obtain ⟨key, keyMember, rfl⟩ := List.mem_map.mp member
    have inKeys := List.mem_of_mem_erase keyMember
    refine same _ (level_live inKeys) fun equal => ?_
    have sameKey := holding.heap.eq_of_level inKeys present equal
    rw [sameKey] at keyMember
    exact distinct.not_mem_erase keyMember
  · intro other
    by_cases sameSide : other = side
    · subst sameSide
      rw [PerSide.get_set_self, levelMap_erase_self distinct]
      exact ladderHolds
    · dsimp only
      rw [PerSide.get_set_of_ne sameSide,
        levelMap_erase_of_ne distinct sameSide,
        countOn_erase_of_ne present (Ne.symm sameSide)]
      exact holding.ladders other
  · intro other
    by_cases sameSide : other = side
    · subst sameSide
      rw [PerSide.get_set_self, holding.levelCount,
        ← countOn_erase_self present, UInt32.ofNat_add]
      exact UInt32.add_sub_cancel _ _
    · dsimp only
      rw [PerSide.get_set_of_ne sameSide,
        countOn_erase_of_ne present (Ne.symm sameSide)]
      exact holding.levelCount other

end Levels

end BookT

end ItchExchange.Book
