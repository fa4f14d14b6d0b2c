import ItchExchange.Book.FlatBookInvariant
import ItchExchange.Book.MapBookArrivals

/-!
# The pooled book refines the list of arrivals

`Represents` hides the handles and the levels of `Invariant`.  Within the
storage the pooled book carries out what the list of arrivals accepts, and
answers every query like the list.
-/

namespace ItchExchange.Book

open ItchExchange.Core

/-- The storage has room for the orders and the levels of the book. -/
structure Limits.Allow (limits : Limits) (arrivals : ArrivalBook) :
    Prop where
  orders : arrivals.orders.length ≤ limits.orders
  index : 2 * arrivals.orders.length ≤ limits.index
  levels : (arrivals.prices .buy).length + (arrivals.prices .sell).length ≤
    limits.levels

/-- The prices a call brings in are prices of orders which can rest. -/
def Operation.Priced (operation : Operation) : Prop :=
  ∀ price, operation.price? = some price → price ≠ 0

section Keys

variable {keys : List LevelKey} {arrivals : ArrivalBook}

/-- The keys are the levels of the book. -/
def AreLevels (keys : List LevelKey) (arrivals : ArrivalBook) : Prop :=
  keys.Nodup ∧
    ∀ side price, (side, price) ∈ keys ↔ price ∈ arrivals.prices side

theorem AreLevels.countOn_eq (areLevels : AreLevels keys arrivals)
    (side : Side) : countOn side keys = (arrivals.prices side).length := by
  obtain ⟨distinct, members⟩ := areLevels
  have onSide : ((keys.filter fun key => decide (key.1 = side)).map
      Prod.snd).Perm (arrivals.prices side) := by
    rw [List.perm_ext_iff_of_nodup ?_ (arrivals.prices_nodup side)]
    · intro price
      rw [← members]
      constructor
      · intro member
        obtain ⟨⟨other, otherPrice⟩, inside, rfl⟩ := List.mem_map.mp member
        obtain ⟨inKeys, same⟩ := List.mem_filter.mp inside
        rw [decide_eq_true_iff] at same
        exact same ▸ inKeys
      · intro member
        exact List.mem_map.mpr
          ⟨(side, price), List.mem_filter.mpr ⟨member, by simp⟩, rfl⟩
    · refine (distinct.filter _).map_on ?_
      rintro ⟨first, firstPrice⟩ inFirst ⟨second, secondPrice⟩ inSecond equal
      have firstSide := (List.mem_filter.mp inFirst).2
      have secondSide := (List.mem_filter.mp inSecond).2
      rw [decide_eq_true_iff] at firstSide secondSide
      exact Prod.ext (firstSide.trans secondSide.symm) equal
  rw [← onSide.length_eq, List.length_map]
  rfl

theorem AreLevels.length_eq (areLevels : AreLevels keys arrivals) :
    keys.length =
      (arrivals.prices .buy).length + (arrivals.prices .sell).length := by
  have sides : countOn .buy keys + countOn .sell keys = keys.length := by
    clear areLevels
    unfold countOn
    induction keys with
    | nil => rfl
    | cons key rest induction =>
        rw [List.filter_cons, List.filter_cons, List.length_cons]
        cases key.1 <;>
          simp only [decide_true, reduceCtorEq, decide_false, if_true,
            Bool.false_eq_true, if_false, List.length_cons] <;> omega
  rw [← sides, areLevels.countOn_eq, areLevels.countOn_eq]

theorem IsBest.eq_best {side : Side} {best : Price}
    (isBest : IsBest side keys best)
    (areLevels : AreLevels keys arrivals) : best = arrivals.best side := by
  have sorted := arrivals.prices_pairwise side
  simp only [IsBest, areLevels.2] at isBest
  unfold ArrivalBook.best
  cases prices : arrivals.prices side with
  | nil =>
      rw [prices] at isBest
      rcases isBest with ⟨-, marker⟩ | ⟨present, -⟩
      · exact marker
      · cases present
  | cons head tail =>
      rw [prices] at isBest sorted
      rcases isBest with ⟨isEmpty, -⟩ | ⟨present, least⟩
      · exact absurd List.mem_cons_self (isEmpty head)
      · rcases List.mem_cons.mp present with same | inTail
        · exact same
        · exact absurd (List.rel_of_pairwise_cons sorted inTail)
            (least head List.mem_cons_self)

theorem AreLevels.isBest (areLevels : AreLevels keys arrivals) (side : Side) :
    IsBest side keys (arrivals.best side) := by
  unfold IsBest
  simp only [areLevels.2]
  cases isEmpty : arrivals.isEmpty side with
  | true =>
      rw [ArrivalBook.isEmpty_eq_prices_isEmpty, List.isEmpty_iff] at isEmpty
      refine Or.inl ⟨?_, ?_⟩
      · rw [isEmpty]
        exact fun _ => List.not_mem_nil
      · rw [ArrivalBook.best, isEmpty]
        rfl
  | false =>
      exact Or.inr ⟨ArrivalBook.best_mem_prices isEmpty,
        fun price member => ArrivalBook.not_closer_best member⟩

end Keys

/-- The marker of an empty side hides no level which is closer than a price. -/
def ArrivalBook.Shows (arrivals : ArrivalBook) (side : Side)
    (price : Price) : Prop :=
  arrivals.best side = kNoPrice →
    ∀ p ∈ arrivals.prices side, ¬ Closer side p price

/-- The marker hides no level from the order which a call brings in. -/
def ArrivalBook.ShowsTo (arrivals : ArrivalBook) : Operation → Prop
  | .add _ side price _ _ => arrivals.Shows side price
  | .replace oldRef _ price _ =>
      ∀ order ∈ arrivals.orders, order.ref = oldRef →
        (arrivals.reduce oldRef order.qty).Shows order.side price
  | .cancel _ _ => True
  | .execute _ _ => True
  | .remove _ => True

theorem ArrivalBook.showsTo_replace {arrivals : ArrivalBook} {order : Resting}
    (member : order ∈ arrivals.orders) (newRef : OrderRef) (price : Price)
    (qty : Qty) :
    arrivals.ShowsTo (.replace order.ref newRef price qty) ↔
      (arrivals.reduce order.ref order.qty).Shows order.side price := by
  constructor
  · exact fun shows => shows order member rfl
  · intro shows other otherMember sameRef
    rwa [arrivals.eq_of_ref_eq otherMember member sameRef]

namespace BookT

variable {M : Type} {hash : OrderRef → UInt64} {limits : Limits}
  {holds : Side → M → (Price → Option LevelHandle) → Nat → Prop}
  {book : BookT M hash} {arrivals next : ArrivalBook}

/-- The pooled book holds the list of arrivals. -/
def Represents
    (holds : Side → M → (Price → Option LevelHandle) → Nat → Prop)
    (limits : Limits) (book : BookT M hash) (arrivals : ArrivalBook) : Prop :=
  ∃ handleOf levelOf keys,
    Invariant holds limits handleOf levelOf book keys arrivals.orders

/-- The pooled book holds the list of arrivals, whatever its best prices. -/
def Carries
    (holds : Side → M → (Price → Option LevelHandle) → Nat → Prop)
    (limits : Limits) (book : BookT M hash) (arrivals : ArrivalBook) : Prop :=
  ∃ handleOf levelOf keys,
    Stores holds limits handleOf levelOf book keys arrivals.orders

/-- The cached best prices are those of the list. -/
def CachesBest (book : BookT M hash) (arrivals : ArrivalBook) : Prop :=
  ∀ side, book.best.get side = arrivals.best side

section Levels

variable {handleOf : OrderRef → OrderHandle} {levelOf : LevelKey → LevelHandle}
  {keys left : List LevelKey} {later : BookT M hash}

theorem Stores.areLevels
    (stores : Stores holds limits handleOf levelOf book keys
      arrivals.orders) : AreLevels keys arrivals := by
  refine ⟨stores.holding.heap.keys_nodup, fun side price => ?_⟩
  rw [← ArrivalBook.level_ne_nil_iff, ArrivalBook.level_eq_atKey]
  constructor
  · exact stores.inhabited (side, price)
  · intro nonempty
    obtain ⟨order, member⟩ := List.exists_mem_of_ne_nil _ nonempty
    obtain ⟨resting, atLevel⟩ := mem_atKey.mp member
    exact atLevel ▸ stores.holding.heap.covered order resting

theorem KeepsBest.caches (keeps : KeepsBest book keys later left)
    (before : AreLevels keys arrivals) (after : AreLevels left next)
    (caches : CachesBest book arrivals) : CachesBest later next :=
  fun side => (keeps.best side
    (caches side ▸ before.isBest side)).eq_best after

end Levels

theorem Represents.carries
    (represents : Represents holds limits book arrivals) :
    Carries holds limits book arrivals := by
  obtain ⟨handleOf, levelOf, keys, invariant⟩ := represents
  exact ⟨handleOf, levelOf, keys, invariant.stores⟩

theorem Represents.caches (represents : Represents holds limits book arrivals) :
    CachesBest book arrivals := by
  obtain ⟨handleOf, levelOf, keys, invariant⟩ := represents
  exact fun side =>
    (invariant.best side).eq_best invariant.stores.areLevels

theorem Represents.priced (represents : Represents holds limits book arrivals) :
    ∀ order ∈ arrivals.orders, order.price ≠ kNoPrice := by
  obtain ⟨handleOf, levelOf, keys, invariant⟩ := represents
  exact fun order member => invariant.priced order.key
    (invariant.holding.heap.covered order member)

theorem Carries.small (carries : Carries holds limits book arrivals) :
    arrivals.orders.length < 2 ^ 32 := by
  obtain ⟨handleOf, levelOf, keys, stores⟩ := carries
  exact stores.small

theorem Carries.represents (carries : Carries holds limits book arrivals)
    (caches : CachesBest book arrivals)
    (priced : ∀ order ∈ arrivals.orders, order.price ≠ kNoPrice) :
    Represents holds limits book arrivals := by
  obtain ⟨handleOf, levelOf, keys, stores⟩ := carries
  have areLevels := stores.areLevels
  refine ⟨handleOf, levelOf, keys, stores.invariant ?_ ?_⟩
  · exact fun side => caches side ▸ areLevels.isBest side
  · rintro ⟨side, price⟩ member
    rw [areLevels.2, ArrivalBook.mem_prices] at member
    obtain ⟨order, resting, -, rfl⟩ := member
    exact priced order resting

/-! ## The operations -/

/-- What a step makes of the book, and of its cached best prices. -/
structure Follows
    (holds : Side → M → (Price → Option LevelHandle) → Nat → Prop)
    (limits : Limits) (book : BookT M hash) (arrivals : ArrivalBook)
    (later : BookT M hash) (next : ArrivalBook) (shown : Prop) : Prop where
  carries : Carries holds limits later next
  caches : CachesBest book arrivals → (CachesBest later next ↔ shown)

section Operations

variable [LevelMap M] {admits : M → Price → Prop} {order : Resting}

/-- What the book knows of a resting order. -/
theorem Carries.resting (implements : LevelMap.Implements holds admits)
    (carries : Carries holds limits book arrivals)
    (member : order ∈ arrivals.orders) :
    ∃ oh record, (∀ message, book.require order.ref message = .ok oh) ∧
      book.orders.get oh = .ok record ∧ record.side = order.side ∧
      record.price = order.price ∧ record.qty = order.qty ∧
      record.owner = order.owner ∧
      ∀ shares ≤ order.qty, ∃ book', book.reduce oh shares = .ok book' ∧
        Follows holds limits book arrivals book'
          (arrivals.reduce order.ref shares) True := by
  obtain ⟨handleOf, levelOf, keys, stores⟩ := carries
  have heap := stores.holding.heap
  have record := heap.record order member
  have find := stores.index.find order.ref
  rw [orderMap_of_mem member, Option.getD_some] at find
  refine ⟨_, _, fun message => ?_, heap.get_order member, record.side,
    record.price, record.qty, record.owner, fun shares enough => ?_⟩
  · rw [BookT.require, find, ok_bind, assertMsg_of
      (Handle.isNull_eq_false_iff.mpr (heap.handle_ne_null member))]
    rfl
  · obtain ⟨book', keys', reduced, after, keeps⟩ :=
      stores.reduce implements member enough
    have left : AreLevels keys' (arrivals.reduce order.ref shares) :=
      Stores.areLevels after
    exact ⟨book', reduced, ⟨handleOf, levelOf, keys', after⟩, fun caches =>
      iff_true_intro (keeps.caches stores.areLevels left caches)⟩

omit [LevelMap M] in
/-- The best prices after an insertion are right where the marker hides none. -/
theorem cachesBest_noted {keys : List LevelKey} {later : BookT M hash}
    (before : AreLevels keys arrivals)
    (after : AreLevels (withKey order.key keys) next)
    (same : later.best = noted book.best order.side order.price)
    (caches : CachesBest book arrivals) :
    CachesBest later next ↔ arrivals.Shows order.side order.price := by
  constructor
  · intro right marker price present closer
    have mine := right order.side
    rw [same, noted, if_pos (Or.inl ((caches order.side).trans marker)),
      PerSide.get_set_self] at mine
    have stays : price ∈ next.prices order.side := by
      rw [← after.2, mem_withKey]
      exact Or.inr ((before.2 _ _).mpr present)
    exact ArrivalBook.not_closer_best stays (mine ▸ closer)
  · intro shows side
    rw [same]
    refine (isBest_noted (caches side ▸ before.isBest side) ?_).eq_best after
    intro _ marker price present
    exact shows ((caches order.side).symm.trans marker) price
      ((before.2 _ _).mp present)

theorem Carries.insert (implements : LevelMap.Implements holds admits)
    (carries : Carries holds limits book arrivals)
    (accepted : arrivals.insert? order = some next)
    (allowed : limits.Allow next)
    (takes : LevelMap.Takes holds (book.ladders.get order.side)
      order.price) :
    ∃ book', book.add order.ref order.side order.price order.qty order.owner =
        .ok book' ∧
      Follows holds limits book arrivals book' next
        (arrivals.Shows order.side order.price) := by
  obtain ⟨handleOf, levelOf, keys, stores⟩ := carries
  obtain ⟨positive, fresh, rfl⟩ :=
    ArrivalBook.insert?_eq_some_iff.mp accepted
  have areLevels := stores.areLevels
  have length : (arrivals.add order fresh positive).orders.length =
      arrivals.orders.length + 1 := List.length_append
  have joined : AreLevels (withKey order.key keys)
      (arrivals.add order fresh positive) := by
    refine ⟨?_, fun side price => ?_⟩
    · unfold withKey
      split_ifs with present
      · exact areLevels.1
      · exact List.nodup_cons.mpr ⟨present, areLevels.1⟩
    · rw [mem_withKey, areLevels.2, ← ArrivalBook.level_ne_nil_iff,
        ← ArrivalBook.level_ne_nil_iff, ArrivalBook.level_add]
      by_cases same : order.side = side ∧ order.price = price
      · obtain ⟨rfl, rfl⟩ := same
        simp [Resting.key]
      · rw [if_neg same]
        refine or_iff_right fun equal => same ?_
        rw [Resting.key, Prod.mk.injEq] at equal
        exact ⟨equal.1.symm, equal.2.symm⟩
  obtain ⟨handleOf', levelOf', book', added, after, best⟩ :=
    stores.add implements (ArrivalBook.find?_eq_none_iff.mp fresh) positive
      takes (length ▸ allowed.orders) (length ▸ allowed.index)
      (joined.length_eq ▸ allowed.levels)
  exact ⟨book', added, ⟨handleOf', levelOf', _, after⟩,
    cachesBest_noted areLevels joined best⟩

/-- The level maps carry out the insertion which the call may need. -/
def Admits (admits : M → Price → Prop) (book : BookT M hash) :
    Operation → Prop
  | .add _ side price _ _ => admits (book.ladders.get side) price
  | .replace oldRef _ price _ =>
      ∀ side emptied, book.sideOf oldRef = .ok side →
        book.remove oldRef = .ok emptied →
          admits (emptied.ladders.get side) price
  | .cancel _ _ => True
  | .execute _ _ => True
  | .remove _ => True

theorem Admits.mono {other : M → Price → Prop} {operation : Operation}
    (weaker : ∀ levels price, operation.price? = some price →
      admits levels price → other levels price)
    (admitted : Admits admits book operation) :
    Admits other book operation := by
  cases operation with
  | add ref side price qty owner => exact weaker _ price rfl admitted
  | replace oldRef newRef price qty =>
      exact fun side emptied isSide removed =>
        weaker _ price rfl (admitted side emptied isSide removed)
  | cancel => trivial
  | execute => trivial
  | remove => trivial

theorem Carries.cancel (implements : LevelMap.Implements holds admits)
    (carries : Carries holds limits book arrivals)
    (member : order ∈ arrivals.orders) {shares : Qty}
    (enough : shares ≤ order.qty) :
    ∃ book', book.cancel order.ref shares = .ok book' ∧
      Follows holds limits book arrivals book'
        (arrivals.reduce order.ref shares) True := by
  obtain ⟨oh, record, required, got, -, -, qty, -, reduces⟩ :=
    carries.resting implements member
  obtain ⟨book', reduced, after⟩ := reduces shares enough
  refine ⟨book', ?_, after⟩
  rw [BookT.cancel, required, ok_bind, got, ok_bind, qty,
    assertMsg_of enough, ok_bind, reduced]

theorem Carries.execute (implements : LevelMap.Implements holds admits)
    (carries : Carries holds limits book arrivals)
    (member : order ∈ arrivals.orders) {shares : Qty}
    (enough : shares ≤ order.qty) :
    ∃ book', book.execute order.ref shares = .ok (shares, book') ∧
      Follows holds limits book arrivals book'
        (arrivals.reduce order.ref shares) True := by
  obtain ⟨oh, record, required, got, -, -, qty, -, reduces⟩ :=
    carries.resting implements member
  obtain ⟨book', reduced, after⟩ := reduces shares enough
  refine ⟨book', ?_, after⟩
  rw [BookT.execute, required, ok_bind, got, ok_bind, qty,
    assertMsg_of enough, ok_bind, reduced]
  rfl

theorem Carries.remove (implements : LevelMap.Implements holds admits)
    (carries : Carries holds limits book arrivals)
    (member : order ∈ arrivals.orders) :
    ∃ book', book.remove order.ref = .ok book' ∧
      Follows holds limits book arrivals book'
        (arrivals.reduce order.ref order.qty) True := by
  obtain ⟨oh, record, required, got, -, -, qty, -, reduces⟩ :=
    carries.resting implements member
  obtain ⟨book', reduced, after⟩ := reduces order.qty UInt32.le_rfl
  refine ⟨book', ?_, after⟩
  rw [BookT.remove, required, ok_bind, got, ok_bind, qty, reduced]

/-- `replace` withdraws the order and adds another one for its owner. -/
theorem Carries.replace (implements : LevelMap.Implements holds admits)
    (carries : Carries holds limits book arrivals)
    (member : order ∈ arrivals.orders) {newRef : OrderRef} {price : Price}
    {qty : Qty}
    (accepted : (arrivals.reduce order.ref order.qty).insert?
      ⟨newRef, order.side, price, qty, order.owner⟩ = some next)
    (allowed : limits.Allow next)
    (takes : Admits (LevelMap.Takes holds) book
      (.replace order.ref newRef price qty)) :
    ∃ book', book.replace order.ref newRef price qty = .ok book' ∧
      Follows holds limits book arrivals book' next
        ((arrivals.reduce order.ref order.qty).Shows order.side price) := by
  obtain ⟨oh, record, required, got, side, -, orderQty, owner, reduces⟩ :=
    carries.resting implements member
  obtain ⟨emptied, reduced, middle⟩ := reduces order.qty UInt32.le_rfl
  have sideOf : book.sideOf order.ref = .ok order.side := by
    rw [BookT.sideOf, required, ok_bind, got, ok_bind, side]
    rfl
  have removed : book.remove order.ref = .ok emptied := by
    rw [BookT.remove, required, ok_bind, got, ok_bind, orderQty, reduced]
  obtain ⟨book', added, final⟩ := middle.carries.insert implements accepted
    allowed (takes order.side emptied sideOf removed)
  refine ⟨book', ?_, final.carries, fun caches =>
    final.caches ((middle.caches caches).mpr trivial)⟩
  rw [BookT.replace, required, ok_bind, got, ok_bind, orderQty, reduced,
    ok_bind, side, owner]
  exact added

/-- One call, within the storage. -/
theorem Carries.apply (implements : LevelMap.Implements holds admits)
    (carries : Carries holds limits book arrivals)
    {operation : Operation}
    (accepted : arrivals.perform? operation = some next)
    (allowed : limits.Allow next)
    (takes : Admits (LevelMap.Takes holds) book operation) :
    ∃ book', OrderBook.apply book operation = .ok book' ∧
      Follows holds limits book arrivals book' next
        (arrivals.ShowsTo operation) := by
  cases operation with
  | add ref side price qty owner =>
      exact carries.insert implements accepted allowed takes
  | cancel ref shares =>
      obtain ⟨order, member, rfl, enough, rfl⟩ :=
        ArrivalBook.take?_eq_some_iff.mp accepted
      exact carries.cancel implements member enough
  | execute ref shares =>
      obtain ⟨order, member, rfl, enough, rfl⟩ :=
        ArrivalBook.take?_eq_some_iff.mp accepted
      obtain ⟨book', executed, after⟩ :=
        carries.execute implements member enough
      refine ⟨book', ?_, after⟩
      change (book.execute order.ref shares >>= _) = _
      rw [executed]
      rfl
  | remove ref =>
      obtain ⟨order, member, rfl, rfl⟩ :=
        ArrivalBook.remove?_eq_some_iff.mp accepted
      exact carries.remove implements member
  | replace oldRef newRef price qty =>
      obtain ⟨old, member, rfl, inserted⟩ :=
        ArrivalBook.replace?_eq_some_iff.mp accepted
      obtain ⟨book', replaced, after⟩ :=
        carries.replace implements member inserted allowed takes
      exact ⟨book', replaced, after.carries, fun caches =>
        (after.caches caches).trans
          (ArrivalBook.showsTo_replace member newRef price qty).symm⟩

/-- No state of the run has more orders or levels than the storage. -/
def StaysWithin (limits : Limits) (arrivals : ArrivalBook)
    (operations : List Operation) : Prop :=
  ∀ count before, arrivals.run? (operations.take count) = some before →
    limits.Allow before

/-- A run whose steps keep a relation, within the storage. -/
theorem run_of_step {related : BookT M hash → ArrivalBook → Prop}
    {allows : BookT M hash → Operation → Prop}
    (step : ∀ {book arrivals next operation}, related book arrivals →
      arrivals.perform? operation = some next → limits.Allow next →
        allows book operation →
          ∃ book', OrderBook.apply book operation = .ok book' ∧
            related book' next)
    (relation : related book arrivals)
    {operations : List Operation} {final : ArrivalBook}
    (accepted : arrivals.run? operations = some final)
    (within : StaysWithin limits arrivals operations)
    (admitted : AdmitsRun allows book operations) :
    ∃ book', OrderBook.run book operations = .ok book' ∧
      related book' final := by
  induction operations generalizing book arrivals with
  | nil =>
      rw [ArrivalBook.run?_nil, Option.some.injEq] at accepted
      exact ⟨book, rfl, accepted ▸ relation⟩
  | cons operation rest induction =>
      rw [ArrivalBook.run?_cons] at accepted
      obtain ⟨next, performed, acceptedRest⟩ :=
        Option.bind_eq_some_iff.mp accepted
      obtain ⟨here, later⟩ := admitted
      have nextAllowed : limits.Allow next := within 1 next (by
        rw [List.take_succ_cons, ArrivalBook.run?_cons, performed]
        rfl)
      obtain ⟨nextBook, applied, nextRelation⟩ :=
        step relation performed nextAllowed here
      have laterWithin : StaysWithin limits next rest := by
        intro count before reached
        refine within (count + 1) before ?_
        rw [List.take_succ_cons, ArrivalBook.run?_cons, performed]
        exact reached
      obtain ⟨book', ran, finalRelation⟩ :=
        induction nextRelation acceptedRest laterWithin
          (later nextBook applied)
      refine ⟨book', ?_, finalRelation⟩
      rw [OrderBook.run_cons, applied, ok_bind, ran]

/-- A whole run, within the storage. -/
theorem Carries.run (implements : LevelMap.Implements holds admits)
    (carries : Carries holds limits book arrivals)
    {operations : List Operation} {final : ArrivalBook}
    (accepted : arrivals.run? operations = some final)
    (within : StaysWithin limits arrivals operations)
    (takes : AdmitsRun (Admits (LevelMap.Takes holds)) book operations) :
    ∃ book', OrderBook.run book operations = .ok book' ∧
      Carries holds limits book' final := by
  refine run_of_step ?_ carries accepted within takes
  intro book arrivals next operation carries accepted allowed takes
  obtain ⟨book', applied, after⟩ :=
    carries.apply implements accepted allowed takes
  exact ⟨book', applied, after.carries⟩

/-! ## Orders at prices which an empty side does not have -/

omit [LevelMap M] in
/-- Where all orders are priced, the marker is the best price of no level. -/
theorem shows_of_priced
    (priced : ∀ order ∈ arrivals.orders, order.price ≠ kNoPrice)
    (side : Side) (price : Price) : arrivals.Shows side price := by
  intro marker p member
  have nonempty : arrivals.isEmpty side = false := by
    rw [ArrivalBook.isEmpty_eq_prices_isEmpty, ← Bool.not_eq_true,
      List.isEmpty_iff]
    exact List.ne_nil_of_mem member
  have present := ArrivalBook.best_mem_prices nonempty
  rw [marker, ArrivalBook.mem_prices] at present
  obtain ⟨order, resting, -, isMarker⟩ := present
  exact absurd isMarker (priced order resting)

omit [LevelMap M] in
theorem priced_reduce
    (priced : ∀ order ∈ arrivals.orders, order.price ≠ kNoPrice)
    (ref : OrderRef) (shares : Qty) :
    ∀ order ∈ (arrivals.reduce ref shares).orders,
      order.price ≠ kNoPrice := by
  intro order member
  rw [ArrivalBook.orders_reduce, mem_reduceIn] at member
  obtain ⟨before, resting, reduced⟩ := member
  rw [(Resting.lessAt_eq_some reduced).2.2.1]
  exact priced before resting

omit [LevelMap M] in
theorem priced_insert?
    (priced : ∀ order ∈ arrivals.orders, order.price ≠ kNoPrice)
    (accepted : arrivals.insert? order = some next)
    (own : order.price ≠ kNoPrice) :
    ∀ order ∈ next.orders, order.price ≠ kNoPrice := by
  obtain ⟨positive, fresh, rfl⟩ :=
    ArrivalBook.insert?_eq_some_iff.mp accepted
  intro other member
  rcases List.mem_append.mp member with old | new
  · exact priced other old
  · rw [List.mem_singleton.mp new]
    exact own

omit [LevelMap M] in
theorem priced_perform? {operation : Operation}
    (priced : ∀ order ∈ arrivals.orders, order.price ≠ kNoPrice)
    (accepted : arrivals.perform? operation = some next)
    (own : operation.Priced) :
    arrivals.ShowsTo operation ∧
      ∀ order ∈ next.orders, order.price ≠ kNoPrice := by
  cases operation with
  | add ref side price qty owner =>
      exact ⟨shows_of_priced priced side price,
        priced_insert? priced accepted (own price rfl)⟩
  | cancel ref shares =>
      obtain ⟨order, -, rfl, -, rfl⟩ :=
        ArrivalBook.take?_eq_some_iff.mp accepted
      exact ⟨trivial, priced_reduce priced _ _⟩
  | execute ref shares =>
      obtain ⟨order, -, rfl, -, rfl⟩ :=
        ArrivalBook.take?_eq_some_iff.mp accepted
      exact ⟨trivial, priced_reduce priced _ _⟩
  | remove ref =>
      obtain ⟨order, -, rfl, rfl⟩ :=
        ArrivalBook.remove?_eq_some_iff.mp accepted
      exact ⟨trivial, priced_reduce priced _ _⟩
  | replace oldRef newRef price qty =>
      obtain ⟨old, -, rfl, inserted⟩ :=
        ArrivalBook.replace?_eq_some_iff.mp accepted
      exact ⟨fun order _ _ => shows_of_priced (priced_reduce priced _ _) _ _,
        priced_insert? (priced_reduce priced _ _) inserted (own price rfl)⟩

/-- One call, within the storage. -/
theorem Represents.apply (implements : LevelMap.Implements holds admits)
    (represents : Represents holds limits book arrivals)
    {operation : Operation}
    (accepted : arrivals.perform? operation = some next)
    (allowed : limits.Allow next) (priced : operation.Priced)
    (admitted : Admits admits book operation) :
    ∃ book', OrderBook.apply book operation = .ok book' ∧
      Represents holds limits book' next := by
  obtain ⟨book', applied, after⟩ :=
    represents.carries.apply implements accepted allowed
      (admitted.mono fun _ price isPrice =>
        implements.takes (priced price isPrice))
  obtain ⟨shows, nextPriced⟩ :=
    priced_perform? represents.priced accepted priced
  exact ⟨book', applied, after.carries.represents
    ((after.caches represents.caches).mpr shows) nextPriced⟩

theorem admitsRun_priced {operations : List Operation}
    (priced : ∀ operation ∈ operations, operation.Priced)
    (admitted : AdmitsRun (Admits admits) book operations) :
    AdmitsRun (fun book operation =>
      Admits admits book operation ∧ operation.Priced) book operations := by
  induction operations generalizing book with
  | nil => trivial
  | cons operation rest induction =>
      obtain ⟨pricedHere, pricedLater⟩ := List.forall_mem_cons.mp priced
      exact ⟨⟨admitted.1, pricedHere⟩, fun next applied =>
        induction pricedLater (admitted.2 next applied)⟩

/-- A whole run, within the storage. -/
theorem Represents.run (implements : LevelMap.Implements holds admits)
    (represents : Represents holds limits book arrivals)
    {operations : List Operation} {final : ArrivalBook}
    (accepted : arrivals.run? operations = some final)
    (within : StaysWithin limits arrivals operations)
    (priced : ∀ operation ∈ operations, operation.Priced)
    (admitted : AdmitsRun (Admits admits) book operations) :
    ∃ book', OrderBook.run book operations = .ok book' ∧
      Represents holds limits book' final :=
  run_of_step (fun represents accepted allowed admitted =>
    represents.apply implements accepted allowed admitted.2 admitted.1)
    represents accepted within (admitsRun_priced priced admitted)

end Operations

/-! ## The queries -/

section Queries

variable {handleOf : OrderRef → OrderHandle} {levelOf : LevelKey → LevelHandle}
  {keys : List LevelKey} {side : Side} {price : Price}

/-- A walk along the links passes the references of the queue. -/
theorem refsFrom_linked {queue : List Resting} {before : OrderHandle}
    (linked : LinkedQueue.Linked (fun h => (book.orders.value h).prev)
      (fun h => (book.orders.value h).next) before (handles handleOf queue)
      Handle.null)
    (got : ∀ order ∈ queue, handleOf order.ref ≠ Handle.null ∧
      book.orders.get (handleOf order.ref) =
        .ok (book.orders.value (handleOf order.ref)) ∧
      (book.orders.value (handleOf order.ref)).ref = order.ref)
    {fuel : Nat} (enough : queue.length < fuel) :
    book.refsFrom fuel ((handles handleOf queue).headD Handle.null) =
      .ok (queue.map Resting.ref) := by
  induction queue generalizing before fuel with
  | nil =>
      obtain ⟨fuel, rfl⟩ := Nat.exists_eq_add_of_lt enough
      rfl
  | cons order rest induction =>
      obtain ⟨fuel, rfl⟩ := Nat.exists_eq_add_of_lt enough
      obtain ⟨notNull, found, ref⟩ := got order List.mem_cons_self
      obtain ⟨-, next, later⟩ := linked
      have rest := induction later
        (fun other member => got other (List.mem_cons_of_mem order member))
        (show rest.length < (order :: rest).length + fuel by
          rw [List.length_cons]; omega)
      dsimp only at next
      rw [handles_cons, List.headD_cons, refsFrom,
        if_neg (mt Handle.isNull_iff.mp notNull), found, ok_bind, next]
      rw [handles] at rest
      rw [rest, ok_bind, ref]
      rfl

/-- A queue is shorter than a walk through the whole pool. -/
theorem Stores.length_atKey
    (stores : Stores holds limits handleOf levelOf book keys
      arrivals.orders) (key : LevelKey) :
    (atKey key arrivals.orders).length < book.orders.capacity + 1 := by
  have serves := stores.holding.heap.ordersServe
  have filtered := List.length_filter_le
    (fun order : Resting => decide (order.key = key)) arrivals.orders
  have length := serves.length_le
  rw [List.nil_append, handles, List.length_map] at length
  rw [Pool.capacity]
  unfold atKey
  omega

variable [LevelMap M] {admits : M → Price → Prop}

/-- The record of a level is found, or the price has no orders. -/
theorem Stores.find (implements : LevelMap.Implements holds admits)
    (stores : Stores holds limits handleOf levelOf book keys
      arrivals.orders) (side : Side) (price : Price) :
    (LevelMap.find (book.ladders.get side) price = .ok Handle.null ∧
        arrivals.level side price = []) ∨
      ∃ lh level, LevelMap.find (book.ladders.get side) price = .ok lh ∧
        lh.isNull = false ∧ book.levels.get lh = .ok level ∧
        IsLevel handleOf book.orders level price
          (arrivals.level side price) := by
  have heap := stores.holding.heap
  have found := implements.find (stores.holding.ladders side) price
  rw [ArrivalBook.level_eq_atKey]
  by_cases present : (side, price) ∈ keys
  · rw [levelMap_of_mem present, Option.getD_some] at found
    exact Or.inr ⟨_, _, found,
      Handle.isNull_eq_false_iff.mpr (heap.level_ne_null present),
      heap.get_level present, heap.level (side, price) present⟩
  · rw [levelMap_eq_none_iff.mpr present, Option.getD_none] at found
    refine Or.inl ⟨found, List.eq_nil_iff_forall_not_mem.mpr ?_⟩
    intro order member
    obtain ⟨resting, atLevel⟩ := mem_atKey.mp member
    exact present (atLevel ▸ heap.covered order resting)

/-- The level map visits the levels of the book, from the inside outwards. -/
theorem Stores.visited (implements : LevelMap.Implements holds admits)
    (stores : Stores holds limits handleOf levelOf book keys
      arrivals.orders) (side : Side) :
    LevelMap.forEachLevel (book.ladders.get side) =
      .ok ((arrivals.prices side).map fun price =>
        (price, levelOf (side, price))) := by
  have areLevels := stores.areLevels
  obtain ⟨visits, visited, sorted, members⟩ :=
    implements.forEachLevel (stores.holding.ladders side)
  have isLevel : ∀ visit ∈ visits, (side, visit.1) ∈ keys ∧
      levelOf (side, visit.1) = visit.2 := by
    rintro ⟨price, lh⟩ member
    have found := (members price lh).mp member
    unfold levelMap at found
    split_ifs at found with present
    exact ⟨present, Option.some.inj found⟩
  have prices : visits.map Prod.fst = arrivals.prices side := by
    refine ArrivalBook.prices_eq_of_pairwise sorted fun price => ?_
    rw [← ArrivalBook.mem_prices, ← areLevels.2, List.mem_map]
    constructor
    · rintro ⟨visit, member, rfl⟩
      exact (isLevel visit member).1
    · intro present
      exact ⟨(price, levelOf (side, price)),
        (members price _).mpr (levelMap_of_mem present), rfl⟩
  rw [visited, ← prices, List.map_map]
  refine congrArg Except.ok ?_
  refine (List.map_id visits).symm.trans
    (List.map_congr_left fun visit member => ?_)
  exact Prod.ext rfl (isLevel visit member).2.symm

theorem Stores.forEachLevel
    (implements : LevelMap.Implements holds admits)
    (stores : Stores holds limits handleOf levelOf book keys
      arrivals.orders) (side : Side) :
    book.forEachLevel side = .ok (arrivals.visits side) := by
  have heap := stores.holding.heap
  rw [BookT.forEachLevel, stores.visited implements side, ok_bind,
    List.mapM_map, ArrivalBook.visits]
  refine mapM_eq_ok fun price member => ?_
  have present := (stores.areLevels.2 side price).mpr member
  have level := heap.level (side, price) present
  have refs := refsFrom_linked level.linked (fun order inQueue =>
    have resting := (mem_atKey.mp inQueue).1
    ⟨heap.handle_ne_null resting, heap.get_order resting,
      (heap.record order resting).ref⟩)
    (stores.length_atKey (side, price))
  rw [Function.comp_apply]
  dsimp only
  rw [heap.get_level present, ok_bind, level.head, refs, ok_bind,
    level.totalQty, level.orderCount]
  simp only [ArrivalBook.qtyAt, ArrivalBook.ordersAt,
    ArrivalBook.level_eq_atKey, pure_eq_ok]

/-- The pooled book answers every query like the list of arrivals. -/
theorem Carries.answers (implements : LevelMap.Implements holds admits)
    (carries : Carries holds limits book arrivals)
    (caches : CachesBest book arrivals) : Answers book arrivals := by
  have isResting := fun {order : Resting}
      (member : order ∈ arrivals.orders) =>
    carries.resting implements member
  obtain ⟨handleOf, levelOf, keys, stores⟩ := carries
  have heap := stores.holding.heap
  have areLevels := stores.areLevels
  have find := stores.find implements
  have indexFind := stores.index.find
  constructor
  case isEmpty =>
    intro side
    change LevelMap.isEmpty (book.ladders.get side) = _
    rw [Bool.eq_iff_iff, implements.isEmpty (stores.holding.ladders side),
      ArrivalBook.isEmpty_eq_prices_isEmpty, List.isEmpty_iff,
      List.eq_nil_iff_forall_not_mem]
    simp only [levelMap_eq_none_iff, areLevels.2]
  case best => exact caches
  case qtyAt =>
    intro side price
    change book.qtyAt side price = _
    rw [BookT.qtyAt, ArrivalBook.qtyAt]
    rcases find side price with ⟨found, none⟩ |
      ⟨lh, level, found, notNull, got, isLevel⟩
    · rw [found, none]
      rfl
    · rw [found, ok_bind, notNull, ← isLevel.totalQty]
      change (book.levels.get lh >>= _) = _
      rw [got]
      rfl
  case ordersAt =>
    intro side price
    change book.ordersAt side price = _
    rw [BookT.ordersAt, ArrivalBook.ordersAt]
    rcases find side price with ⟨found, none⟩ |
      ⟨lh, level, found, notNull, got, isLevel⟩
    · rw [found, none]
      rfl
    · rw [found, ok_bind, notNull, ← isLevel.orderCount]
      change (book.levels.get lh >>= _) = _
      rw [got]
      rfl
  case frontAt =>
    intro side price
    change book.frontAt side price = _
    rw [BookT.frontAt, ArrivalBook.frontAt]
    rcases find side price with ⟨found, none⟩ |
      ⟨lh, level, found, notNull, got, isLevel⟩
    · rw [found, none]
      rfl
    · rw [found, ok_bind, notNull]
      change (book.levels.get lh >>= _) = _
      rw [got, ok_bind, isLevel.head]
      cases queue : arrivals.level side price with
      | nil => rfl
      | cons order rest =>
          have inQueue : order ∈ arrivals.level side price :=
            queue ▸ List.mem_cons_self
          have member := (ArrivalBook.mem_level.mp inQueue).1
          rw [handles_cons, List.headD_cons,
            if_neg (mt Handle.isNull_iff.mp (heap.handle_ne_null member)),
            heap.get_order member, ok_bind, (heap.record order member).ref]
          rfl
  case stats =>
    change book.stats = _
    have total : book.stats.totalQty = arrivals.stats.totalQty :=
      PerSide.ext_get fun side => by
        rw [stores.totalQty]
        cases side <;> rfl
    have count : book.stats.levelCount = arrivals.stats.levelCount :=
      PerSide.ext_get fun side => by
        rw [stores.holding.levelCount, areLevels.countOn_eq]
        cases side <;> rfl
    have orders : book.stats.orderCount = arrivals.stats.orderCount :=
      stores.orderCount
    cases equal : book.stats
    rw [equal] at total count orders
    simp only at total count orders
    rw [total, count, orders]
  case orderCount => exact stores.index.counted
  case contains =>
    intro ref
    change book.contains ref = _
    rw [BookT.contains, indexFind, ok_bind]
    cases found : arrivals.find? ref with
    | none =>
        rw [orderMap_eq_none_iff.mpr (ArrivalBook.find?_eq_none_iff.mp found)]
        rfl
    | some order =>
        obtain ⟨member, rfl⟩ := ArrivalBook.find?_eq_some_iff.mp found
        rw [orderMap_of_mem member, Option.getD_some,
          Handle.isNull_eq_false_iff.mpr (heap.handle_ne_null member)]
        rfl
  case sideOf =>
    intro order member
    obtain ⟨oh, record, required, got, side, -⟩ := isResting member
    change book.sideOf order.ref = _
    rw [BookT.sideOf, required, ok_bind, got, ok_bind, side]
    rfl
  case priceOf =>
    intro order member
    obtain ⟨oh, record, required, got, -, price, -⟩ := isResting member
    change book.priceOf order.ref = _
    rw [BookT.priceOf, required, ok_bind, got, ok_bind, price]
    rfl
  case qtyOf =>
    intro order member
    obtain ⟨oh, record, required, got, -, -, qty, -⟩ := isResting member
    change book.qtyOf order.ref = _
    rw [BookT.qtyOf, required, ok_bind, got, ok_bind, qty]
    rfl
  case ownerOf =>
    intro order member
    obtain ⟨oh, record, required, got, -, -, -, owner, -⟩ :=
      isResting member
    change book.ownerOf order.ref = _
    rw [BookT.ownerOf, required, ok_bind, got, ok_bind, owner]
    rfl
  case forEachLevel =>
    exact fun side => stores.forEachLevel implements side

theorem Represents.answers (implements : LevelMap.Implements holds admits)
    (represents : Represents holds limits book arrivals) :
    Answers book arrivals :=
  represents.carries.answers implements represents.caches

end Queries

/-! ## Against the reference book -/

/--
The sizes of the storage, without the slots that the quarantines may hold back.
-/
def storage (book : BookT M hash) : Limits where
  orders := book.orders.capacity - book.orders.quarantineLimit
  levels := book.levels.capacity - book.levels.quarantineLimit
  index := book.index.capacity

theorem represents_of_make [LevelMap M] {admits : M → Price → Prop}
    (implements : LevelMap.Implements holds admits)
    {orderCapacity levelCapacity indexCapacity : UInt32} {quarantine : Nat}
    (made : make orderCapacity levelCapacity indexCapacity quarantine =
      .ok book) :
    Represents holds book.storage book ArrivalBook.empty := by
  unfold make at made
  obtain ⟨orders, ordersMade, made⟩ := bind_eq_ok_iff.mp made
  obtain ⟨levels, levelsMade, made⟩ := bind_eq_ok_iff.mp made
  obtain ⟨index, indexMade, made⟩ := bind_eq_ok_iff.mp made
  rw [pure_eq_ok, Except.ok.injEq] at made
  subst made
  have ordersServe := Pool.serves_of_make ordersMade
  have levelsServe := Pool.serves_of_make levelsMade
  refine ⟨fun _ => Handle.null, fun _ => Handle.null, [], ⟨⟨?_, ?_, ?_⟩,
    OrderIndex.holds_of_make indexMade, rfl, ?_, ?_, ?_, ?_⟩⟩
  · refine ⟨List.nodup_nil, ?_, ?_, ?_, ?_, ?_⟩
    · exact ⟨ordersServe.split, rfl⟩
    · exact ⟨levelsServe.split, rfl⟩
    · exact fun _ member => absurd member List.not_mem_nil
    · exact fun _ member => absurd member List.not_mem_nil
    · exact fun _ member => absurd member List.not_mem_nil
  · intro side
    cases side with
    | buy => exact implements.make .buy
    | sell => exact implements.make .sell
  · exact fun side => PerSide.get_both 0 side
  · exact fun side => PerSide.get_both 0 side
  · exact fun side =>
      Or.inl ⟨fun _ => List.not_mem_nil, PerSide.get_both _ side⟩
  · exact fun _ member => absurd member List.not_mem_nil
  · exact fun _ member => absurd member List.not_mem_nil

end BookT

/-- The reference book has no more orders and levels than the storage. -/
structure MapBook.FitsIn (map : MapBook) (limits : Limits) : Prop where
  orders : map.orderCount ≤ limits.orders
  index : 2 * map.orderCount ≤ limits.index
  levels : (map.forEachLevel .buy).length + (map.forEachLevel .sell).length ≤
    limits.levels

theorem MapBook.FitsIn.allow {map : MapBook} {limits : Limits}
    {arrivals : ArrivalBook} (fits : map.FitsIn limits)
    (represents : MapBook.Represents map arrivals) : limits.Allow arrivals := by
  have answers := represents.answers
  have orders : map.orderCount = arrivals.orders.length := answers.orderCount
  have levels : ∀ side,
      (map.forEachLevel side).length = (arrivals.prices side).length := by
    intro side
    have visits : map.forEachLevel side = arrivals.visits side :=
      Except.ok.inj (answers.forEachLevel side)
    rw [visits, ArrivalBook.visits, List.length_map]
  exact ⟨orders ▸ fits.orders, orders ▸ fits.index,
    levels .buy ▸ levels .sell ▸ fits.levels⟩

/-- A book with few orders stays within the storage. -/
theorem MapBook.FitsIn.of_length {map : MapBook} {limits : Limits}
    {arrivals : ArrivalBook} (represents : MapBook.Represents map arrivals)
    (orders : arrivals.orders.length ≤ limits.orders)
    (index : 2 * arrivals.orders.length ≤ limits.index)
    (levels : 2 * arrivals.orders.length ≤ limits.levels) :
    map.FitsIn limits := by
  have answers := represents.answers
  have orderCount : map.orderCount = arrivals.orders.length :=
    answers.orderCount
  have visited : ∀ side,
      (map.forEachLevel side).length ≤ arrivals.orders.length := by
    intro side
    have visits : map.forEachLevel side = arrivals.visits side :=
      Except.ok.inj (answers.forEachLevel side)
    rw [visits, ArrivalBook.visits, List.length_map]
    exact MapBook.length_prices_le arrivals side
  have buy := visited .buy
  have sell := visited .sell
  exact ⟨by omega, by omega, by omega⟩

/-- A run which the reference book accepts within the storage. -/
structure AcceptedWithin (limits : Limits)
    (operations : List Operation) : Prop where
  accepted : ∃ map, OrderBook.run ({} : MapBook) operations = .ok map
  fits : ∀ count map,
    OrderBook.run ({} : MapBook) (operations.take count) = .ok map →
      map.FitsIn limits
  priced : ∀ operation ∈ operations, operation.Priced

/-- The same at any prices. -/
structure RunsWithin (limits : Limits) (operations : List Operation) :
    Prop where
  accepted : ∃ map, OrderBook.run ({} : MapBook) operations = .ok map
  fits : ∀ count map,
    OrderBook.run ({} : MapBook) (operations.take count) = .ok map →
      map.FitsIn limits

theorem AcceptedWithin.runsWithin {limits : Limits}
    {operations : List Operation} (within : AcceptedWithin limits operations) :
    RunsWithin limits operations :=
  ⟨within.accepted, within.fits⟩

/-- What a run reaches after some of its steps. -/
theorem RunsWithin.reaches {limits : Limits} {operations : List Operation}
    (within : RunsWithin limits operations) (count : Nat) :
    ∃ map arrivals,
      OrderBook.run ({} : MapBook) (operations.take count) = .ok map ∧
        ArrivalBook.empty.run? (operations.take count) = some arrivals ∧
        MapBook.Represents map arrivals ∧
        BookT.StaysWithin limits ArrivalBook.empty (operations.take count) := by
  obtain ⟨last, accepted⟩ := within.accepted
  rw [← List.take_append_drop count operations, OrderBook.run_append]
    at accepted
  obtain ⟨map, reached, -⟩ := bind_eq_ok_iff.mp accepted
  obtain ⟨arrivals, arrived, represents⟩ :=
    MapBook.represents_empty.run_accepted reached
  refine ⟨map, arrivals, reached, arrived, represents, ?_⟩
  intro earlier before earlierArrived
  rw [List.take_take] at earlierArrived
  obtain ⟨earlierMap, earlierRan, earlierRepresents⟩ :=
    MapBook.represents_empty.run earlierArrived
  exact (within.fits _ _ earlierRan).allow earlierRepresents

/-- A run shorter than the storage stays within it. -/
theorem runsWithin_of_length {limits : Limits}
    {operations : List Operation} {final : ArrivalBook}
    (accepted : ArrivalBook.empty.run? operations = some final)
    (orders : operations.length ≤ limits.orders)
    (index : 2 * operations.length ≤ limits.index)
    (levels : 2 * operations.length ≤ limits.levels) :
    RunsWithin limits operations where
  accepted := by
    obtain ⟨map, ran, -⟩ := MapBook.represents_empty.run accepted
    exact ⟨map, ran⟩
  fits := by
    intro count map ran
    obtain ⟨arrivals, arrived, represents⟩ :=
      MapBook.represents_empty.run_accepted ran
    have bound := ArrivalBook.length_run?_le arrived
    have taken := List.length_take_le' count operations
    have none : ArrivalBook.empty.orders.length = 0 := rfl
    exact MapBook.FitsIn.of_length represents (by omega) (by omega) (by omega)

theorem acceptedWithin_of_length {limits : Limits}
    {operations : List Operation} {final : ArrivalBook}
    (accepted : ArrivalBook.empty.run? operations = some final)
    (priced : ∀ operation ∈ operations, operation.Priced)
    (orders : operations.length ≤ limits.orders)
    (index : 2 * operations.length ≤ limits.index)
    (levels : 2 * operations.length ≤ limits.levels) :
    AcceptedWithin limits operations :=
  { runsWithin_of_length accepted orders index levels with priced }

theorem replaceAndClear_within :
    AcceptedWithin ⟨8, 16, 16⟩ MapBook.replaceAndClear := by
  have value : (ArrivalBook.empty.run? MapBook.replaceAndClear).isSome =
      true := by
    decide
  obtain ⟨final, accepted⟩ := Option.isSome_iff_exists.mp value
  refine acceptedWithin_of_length accepted ?_ (by decide) (by decide)
    (by decide)
  simp [MapBook.replaceAndClear, Operation.Priced, Operation.price?]

namespace BookT

variable {M : Type} [LevelMap M] {hash : OrderRef → UInt64}
  {holds : Side → M → (Price → Option LevelHandle) → Nat → Prop}
  {admits : M → Price → Prop} {start : BookT M hash}
  {operations : List Operation}

/-- After every step the pooled book and the reference book agree. -/
theorem agree_of_acceptedWithin
    (implements : LevelMap.Implements holds admits)
    {orderCapacity levelCapacity indexCapacity : UInt32} {quarantine : Nat}
    (made : make orderCapacity levelCapacity indexCapacity quarantine =
      .ok start)
    (within : AcceptedWithin start.storage operations)
    (admitted : AdmitsRun (Admits admits) start operations) (count : Nat) :
    ∃ book map, OrderBook.run start (operations.take count) = .ok book ∧
      OrderBook.run ({} : MapBook) (operations.take count) = .ok map ∧
      Agree book map := by
  obtain ⟨map, final, reached, arrived, mapRepresents, stays⟩ :=
    within.runsWithin.reaches count
  obtain ⟨book, ran, represents⟩ :=
    (represents_of_make implements made).run implements arrived stays
      (fun operation member =>
        within.priced operation (List.mem_of_mem_take member))
      (admitted.take count)
  exact ⟨book, map, ran, reached,
    (represents.answers implements).agree mapRepresents.answers⟩

/-- Where every insertion is admitted, every run is. -/
theorem admitsRun_of_forall
    (admitted : ∀ (levels : M) price, admits levels price)
    (book : BookT M hash) (operations : List Operation) :
    AdmitsRun (Admits admits) book operations := by
  induction operations generalizing book with
  | nil => trivial
  | cons operation rest induction =>
      refine ⟨?_, fun next _ => induction next⟩
      cases operation with
      | add => exact admitted _ _
      | replace => exact fun _ _ _ _ => admitted _ _
      | _ => trivial

/-- Where the level maps carry them out, runs carry what the reference holds. -/
theorem carries_of_admitsRun (implements : LevelMap.Implements holds admits)
    {orderCapacity levelCapacity indexCapacity : UInt32} {quarantine : Nat}
    (made : make orderCapacity levelCapacity indexCapacity quarantine =
      .ok start)
    (within : RunsWithin start.storage operations)
    (takes : AdmitsRun (Admits (LevelMap.Takes holds)) start operations)
    (count : Nat) :
    ∃ book map arrivals,
      OrderBook.run start (operations.take count) = .ok book ∧
        OrderBook.run ({} : MapBook) (operations.take count) = .ok map ∧
        MapBook.Represents map arrivals ∧
        Carries holds start.storage book arrivals := by
  obtain ⟨map, arrivals, reached, arrived, mapRepresents, stays⟩ :=
    within.reaches count
  obtain ⟨book, ran, carries⟩ :=
    (represents_of_make implements made).carries.run implements arrived stays
      (takes.take count)
  exact ⟨book, map, arrivals, ran, reached, mapRepresents, carries⟩

/-- Over a finite map the book carries whatever the reference book holds. -/
theorem carries_of_runsWithin (finite : LevelMap.IsFiniteMap holds)
    {orderCapacity levelCapacity indexCapacity : UInt32} {quarantine : Nat}
    (made : make orderCapacity levelCapacity indexCapacity quarantine =
      .ok start)
    (within : RunsWithin start.storage operations) (count : Nat) :
    ∃ book map arrivals,
      OrderBook.run start (operations.take count) = .ok book ∧
        OrderBook.run ({} : MapBook) (operations.take count) = .ok map ∧
        MapBook.Represents map arrivals ∧
        Carries holds start.storage book arrivals :=
  carries_of_admitsRun finite.implements made within
    (admitsRun_of_forall finite.takes start operations) count

end BookT

end ItchExchange.Book
