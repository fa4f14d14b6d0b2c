import ItchExchange.Book.AvlLevelMapRuns
import ItchExchange.Book.FlatBookValidate

/-!
# The pooled book over the tree of levels

`AvlBook` is the pooled book with one tree of levels for each side.  The tree
carries out every insertion which the pool of levels has room for, so the book
agrees with the reference book on every run within its storage.

The cache of a best price marks an empty side by the price zero.  An offer at
zero makes the cache of its side look like that of an empty side, and the next
offer at another price takes its place.  Everywhere else the cache is right, at
every price.
-/

namespace ItchExchange.Book

open ItchExchange.Core

abbrev AvlBook := BookT AvlLevelMap IndexHash.mixed.hash

namespace AvlBook

variable {start : AvlBook} {operations : List Operation}

theorem admitsRun (book : AvlBook) (operations : List Operation) :
    AdmitsRun (BookT.Admits fun (_ : AvlLevelMap) _ => True) book
      operations :=
  BookT.admitsRun_of_forall (fun _ _ => trivial) book operations

/--
After every step of a run which the reference book accepts within the storage,
every query has the same answer on both books.
-/
theorem avlBook_agrees_mapBook
    {orderCapacity levelCapacity indexCapacity : UInt32} {quarantine : Nat}
    (made : BookT.make orderCapacity levelCapacity indexCapacity quarantine =
      .ok start)
    (within : AcceptedWithin start.storage operations) (count : Nat) :
    ∃ book map, OrderBook.run start (operations.take count) = .ok book ∧
      OrderBook.run ({} : MapBook) (operations.take count) = .ok map ∧
      Agree book map :=
  BookT.agree_of_acceptedWithin AvlLevelMap.implements made within
    (admitsRun start operations) count

theorem avlBook_agrees_replaceAndClear :
    ∃ start : AvlBook, BookT.make 8 16 8 0 = .ok start ∧
      AcceptedWithin start.storage MapBook.replaceAndClear ∧
      ∃ book map,
        OrderBook.run start (MapBook.replaceAndClear.take 5) = .ok book ∧
          OrderBook.run ({} : MapBook) (MapBook.replaceAndClear.take 5) =
            .ok map ∧
          Agree book map := by
  obtain ⟨start, made, storage⟩ : ∃ start : AvlBook,
      BookT.make 8 16 8 0 = .ok start ∧ start.storage = ⟨8, 16, 16⟩ :=
    ⟨_, rfl, rfl⟩
  exact ⟨start, made, storage ▸ replaceAndClear_within,
    avlBook_agrees_mapBook made (storage ▸ replaceAndClear_within) 5⟩

/-! ## The best price and the marker of an empty side -/

/-- The cached best prices are right, and the reference book has the same. -/
structure BestAgrees (book : AvlBook) (map : MapBook) : Prop where
  marked : ∀ side, OrderBook.isEmpty book side = true →
    OrderBook.best book side = kNoPrice
  occupied : ∀ side, OrderBook.isEmpty book side = false →
    OrderBook.ordersAt book side (OrderBook.best book side) ≠ .ok 0
  closest : ∀ side price, OrderBook.ordersAt book side price ≠ .ok 0 →
    ¬ Closer side price (OrderBook.best book side)
  best : ∀ side, OrderBook.best book side = OrderBook.best map side
  crossed : OrderBook.crossed book = OrderBook.crossed map
  validate : ValidatedBook.validate book = .ok () ∧
    ValidatedBook.validate map = .ok ()

/-- The best prices are right after every step of a run. -/
def BestThroughout (start : AvlBook) (map : MapBook)
    (operations : List Operation) : Prop :=
  ∀ count, ∃ book later,
    OrderBook.run start (operations.take count) = .ok book ∧
      OrderBook.run map (operations.take count) = .ok later ∧
      BestAgrees book later

/-- No offer at another price comes while one rests at the marker. -/
def LeavesMarker (map : MapBook) : Operation → Prop
  | .add _ side price _ _ =>
      side = .sell → price ≠ kNoPrice → map.ordersAt .sell kNoPrice = 0
  | .replace oldRef _ price _ =>
      ∀ left, map.sideOf oldRef = .ok .sell → map.remove oldRef = .ok left →
        price ≠ kNoPrice → left.ordersAt .sell kNoPrice = 0
  | .cancel _ _ => True
  | .execute _ _ => True
  | .remove _ => True

section Step

variable {limits : Limits} {book : AvlBook} {map : MapBook}
  {arrivals next : ArrivalBook} {side : Side} {price : Price}

theorem ordersAt_eq_zero_iff (small : arrivals.orders.length < 2 ^ 32) :
    arrivals.ordersAt side price = 0 ↔ price ∉ arrivals.prices side := by
  have few : (arrivals.level side price).length < 2 ^ 32 :=
    lt_of_le_of_lt (MapBook.length_level_le arrivals side price) small
  rw [← ArrivalBook.level_ne_nil_iff, not_not, ArrivalBook.ordersAt,
    ← List.length_eq_zero_iff, ← UInt32.toNat_inj,
    UInt32.toNat_ofNat_of_lt' few]
  rfl

/-- Only an offer at the marker hides from another one. -/
theorem shows_iff :
    arrivals.Shows side price ↔
      (side = .sell → price ≠ kNoPrice →
        kNoPrice ∉ arrivals.prices .sell) := by
  have zero : ∀ {p : Price}, ¬ p < kNoPrice := UInt32.not_lt_zero
  have least : ∀ {p : Price}, ¬ kNoPrice < p → p = kNoPrice := fun no =>
    not_not.mp (mt UInt32.pos_iff_ne_zero.mpr no)
  constructor
  · rintro shows rfl notMarker present
    have marker : arrivals.best .sell = kNoPrice :=
      least (ArrivalBook.not_closer_best present)
    exact notMarker (least (shows marker kNoPrice present))
  · intro free marker p present closer
    cases side with
    | buy =>
        have noCloser := ArrivalBook.not_closer_best present
        rw [marker] at noCloser
        exact zero (least noCloser ▸ closer)
    | sell =>
        have nonempty : arrivals.isEmpty .sell = false := by
          rw [ArrivalBook.isEmpty_eq_prices_isEmpty, ← Bool.not_eq_true,
            List.isEmpty_iff]
          exact List.ne_nil_of_mem present
        have atMarker := ArrivalBook.best_mem_prices nonempty
        rw [marker] at atMarker
        refine free rfl ?_ atMarker
        rintro rfl
        exact zero closer

/-- The condition says the same of the list of arrivals. -/
theorem leavesMarker_iff (represents : MapBook.Represents map arrivals)
    (small : arrivals.orders.length < 2 ^ 32) {operation : Operation}
    (accepted : arrivals.perform? operation = some next) :
    LeavesMarker map operation ↔ arrivals.ShowsTo operation := by
  have ordersAt : ∀ {map : MapBook} {arrivals : ArrivalBook},
      MapBook.Represents map arrivals → arrivals.orders.length < 2 ^ 32 →
        (map.ordersAt .sell kNoPrice = 0 ↔
          kNoPrice ∉ arrivals.prices .sell) := by
    intro map arrivals represents small
    rw [← ordersAt_eq_zero_iff small]
    exact iff_of_eq (congrArg (· = 0)
      (Except.ok.inj (represents.answers.ordersAt .sell kNoPrice)))
  cases operation with
  | add ref side price qty owner =>
      rw [LeavesMarker, ordersAt represents small]
      exact shows_iff.symm
  | replace oldRef newRef price qty =>
      obtain ⟨old, member, rfl, -⟩ :=
        ArrivalBook.replace?_eq_some_iff.mp accepted
      have withdrawn : arrivals.perform? (.remove old.ref) =
          some (arrivals.reduce old.ref old.qty) :=
        ArrivalBook.remove?_eq_some_iff.mpr ⟨old, member, rfl, rfl⟩
      obtain ⟨left, removed, leftRepresents⟩ := represents.apply withdrawn
      have fewer := lt_of_le_of_lt
        (ArrivalBook.length_reduce_le arrivals old.ref old.qty) small
      have isSide : map.sideOf old.ref = .ok old.side :=
        represents.answers.sideOf old member
      rw [ArrivalBook.showsTo_replace member, shows_iff,
        ← ordersAt leftRepresents fewer]
      constructor
      · exact fun leaves onSell =>
          leaves left (isSide.trans (congrArg Except.ok onSell)) removed
      · intro free other onSell otherRemoved notMarker
        obtain rfl := Except.ok.inj (removed.symm.trans otherRemoved)
        exact free (Except.ok.inj (isSide.symm.trans onSell)) notMarker
  | cancel => exact Iff.rfl
  | execute => exact Iff.rfl
  | remove => exact Iff.rfl

theorem bestAgrees_iff
    (carries : BookT.Carries AvlLevelMap.Holds limits book arrivals)
    (represents : MapBook.Represents map arrivals)
    (small : arrivals.orders.length < 2 ^ 32) :
    BestAgrees book map ↔ book.CachesBest arrivals := by
  have reference := represents.answers
  constructor
  · exact fun agrees side =>
      (agrees.best side).trans (reference.best side)
  · intro caches
    have answers := carries.answers AvlLevelMap.implements caches
    have present : ∀ side price,
        OrderBook.ordersAt book side price ≠ .ok 0 ↔
          price ∈ arrivals.prices side := by
      intro side price
      rw [answers.ordersAt, Ne, Except.ok.injEq,
        ordersAt_eq_zero_iff small, not_not]
    have agree := answers.agree reference
    refine ⟨?_, ?_, ?_, agree.best, agree.crossed,
      carries.validate AvlLevelMap.implements (fun holds => holds.validate)
        caches, represents.validate small⟩
    · intro side isEmpty
      rw [answers.isEmpty, ArrivalBook.isEmpty_eq_prices_isEmpty,
        List.isEmpty_iff] at isEmpty
      rw [answers.best, ArrivalBook.best, isEmpty]
      rfl
    · intro side nonempty
      rw [answers.isEmpty] at nonempty
      rw [present, answers.best]
      exact ArrivalBook.best_mem_prices nonempty
    · intro side price occupied
      rw [answers.best]
      exact ArrivalBook.not_closer_best ((present side price).mp occupied)

end Step

/-- The best prices stay right exactly where every step leaves the marker. -/
theorem bestThroughout_iff {limits : Limits} {book : AvlBook} {map : MapBook}
    {arrivals final : ArrivalBook}
    (carries : BookT.Carries AvlLevelMap.Holds limits book arrivals)
    (caches : book.CachesBest arrivals)
    (represents : MapBook.Represents map arrivals)
    {operations : List Operation}
    (accepted : arrivals.run? operations = some final)
    (within : BookT.StaysWithin limits arrivals operations) :
    BestThroughout book map operations ↔
      AdmitsRun LeavesMarker map operations := by
  have finite := AvlLevelMap.isFiniteMap
  have start := (bestAgrees_iff carries represents carries.small).mpr caches
  induction operations generalizing book map arrivals with
  | nil => exact iff_of_true (fun count =>
      ⟨book, map, by rw [List.take_nil]; rfl, by rw [List.take_nil]; rfl,
        start⟩) trivial
  | cons operation rest induction =>
      rw [ArrivalBook.run?_cons] at accepted
      obtain ⟨next, performed, acceptedRest⟩ :=
        Option.bind_eq_some_iff.mp accepted
      have stepped : ∀ count, arrivals.run?
          ((operation :: rest).take (count + 1)) =
            next.run? (rest.take count) := by
        intro count
        rw [List.take_succ_cons, ArrivalBook.run?_cons, performed]
        rfl
      have allowed : limits.Allow next := within 1 next (stepped 0)
      have laterWithin : BookT.StaysWithin limits next rest :=
        fun count before reached =>
          within (count + 1) before ((stepped count).trans reached)
      obtain ⟨later, applied, follows⟩ :=
        carries.apply finite.implements performed allowed
          (BookT.admitsRun_of_forall finite.takes book [operation]).1
      obtain ⟨mapLater, mapApplied, laterRepresents⟩ :=
        represents.apply performed
      have right := bestAgrees_iff follows.carries laterRepresents
        follows.carries.small
      have leaves : LeavesMarker map operation ↔ BestAgrees later mapLater :=
        (leavesMarker_iff represents carries.small performed).trans
          ((follows.caches caches).symm.trans right.symm)
      have ran : ∀ count, OrderBook.run book
          ((operation :: rest).take (count + 1)) =
            OrderBook.run later (rest.take count) := by
        intro count
        rw [List.take_succ_cons, OrderBook.run_cons, applied, ok_bind]
      have mapRan : ∀ count, OrderBook.run map
          ((operation :: rest).take (count + 1)) =
            OrderBook.run mapLater (rest.take count) := by
        intro count
        rw [List.take_succ_cons, OrderBook.run_cons, mapApplied, ok_bind]
      constructor
      · intro throughout
        have tail : BestThroughout later mapLater rest := by
          intro count
          have reached := throughout (count + 1)
          rw [ran, mapRan] at reached
          exact reached
        obtain ⟨_, _, here, mapHere, agrees⟩ := tail 0
        cases here
        cases mapHere
        refine ⟨leaves.mpr agrees, fun other otherApplied => ?_⟩
        obtain rfl := Except.ok.inj (mapApplied.symm.trans otherApplied)
        exact (induction follows.carries (right.mp agrees) laterRepresents
          acceptedRest laterWithin agrees).mp tail
      · rintro ⟨here, behind⟩ count
        cases count with
        | zero => exact ⟨book, map, rfl, rfl, start⟩
        | succ count =>
            have agrees := leaves.mp here
            rw [ran, mapRan]
            exact (induction follows.carries (right.mp agrees)
              laterRepresents acceptedRest laterWithin agrees).mpr
                (behind mapLater mapApplied) count

/--
On a run within the storage, the best prices are right after every step exactly
where no offer at another price joins one at the marker.
-/
theorem avlBook_bestAgrees_iff {start : AvlBook}
    {orderCapacity levelCapacity indexCapacity : UInt32} {quarantine : Nat}
    (made : BookT.make orderCapacity levelCapacity indexCapacity quarantine =
      .ok start)
    {operations : List Operation}
    (within : RunsWithin start.storage operations) :
    BestThroughout start {} operations ↔
      AdmitsRun LeavesMarker ({} : MapBook) operations := by
  obtain ⟨map, final, -, arrived, -, stays⟩ :=
    within.reaches operations.length
  rw [List.take_length] at arrived stays
  have represents :=
    BookT.represents_of_make AvlLevelMap.implements made
  exact bestThroughout_iff represents.carries represents.caches
    MapBook.represents_empty arrived stays

theorem avlBook_bestAgrees_iff_replaceAndClear :
    ∃ start : AvlBook, BookT.make 8 16 8 0 = .ok start ∧
      RunsWithin start.storage MapBook.replaceAndClear ∧
      (BestThroughout start {} MapBook.replaceAndClear ↔
        AdmitsRun LeavesMarker ({} : MapBook) MapBook.replaceAndClear) := by
  obtain ⟨start, made, storage⟩ : ∃ start : AvlBook,
      BookT.make 8 16 8 0 = .ok start ∧ start.storage = ⟨8, 16, 16⟩ :=
    ⟨_, rfl, rfl⟩
  have within : RunsWithin start.storage MapBook.replaceAndClear :=
    storage ▸ replaceAndClear_within.runsWithin
  exact ⟨start, made, within, avlBook_bestAgrees_iff made within⟩

/-- An offer at zero, and then one above it. -/
def offerAtZero : List Operation :=
  [.add 1 .sell 0 5 0, .add 2 .sell 7 5 0]

theorem avlBook_missesOfferAtZero :
    ∃ start : AvlBook, BookT.make 8 16 8 0 = .ok start ∧
      RunsWithin start.storage offerAtZero ∧
      (OrderBook.run start offerAtZero >>= fun book =>
        pure (OrderBook.best book .sell)) = .ok 7 ∧
      (OrderBook.run ({} : MapBook) offerAtZero >>= fun map =>
        pure (OrderBook.best map .sell)) = .ok 0 ∧
      ¬ BestThroughout start {} offerAtZero := by
  have value : (ArrivalBook.empty.run? offerAtZero).isSome = true := by
    decide
  obtain ⟨final, accepted⟩ := Option.isSome_iff_exists.mp value
  have within : RunsWithin ⟨8, 16, 16⟩ offerAtZero :=
    runsWithin_of_length accepted (by decide) (by decide) (by decide)
  have cached : ((BookT.make 8 16 8 0 : Checked AvlBook) >>= fun start =>
      OrderBook.run start offerAtZero >>= fun book =>
        pure (OrderBook.best book .sell)) = .ok 7 := by
    decide +kernel
  have reference : (OrderBook.run ({} : MapBook) offerAtZero >>= fun map =>
      pure (OrderBook.best map .sell)) = .ok 0 := by
    decide +kernel
  obtain ⟨start, made, storage⟩ : ∃ start : AvlBook,
      BookT.make 8 16 8 0 = .ok start ∧ start.storage = ⟨8, 16, 16⟩ :=
    ⟨_, rfl, rfl⟩
  rw [made, ok_bind] at cached
  refine ⟨start, made, storage ▸ within, cached, reference, fun right => ?_⟩
  obtain ⟨book, map, ran, mapRan, agrees⟩ := right 2
  change OrderBook.run start offerAtZero = _ at ran
  change OrderBook.run ({} : MapBook) offerAtZero = _ at mapRan
  rw [ran, ok_bind, pure_eq_ok, Except.ok.injEq] at cached
  rw [mapRan, ok_bind, pure_eq_ok, Except.ok.injEq] at reference
  have same := agrees.best .sell
  rw [cached, reference] at same
  cases same

end AvlBook

end ItchExchange.Book
