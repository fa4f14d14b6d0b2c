import ItchExchange.Book.FlatBookRefinement
import ItchExchange.Book.PriceLadderRuns

/-!
# The pooled book over the price ladder

`FlatBook` is the pooled book with one ladder for each side.  A ladder is a
level map as long as no insertion strands a level, so the book agrees with the
reference book on the runs without such an insertion, and on others it may not.
-/

namespace ItchExchange.Book

open ItchExchange.Core
open Std (ExtTreeMap)

namespace PriceLadder

/-- The ladder of this side is placed and has the levels of the map. -/
def Holds (side : Side) (ladder : PriceLadder)
    (map : Price → Option LevelHandle) (count : Nat) : Prop :=
  ladder.side = side ∧ ladder.Vacant ∧
    ∃ present : PresentLevels, ladder.Placed present ∧ present.map = map ∧
      present.size = count

/-- A level for this price is there, or a new one leaves none stranded. -/
def Admits (ladder : PriceLadder) (p : Price) : Prop :=
  ladder.find p = .ok Handle.null → ¬ ladder.Strands p

section Holds

variable {side : Side} {ladder : PriceLadder}
  {map : Price → Option LevelHandle} {count : Nat} {p : Price}
  {h : LevelHandle}

theorem Holds.find (holds : Holds side ladder map count) (p : Price) :
    ladder.find p = .ok ((map p).getD Handle.null) := by
  obtain ⟨-, -, present, placed, rfl, -⟩ := holds
  exact (placed_isSortedMap ladder present placed).find p

theorem Holds.insert (holds : Holds side ladder map count)
    (absent : map p = none) (notNull : h ≠ Handle.null) (notZero : p ≠ 0)
    (admitted : ladder.Admits p) :
    ∃ later, ladder.insert p h = .ok later ∧
      Holds side later (Function.update map p (some h)) (count + 1) := by
  have found := holds.find p
  rw [absent, Option.getD_none] at found
  obtain ⟨rfl, vacant, present, placed, rfl, rfl⟩ := holds
  have notMember : p ∉ present := fun member =>
    mem_iff_ne_none.mp member absent
  obtain ⟨later, inserted, -, laterVacant, side, -, -, keeps⟩ :=
    placed.insert vacant notMember notNull notZero
  exact ⟨later, inserted, side, laterVacant, _,
    keeps.mpr (admitted found), present.map_insert p h,
    PresentLevels.size_insert absent⟩

theorem Holds.erase (holds : Holds side ladder map (count + 1))
    (here : map p = some h) :
    ∃ later, ladder.erase p = .ok later ∧
      Holds side later (Function.update map p none) count := by
  obtain ⟨rfl, vacant, present, placed, rfl, size⟩ := holds
  have member : p ∈ present :=
    mem_iff_ne_none.mpr (here ▸ Option.some_ne_none h)
  obtain ⟨later, erased, laterPlaced, laterVacant, side⟩ :=
    placed.erase vacant member
  have smaller := PresentLevels.size_erase (mem_iff_ne_none.mp member)
  exact ⟨later, erased, side, laterVacant, _, laterPlaced,
    present.map_erase p, by omega⟩

theorem Holds.isEmpty (holds : Holds side ladder map count) :
    ladder.isEmpty = true ↔ ∀ p, map p = none := by
  obtain ⟨rfl, -, present, placed, rfl, -⟩ := holds
  have levels := (placed_iff.mp placed).2.2
  have empty : ladder.isEmpty = true ↔ present.size = 0 := by
    rw [PriceLadder.isEmpty, decide_eq_true_iff, ← levels,
      ← UInt32.toNat_inj]
    rfl
  rw [empty, ← ExtTreeMap.eq_empty_iff_size_eq_zero]
  constructor
  · rintro rfl p
    exact ExtTreeMap.getElem?_empty
  · intro none
    exact ExtTreeMap.ext_getElem? fun p =>
      (none p).trans ExtTreeMap.getElem?_empty.symm

theorem implements : LevelMap.Implements Holds Admits where
  make := fun side =>
    ⟨rfl, vacant_empty side 0, ∅, placed_empty side 0,
      funext fun _ => ExtTreeMap.getElem?_empty, ExtTreeMap.size_empty⟩
  find := fun holds price => holds.find price
  insert := fun holds absent notNull notZero _ admitted =>
    holds.insert absent notNull notZero admitted
  erase := fun holds here => holds.erase here
  isEmpty := fun holds => holds.isEmpty
  best := by
    intro side ladder map count price h holds here
    have notEmpty : ladder.isEmpty = false := by
      rw [← Bool.not_eq_true, holds.isEmpty]
      intro none
      rw [none price] at here
      cases here
    obtain ⟨rfl, -, present, placed, rfl, -⟩ := holds
    obtain ⟨best, reached, member, closest⟩ :=
      (placed_isSortedMap ladder present placed).best notEmpty
    exact ⟨best, reached, mem_iff_ne_none.mp member, fun other some =>
      closest other (mem_iff_ne_none.mpr some)⟩
  forEachLevel := by
    intro side ladder map count holds
    obtain ⟨rfl, -, present, placed, rfl, -⟩ := holds
    obtain ⟨visits, walked, perm, sorted⟩ :=
      (placed_isSortedMap ladder present placed).forEachLevel
    refine ⟨visits, walked, sorted, fun price h => ?_⟩
    rw [perm.mem_iff, ExtTreeMap.mem_toList_iff_getElem?_eq_some]
    rfl

/-- A stranded level is one which `find` misses. -/
theorem Holds.missed (holds : Holds side ladder map count)
    (absent : map p = none) (notZero : p ≠ 0) (strands : ladder.Strands p)
    {later : PriceLadder} (inserted : ladder.insert p h = .ok later) :
    ∃ q, (q = p ∨ map q ≠ none) ∧ later.find q = .ok Handle.null := by
  obtain ⟨rfl, vacant, present, placed, rfl, rfl⟩ := holds
  have notMember : p ∉ present := fun member =>
    mem_iff_ne_none.mp member absent
  have notNull : h ≠ Handle.null := by
    unfold PriceLadder.insert at inserted
    obtain ⟨_, checked, -⟩ := bind_eq_ok_iff.mp inserted
    exact assertMsg_eq_ok_iff.mp checked
  obtain ⟨other, same, stores, -, -, levels, -, keeps⟩ :=
    placed.insert vacant notMember notNull notZero
  obtain rfl : other = later := Except.ok.inj (same.symm.trans inserted)
  have notPlaced := mt keeps.mp (not_not.mpr strands)
  rw [placed_iff] at notPlaced
  have outOfPlace : ∃ q, other.InWindow q ∧ other.overflow[q]? ≠ none := by
    by_contra inPlace
    push Not at inPlace
    exact notPlaced ⟨stores, inPlace, levels⟩
  obtain ⟨q, window, stranded⟩ := outOfPlace
  have vacantSlot : ¬ other.bitSet (other.slotOf q) = true := fun occupied =>
    stranded (stores.window q window occupied).2.2
  refine ⟨q, ?_, ?_⟩
  · have here := stores.outside q fun both => vacantSlot both.2
    rw [here, present.map_insert, Function.update_apply] at stranded
    by_cases same : q = p
    · exact Or.inl same
    · rw [if_neg same] at stranded
      exact Or.inr stranded
  · rw [PriceLadder.find, if_pos window, if_neg vacantSlot]

end Holds

end PriceLadder

abbrev FlatBook := BookT PriceLadder IndexHash.mixed.hash

namespace BookT

variable {M : Type} {hash : OrderRef → UInt64} {book next : BookT M hash}

theorem ladders_linkTail {oh : OrderHandle} {lh : LevelHandle}
    (linked : book.linkTail oh lh = .ok next) :
    next.ladders = book.ladders := by
  unfold linkTail at linked
  dsimp only at linked
  split_ifs at linked
  · obtain ⟨_, -, same⟩ := bind_eq_ok_iff.mp linked
    cases same
    rfl
  · obtain ⟨_, -, same⟩ := bind_eq_ok_iff.mp linked
    cases same
    rfl

theorem ladders_pushBack {oh : OrderHandle} {lh : LevelHandle} {qty : Qty}
    (pushed : book.pushBack oh lh qty = .ok next) :
    next.ladders = book.ladders := by
  unfold pushBack at pushed
  obtain ⟨_, -, pushed⟩ := bind_eq_ok_iff.mp pushed
  obtain ⟨linkedBook, linked, same⟩ := bind_eq_ok_iff.mp pushed
  cases same
  exact (ladders_linkTail linked).trans rfl

theorem ladders_noteAdded (book : BookT M hash) (side : Side)
    (price : Price) : (book.noteAdded side price).ladders = book.ladders := by
  rw [noteAdded_eq]

/-- Where the price has no level, `add` inserts one into the level map. -/
theorem inserted_of_add [LevelMap M] {ref : OrderRef} {side : Side}
    {price : Price} {qty : Qty} {owner : Owner}
    (added : book.add ref side price qty owner = .ok next)
    (missing : LevelMap.find (book.ladders.get side) price =
      .ok Handle.null) :
    ∃ lh ladder, LevelMap.insert (book.ladders.get side) price lh =
        .ok ladder ∧
      next.ladders = book.ladders.set side ladder := by
  unfold add at added
  obtain ⟨_, -, added⟩ := bind_eq_ok_iff.mp added
  obtain ⟨_, -, added⟩ := bind_eq_ok_iff.mp added
  obtain ⟨_, -, added⟩ := bind_eq_ok_iff.mp added
  obtain ⟨⟨oh, orders⟩, -, added⟩ := bind_eq_ok_iff.mp added
  obtain ⟨_, -, added⟩ := bind_eq_ok_iff.mp added
  obtain ⟨⟨lh, found⟩, foundLevel, added⟩ := bind_eq_ok_iff.mp added
  obtain ⟨pushed, pushedBook, added⟩ := bind_eq_ok_iff.mp added
  obtain ⟨index, -, added⟩ := bind_eq_ok_iff.mp added
  unfold levelFor at foundLevel
  dsimp only at foundLevel
  rw [missing, ok_bind, Handle.isNull_iff.mpr rfl] at foundLevel
  obtain ⟨⟨lh', levels⟩, -, foundLevel⟩ := bind_eq_ok_iff.mp foundLevel
  obtain ⟨_, -, foundLevel⟩ := bind_eq_ok_iff.mp foundLevel
  obtain ⟨ladder, inserted, foundLevel⟩ := bind_eq_ok_iff.mp foundLevel
  refine ⟨lh', ladder, inserted, ?_⟩
  cases added
  cases foundLevel
  rw [ladders_noteAdded]
  exact ladders_pushBack pushedBook

end BookT

namespace FlatBook

/-- No insertion of the run leaves a level of a window in an overflow map. -/
def NeverStrands (start : FlatBook) (operations : List Operation) : Prop :=
  AdmitsRun (BookT.Admits PriceLadder.Admits) start operations

section Step

variable {limits : Limits} {book later : FlatBook} {map : MapBook}
  {arrivals next : ArrivalBook} {order : Resting}

/-- A queue which is counted right was not stranded. -/
theorem admits_of_add
    (carries : BookT.Carries PriceLadder.Holds limits book arrivals)
    (accepted : arrivals.insert? order = some next)
    (allowed : limits.Allow next) (priced : order.price ≠ 0)
    (added : book.add order.ref order.side order.price order.qty order.owner =
      .ok later)
    (counted : ∀ price, later.ordersAt order.side price =
      .ok (next.ordersAt order.side price)) :
    PriceLadder.Admits (book.ladders.get order.side) order.price := by
  intro missing strands
  obtain ⟨handleOf, levelOf, keys, stores⟩ := carries
  obtain ⟨positive, fresh, rfl⟩ :=
    ArrivalBook.insert?_eq_some_iff.mp accepted
  have heap := stores.holding.heap
  have onSide := stores.holding.ladders order.side
  have absent : levelMap levelOf keys order.side order.price = none := by
    rw [levelMap_eq_none_iff]
    intro present
    have found := onSide.find order.price
    rw [missing, levelMap_of_mem present, Option.getD_some,
      Except.ok.injEq] at found
    exact heap.level_ne_null present found.symm
  obtain ⟨lh, ladder, inserted, ladders⟩ :=
    BookT.inserted_of_add added missing
  obtain ⟨q, here, missed⟩ := onSide.missed absent priced strands inserted
  have nothing : later.ordersAt order.side q = .ok 0 := by
    rw [BookT.ordersAt, ladders, PerSide.get_set_self]
    change (ladder.find q >>= _) = _
    rw [missed]
    rfl
  have none := (counted q).symm.trans nothing
  rw [Except.ok.injEq, ArrivalBook.ordersAt] at none
  have few : ((arrivals.add order fresh positive).level order.side q).length <
      2 ^ 32 := by
    have filtered := MapBook.length_level_le
      (arrivals.add order fresh positive) order.side q
    have room := allowed.orders
    have size := heap.ordersServe.size_le
    have small : Handle.kMaxCapacity < 2 ^ 32 := by decide
    omega
  have isEmpty : (arrivals.add order fresh positive).level order.side q =
      [] := by
    rw [← List.length_eq_zero_iff, ← UInt32.toNat_ofNat_of_lt' few, none]
    rfl
  rw [ArrivalBook.level_add] at isEmpty
  rcases here with rfl | present
  · rw [if_pos ⟨rfl, rfl⟩] at isEmpty
    simp at isEmpty
  · have member : (order.side, q) ∈ keys :=
      not_not.mp (mt levelMap_eq_none_iff.mpr present)
    have nonempty := stores.inhabited _ member
    rw [← ArrivalBook.level_eq_atKey] at nonempty
    split_ifs at isEmpty
    · simp at isEmpty
    · exact nonempty isEmpty

/-- Where the books agree after a call, it has stranded no level. -/
theorem admits_of_agree
    (carries : BookT.Carries PriceLadder.Holds limits book arrivals)
    {operation : Operation}
    (accepted : arrivals.perform? operation = some next)
    (allowed : limits.Allow next) (priced : operation.Priced)
    (applied : OrderBook.apply book operation = .ok later)
    (counted : ∀ side price,
      later.ordersAt side price = .ok (next.ordersAt side price)) :
    BookT.Admits PriceLadder.Admits book operation := by
  cases operation with
  | add ref side price qty owner =>
      exact admits_of_add carries accepted allowed (priced price rfl)
        applied (counted side)
  | replace oldRef newRef price qty =>
      intro side emptied isSide removed
      obtain ⟨old, member, rfl, inserted⟩ :=
        ArrivalBook.replace?_eq_some_iff.mp accepted
      obtain ⟨oh, record, required, got, recordSide, -, recordQty, owner,
        reduces⟩ := carries.resting PriceLadder.implements member
      obtain ⟨other, reduced, after⟩ := reduces old.qty UInt32.le_rfl
      rw [BookT.sideOf, required, ok_bind, got, ok_bind, recordSide,
        pure_eq_ok, Except.ok.injEq] at isSide
      rw [BookT.remove, required, ok_bind, got, ok_bind, recordQty, reduced,
        Except.ok.injEq] at removed
      subst isSide removed
      change book.replace old.ref newRef price qty = _ at applied
      rw [BookT.replace, required, ok_bind, got, ok_bind, recordQty, reduced,
        ok_bind, recordSide, owner] at applied
      exact admits_of_add after.carries inserted allowed (priced price rfl)
        applied (counted old.side)
  | cancel => trivial
  | execute => trivial
  | remove => trivial

end Step

/-- After every step of the run both books answer every query alike. -/
def AgreeThroughout (start : FlatBook) (map : MapBook)
    (operations : List Operation) : Prop :=
  ∀ count, ∃ book later,
    OrderBook.run start (operations.take count) = .ok book ∧
      OrderBook.run map (operations.take count) = .ok later ∧
      Agree book later

/-- The books agree throughout only where the run strands no level. -/
theorem neverStrands_of_agree {limits : Limits} {book : FlatBook}
    {map : MapBook} {arrivals : ArrivalBook}
    (represents : BookT.Represents PriceLadder.Holds limits book arrivals)
    (mapRepresents : MapBook.Represents map arrivals)
    {operations : List Operation}
    (within : BookT.StaysWithin limits arrivals operations)
    (priced : ∀ operation ∈ operations, operation.Priced)
    (agree : AgreeThroughout book map operations) :
    NeverStrands book operations := by
  induction operations generalizing book map arrivals with
  | nil => trivial
  | cons operation rest induction =>
      obtain ⟨later, mapLater, ran, mapRan, agreeLater⟩ := agree 1
      rw [List.take_succ_cons, List.take_zero, OrderBook.run_cons]
        at ran mapRan
      obtain ⟨_, applied, same⟩ := bind_eq_ok_iff.mp ran
      cases same
      obtain ⟨next, accepted, nextRepresents⟩ :=
        mapRepresents.run_accepted
          ((OrderBook.run_cons map operation []).trans mapRan)
      rw [ArrivalBook.run?_cons] at accepted
      obtain ⟨_, performed, same⟩ := Option.bind_eq_some_iff.mp accepted
      cases same
      have allowed : limits.Allow next := within 1 next (by
        rw [List.take_succ_cons, List.take_zero, ArrivalBook.run?_cons]
        exact accepted)
      obtain ⟨pricedHere, pricedLater⟩ := List.forall_mem_cons.mp priced
      have counted : ∀ side price,
          later.ordersAt side price = .ok (next.ordersAt side price) :=
        fun side price => (agreeLater.ordersAt side price).trans
          (nextRepresents.answers.ordersAt side price)
      have admitted := admits_of_agree represents.carries performed allowed
        pricedHere applied counted
      obtain ⟨other, otherApplied, laterRepresents⟩ :=
        represents.apply PriceLadder.implements performed allowed pricedHere
          admitted
      obtain rfl : other = later :=
        Except.ok.inj (otherApplied.symm.trans applied)
      refine ⟨admitted, fun after afterApplied => ?_⟩
      obtain rfl : other = after :=
        Except.ok.inj (applied.symm.trans afterApplied)
      refine induction laterRepresents nextRepresents ?_ pricedLater ?_
      · intro count before reached
        refine within (count + 1) before ?_
        rw [List.take_succ_cons, ArrivalBook.run?_cons, performed]
        exact reached
      · intro count
        obtain ⟨final, mapFinal, finalRan, mapFinalRan, agreeFinal⟩ :=
          agree (count + 1)
        rw [List.take_succ_cons, OrderBook.run_cons] at finalRan mapFinalRan
        rw [applied] at finalRan
        obtain ⟨_, mapApplied, mapRest⟩ := bind_eq_ok_iff.mp mapFinalRan
        rw [mapApplied] at mapRan
        cases mapRan
        exact ⟨final, mapFinal, finalRan, mapRest, agreeFinal⟩

/--
On a run which the reference book accepts within the storage, both books agree
after every step exactly where no insertion strands a level.
-/
theorem flatBook_agrees_mapBook_iff {start : FlatBook}
    {orderCapacity levelCapacity indexCapacity : UInt32} {quarantine : Nat}
    (made : BookT.make orderCapacity levelCapacity indexCapacity quarantine =
      .ok start)
    {operations : List Operation}
    (within : AcceptedWithin start.storage operations) :
    AgreeThroughout start {} operations ↔ NeverStrands start operations := by
  constructor
  · intro agree
    refine neverStrands_of_agree
      (BookT.represents_of_make PriceLadder.implements made)
      MapBook.represents_empty ?_ within.priced agree
    intro count arrivals arrived
    obtain ⟨map, ran, represents⟩ := MapBook.represents_empty.run arrived
    exact (within.fits count map ran).allow represents
  · intro never count
    exact BookT.agree_of_acceptedWithin PriceLadder.implements made within
      never count

theorem flatBook_agrees_mapBook_iff_replaceAndClear :
    ∃ start : FlatBook, BookT.make 8 16 8 0 = .ok start ∧
      AcceptedWithin start.storage MapBook.replaceAndClear ∧
      (AgreeThroughout start {} MapBook.replaceAndClear ↔
        NeverStrands start MapBook.replaceAndClear) := by
  obtain ⟨start, made, storage⟩ : ∃ start : FlatBook,
      BookT.make 8 16 8 0 = .ok start ∧ start.storage = ⟨8, 16, 16⟩ :=
    ⟨_, rfl, rfl⟩
  exact ⟨start, made, storage ▸ replaceAndClear_within,
    flatBook_agrees_mapBook_iff made (storage ▸ replaceAndClear_within)⟩

/-- An offer at fifty dollars, and then a stub quote at one cent. -/
def offerThenStub : List Operation :=
  [.add 1 .sell 500000 5 0, .add 2 .sell 100 7 0]

theorem flatBook_missesStub :
    ∃ start : FlatBook, BookT.make 8 16 8 0 = .ok start ∧
      AcceptedWithin start.storage offerThenStub ∧
      (OrderBook.run start offerThenStub >>= fun book =>
        book.qtyAt .sell 100) = .ok 0 ∧
      (OrderBook.run ({} : MapBook) offerThenStub >>= fun map =>
        OrderBook.qtyAt map .sell 100) = .ok 7 ∧
      ¬ AgreeThroughout start {} offerThenStub := by
  have value : (ArrivalBook.empty.run? offerThenStub).isSome = true := by
    decide
  obtain ⟨final, accepted⟩ := Option.isSome_iff_exists.mp value
  have within : AcceptedWithin ⟨8, 16, 16⟩ offerThenStub :=
    acceptedWithin_of_length accepted
      (by simp [offerThenStub, Operation.Priced, Operation.price?])
      (by decide) (by decide) (by decide)
  have flat : ((BookT.make 8 16 8 0 : Checked FlatBook) >>= fun start =>
      OrderBook.run start offerThenStub >>= fun book =>
        book.qtyAt .sell 100) = .ok 0 := by
    decide +kernel
  have reference : (OrderBook.run ({} : MapBook) offerThenStub >>= fun map =>
      OrderBook.qtyAt map .sell 100) = .ok 7 := by
    decide +kernel
  obtain ⟨start, made, storage⟩ : ∃ start : FlatBook,
      BookT.make 8 16 8 0 = .ok start ∧ start.storage = ⟨8, 16, 16⟩ :=
    ⟨_, rfl, rfl⟩
  rw [made, ok_bind] at flat
  refine ⟨start, made, storage ▸ within, flat, reference, fun agree => ?_⟩
  obtain ⟨book, map, ran, mapRan, same⟩ := agree 2
  have qty := same.qtyAt .sell 100
  change OrderBook.run start offerThenStub = _ at ran
  change OrderBook.run ({} : MapBook) offerThenStub = _ at mapRan
  rw [ran, ok_bind] at flat
  rw [mapRan, ok_bind] at reference
  have zero : OrderBook.qtyAt book .sell 100 = .ok 0 := flat
  rw [zero, reference] at qty
  cases qty

end FlatBook

end ItchExchange.Book
