import ItchExchange.Book.AvlBook
import ItchExchange.Book.FlatBookValidate
import ItchExchange.Book.LadderBook

/-!
# The default book on central prices

A ladder strands a level only where the window around the inside reaches past
the lowest or past the highest price.  Around a central price it does not, so a
ladder of central prices is open to every central price, and the default book
agrees with the reference book on all runs of such prices.
-/

namespace ItchExchange.Book

open ItchExchange.Core

namespace LevelMap

variable {M : Type}

/-- The structure stands for the map, all of whose prices are of this kind. -/
def HoldsOnly (kind : Price → Prop)
    (holds : Side → M → (Price → Option LevelHandle) → Nat → Prop)
    (side : Side) (levels : M) (map : Price → Option LevelHandle)
    (count : Nat) : Prop :=
  holds side levels map count ∧ ∀ price, map price ≠ none → kind price

/-- A structure which takes a kind of prices as long as it has no other. -/
theorem Implements.restrict [LevelMap M]
    {holds : Side → M → (Price → Option LevelHandle) → Nat → Prop}
    {admits : M → Price → Prop} (implements : Implements holds admits)
    {kind : Price → Prop}
    (admitted : ∀ {side levels map count price},
      HoldsOnly kind holds side levels map count → map price = none →
        kind price → admits levels price) :
    Implements (HoldsOnly kind holds) fun (_ : M) price => kind price where
  make := fun side =>
    ⟨implements.make side, fun _ some => absurd rfl some⟩
  find := fun held => implements.find held.1
  insert := by
    intro side levels map count price h held absent notNull notZero below
      isKind
    obtain ⟨later, inserted, holdsLater⟩ :=
      implements.insert held.1 absent notNull notZero below
        (admitted held absent isKind)
    refine ⟨later, inserted, holdsLater, fun other some => ?_⟩
    rw [Function.update_apply] at some
    by_cases same : other = price
    · exact same ▸ isKind
    · rw [if_neg same] at some
      exact held.2 other some
  erase := by
    intro side levels map count price h held here
    obtain ⟨later, erased, holdsLater⟩ := implements.erase held.1 here
    refine ⟨later, erased, holdsLater, fun other some => held.2 other ?_⟩
    intro none
    rw [Function.update_apply, none, ite_self] at some
    exact some rfl
  isEmpty := fun held => implements.isEmpty held.1
  best := fun held here => implements.best held.1 here
  forEachLevel := fun held => implements.forEachLevel held.1

/-- Level maps which take a kind of prices, and whose self-check passes. -/
structure OpenTo [LevelMap M] [ValidatedLevelMap M] (kind : Price → Prop)
    (holds : Side → M → (Price → Option LevelHandle) → Nat → Prop) :
    Prop where
  implements : Implements holds fun _ price => kind price
  checks : ∀ {side levels map count}, holds side levels map count →
    ValidatedLevelMap.validate levels = .ok ()
  notZero : ∀ {price}, kind price → price ≠ 0

end LevelMap

namespace PriceLadder

/-- The window around the price reaches past no end of the prices. -/
def Central (p : Price) : Prop := ¬ ReachesPast (tickOf p)

instance : DecidablePred Central :=
  fun _ => inferInstanceAs (Decidable (¬ _))

/-- From 20.48 dollars up to less than 429476.25 dollars. -/
theorem central_iff {p : Price} :
    Central p ↔ 204800 ≤ p.toNat ∧ p.toNat < 4294762500 := by
  rw [Central, ReachesPast, tickOf_eq]
  omega

/-- The ladder of this side is placed and has only levels of central prices. -/
abbrev HoldsCentral : Side → PriceLadder → (Price → Option LevelHandle) →
    Nat → Prop :=
  LevelMap.HoldsOnly Central Holds

theorem HoldsCentral.admits {side : Side} {ladder : PriceLadder}
    {map : Price → Option LevelHandle} {count : Nat} {p : Price}
    (holds : HoldsCentral side ladder map count) (central : Central p) :
    ladder.Admits p := by
  rintro - ⟨inside, held, -, -, past, -⟩
  refine absurd past ?_
  rcases held with rfl | found
  · exact central
  · refine holds.2 inside fun none => found ?_
    rw [holds.1.find, none]
    rfl

theorem implementsCentral :
    LevelMap.Implements HoldsCentral fun _ p => Central p :=
  implements.restrict fun holds _ central => HoldsCentral.admits holds central

theorem HoldsCentral.validate {side : Side} {ladder : PriceLadder}
    {map : Price → Option LevelHandle} {count : Nat}
    (holds : HoldsCentral side ladder map count) :
    ValidatedLevelMap.validate ladder = .ok () := by
  obtain ⟨⟨-, -, present, placed, -⟩, -⟩ := holds
  exact placed.validate

theorem openTo : LevelMap.OpenTo Central HoldsCentral where
  implements := implementsCentral
  checks := HoldsCentral.validate
  notZero := by
    rintro price central rfl
    exact absurd (central_iff.mp central).1 (by decide)

end PriceLadder

theorem AvlLevelMap.openTo :
    LevelMap.OpenTo (fun price => price ≠ 0) AvlLevelMap.Holds where
  implements :=
    { AvlLevelMap.implements with
      insert := fun held absent notNull notZero below _ =>
        AvlLevelMap.implements.insert held absent notNull notZero below
          trivial }
  checks := fun held => held.validate
  notZero := id

/-- The operation brings in no price but one of this kind. -/
def Operation.OfKind (kind : Price → Prop) (operation : Operation) : Prop :=
  ∀ price, operation.price? = some price → kind price

instance (kind : Price → Prop) [DecidablePred kind] (operation : Operation) :
    Decidable (operation.OfKind kind) :=
  Option.decidableForallMem operation.price?

namespace BookT

variable {M : Type} {hash : OrderRef → UInt64} {kind : Price → Prop}

/-- Level maps which take every price of a kind admit every such call. -/
theorem admits_of_kind {operation : Operation}
    (isKind : operation.OfKind kind) [LevelMap M] (book : BookT M hash) :
    Admits (fun (_ : M) price => kind price) book operation := by
  cases operation with
  | add ref side price qty owner => exact isKind price rfl
  | replace oldRef newRef price qty => exact fun _ _ _ _ => isKind price rfl
  | cancel => trivial
  | execute => trivial
  | remove => trivial

theorem admitsRun_of_kind [LevelMap M] {operations : List Operation}
    (areKind : ∀ operation ∈ operations, operation.OfKind kind)
    (book : BookT M hash) :
    AdmitsRun (Admits fun (_ : M) price => kind price) book operations := by
  induction operations generalizing book with
  | nil => trivial
  | cons operation rest induction =>
      obtain ⟨here, later⟩ := List.forall_mem_cons.mp areKind
      exact ⟨admits_of_kind here book, fun next _ => induction later next⟩

end BookT

namespace BookT

variable {M : Type} [LevelMap M] [ValidatedLevelMap M]
  {hash : OrderRef → UInt64} {kind : Price → Prop}
  {holds : Side → M → (Price → Option LevelHandle) → Nat → Prop}

/-- Where a kind of prices is taken, the books agree on runs of such prices. -/
theorem agree_of_openTo (openTo : LevelMap.OpenTo kind holds)
    {start : BookT M hash}
    {orderCapacity levelCapacity indexCapacity : UInt32} {quarantine : Nat}
    (made : make orderCapacity levelCapacity indexCapacity quarantine =
      .ok start)
    {operations : List Operation}
    (within : AcceptedWithin start.storage operations)
    (areKind : ∀ operation ∈ operations, operation.OfKind kind)
    (count : Nat) :
    ∃ book map, OrderBook.run start (operations.take count) = .ok book ∧
      OrderBook.run ({} : MapBook) (operations.take count) = .ok map ∧
      Agree book map ∧ book.validate = .ok () := by
  obtain ⟨map, final, reached, arrived, mapRepresents, stays⟩ :=
    within.runsWithin.reaches count
  have taken : ∀ operation ∈ operations.take count,
      operation.OfKind kind :=
    fun operation member => areKind operation (List.mem_of_mem_take member)
  obtain ⟨book, ran, represents⟩ :=
    (represents_of_make openTo.implements made).run openTo.implements arrived
      stays
      (fun operation member price isPrice =>
        openTo.notZero (taken operation member price isPrice))
      (admitsRun_of_kind taken start)
  exact ⟨book, map, ran, reached,
    (represents.answers openTo.implements).agree mapRepresents.answers,
    represents.validate openTo.implements openTo.checks⟩

end BookT

namespace FlatBook

/--
On a run of central prices which the reference book accepts within the storage,
every query has the same answer on both books after every step, and the
self-check accepts the default book.
-/
theorem flatBook_agrees_mapBook_central {start : FlatBook}
    {orderCapacity levelCapacity indexCapacity : UInt32} {quarantine : Nat}
    (made : BookT.make orderCapacity levelCapacity indexCapacity quarantine =
      .ok start)
    {operations : List Operation}
    (within : AcceptedWithin start.storage operations)
    (central : ∀ operation ∈ operations,
      operation.OfKind PriceLadder.Central) (count : Nat) :
    ∃ book map, OrderBook.run start (operations.take count) = .ok book ∧
      OrderBook.run ({} : MapBook) (operations.take count) = .ok map ∧
      Agree book map ∧ book.validate = .ok () :=
  BookT.agree_of_openTo PriceLadder.openTo made within central count

/-- Bids far apart, an offer between two ticks, and what becomes of them. -/
def centralRun : List Operation :=
  [.add 1 .buy 250000 100 0, .add 2 .buy 900000 40 7, .add 3 .sell 1000050 25 0,
    .execute 2 15, .replace 1 4 899900 60, .remove 2, .cancel 3 5]

theorem centralRun_within :
    AcceptedWithin ⟨8, 16, 16⟩ centralRun ∧
      ∀ operation ∈ centralRun, operation.OfKind PriceLadder.Central := by
  have value : (ArrivalBook.empty.run? centralRun).isSome = true := by
    decide
  obtain ⟨final, accepted⟩ := Option.isSome_iff_exists.mp value
  have central : ∀ operation ∈ centralRun,
      operation.OfKind PriceLadder.Central := by
    simp only [centralRun, Operation.OfKind, Operation.price?,
      PriceLadder.central_iff]
    simp
  exact ⟨acceptedWithin_of_length accepted
    (fun operation member price isPrice =>
      PriceLadder.openTo.notZero (central operation member price isPrice))
    (by decide) (by decide) (by decide), central⟩

theorem flatBook_agrees_mapBook_centralRun :
    ∃ start : FlatBook, BookT.make 8 16 8 0 = .ok start ∧
      ∃ book map, OrderBook.run start (centralRun.take 5) = .ok book ∧
        OrderBook.run ({} : MapBook) (centralRun.take 5) = .ok map ∧
        Agree book map ∧ book.validate = .ok () := by
  obtain ⟨start, made, storage⟩ : ∃ start : FlatBook,
      BookT.make 8 16 8 0 = .ok start ∧ start.storage = ⟨8, 16, 16⟩ :=
    ⟨_, rfl, rfl⟩
  exact ⟨start, made, flatBook_agrees_mapBook_central made
    (storage ▸ centralRun_within.1) centralRun_within.2 5⟩

end FlatBook

end ItchExchange.Book
