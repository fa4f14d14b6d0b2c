import ItchExchange.Book.Handle
import Mathlib.Logic.Function.Basic

/-!
# Level maps

`LevelMap` collects what `BookT` asks of the structure which finds the handle of
a price level.  `Implements` states its purpose: the structure is a finite map
from prices to handles, sorted from the inside of its side outwards.

A structure with a defect meets this only where the defect is not reached, so an
insertion is carried out where `admits` allows it.
-/

namespace ItchExchange.Book

open ItchExchange.Core

/-! ## From the inside outwards -/

/-- An ascending list, from the inside of a side outwards. -/
def outwards {α : Type} (side : Side) (ascending : List α) : List α :=
  match side with
  | .buy => ascending.reverse
  | .sell => ascending

theorem mem_outwards {α : Type} {entries : List α} {entry : α}
    (side : Side) : entry ∈ outwards side entries ↔ entry ∈ entries := by
  cases side with
  | buy => exact List.mem_reverse
  | sell => exact Iff.rfl

theorem outwards_perm {α : Type} (side : Side) (ascending : List α) :
    (outwards side ascending).Perm ascending := by
  cases side with
  | buy => exact List.reverse_perm ascending
  | sell => exact List.Perm.refl ascending

theorem outwards_pairwise {α : Type} {entries : List (Price × α)}
    (ordered : entries.Pairwise fun first second => first.1 < second.1)
    (side : Side) :
    ((outwards side entries).map Prod.fst).Pairwise (Closer side) := by
  rw [List.pairwise_map]
  cases side with
  | buy =>
      rw [outwards, List.pairwise_reverse]
      exact ordered
  | sell => exact ordered

/-! ## The operations -/

/-- What the book asks of the structure which finds the level of a price. -/
class LevelMap (M : Type) where
  make : Side → M
  find : M → Price → Checked LevelHandle
  insert : M → Price → LevelHandle → Checked M
  erase : M → Price → Checked M
  isEmpty : M → Bool
  best : M → Checked Price
  forEachLevel : M → Checked (List (Price × LevelHandle))

/-- A level map which checks its own structure. -/
class ValidatedLevelMap (M : Type) where
  validate : M → Checked Unit

namespace LevelMap

variable {M : Type} [LevelMap M]

/--
`holds side levels map count` says that the structure of this side stands for
the map, which has this many prices.
-/
structure Implements
    (holds : Side → M → (Price → Option LevelHandle) → Nat → Prop)
    (admits : M → Price → Prop) : Prop where
  make : ∀ side, holds side (LevelMap.make side) (fun _ => none) 0
  find : ∀ {side levels map count}, holds side levels map count →
    ∀ price, LevelMap.find levels price =
      .ok ((map price).getD Handle.null)
  insert : ∀ {side levels map count price h},
    holds side levels map count → map price = none → h ≠ Handle.null →
      price ≠ 0 → count < Handle.kMaxCapacity → admits levels price →
        ∃ levels', LevelMap.insert levels price h = .ok levels' ∧
          holds side levels' (Function.update map price (some h)) (count + 1)
  erase : ∀ {side levels map count price h},
    holds side levels map (count + 1) → map price = some h →
      ∃ levels', LevelMap.erase levels price = .ok levels' ∧
        holds side levels' (Function.update map price none) count
  isEmpty : ∀ {side levels map count}, holds side levels map count →
    (LevelMap.isEmpty levels = true ↔ ∀ price, map price = none)
  best : ∀ {side levels map count price h},
    holds side levels map count → map price = some h →
      ∃ best, LevelMap.best levels = .ok best ∧ map best ≠ none ∧
        ∀ other, map other ≠ none → ¬ Closer side other best
  forEachLevel : ∀ {side levels map count},
    holds side levels map count →
      ∃ visits, LevelMap.forEachLevel levels = .ok visits ∧
        (visits.map Prod.fst).Pairwise (Closer side) ∧
        ∀ price h, (price, h) ∈ visits ↔ map price = some h

/-- The structure carries out an insertion at the price. -/
def Takes (holds : Side → M → (Price → Option LevelHandle) → Nat → Prop)
    (levels : M) (price : Price) : Prop :=
  ∀ {side map count h}, holds side levels map count → map price = none →
    h ≠ Handle.null → count < Handle.kMaxCapacity →
      ∃ levels', LevelMap.insert levels price h = .ok levels' ∧
        holds side levels' (Function.update map price (some h)) (count + 1)

theorem Implements.takes
    {holds : Side → M → (Price → Option LevelHandle) → Nat → Prop}
    {admits : M → Price → Prop} (implements : Implements holds admits)
    {levels : M} {price : Price} (priced : price ≠ 0)
    (admitted : admits levels price) : Takes holds levels price :=
  fun held absent notNull below =>
    implements.insert held absent notNull priced below admitted

/-- The structure is a finite map over all prices. -/
structure IsFiniteMap
    (holds : Side → M → (Price → Option LevelHandle) → Nat → Prop) :
    Prop where
  implements : Implements holds fun _ _ => True
  takes : ∀ levels price, Takes holds levels price

end LevelMap

end ItchExchange.Book
