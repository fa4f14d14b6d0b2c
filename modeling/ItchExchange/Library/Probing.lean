import Mathlib.Data.Finset.Card
import Mathlib.Data.Finset.Range
import Mathlib.Data.Nat.Find
import Mathlib.Logic.Function.Basic
import Mathlib.Tactic.SplitIfs

/-!
# Linear probing

A table of `size` slots in which every key is searched from its home slot on,
around the end, up to the first empty slot.  A deletion closes the hole which it
leaves by moving later entries back (Knuth's algorithm R).  `Hole` is the
invariant of that loop: all the slots it has passed are occupied by entries
which need not move, and every entry is reached but for the hole.
-/

namespace Probing

/-! ## Positions around the table -/

/-- The steps from a slot forward to another one. -/
def distance (size start stop : Nat) : Nat :=
  if start ≤ stop then stop - start else stop + size - start

/-- The slot so many steps behind another one. -/
def offset (size start steps : Nat) : Nat :=
  if start + steps < size then start + steps else start + steps - size

/-- The next slot. -/
def next (size slot : Nat) : Nat := offset size slot 1

section Positions

variable {size start stop : Nat}

theorem distance_cases (inside : start < size) (stop : Nat) :
    start ≤ stop ∧ distance size start stop + start = stop ∨
      stop < start ∧ distance size start stop + start = stop + size := by
  unfold distance
  split_ifs <;> omega

theorem offset_cases (size start steps : Nat) :
    start + steps < size ∧ offset size start steps = start + steps ∨
      size ≤ start + steps ∧
        offset size start steps = start + steps - size := by
  unfold offset
  split_ifs <;> omega

theorem offset_lt {steps : Nat} (inside : start < size)
    (small : steps ≤ size) : offset size start steps < size := by
  have cases := offset_cases size start steps
  omega

theorem next_lt (inside : start < size) : next size start < size :=
  offset_lt inside (Nat.one_le_of_lt inside)

theorem distance_lt (inside : start < size) (stopInside : stop < size) :
    distance size start stop < size := by
  have cases := distance_cases inside stop
  omega

theorem offset_distance (inside : start < size) (stopInside : stop < size) :
    offset size start (distance size start stop) = stop := by
  have first := distance_cases inside stop
  have second := offset_cases size start (distance size start stop)
  omega

theorem distance_offset {steps : Nat} (inside : start < size)
    (small : steps < size) :
    distance size start (offset size start steps) = steps := by
  have first := offset_cases size start steps
  have second := distance_cases inside (offset size start steps)
  omega

theorem next_offset {steps : Nat} (inside : start < size)
    (small : steps < size) :
    next size (offset size start steps) = offset size start (steps + 1) := by
  have first := offset_cases size start steps
  have second := offset_cases size (offset size start steps) 1
  have third := offset_cases size start (steps + 1)
  unfold next
  omega

/-- One step forward is one step less to go. -/
theorem distance_next (inside : start < size) (stopInside : stop < size)
    (_ : start ≠ stop) :
    distance size (next size start) stop + 1 = distance size start stop := by
  have first := distance_cases inside stop
  have second := offset_cases size start 1
  have third := distance_cases (next_lt inside) stop
  unfold next at third ⊢
  omega

/--
The test with which the deletion decides that an entry with this home need not
move from `slot` to the hole.
-/
def Stays (hole home slot : Nat) : Prop :=
  if hole ≤ slot then hole < home ∧ home ≤ slot
  else hole < home ∨ home ≤ slot

instance (hole home slot : Nat) : Decidable (Stays hole home slot) := by
  unfold Stays
  infer_instance

/-- An entry stays when its home lies between the hole and its slot. -/
theorem stays_iff {hole home slot : Nat} (holeInside : hole < size)
    (homeInside : home < size) (slotInside : slot < size)
    (_ : hole ≠ slot) :
    Stays hole home slot ↔
      0 < distance size hole home ∧
        distance size hole home ≤ distance size hole slot := by
  have first := distance_cases holeInside home
  have second := distance_cases holeInside slot
  unfold Stays
  split_ifs <;> omega

end Positions

/-! ## Tables -/

section Table

variable {K V : Type}

/-- The occupied slots. -/
def occupied (size : Nat) (table : Nat → Option (K × V)) : Finset Nat :=
  (Finset.range size).filter fun slot => (table slot).isSome = true

/-- The table holds exactly the entries of the map. -/
structure Stores (size : Nat) (table : Nat → Option (K × V))
    (map : K → Option V) (count : Nat) : Prop where
  stored : ∀ key value, map key = some value ↔
    ∃ slot < size, table slot = some (key, value)
  distinct : ∀ {first second key value other},
    first < size → second < size → table first = some (key, value) →
      table second = some (key, other) → first = second
  counted : (occupied size table).card = count

/-- Every entry is reached from its home without crossing an empty slot. -/
structure Represents (size : Nat) (home : K → Nat)
    (table : Nat → Option (K × V)) (map : K → Option V) (count : Nat) :
    Prop extends Stores size table map count where
  homes : ∀ key, home key < size
  reachable : ∀ {slot key value}, slot < size →
    table slot = some (key, value) → ∀ {between}, between < size →
      distance size (home key) between < distance size (home key) slot →
        table between ≠ none

variable {size : Nat} {home : K → Nat} {table : Nat → Option (K × V)}
  {map : K → Option V} {count : Nat}

theorem mem_occupied {slot : Nat} :
    slot ∈ occupied size table ↔ slot < size ∧ table slot ≠ none := by
  rw [occupied, Finset.mem_filter, Finset.mem_range, Option.isSome_iff_ne_none]

/-- Below the size there is an empty slot. -/
theorem Stores.exists_empty (stores : Stores size table map count)
    (room : count < size) : ∃ slot < size, table slot = none := by
  by_contra full
  push Not at full
  have all : occupied size table = Finset.range size := by
    ext slot
    rw [mem_occupied, Finset.mem_range]
    exact ⟨fun both => both.1, fun inside => ⟨inside, full slot inside⟩⟩
  have card := stores.counted
  rw [all, Finset.card_range] at card
  omega

/-! ## Searching and inserting -/

/--
A search crosses entries of other keys up to the slot of its key, or up to the
empty slot where the key belongs.
-/
theorem Represents.search
    (represents : Represents size home table map count)
    (room : count < size) (key : K) :
    ∃ steps < size,
      (∀ earlier < steps, ∃ other value,
        table (offset size (home key) earlier) = some (other, value) ∧
          other ≠ key) ∧
      table (offset size (home key) steps) =
        (map key).map fun value => (key, value) := by
  have inside := represents.homes key
  cases found : map key with
  | some value =>
      obtain ⟨slot, slotInside, holds⟩ :=
        (represents.stored key value).mp found
      refine ⟨distance size (home key) slot,
        distance_lt inside slotInside, ?_, ?_⟩
      · intro earlier before
        have small := Nat.lt_trans before (distance_lt inside slotInside)
        have betweenInside : offset size (home key) earlier < size :=
          offset_lt inside small.le
        have steps := distance_offset inside small
        have crossed := represents.reachable slotInside holds
          betweenInside (steps.trans_lt before)
        obtain ⟨⟨other, otherValue⟩, holdsOther⟩ :=
          Option.ne_none_iff_exists'.mp crossed
        refine ⟨other, otherValue, holdsOther, ?_⟩
        rintro rfl
        have same := represents.distinct betweenInside slotInside
          holdsOther holds
        rw [same] at steps
        omega
      · rw [offset_distance inside slotInside, holds]
        rfl
  | none =>
      obtain ⟨empty, emptyInside, isEmpty⟩ := represents.exists_empty room
      have reached : table (offset size (home key)
          (distance size (home key) empty)) = none := by
        rw [offset_distance inside emptyInside, isEmpty]
      have some_empty : ∃ steps,
          table (offset size (home key) steps) = none :=
        ⟨_, reached⟩
      have small : Nat.find some_empty < size :=
        (Nat.find_min' some_empty reached).trans_lt
          (distance_lt inside emptyInside)
      refine ⟨Nat.find some_empty, small, ?_, Nat.find_spec some_empty⟩
      intro earlier before
      obtain ⟨⟨other, value⟩, holds⟩ := Option.ne_none_iff_exists'.mp
        (Nat.find_min some_empty before)
      refine ⟨other, value, holds, ?_⟩
      rintro rfl
      have stored := (represents.stored other value).mpr
        ⟨_, offset_lt inside (before.trans small).le, holds⟩
      rw [found] at stored
      cases stored

theorem occupied_update_some {slot : Nat} (inside : slot < size)
    (entry : K × V) :
    occupied size (Function.update table slot (some entry)) =
      insert slot (occupied size table) := by
  ext place
  rw [Finset.mem_insert, mem_occupied, mem_occupied]
  by_cases same : place = slot
  · subst same
    simp [inside]
  · simp [same]

theorem occupied_update_none (slot : Nat) :
    occupied size (Function.update table slot none) =
      (occupied size table).erase slot := by
  ext place
  rw [Finset.mem_erase, mem_occupied, mem_occupied]
  by_cases same : place = slot
  · subst same
    simp
  · simp [same]

/-! ## The entries of a table -/

/-- An entry moves to an empty slot. -/
theorem Stores.move (stores : Stores size table map count)
    {hole slot : Nat} {key : K} {value : V} (holeInside : hole < size)
    (slotInside : slot < size) (vacated : table hole = none)
    (holds : table slot = some (key, value)) :
    Stores size
      (Function.update (Function.update table hole (some (key, value)))
        slot none)
      map count := by
  have distinct : hole ≠ slot := by
    rintro rfl
    rw [vacated] at holds
    cases holds
  have moved : ∀ {place other otherValue},
      Function.update (Function.update table hole (some (key, value))) slot
          none place = some (other, otherValue) ↔
        place ≠ slot ∧ (place = hole ∧ (key, value) = (other, otherValue) ∨
          table place = some (other, otherValue)) := by
    intro place other otherValue
    by_cases isSlot : place = slot
    · simp [isSlot]
    · rw [Function.update_of_ne isSlot]
      by_cases isHole : place = hole
      · subst isHole
        rw [Function.update_self, vacated]
        simp [isSlot]
      · rw [Function.update_of_ne isHole]
        simp [isSlot, isHole]
  constructor
  case stored =>
    intro other otherValue
    rw [stores.stored]
    constructor
    · rintro ⟨place, inside, placeHolds⟩
      by_cases isSlot : place = slot
      · subst isSlot
        refine ⟨hole, holeInside, moved.mpr ⟨distinct, Or.inl ⟨rfl, ?_⟩⟩⟩
        exact Option.some.inj (holds.symm.trans placeHolds)
      · exact ⟨place, inside, moved.mpr ⟨isSlot, Or.inr placeHolds⟩⟩
    · rintro ⟨place, inside, placeHolds⟩
      obtain ⟨-, ⟨-, equal⟩ | kept⟩ := moved.mp placeHolds
      · exact ⟨slot, slotInside, holds.trans (congrArg some equal)⟩
      · exact ⟨place, inside, kept⟩
  case distinct =>
    intro first second other firstValue secondValue firstInside
      secondInside firstHolds secondHolds
    obtain ⟨firstNot, ⟨rfl, firstEqual⟩ | firstKept⟩ :=
      moved.mp firstHolds <;>
    obtain ⟨secondNot, ⟨secondHole, secondEqual⟩ | secondKept⟩ :=
      moved.mp secondHolds
    · exact secondHole.symm
    · obtain rfl := (Prod.mk.inj firstEqual).1
      exact absurd
        (stores.distinct secondInside slotInside secondKept holds) secondNot
    · obtain rfl := (Prod.mk.inj secondEqual).1
      exact absurd
        (stores.distinct firstInside slotInside firstKept holds) firstNot
    · exact stores.distinct firstInside secondInside firstKept secondKept
  case counted =>
    have slotOccupied : slot ∈ occupied size table := by
      rw [mem_occupied, holds]
      exact ⟨slotInside, Option.some_ne_none _⟩
    have holeEmpty : hole ∉ occupied size table := by
      rw [mem_occupied]
      exact fun both => both.2 vacated
    rw [occupied_update_none, occupied_update_some holeInside,
      Finset.card_erase_of_mem (Finset.mem_insert_of_mem slotOccupied),
      Finset.card_insert_of_notMem holeEmpty, Nat.add_sub_cancel,
      stores.counted]

section Update

variable [DecidableEq K]

/-- A new entry takes an empty slot. -/
theorem Stores.insert (stores : Stores size table map count) {slot : Nat}
    {key : K} (absent : map key = none) (inside : slot < size)
    (isEmpty : table slot = none) (value : V) :
    Stores size (Function.update table slot (some (key, value)))
      (Function.update map key (some value)) (count + 1) := by
  have other_slot : ∀ {place other otherValue}, place < size →
      table place = some (other, otherValue) →
        place ≠ slot ∧ other ≠ key := by
    intro place other otherValue placeInside holds
    refine ⟨?_, ?_⟩
    · rintro rfl
      rw [isEmpty] at holds
      cases holds
    · rintro rfl
      have stored := (stores.stored other otherValue).mpr
        ⟨place, placeInside, holds⟩
      rw [absent] at stored
      cases stored
  constructor
  case stored =>
    intro other otherValue
    by_cases same : other = key
    · subst same
      rw [Function.update_self]
      constructor
      · intro equal
        refine ⟨slot, inside, ?_⟩
        rw [Function.update_self, Option.some.inj equal]
      · rintro ⟨place, placeInside, holds⟩
        by_cases here : place = slot
        · subst here
          rw [Function.update_self] at holds
          rw [(Prod.mk.inj (Option.some.inj holds)).2]
        · rw [Function.update_of_ne here] at holds
          exact absurd rfl (other_slot placeInside holds).2
    · rw [Function.update_of_ne same, stores.stored]
      refine exists_congr fun place => and_congr_right fun placeInside => ?_
      by_cases here : place = slot
      · subst here
        rw [Function.update_self, isEmpty]
        simp [Ne.symm same]
      · rw [Function.update_of_ne here]
  case distinct =>
    intro first second other firstValue secondValue firstInside
      secondInside firstHolds secondHolds
    by_cases firstHere : first = slot <;>
      by_cases secondHere : second = slot
    · exact firstHere.trans secondHere.symm
    · subst firstHere
      rw [Function.update_self] at firstHolds
      rw [Function.update_of_ne secondHere] at secondHolds
      exact absurd (Prod.mk.inj (Option.some.inj firstHolds)).1.symm
        (other_slot secondInside secondHolds).2
    · subst secondHere
      rw [Function.update_self] at secondHolds
      rw [Function.update_of_ne firstHere] at firstHolds
      exact absurd (Prod.mk.inj (Option.some.inj secondHolds)).1.symm
        (other_slot firstInside firstHolds).2
    · rw [Function.update_of_ne firstHere] at firstHolds
      rw [Function.update_of_ne secondHere] at secondHolds
      exact stores.distinct firstInside secondInside firstHolds secondHolds
  case counted =>
    rw [occupied_update_some inside, Finset.card_insert_of_notMem,
      stores.counted]
    rw [mem_occupied]
    exact fun both => both.2 isEmpty

/-- The entry of a key leaves its slot. -/
theorem Stores.vacate (stores : Stores size table map (count + 1))
    {slot : Nat} {key : K} {value : V} (inside : slot < size)
    (holds : table slot = some (key, value)) :
    Stores size (Function.update table slot none)
      (Function.update map key none) count := by
  have here_iff : ∀ {place other otherValue}, place < size →
      table place = some (other, otherValue) →
        (place = slot ↔ other = key) := by
    intro place other otherValue placeInside placeHolds
    constructor
    · rintro rfl
      exact (Prod.mk.inj (Option.some.inj (placeHolds.symm.trans holds))).1
    · rintro rfl
      exact stores.distinct placeInside inside placeHolds holds
  constructor
  case stored =>
    intro other otherValue
    by_cases same : other = key
    · subst same
      rw [Function.update_self]
      simp only [reduceCtorEq, false_iff, not_exists, not_and]
      intro place placeInside placeHolds
      by_cases here : place = slot
      · rw [here, Function.update_self] at placeHolds
        cases placeHolds
      · rw [Function.update_of_ne here] at placeHolds
        exact here ((here_iff placeInside placeHolds).mpr rfl)
    · rw [Function.update_of_ne same, stores.stored]
      refine exists_congr fun place => and_congr_right fun placeInside => ?_
      by_cases here : place = slot
      · subst here
        rw [Function.update_self, holds]
        simp [Ne.symm same]
      · rw [Function.update_of_ne here]
  case distinct =>
    intro first second other firstValue secondValue firstInside
      secondInside firstHolds secondHolds
    by_cases firstHere : first = slot
    · rw [firstHere, Function.update_self] at firstHolds
      cases firstHolds
    · by_cases secondHere : second = slot
      · rw [secondHere, Function.update_self] at secondHolds
        cases secondHolds
      · rw [Function.update_of_ne firstHere] at firstHolds
        rw [Function.update_of_ne secondHere] at secondHolds
        exact stores.distinct firstInside secondInside firstHolds
          secondHolds
  case counted =>
    rw [occupied_update_none, Finset.card_erase_of_mem,
      stores.counted, Nat.add_sub_cancel]
    rw [mem_occupied, holds]
    exact ⟨inside, Option.some_ne_none _⟩

end Update

/-! ## Closing a hole -/

/--
The table while a deletion closes its hole: the slots from the hole up to
`scanned` hold entries which stay, and no other chain is broken than at the
hole.
-/
structure Hole (size : Nat) (home : K → Nat) (table : Nat → Option (K × V))
    (map : K → Option V) (count hole scanned : Nat) : Prop
    extends Stores size table map count where
  homes : ∀ key, home key < size
  holeInside : hole < size
  scannedInside : scanned < size
  vacated : table hole = none
  passed : ∀ {slot}, slot < size → 0 < distance size hole slot →
    distance size hole slot ≤ distance size hole scanned →
      ∃ key value, table slot = some (key, value) ∧
        0 < distance size hole (home key) ∧
        distance size hole (home key) ≤ distance size hole slot
  reachable : ∀ {slot key value}, slot < size →
    table slot = some (key, value) → ∀ {between}, between < size →
      distance size (home key) between < distance size (home key) slot →
        table between ≠ none ∨ between = hole

section Hole

variable {hole scanned : Nat}

/-- At the next empty slot no chain is broken any more. -/
theorem Hole.close (closing : Hole size home table map count hole scanned)
    (isEmpty : table (next size scanned) = none) :
    Represents size home table map count := by
  refine ⟨closing.toStores, closing.homes, ?_⟩
  intro slot key value inside holds between betweenInside before
  rcases closing.reachable inside holds betweenInside before with
    occupied | rfl
  · exact occupied
  -- The chain of this entry crosses the hole.
  exfalso
  have nextInside := next_lt closing.scannedInside
  have distinct : slot ≠ between := by
    rintro rfl
    rw [closing.vacated] at holds
    cases holds
  have homeInside := closing.homes key
  have byHole := distance_cases betweenInside slot
  have byHoleHome := distance_cases betweenInside (home key)
  have toHole := distance_cases homeInside between
  have toSlot := distance_cases homeInside slot
  have byHoleScanned := distance_cases betweenInside scanned
  have step := offset_cases size scanned 1
  have step_eq : next size scanned = offset size scanned 1 := rfl
  by_cases passed : distance size between slot ≤ distance size between scanned
  · obtain ⟨other, otherValue, otherHolds, ahead, behind⟩ :=
      closing.passed inside (by omega) passed
    obtain rfl := (Prod.mk.inj
      (Option.some.inj (otherHolds.symm.trans holds))).1
    omega
  · have toNext := distance_cases homeInside (next size scanned)
    have isNext : slot ≠ next size scanned := by
      rintro rfl
      rw [isEmpty] at holds
      cases holds
    rcases closing.reachable inside holds nextInside (by omega) with
      occupied | same
    · exact occupied isEmpty
    · omega

/-- An entry whose home lies between the hole and its slot stays. -/
theorem Hole.stay (closing : Hole size home table map count hole scanned)
    {key : K} {value : V}
    (holds : table (next size scanned) = some (key, value))
    (stays : Stays hole (home key) (next size scanned)) :
    Hole size home table map count hole (next size scanned) := by
  have nextInside := next_lt closing.scannedInside
  have distinct : hole ≠ next size scanned := by
    rintro same
    rw [← same, closing.vacated] at holds
    cases holds
  rw [stays_iff closing.holeInside (closing.homes key) nextInside distinct]
    at stays
  refine { closing with scannedInside := nextInside, passed := ?_ }
  intro slot inside ahead behind
  by_cases here : slot = next size scanned
  · subst here
    exact ⟨key, value, holds, stays⟩
  · have byHole := distance_cases closing.holeInside slot
    have byHoleNext := distance_cases closing.holeInside (next size scanned)
    have byHoleScanned := distance_cases closing.holeInside scanned
    have step := offset_cases size scanned 1
    have step_eq : next size scanned = offset size scanned 1 := rfl
    have scannedInside := closing.scannedInside
    exact closing.passed inside ahead (by omega)

/-- Any other entry moves back into the hole and leaves a hole itself. -/
theorem Hole.move (closing : Hole size home table map count hole scanned)
    {key : K} {value : V}
    (holds : table (next size scanned) = some (key, value))
    (moves : ¬ Stays hole (home key) (next size scanned)) :
    Hole size home
      (Function.update (Function.update table hole (some (key, value)))
        (next size scanned) none)
      map count (next size scanned) (next size scanned) := by
  have nextInside := next_lt closing.scannedInside
  have distinct : hole ≠ next size scanned := by
    rintro same
    rw [← same, closing.vacated] at holds
    cases holds
  rw [stays_iff closing.holeInside (closing.homes key) nextInside distinct]
    at moves
  generalize next size scanned = slot at nextInside distinct holds moves ⊢
  refine
    { closing.toStores.move closing.holeInside nextInside closing.vacated
        holds with
      homes := closing.homes
      holeInside := nextInside
      scannedInside := nextInside
      vacated := Function.update_self ..
      passed := ?_
      reachable := ?_ }
  · intro place _ ahead behind
    have here := distance_cases nextInside slot
    omega
  · intro place other otherValue inside placeHolds between betweenInside
      before
    by_cases isSlot : between = slot
    · exact Or.inr isSlot
    · left
      rw [Function.update_of_ne isSlot]
      by_cases isHole : between = hole
      · rw [isHole, Function.update_self]
        exact Option.some_ne_none _
      · rw [Function.update_of_ne isHole]
        by_cases placeSlot : place = slot
        · rw [placeSlot, Function.update_self] at placeHolds
          cases placeHolds
        · rw [Function.update_of_ne placeSlot] at placeHolds
          by_cases placeHole : place = hole
          · subst placeHole
            rw [Function.update_self] at placeHolds
            obtain rfl := (Prod.mk.inj (Option.some.inj placeHolds)).1
            -- The home of the moved entry is behind its old slot.
            have homeInside := closing.homes key
            have toHole := distance_cases homeInside place
            have toSlot := distance_cases homeInside slot
            have byHoleHome := distance_cases closing.holeInside (home key)
            have byHoleSlot := distance_cases closing.holeInside slot
            exact (closing.reachable nextInside holds betweenInside
              (by omega)).resolve_right isHole
          · rw [Function.update_of_ne placeHole] at placeHolds
            exact (closing.reachable inside placeHolds betweenInside
              before).resolve_right isHole

end Hole

/-! ## Inserting and vacating -/

section Update

variable [DecidableEq K]

/-- A new key may take the first empty slot from its home on. -/
theorem Represents.insert (represents : Represents size home table map count)
    {key : K} {steps : Nat} (absent : map key = none) (small : steps < size)
    (crossed : ∀ earlier < steps,
      table (offset size (home key) earlier) ≠ none)
    (isEmpty : table (offset size (home key) steps) = none) (value : V) :
    Represents size home
      (Function.update table (offset size (home key) steps)
        (some (key, value)))
      (Function.update map key (some value)) (count + 1) := by
  have inside := represents.homes key
  have slotInside : offset size (home key) steps < size :=
    offset_lt inside small.le
  have steps_eq := distance_offset inside small
  generalize offset size (home key) steps = slot
    at isEmpty slotInside steps_eq ⊢
  refine
    { represents.toStores.insert absent slotInside isEmpty value with
      homes := represents.homes
      reachable := ?_ }
  intro place other otherValue placeInside holds between betweenInside before
  by_cases betweenHere : between = slot
  · rw [betweenHere, Function.update_self]
    exact Option.some_ne_none _
  · rw [Function.update_of_ne betweenHere]
    by_cases here : place = slot
    · subst here
      rw [Function.update_self] at holds
      obtain rfl := (Prod.mk.inj (Option.some.inj holds)).1
      rw [steps_eq] at before
      have passed := crossed _ before
      rwa [offset_distance inside betweenInside] at passed
    · rw [Function.update_of_ne here] at holds
      exact represents.reachable placeInside holds betweenInside before

/-- Vacating the slot of a key leaves a hole there. -/
theorem Represents.vacate
    (represents : Represents size home table map (count + 1))
    {slot : Nat} {key : K} {value : V} (inside : slot < size)
    (holds : table slot = some (key, value)) :
    Hole size home (Function.update table slot none)
      (Function.update map key none) count slot slot := by
  refine
    { represents.toStores.vacate inside holds with
      homes := represents.homes
      holeInside := inside
      scannedInside := inside
      vacated := Function.update_self ..
      passed := ?_
      reachable := ?_ }
  · intro place _ ahead behind
    have here := distance_cases inside slot
    omega
  · intro place other otherValue placeInside placeHolds between
      betweenInside before
    by_cases betweenHere : between = slot
    · exact Or.inr betweenHere
    · left
      rw [Function.update_of_ne betweenHere]
      by_cases here : place = slot
      · rw [here, Function.update_self] at placeHolds
        cases placeHolds
      · rw [Function.update_of_ne here] at placeHolds
        exact represents.reachable placeInside placeHolds betweenInside
          before

end Update

end Table

end Probing
