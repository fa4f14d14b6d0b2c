import ItchExchange.Book.PriceLadder

/-!
# Where the price ladder keeps its levels

`Stores` says that every level of a map is either in an occupied slot of the
window or in the overflow map.  `Placed` is the invariant of the header: the
window has exactly the levels it covers.  Both kinds of step, a level put where
it belongs and a level pulled out of the map, keep the first.
-/

namespace ItchExchange.Book.PriceLadder

open ItchExchange.Core ItchExchange.Library
open Std (ExtTreeMap)

/-! ## Ticks and slots -/

/-- The cast of an `int64_t` to 32 bits keeps it modulo `2 ^ 32`. -/
theorem toNat_ofInt (value : Int) :
    ((UInt32.ofInt value).toNat : Int) = value % 2 ^ 32 := by
  have low := Int.emod_nonneg value (show (2 : Int) ^ 32 ≠ 0 by decide)
  have high := Int.emod_lt_of_pos value (show (0 : Int) < 2 ^ 32 by decide)
  have small : (value % 2 ^ 32).toNat < 2 ^ 32 := by omega
  rw [UInt32.ofInt, UInt32.toNat_ofNat_of_lt' small]
  omega

theorem tickOf_eq (p : Price) : tickOf p = (p.toNat / 100 : Nat) := by
  rw [tickOf, UInt32.toNat_div]
  rfl

/-- A window covers the whole cents of 4096 ticks from its base on. -/
theorem inWindowFrom_iff {base : Int} {p : Price} :
    InWindowFrom base p ↔
      p.toNat % 100 = 0 ∧ base ≤ (p.toNat / 100 : Nat) ∧
        ((p.toNat / 100 : Nat) : Int) < base + 4096 := by
  rw [InWindowFrom, tickOf_eq, ← UInt32.toNat_inj, UInt32.toNat_mod]
  rfl

section Slots

variable {ladder : PriceLadder} {p q : Price}

/-- Inside the window the slot of a price is its tick less the base, uncut. -/
theorem slotOf_eq (inside : ladder.InWindow p) :
    (ladder.slotOf p : Int) = (p.toNat / 100 : Nat) - ladder.base := by
  obtain ⟨-, low, high⟩ := inWindowFrom_iff.mp inside
  rw [slotOf, toNat_ofInt, tickOf_eq]
  exact Int.emod_eq_of_lt (by omega) (by omega)

theorem slotOf_lt (inside : ladder.InWindow p) :
    ladder.slotOf p < kWindowTicks := by
  obtain ⟨-, low, high⟩ := inWindowFrom_iff.mp inside
  have slot := slotOf_eq inside
  have size : kWindowTicks = 4096 := rfl
  omega

/-- Two prices of the window never share a slot. -/
theorem slotOf_inj (inside : ladder.InWindow p) (other : ladder.InWindow q)
    (same : ladder.slotOf p = ladder.slotOf q) : p = q := by
  have first := slotOf_eq inside
  have second := slotOf_eq other
  have whole := (inWindowFrom_iff.mp inside).1
  have otherWhole := (inWindowFrom_iff.mp other).1
  rw [← UInt32.toNat_inj]
  omega

/-- The price of a slot is the price that the slot was found for. -/
theorem priceOfSlot_slotOf (inside : ladder.InWindow p) :
    ladder.priceOfSlot (ladder.slotOf p) = p := by
  have slot := slotOf_eq inside
  have whole := (inWindowFrom_iff.mp inside).1
  have units : (kTickUnits.toNat : Int) = 100 := rfl
  have bound := p.toNat_lt
  rw [← UInt32.toNat_inj]
  have price : ((ladder.priceOfSlot (ladder.slotOf p)).toNat : Int) =
      p.toNat := by
    rw [priceOfSlot, toNat_ofInt, units, slot]
    rw [Int.emod_eq_of_lt (by omega) (by omega)]
    omega
  exact_mod_cast price

/-- Slots ascend with their prices. -/
theorem slotOf_lt_slotOf (inside : ladder.InWindow p)
    (other : ladder.InWindow q)
    (below : ladder.slotOf p < ladder.slotOf q) : p < q := by
  have first := slotOf_eq inside
  have second := slotOf_eq other
  rw [UInt32.lt_iff_toNat_lt]
  omega

end Slots

/-! ## The levels of a ladder -/

/-- Every level of the map is in a slot of the window or in the overflow map. -/
structure Stores (ladder : PriceLadder)
    (map : Price → Option LevelHandle) : Prop where
  slots : ladder.slots.length = kWindowTicks
  words : ladder.words.length = kWords
  standing : ∀ s, ladder.bitSet s = true →
    ∃ p, ladder.InWindow p ∧ ladder.slotOf p = s
  window : ∀ p, ladder.InWindow p → ladder.bitSet (ladder.slotOf p) = true →
    map p ≠ none ∧ ladder.slots[ladder.slotOf p]? = map p ∧
      ladder.overflow[p]? = none
  outside : ∀ p,
    ¬ (ladder.InWindow p ∧ ladder.bitSet (ladder.slotOf p) = true) →
      ladder.overflow[p]? = map p
  notNull : ∀ p h, map p = some h → h ≠ Handle.null
  notZero : map 0 = none

/--
The placement invariant: the occupied slots stand for the present prices of
whole cents with a tick of the window, and the overflow map has exactly the
other levels.
-/
structure Placed (ladder : PriceLadder) (present : PresentLevels) : Prop where
  slots : ladder.slots.length = kWindowTicks
  words : ladder.words.length = kWords
  occupied : ∀ s : Nat, ladder.bitSet s = true ↔
    ∃ p ∈ present, ladder.InWindow p ∧ tickOf p = ladder.base + s
  window : ∀ (p : Price) (s : Nat) (h : LevelHandle), ladder.InWindow p →
    tickOf p = ladder.base + s → present[p]? = some h →
      ladder.slots[s]? = some h
  overflow : ∀ p, ladder.overflow[p]? =
    if ladder.InWindow p then none else present[p]?
  levels : ladder.levels.toNat = present.size
  notNull : ∀ (p : Price) (h : LevelHandle), present[p]? = some h →
    h ≠ Handle.null
  notZero : 0 ∉ present

section Placed

variable {ladder : PriceLadder} {present : PresentLevels}

theorem tickOf_eq_iff {p : Price} {s : Nat} (inside : ladder.InWindow p) :
    tickOf p = ladder.base + s ↔ ladder.slotOf p = s := by
  have slot := slotOf_eq inside
  rw [tickOf_eq]
  omega

theorem mem_iff_ne_none {p : Price} : p ∈ present ↔ present.map p ≠ none :=
  ExtTreeMap.mem_iff_isSome_getElem?.trans Option.isSome_iff_ne_none

/--
The placement invariant is `Stores` with nothing in the overflow map that the
window covers, and with the count of the levels.
-/
theorem placed_iff :
    ladder.Placed present ↔
      ladder.Stores present.map ∧
        (∀ p, ladder.InWindow p → ladder.overflow[p]? = none) ∧
          ladder.levels.toNat = present.size := by
  constructor
  · intro placed
    refine ⟨⟨placed.slots, placed.words, ?_, ?_, ?_, placed.notNull, ?_⟩, ?_,
      placed.levels⟩
    · intro s occupied
      obtain ⟨p, -, inside, tick⟩ := (placed.occupied s).mp occupied
      exact ⟨p, inside, (tickOf_eq_iff inside).mp tick⟩
    · intro p inside occupied
      obtain ⟨q, member, other, tick⟩ :=
        (placed.occupied (ladder.slotOf p)).mp occupied
      obtain rfl := slotOf_inj inside other
        ((tickOf_eq_iff other).mp tick).symm
      obtain ⟨h, here⟩ := Option.ne_none_iff_exists'.mp
        (mem_iff_ne_none.mp member)
      refine ⟨mem_iff_ne_none.mp member, ?_, ?_⟩
      · rw [here]
        exact placed.window p _ h inside tick here
      · rw [placed.overflow, if_pos inside]
    · intro p elsewhere
      rw [placed.overflow]
      split_ifs with inside
      · by_contra some
        refine elsewhere ⟨inside, (placed.occupied _).mpr ⟨p, ?_, inside,
          (tickOf_eq_iff inside).mpr rfl⟩⟩
        exact mem_iff_ne_none.mpr (Ne.symm some)
      · rfl
    · exact Option.not_isSome_iff_eq_none.mp fun some =>
        placed.notZero (ExtTreeMap.mem_iff_isSome_getElem?.mpr some)
    · intro p inside
      rw [placed.overflow, if_pos inside]
  · rintro ⟨stores, inside, levels⟩
    refine ⟨stores.slots, stores.words, fun s => ⟨?_, ?_⟩, ?_, ?_, levels,
      stores.notNull, ?_⟩
    · intro occupied
      obtain ⟨p, window, rfl⟩ := stores.standing s occupied
      exact ⟨p, mem_iff_ne_none.mpr (stores.window p window occupied).1,
        window, (tickOf_eq_iff window).mpr rfl⟩
    · rintro ⟨p, member, window, tick⟩
      rw [← (tickOf_eq_iff window).mp tick]
      by_contra vacant
      have none := inside p window
      rw [stores.outside p fun both => vacant both.2] at none
      exact mem_iff_ne_none.mp member none
    · intro p s h window tick here
      obtain rfl := (tickOf_eq_iff window).mp tick
      by_cases occupied : ladder.bitSet (ladder.slotOf p) = true
      · rw [(stores.window p window occupied).2.1]
        exact here
      · have none := inside p window
        rw [stores.outside p fun both => occupied both.2] at none
        exact absurd (none.symm.trans here) (Option.some_ne_none h).symm
    · intro p
      split_ifs with window
      · exact inside p window
      · exact stores.outside p fun both => window both.1
    · intro member
      exact mem_iff_ne_none.mp member stores.notZero

end Placed

/-! ## One more level -/

/-- An unoccupied slot holds no handle. -/
def Vacant (ladder : PriceLadder) : Prop :=
  ∀ s < kWindowTicks, ladder.bitSet s = false →
    ladder.slots[s]? = some Handle.null

section Store

variable {ladder : PriceLadder} {map : Price → Option LevelHandle}
  {p q : Price} {h : LevelHandle} {s t : Nat}

/-- `store` marks its own slot as occupied, and no other one. -/
theorem bitSet_store (words : ladder.words.length = kWords)
    (inside : s < kWindowTicks) :
    (ladder.store s h).bitSet t = (decide (t = s) || ladder.bitSet t) := by
  have bound : s < ladder.words.length * 64 := by
    rw [words]
    exact inside
  exact BitWords.test_set bound

/-- `store` writes its own slot, and no other one. -/
theorem slots_store (slots : ladder.slots.length = kWindowTicks)
    (inside : s < kWindowTicks) :
    (ladder.store s h).slots[t]? =
      if t = s then some h else ladder.slots[t]? := by
  change (ladder.slots.set s h)[t]? = _
  rw [List.getElem?_set]
  by_cases same : s = t
  · rw [if_pos same, if_pos (slots ▸ inside), if_pos same.symm]
  · rw [if_neg same, if_neg (Ne.symm same)]

/-- What is in the slots after a level went into one of them. -/
theorem Stores.of_store (stores : ladder.Stores map) (inside : ladder.InWindow p)
    {overflow : PresentLevels} {map' : Price → Option LevelHandle}
    (here : map' p = some h) (others : ∀ q, q ≠ p → map' q = map q)
    (gone : overflow[p]? = none)
    (elsewhere : ∀ q, q ≠ p → overflow[q]? = ladder.overflow[q]?)
    (notNull : h ≠ Handle.null) (notZero : p ≠ 0) :
    ({ ladder.store (ladder.slotOf p) h with overflow } :
      PriceLadder).Stores map' := by
  have small := slotOf_lt inside
  have bit : ∀ t, ({ ladder.store (ladder.slotOf p) h with overflow } :
      PriceLadder).bitSet t =
        (decide (t = ladder.slotOf p) || ladder.bitSet t) :=
    fun t => bitSet_store (h := h) stores.words small
  refine ⟨?_, ?_, ?_, ?_, ?_, ?_, ?_⟩
  · exact List.length_set.trans stores.slots
  · exact List.length_set.trans stores.words
  · intro s occupied
    rw [bit, Bool.or_eq_true, decide_eq_true_eq] at occupied
    rcases occupied with rfl | occupied
    · exact ⟨p, inside, rfl⟩
    · exact stores.standing s occupied
  · intro q (window : ladder.InWindow q) occupied
    rw [bit, Bool.or_eq_true, decide_eq_true_eq] at occupied
    change map' q ≠ none ∧ (ladder.store (ladder.slotOf p) h).slots[
      ladder.slotOf q]? = map' q ∧ overflow[q]? = none
    rw [slots_store stores.slots small]
    by_cases same : q = p
    · subst same
      rw [if_pos rfl, here]
      exact ⟨Option.some_ne_none h, rfl, gone⟩
    · have distinct : ladder.slotOf q ≠ ladder.slotOf p :=
        fun equal => same (slotOf_inj window inside equal)
      rw [if_neg distinct, others q same, elsewhere q same]
      exact stores.window q window (occupied.resolve_left distinct)
  · intro q notInside
    change overflow[q]? = _
    by_cases same : q = p
    · subst same
      refine absurd ⟨inside, ?_⟩ notInside
      change PriceLadder.bitSet _ (ladder.slotOf q) = true
      rw [bit, decide_eq_true rfl, Bool.true_or]
    · rw [others q same, elsewhere q same]
      refine stores.outside q fun both => notInside ⟨both.1, ?_⟩
      change PriceLadder.bitSet _ (ladder.slotOf q) = true
      rw [bit, both.2, Bool.or_true]
  · intro q g stored
    by_cases same : q = p
    · subst same
      rw [here] at stored
      cases stored
      exact notNull
    · rw [others q same] at stored
      exact stores.notNull q g stored
  · rw [others 0 (Ne.symm notZero)]
    exact stores.notZero

/-- The unoccupied slots stay empty when another slot is filled. -/
theorem Vacant.of_store (vacant : ladder.Vacant)
    (words : ladder.words.length = kWords)
    (slots : ladder.slots.length = kWindowTicks) (small : s < kWindowTicks)
    (overflow : PresentLevels) :
    ({ ladder.store s h with overflow } : PriceLadder).Vacant := by
  intro t inside free
  change (ladder.store s h).bitSet t = false at free
  change (ladder.store s h).slots[t]? = _
  rw [bitSet_store words small, Bool.or_eq_false_iff,
    decide_eq_false_iff_not] at free
  rw [slots_store slots small, if_neg free.1]
  exact vacant t inside free.2

/-- A level of an absent price goes where it belongs. -/
theorem Stores.put (stores : ladder.Stores map) (absent : map p = none)
    (notNull : h ≠ Handle.null) (notZero : p ≠ 0) :
    (ladder.put p h).Stores (Function.update map p (some h)) := by
  have vacant : ¬ (ladder.InWindow p ∧
      ladder.bitSet (ladder.slotOf p) = true) :=
    fun both => (stores.window p both.1 both.2).1 absent
  have free : ladder.overflow[p]? = none :=
    (stores.outside p vacant).trans absent
  rw [PriceLadder.put]
  split_ifs with inside
  · exact stores.of_store inside (Function.update_self ..)
      (fun q other => Function.update_of_ne other ..) free (fun q _ => rfl)
      notNull notZero
  · have grown : ∀ q, (ladder.overflow.insertIfNew p h)[q]? =
        if q = p then some h else ladder.overflow[q]? := by
      intro q
      have missing : p ∉ ladder.overflow := fun member =>
        mem_iff_ne_none.mp member free
      rw [ExtTreeMap.getElem?_insertIfNew]
      by_cases same : q = p
      · subst same
        rw [if_pos ⟨Std.ReflCmp.compare_self, missing⟩, if_pos rfl]
      · have different : ¬ (compare p q = .eq ∧ p ∉ ladder.overflow) :=
          fun both =>
            same (Std.LawfulEqCmp.compare_eq_iff_eq.mp both.1).symm
        rw [if_neg different, if_neg same]
    refine ⟨stores.slots, stores.words, stores.standing, ?_, ?_, ?_, ?_⟩
    · intro q (window : ladder.InWindow q) occupied
      have other : q ≠ p := by
        rintro rfl
        exact inside window
      rw [grown, if_neg other, Function.update_of_ne other]
      exact stores.window q window occupied
    · intro q notWindow
      rw [grown, Function.update_apply]
      split_ifs with same
      · rfl
      · exact stores.outside q notWindow
    · intro q g stored
      rw [Function.update_apply] at stored
      split_ifs at stored with same
      · cases stored
        exact notNull
      · exact stores.notNull q g stored
    · rw [Function.update_of_ne (Ne.symm notZero)]
      exact stores.notZero

/-- A level of the map which the window covers goes into the window. -/
theorem Stores.pull (stores : ladder.Stores map)
    (here : ladder.overflow[p]? = some h) : (ladder.pull p h).Stores map := by
  have notWindow : ¬ (ladder.InWindow p ∧
      ladder.bitSet (ladder.slotOf p) = true) := by
    intro both
    rw [(stores.window p both.1 both.2).2.2] at here
    cases here
  have stored : map p = some h := (stores.outside p notWindow).symm.trans here
  have notZero : p ≠ 0 := by
    rintro rfl
    rw [stores.notZero] at stored
    cases stored
  have erased := congrFun (PresentLevels.map_erase ladder.overflow p)
  rw [PriceLadder.pull]
  split_ifs with inside
  · exact stores.of_store inside stored (fun q _ => rfl)
      ((erased p).trans (Function.update_self ..))
      (fun q other => (erased q).trans (Function.update_of_ne other ..))
      (stores.notNull p h stored) notZero
  · exact stores

theorem base_put (ladder : PriceLadder) (p : Price) (h : LevelHandle) :
    (ladder.put p h).base = ladder.base := by
  rw [PriceLadder.put]
  split_ifs <;> rfl

theorem side_put (ladder : PriceLadder) (p : Price) (h : LevelHandle) :
    (ladder.put p h).side = ladder.side := by
  rw [PriceLadder.put]
  split_ifs <;> rfl

theorem levels_put (ladder : PriceLadder) (p : Price) (h : LevelHandle) :
    (ladder.put p h).levels = ladder.levels := by
  rw [PriceLadder.put]
  split_ifs <;> rfl

/-- A level goes into the map only where the window does not cover it. -/
theorem overflow_put (window : ladder.InWindow q) :
    (ladder.put p h).overflow[q]? = ladder.overflow[q]? := by
  rw [PriceLadder.put]
  split_ifs with inside
  · rfl
  · have different : ¬ (compare p q = .eq ∧ p ∉ ladder.overflow) := by
      intro both
      rw [Std.LawfulEqCmp.compare_eq_iff_eq.mp both.1] at inside
      exact inside window
    exact ExtTreeMap.getElem?_insertIfNew.trans (if_neg different)

/-- Putting a level away leaves the unoccupied slots empty. -/
theorem Vacant.put (vacant : ladder.Vacant) (stores : ladder.Stores map) :
    (ladder.put p h).Vacant := by
  rw [PriceLadder.put]
  split_ifs with inside
  · exact vacant.of_store stores.words stores.slots (slotOf_lt inside) _
  · exact vacant

/-- So does pulling one into the window. -/
theorem Vacant.pull (vacant : ladder.Vacant) (stores : ladder.Stores map) :
    (ladder.pull p h).Vacant := by
  rw [PriceLadder.pull]
  split_ifs with inside
  · exact vacant.of_store stores.words stores.slots (slotOf_lt inside) _
  · exact vacant

theorem bitSet_empty (side : Side) (base : Int) (s : Nat) :
    ({ side, base } : PriceLadder).bitSet s = false :=
  BitWords.test_replicate kWords s

theorem stores_empty (side : Side) (base : Int) :
    ({ side, base } : PriceLadder).Stores fun _ => none where
  slots := List.length_replicate
  words := List.length_replicate
  standing := fun s occupied =>
    absurd ((bitSet_empty side base s).symm.trans occupied) Bool.false_ne_true
  window := fun _ _ occupied =>
    absurd ((bitSet_empty side base _).symm.trans occupied) Bool.false_ne_true
  outside := fun _ _ => ExtTreeMap.getElem?_empty
  notNull := fun _ _ here => absurd here (Option.some_ne_none _).symm
  notZero := rfl

theorem vacant_empty (side : Side) (base : Int) :
    ({ side, base } : PriceLadder).Vacant := by
  intro s inside _
  exact (List.getElem?_replicate ..).trans (if_pos inside)

/-- A new ladder is placed, whatever its base is. -/
theorem placed_empty (side : Side) (base : Int) :
    ({ side, base } : PriceLadder).Placed ∅ := by
  have nothing : PresentLevels.map ∅ = fun _ => none :=
    funext fun _ => ExtTreeMap.getElem?_empty
  refine placed_iff.mpr ⟨?_, fun _ _ => ExtTreeMap.getElem?_empty, rfl⟩
  rw [nothing]
  exact stores_empty side base

/-- A counted level of an absent price, before the window moves. -/
theorem Placed.put {present : PresentLevels} (placed : ladder.Placed present)
    (absent : p ∉ present) (notNull : h ≠ Handle.null) (notZero : p ≠ 0)
    (room : present.size + 1 < 2 ^ 32) :
    ({ ladder.put p h with levels := (ladder.put p h).levels + 1 } :
      PriceLadder).Placed (present.insert p h) := by
  obtain ⟨stores, inside, levels⟩ := placed_iff.mp placed
  have none : present.map p = none := not_not.mp (mt mem_iff_ne_none.mpr absent)
  have putStores := stores.put none notNull notZero
  rw [← PresentLevels.map_insert] at putStores
  refine placed_iff.mpr ⟨⟨putStores.slots, putStores.words,
    putStores.standing, putStores.window, putStores.outside,
    putStores.notNull, putStores.notZero⟩, fun q window => ?_, ?_⟩
  · have covered : ladder.InWindow q := by
      rw [InWindow, ← ladder.base_put p h]
      exact window
    exact (overflow_put covered).trans (inside q covered)
  · rw [PresentLevels.size_insert none, ← levels]
    have sum : ((ladder.put p h).levels + 1).toNat =
        ladder.levels.toNat + 1 := by
      rw [levels_put, UInt32.toNat_add]
      exact Nat.mod_eq_of_lt (by rw [levels]; exact room)
    exact sum

end Store

end ItchExchange.Book.PriceLadder
