import ItchExchange.Book.PriceLadderQueries

/-!
# Moving the window of the price ladder

A rebase lifts the levels out of the window, moves the window and puts them
back, and then pulls in the levels of the map between the prices of the two ends
of the window.  No level is lost, but the two prices are cut to 32 bits: where
the window reaches past the lowest or the highest price, nothing is pulled in.
-/

namespace ItchExchange.Book.PriceLadder

open ItchExchange.Core ItchExchange.Library
open Std (ExtTreeMap)

/-! ## The two walks of a rebase -/

section Walks

variable {ladder : PriceLadder} {map : Price → Option LevelHandle}

/-- What the steps of a rebase leave as it was. -/
structure Keeps (before after : PriceLadder) : Prop where
  side : after.side = before.side
  base : after.base = before.base
  levels : after.levels = before.levels
  vacant : before.Vacant → after.Vacant

theorem Keeps.refl (ladder : PriceLadder) : ladder.Keeps ladder :=
  ⟨rfl, rfl, rfl, id⟩

theorem Keeps.trans {first second third : PriceLadder}
    (left : first.Keeps second) (right : second.Keeps third) :
    first.Keeps third :=
  ⟨right.side.trans left.side, right.base.trans left.base,
    right.levels.trans left.levels, right.vacant ∘ left.vacant⟩

theorem Stores.keeps_put (stores : ladder.Stores map) (p : Price)
    (h : LevelHandle) : ladder.Keeps (ladder.put p h) :=
  ⟨side_put ladder p h, base_put ladder p h, levels_put ladder p h,
    fun vacant => vacant.put stores⟩

theorem Stores.keeps_pull (stores : ladder.Stores map) (p : Price)
    (h : LevelHandle) : ladder.Keeps (ladder.pull p h) := by
  refine ⟨?_, ?_, ?_, fun vacant => vacant.pull stores⟩ <;>
    rw [PriceLadder.pull] <;> split_ifs <;> rfl

/-- Levels of absent prices, put back one after another. -/
theorem Stores.putAll (stores : ladder.Stores map)
    {levels : List (Price × LevelHandle)}
    (distinct : (levels.map Prod.fst).Nodup)
    (absent : ∀ level ∈ levels, map level.1 = none)
    (notNull : ∀ level ∈ levels, level.2 ≠ Handle.null)
    (notZero : ∀ level ∈ levels, level.1 ≠ 0) :
    ∃ map', (levels.foldl
        (fun ladder level => ladder.put level.1 level.2) ladder).Stores map' ∧
      (∀ q g, map' q = some g ↔ (q, g) ∈ levels ∨ map q = some g) ∧
      ladder.Keeps (levels.foldl
        (fun ladder level => ladder.put level.1 level.2) ladder) ∧
      ∀ q, ladder.InWindow q → (levels.foldl
        (fun ladder level => ladder.put level.1 level.2) ladder).overflow[q]? =
          ladder.overflow[q]? := by
  induction levels generalizing ladder map with
  | nil =>
      exact ⟨map, stores, fun q g => by simp, Keeps.refl ladder,
        fun q _ => rfl⟩
  | cons level rest induction =>
      obtain ⟨p, h⟩ := level
      obtain ⟨fresh, distinctRest⟩ := List.nodup_cons.mp distinct
      have none : map p = none := absent (p, h) List.mem_cons_self
      have put := stores.put none (notNull (p, h) List.mem_cons_self)
        (notZero (p, h) List.mem_cons_self)
      have other : ∀ level ∈ rest, level.1 ≠ p := by
        rintro level member rfl
        exact fresh (List.mem_map.mpr ⟨level, member, rfl⟩)
      obtain ⟨map', stored, same, keeps, overflow⟩ := induction put
        distinctRest
        (fun level member => by
          rw [Function.update_of_ne (other level member)]
          exact absent level (List.mem_cons_of_mem _ member))
        (fun level member => notNull level (List.mem_cons_of_mem _ member))
        (fun level member => notZero level (List.mem_cons_of_mem _ member))
      refine ⟨map', stored, fun q g => ?_,
        (stores.keeps_put p h).trans keeps, fun q inside => ?_⟩
      · rw [same, Function.update_apply, List.mem_cons, Prod.mk.injEq]
        by_cases here : q = p
        · subst here
          have notRest : (q, g) ∉ rest := fun member =>
            other (q, g) member rfl
          simp [notRest, none, eq_comm]
        · simp [here]
      · have still : (ladder.put p h).InWindow q := by
          rw [InWindow, base_put]
          exact inside
        exact (overflow q still).trans (overflow_put inside)

theorem overflow_pull (ladder : PriceLadder) (p q : Price) (h : LevelHandle)
    (window : ladder.InWindow q) :
    (ladder.pull p h).overflow[q]? =
      if q = p then none else ladder.overflow[q]? := by
  rw [PriceLadder.pull]
  have erased := congrFun (PresentLevels.map_erase ladder.overflow p) q
  rw [Function.update_apply] at erased
  split_ifs with inside same same
  · exact erased.trans (if_pos same)
  · exact erased.trans (if_neg same)
  · subst same
    exact absurd window inside
  · rfl

/-- Levels of the map, pulled in one after another. -/
theorem Stores.pullAll (stores : ladder.Stores map)
    {levels : List (Price × LevelHandle)}
    (distinct : (levels.map Prod.fst).Nodup)
    (here : ∀ level ∈ levels, ladder.overflow[level.1]? = some level.2) :
    (levels.foldl
        (fun ladder level => ladder.pull level.1 level.2) ladder).Stores map ∧
      ladder.Keeps (levels.foldl
        (fun ladder level => ladder.pull level.1 level.2) ladder) ∧
      ∀ q, ladder.InWindow q → (levels.foldl
        (fun ladder level => ladder.pull level.1 level.2) ladder).overflow[q]? =
          if q ∈ levels.map Prod.fst then none else ladder.overflow[q]? := by
  induction levels generalizing ladder with
  | nil => exact ⟨stores, Keeps.refl ladder, fun q _ => by simp⟩
  | cons level rest induction =>
      obtain ⟨p, h⟩ := level
      obtain ⟨fresh, distinctRest⟩ := List.nodup_cons.mp distinct
      have pulled := stores.pull (here (p, h) List.mem_cons_self)
      have keeps := stores.keeps_pull p h
      have restHere : ∀ level ∈ rest,
          (ladder.pull p h).overflow[level.1]? = some level.2 := by
        intro level member
        have other : level.1 ≠ p := by
          rintro rfl
          exact fresh (List.mem_map.mpr ⟨level, member, rfl⟩)
        have erased :=
          congrFun (PresentLevels.map_erase ladder.overflow p) level.1
        rw [Function.update_of_ne other] at erased
        have before := here level (List.mem_cons_of_mem _ member)
        rw [PriceLadder.pull]
        split_ifs with inside
        · exact erased.trans before
        · exact before
      obtain ⟨stored, restKeeps, overflow⟩ :=
        induction pulled distinctRest restHere
      refine ⟨stored, keeps.trans restKeeps, fun q inside => ?_⟩
      have still : (ladder.pull p h).InWindow q := by
        rw [InWindow, keeps.base]
        exact inside
      rw [List.foldl_cons, overflow q still, overflow_pull ladder p q h inside,
        List.map_cons]
      by_cases first : q = p
      · simp [first]
      · simp only [List.mem_cons, first, false_or, if_false]

end Walks

/-! ## The prices between the ends of the window -/

section Affected

variable {entries : List (Price × LevelHandle)}

theorem mem_dropWhile_below (level : Price × LevelHandle) (bound : Price)
    (ordered : entries.Pairwise fun first second => first.1 < second.1) :
    level ∈ entries.dropWhile (fun entry => entry.1 < bound) ↔
      level ∈ entries ∧ bound ≤ level.1 := by
  induction entries with
  | nil => simp
  | cons first rest induction =>
      obtain ⟨below, restOrdered⟩ := List.pairwise_cons.mp ordered
      rw [List.dropWhile_cons]
      split_ifs with low
      · have low : first.1 < bound := of_decide_eq_true low
        rw [induction restOrdered, List.mem_cons]
        constructor
        · exact fun member => ⟨Or.inr member.1, member.2⟩
        · rintro ⟨rfl | member, high⟩
          · exact absurd high (UInt32.not_le.mpr low)
          · exact ⟨member, high⟩
      · have high : bound ≤ first.1 := by
          rw [← UInt32.not_lt]
          exact of_decide_eq_false (Bool.not_eq_true _ |>.mp low)
        refine ⟨fun member => ⟨member, ?_⟩, And.left⟩
        rcases List.mem_cons.mp member with rfl | inRest
        · exact high
        · exact UInt32.le_trans high (UInt32.le_of_lt (below level inRest))

theorem mem_takeWhile_below (level : Price × LevelHandle) (bound : Price)
    (ordered : entries.Pairwise fun first second => first.1 < second.1) :
    level ∈ entries.takeWhile (fun entry => entry.1 < bound) ↔
      level ∈ entries ∧ level.1 < bound := by
  induction entries with
  | nil => simp
  | cons first rest induction =>
      obtain ⟨below, restOrdered⟩ := List.pairwise_cons.mp ordered
      rw [List.takeWhile_cons]
      split_ifs with low
      · have low : first.1 < bound := of_decide_eq_true low
        rw [List.mem_cons, List.mem_cons, induction restOrdered]
        constructor
        · rintro (rfl | ⟨member, small⟩)
          · exact ⟨Or.inl rfl, low⟩
          · exact ⟨Or.inr member, small⟩
        · rintro ⟨rfl | member, small⟩
          · exact Or.inl rfl
          · exact Or.inr ⟨member, small⟩
      · have high : ¬ first.1 < bound :=
          of_decide_eq_false (Bool.not_eq_true _ |>.mp low)
        constructor
        · intro member
          cases member
        · rintro ⟨member, small⟩
          rcases List.mem_cons.mp member with rfl | inRest
          · exact absurd small high
          · exact absurd (UInt32.lt_trans (below level inRest) small) high

end Affected

/-! ## The rebase -/

/--
The window around a tick reaches past the lowest or past the highest price, and
one of the two prices which `rebase` casts is not that of the end of the window.
-/
def ReachesPast (tick : Int) : Prop :=
  tick < 2048 ∨ 2 ^ 32 ≤ (tick + 2048) * 100

instance (tick : Int) : Decidable (ReachesPast tick) :=
  inferInstanceAs (Decidable (_ ∨ _))

section Rebase

variable {ladder : PriceLadder} {map : Price → Option LevelHandle}
  {tick : Int}

theorem mem_affected (ladder : PriceLadder) (level : Price × LevelHandle) :
    level ∈ ladder.affected ↔
      ladder.overflow[level.1]? = some level.2 ∧
        UInt32.ofInt (ladder.base * 100) ≤ level.1 ∧
          level.1 < UInt32.ofInt ((ladder.base + 4096) * 100) := by
  have ordered := ladder.overflow_pairwise
  have rest := ordered.sublist (List.dropWhile_sublist
    fun entry => decide (entry.1 < UInt32.ofInt (ladder.base * 100)))
  have first := mem_dropWhile_below level
    (UInt32.ofInt (ladder.base * 100)) ordered
  have last := mem_takeWhile_below level
    (UInt32.ofInt ((ladder.base + 4096) * 100)) rest
  rw [first, ExtTreeMap.mem_toList_iff_getElem?_eq_some, and_assoc] at last
  exact last

/-- Below the ends which are prices, the window is between their prices. -/
theorem between_of_inWindow (notPast : ¬ ReachesPast tick)
    {q : Price} (window : InWindowFrom (tick - 2048) q) :
    UInt32.ofInt ((tick - 2048) * 100) ≤ q ∧
      q < UInt32.ofInt ((tick - 2048 + 4096) * 100) := by
  obtain ⟨whole, above, below⟩ := inWindowFrom_iff.mp window
  rw [ReachesPast, not_or] at notPast
  have loPrice := toNat_ofInt ((tick - 2048) * 100)
  have hiPrice := toNat_ofInt ((tick - 2048 + 4096) * 100)
  rw [Int.emod_eq_of_lt (by omega) (by omega)] at loPrice hiPrice
  rw [UInt32.le_iff_toNat_le, UInt32.lt_iff_toNat_lt]
  omega

/-- Past them, there is no price between the two which are cast. -/
theorem not_between (low : 0 ≤ tick) (high : tick * 100 < 2 ^ 32)
    (past : ReachesPast tick) (q : Price) :
    ¬ (UInt32.ofInt ((tick - 2048) * 100) ≤ q ∧
      q < UInt32.ofInt ((tick - 2048 + 4096) * 100)) := by
  have loPrice := toNat_ofInt ((tick - 2048) * 100)
  have hiPrice := toNat_ofInt ((tick - 2048 + 4096) * 100)
  rw [UInt32.le_iff_toNat_le, UInt32.lt_iff_toNat_lt]
  rcases past with below | above
  · have loValue : (tick - 2048) * 100 % 2 ^ 32 =
        (tick - 2048) * 100 + 2 ^ 32 := by omega
    have hiValue : (tick - 2048 + 4096) * 100 % 2 ^ 32 =
        (tick - 2048 + 4096) * 100 := by omega
    omega
  · have loValue : (tick - 2048) * 100 % 2 ^ 32 =
        (tick - 2048) * 100 := by omega
    have hiValue : (tick - 2048 + 4096) * 100 % 2 ^ 32 =
        (tick - 2048 + 4096) * 100 - 2 ^ 32 := by omega
    omega

/-- The ladder with nothing in its window. -/
theorem stores_lifted (stores : ladder.Stores map) (slots : List LevelHandle)
    (length : slots.length = kWindowTicks) (base : Int) :
    ({ ladder with slots, words := List.replicate kWords 0#64, base } :
      PriceLadder).Stores fun q => ladder.overflow[q]? where
  slots := length
  words := List.length_replicate
  standing := fun s occupied =>
    absurd ((BitWords.test_replicate kWords s).symm.trans occupied)
      Bool.false_ne_true
  window := fun p _ occupied =>
    absurd ((BitWords.test_replicate kWords _).symm.trans occupied)
      Bool.false_ne_true
  outside := fun _ _ => rfl
  notNull := fun p h here =>
    have stored := stores.mem_overflow.mp
      (ExtTreeMap.mem_toList_iff_getElem?_eq_some.mpr here)
    stores.notNull p h stored.2
  notZero := by
    rw [stores.outside 0 fun both =>
      (stores.window 0 both.1 both.2).1 stores.notZero]
    exact stores.notZero

theorem getElem?_foldl_set (visited : List Nat) (slots : List LevelHandle)
    (s : Nat) (inside : s < slots.length) :
    (visited.foldl (fun slots s => slots.set s Handle.null) slots)[s]? =
      if s ∈ visited then some Handle.null else slots[s]? := by
  induction visited generalizing slots with
  | nil => simp
  | cons first rest induction =>
      rw [List.foldl_cons, induction _ (by rw [List.length_set]; exact inside),
        List.getElem?_set]
      by_cases later : s ∈ rest
      · simp [later]
      · by_cases same : first = s
        · simp [same, inside]
        · simp [later, same, Ne.symm same]

theorem length_foldl_set (visited : List Nat) (slots : List LevelHandle) :
    (visited.foldl (fun slots s => slots.set s Handle.null) slots).length =
      slots.length := by
  induction visited generalizing slots with
  | nil => rfl
  | cons first rest induction =>
      rw [List.foldl_cons, induction, List.length_set]

/--
A rebase keeps every level.  It leaves a level of the new window in the map
exactly where it was there before and the window reaches past the prices.
-/
theorem Stores.rebase (stores : ladder.Stores map) (vacant : ladder.Vacant)
    (low : 0 ≤ tick) (high : tick * 100 < 2 ^ 32)
    (moves : tick - 2048 ≠ ladder.base) :
    ∃ later, ladder.rebase tick = .ok later ∧ later.Stores map ∧
      later.Vacant ∧ later.side = ladder.side ∧
        later.levels = ladder.levels ∧ later.base = tick - 2048 ∧
          ∀ q, later.InWindow q → later.overflow[q]? =
            if ReachesPast tick then ladder.overflow[q]? else none := by
  set visited := BitWords.positions ladder.words with positions
  set slots := visited.foldl (fun slots s => slots.set s Handle.null)
    ladder.slots with cleared
  set lifted : PriceLadder := { ladder with
    slots, words := List.replicate kWords 0#64, base := tick - 2048 }
    with lift
  have length : slots.length = kWindowTicks :=
    (length_foldl_set visited ladder.slots).trans stores.slots
  have liftedStores := stores_lifted stores slots length (tick - 2048)
  have liftedVacant : lifted.Vacant := by
    intro s inside _
    change slots[s]? = _
    rw [cleared, getElem?_foldl_set visited ladder.slots s
      (stores.slots ▸ inside)]
    split_ifs with seen
    · rfl
    · exact vacant s inside (Bool.not_eq_true _ |>.mp
        (mt BitWords.mem_positions.mpr seen))
  have distinct : (ladder.windowLevels.map Prod.fst).Nodup := by
    refine List.nodup_iff_pairwise_ne.mpr (List.pairwise_map.mpr
      (stores.windowLevels_pairwise.imp ?_))
    rintro level other below same
    rw [same] at below
    exact UInt32.lt_irrefl _ below
  have known : ∀ level ∈ ladder.windowLevels, map level.1 = some level.2 ∧
      ladder.overflow[level.1]? = none := by
    intro level member
    obtain ⟨⟨inside, occupied⟩, here⟩ := stores.mem_windowLevels.mp member
    exact ⟨here, (stores.window level.1 inside occupied).2.2⟩
  obtain ⟨map', returned, same, keeps, overflow⟩ := liftedStores.putAll
    distinct (fun level member => (known level member).2)
    (fun level member => stores.notNull _ _ (known level member).1)
    (fun level member zero => by
      have here := (known level member).1
      rw [zero, stores.notZero] at here
      cases here)
  have sameMap : map' = map := by
    funext q
    refine Option.ext fun g => ?_
    rw [same, ← ExtTreeMap.mem_toList_iff_getElem?_eq_some,
      ← List.mem_append]
    exact stores.mem_held
  rw [sameMap] at returned
  set back := ladder.windowLevels.foldl
    (fun ladder level => ladder.put level.1 level.2) lifted with putBack
  have base : back.base = tick - 2048 := keeps.base
  have affectedDistinct : (back.affected.map Prod.fst).Nodup := by
    have ordered : back.affected.Pairwise
        fun first second => first.1 < second.1 :=
      back.overflow_pairwise.sublist
        ((List.takeWhile_sublist _).trans (List.dropWhile_sublist _))
    refine List.nodup_iff_pairwise_ne.mpr
      (List.pairwise_map.mpr (ordered.imp ?_))
    rintro level other below same
    rw [same] at below
    exact UInt32.lt_irrefl _ below
  obtain ⟨pulled, pullKeeps, pullOverflow⟩ := returned.pullAll
    affectedDistinct fun level member =>
      ((mem_affected back level).mp member).1
  refine ⟨_, ?_, pulled, pullKeeps.vacant (keeps.vacant liftedVacant),
    pullKeeps.side.trans keeps.side, pullKeeps.levels.trans keeps.levels,
    pullKeeps.base.trans base, ?_⟩
  · rw [PriceLadder.rebase]
    change (if tick - 2048 = ladder.base then _ else _) = _
    rw [if_neg moves, occupied_eq, ok_bind, stores.read, ok_bind]
    rfl
  · intro q window
    have inBack : back.InWindow q := by
      rw [InWindow, ← pullKeeps.base]
      exact window
    have inLifted : InWindowFrom (tick - 2048) q := by
      rw [← base]
      exact inBack
    have before : back.overflow[q]? = ladder.overflow[q]? :=
      overflow q inLifted
    rw [pullOverflow q inBack]
    have between := mem_affected back
    rw [base] at between
    by_cases past : ReachesPast tick
    · have notPulled : q ∉ back.affected.map Prod.fst := by
        intro member
        obtain ⟨level, affected, rfl⟩ := List.mem_map.mp member
        exact not_between low high past level.1
          ((between level).mp affected).2
      rw [if_neg notPulled, if_pos past, before]
    · rw [if_neg past]
      cases here : back.overflow[q]? with
      | none => exact ite_self _
      | some h =>
          refine if_pos (List.mem_map.mpr ⟨(q, h), ?_, rfl⟩)
          exact (between (q, h)).mpr
            ⟨here, between_of_inWindow past inLifted⟩

end Rebase

/-! ## Insertion and erasure -/

/-- A price which the ladder finds, or the one which is to come. -/
def WillHold (ladder : PriceLadder) (p q : Price) : Prop :=
  q = p ∨ ladder.find q ≠ .ok Handle.null

/--
An insertion of this price leaves a level of the window in the map: the inside
is near the end of the window or outside of it, the window around it reaches
past the prices, and it covers a level which the old window does not.
-/
def Strands (ladder : PriceLadder) (p : Price) : Prop :=
  ∃ inside, ladder.WillHold p inside ∧
    (∀ other, ladder.WillHold p other →
      ¬ Closer ladder.side other inside) ∧
    ¬ (ladder.base + kRebaseMargin ≤ tickOf inside ∧
      tickOf inside < ladder.base + kWindowTicks - kRebaseMargin) ∧
    ReachesPast (tickOf inside) ∧
    ∃ q, ladder.WillHold p q ∧ ¬ ladder.InWindow q ∧
      InWindowFrom (tickOf inside - 2048) q

section Insert

variable {ladder : PriceLadder} {present : PresentLevels} {p : Price}
  {h : LevelHandle}

/-- The price is a present one, or the new one. -/
theorem Placed.willHold_iff (placed : ladder.Placed present)
    {q : Price} :
    ladder.WillHold p q ↔ PresentLevels.map (present.insert p h) q ≠ none := by
  obtain ⟨stores, inside, -⟩ := placed_iff.mp placed
  rw [WillHold, PresentLevels.map_insert, Function.update_apply,
    stores.find inside]
  by_cases same : q = p
  · simp [same]
  · rw [if_neg same]
    cases here : present.map q with
    | none => simp [same]
    | some g => simp [stores.notNull q g here]

/-- Both are the closest of the same prices. -/
theorem closest_unique {side : Side} {holds : Price → Prop}
    {first second : Price} (firstHolds : holds first)
    (firstClosest : ∀ other, holds other → ¬ Closer side other first)
    (secondHolds : holds second)
    (secondClosest : ∀ other, holds other → ¬ Closer side other second) :
    first = second := by
  rcases Closer.trichotomy side first second with ahead | same | behind
  · exact absurd ahead (secondClosest first firstHolds)
  · exact same
  · exact absurd behind (firstClosest second secondHolds)

/--
An insertion adds one level and ends with the inside well within the window.
It keeps the placement invariant exactly where it strands no level.
-/
theorem Placed.insert (placed : ladder.Placed present)
    (vacant : ladder.Vacant) (absent : p ∉ present)
    (notNull : h ≠ Handle.null) (notZero : p ≠ 0) :
    ∃ later, ladder.insert p h = .ok later ∧
      later.Stores (PresentLevels.map (present.insert p h)) ∧ later.Vacant ∧
        later.side = ladder.side ∧
          later.levels.toNat = (present.insert p h).size ∧
            (∃ best, later.best = .ok best ∧
              later.base + 512 ≤ tickOf best ∧
                tickOf best < later.base + 3584) ∧
              (later.Placed (present.insert p h) ↔ ¬ ladder.Strands p) := by
  obtain ⟨stores, inside, levels⟩ := placed_iff.mp placed
  have none : present.map p = none :=
    not_not.mp (mt mem_iff_ne_none.mpr absent)
  have found : ladder.find p = .ok Handle.null := by
    rw [stores.find inside, none]
    rfl
  have room : present.size + 1 < 2 ^ 32 := by
    rw [← PresentLevels.size_insert (h := h) none]
    refine PresentLevels.size_lt ?_
    change PresentLevels.map (present.insert p h) 0 = _
    rw [PresentLevels.map_insert, Function.update_of_ne (Ne.symm notZero)]
    exact stores.notZero
  have put := placed.put absent notNull notZero room
  obtain ⟨putStores, putInside, putLevels⟩ := placed_iff.mp put
  have putVacant : (ladder.put p h).Vacant := vacant.put stores
  have grownBase : (ladder.put p h).base = ladder.base := base_put ladder p h
  have grownSide : (ladder.put p h).side = ladder.side := side_put ladder p h
  set grown : PriceLadder :=
    { ladder.put p h with levels := (ladder.put p h).levels + 1 } with grows
  have counted : grown.levels ≠ 0 := by
    intro zero
    rw [zero, PresentLevels.size_insert none] at putLevels
    exact absurd putLevels (Nat.succ_ne_zero _).symm
  have here : PresentLevels.map (present.insert p h) p ≠ Option.none := by
    rw [PresentLevels.map_insert, Function.update_self]
    exact Option.some_ne_none h
  obtain ⟨best, reached, bestHeld, closest⟩ := putStores.best counted here
  have notEmpty : grown.isEmpty = false := decide_eq_false counted
  have inserted : ladder.insert p h =
      if ladder.base + kRebaseMargin ≤ tickOf best ∧
        tickOf best < ladder.base + kWindowTicks - kRebaseMargin then pure grown
      else grown.rebase (tickOf best) := by
    rw [PriceLadder.insert, assertMsg_of notNull, ok_bind, found, ok_bind,
      assertMsg_of rfl, ok_bind]
    change grown.maybeRebase = _
    rw [maybeRebase, notEmpty, if_neg Bool.false_ne_true, reached, ok_bind,
      ← grownBase]
  have sameHeld : ∀ q, ladder.WillHold p q ↔
      PresentLevels.map (present.insert p h) q ≠ Option.none :=
    fun q => placed.willHold_iff
  rw [inserted]
  split_ifs with within
  · refine ⟨grown, rfl, putStores, putVacant, grownSide, putLevels,
      ⟨best, reached, ?_, ?_⟩, iff_of_true put ?_⟩
    · change (ladder.put p h).base + 512 ≤ _
      rw [grownBase]
      exact within.1
    · change _ < (ladder.put p h).base + 3584
      rw [grownBase]
      have high := within.2
      have size : (kWindowTicks : Int) = 4096 := rfl
      have margin : kRebaseMargin = 512 := rfl
      omega
    · rintro ⟨inside', held, closest', outside, -⟩
      rw [sameHeld] at held
      have same : best = inside' := closest_unique bestHeld closest held
        fun other holds => grownSide ▸ closest' other
          ((sameHeld other).mpr holds)
      exact outside (same ▸ within)
  · have tick := tickOf_eq best
    have bound := best.toNat_lt
    have size : (kWindowTicks : Int) = 4096 := rfl
    have margin : kRebaseMargin = 512 := rfl
    have moves : tickOf best - 2048 ≠ grown.base := by
      change _ ≠ (ladder.put p h).base
      rw [grownBase]
      omega
    obtain ⟨later, rebased, laterStores, laterVacant, laterSide, laterLevels,
      laterBase, laterOverflow⟩ := putStores.rebase putVacant (by omega)
        (by omega) moves
    have laterCounted : later.levels ≠ 0 := by
      rw [laterLevels]
      exact counted
    obtain ⟨again, laterReached, againHeld, againClosest⟩ :=
      laterStores.best laterCounted here
    have same : best = again := closest_unique bestHeld closest againHeld
      fun other holds => laterSide ▸ againClosest other holds
    subst same
    refine ⟨later, rebased, laterStores, laterVacant,
      laterSide.trans grownSide, (congrArg _ laterLevels).trans putLevels,
      ⟨best, laterReached, by omega, by omega⟩, ?_⟩
    have stays : ∀ q, later.InWindow q → (later.overflow[q]? = Option.none ↔
        ¬ (ReachesPast (tickOf best) ∧ ladder.WillHold p q ∧
          ¬ ladder.InWindow q)) := by
      intro q window
      rw [laterOverflow q window]
      by_cases past : ReachesPast (tickOf best)
      · rw [if_pos past, sameHeld]
        have before : ∀ {q}, grown.InWindow q ↔ ladder.InWindow q := by
          intro q
          change InWindowFrom (ladder.put p h).base q ↔ _
          rw [grownBase]
          exact Iff.rfl
        by_cases covered : ladder.InWindow q
        · simp [covered, putInside q (before.mpr covered)]
        · have outside : grown.overflow[q]? =
              PresentLevels.map (present.insert p h) q :=
            putStores.outside q fun both => covered (before.mp both.1)
          rw [outside]
          simp [covered, past]
      · simp [past]
    constructor
    · rintro laterPlaced ⟨inside', held, closest', -, past, q, holdsQ,
        outside, covered⟩
      rw [sameHeld] at held
      have same : best = inside' := closest_unique bestHeld closest held
        fun other holds => grownSide ▸ closest' other
          ((sameHeld other).mpr holds)
      subst same
      have window : later.InWindow q := by
        rw [InWindow, laterBase]
        exact covered
      exact (stays q window).mp
        ((placed_iff.mp laterPlaced).2.1 q window) ⟨past, holdsQ, outside⟩
    · intro notStranded
      refine placed_iff.mpr ⟨laterStores, fun q window => ?_,
        (congrArg _ laterLevels).trans putLevels⟩
      refine (stays q window).mpr ?_
      rintro ⟨past, holdsQ, outside⟩
      refine notStranded ⟨best, (sameHeld best).mpr bestHeld,
        fun other holds => grownSide ▸ closest other
          ((sameHeld other).mp holds), within, past, q, holdsQ, outside, ?_⟩
      rw [← laterBase]
      exact window

/--
Moving the window loses, duplicates and relabels no level, and the inside ends
well within it.
-/
theorem insert_keepsLevels (ladder : PriceLadder) (present : PresentLevels)
    (placed : ladder.Placed present) (vacant : ladder.Vacant) (p : Price)
    (h : LevelHandle) (absent : p ∉ present) (notZero : p ≠ 0)
    (notNull : h ≠ Handle.null) :
    ∃ later, ladder.insert p h = .ok later ∧
      later.held.Perm ((p, h) :: ladder.held) ∧
        later.levels.toNat = ladder.levels.toNat + 1 ∧ later.Vacant ∧
          ∃ best, later.best = .ok best ∧
            later.base + 512 ≤ tickOf best ∧
              tickOf best < later.base + 3584 := by
  obtain ⟨later, inserted, stores, laterVacant, -, levels, inside, -⟩ :=
    placed.insert vacant absent notNull notZero
  have before := (placed_iff.mp placed).1
  have none : present.map p = none :=
    not_not.mp (mt mem_iff_ne_none.mpr absent)
  refine ⟨later, inserted, ?_, ?_, laterVacant, inside⟩
  · have fresh : (p, h) ∉ ladder.held := by
      rw [before.mem_held, none]
      exact (Option.some_ne_none h).symm
    rw [List.perm_ext_iff_of_nodup stores.held_nodup
      (List.nodup_cons.mpr ⟨fresh, before.held_nodup⟩)]
    rintro ⟨q, g⟩
    rw [stores.mem_held, PresentLevels.map_insert, Function.update_apply,
      List.mem_cons, before.mem_held, Prod.mk.injEq]
    by_cases same : q = p
    · subst same
      simp [none, eq_comm]
    · simp [same]
  · rw [levels, placed.levels, PresentLevels.size_insert none]

/-- Where no window reaches past the prices, the invariant is kept. -/
theorem Placed.insert_central (placed : ladder.Placed present)
    (vacant : ladder.Vacant)
    (central : ∀ q ∈ present, ¬ ReachesPast (tickOf q))
    (here : ¬ ReachesPast (tickOf p)) (absent : p ∉ present)
    (notZero : p ≠ 0) (notNull : h ≠ Handle.null) :
    ∃ later, ladder.insert p h = .ok later ∧
      later.Placed (present.insert p h) ∧ later.Vacant ∧
        ∀ q ∈ present.insert p h, ¬ ReachesPast (tickOf q) := by
  have every : ∀ q ∈ present.insert p h, ¬ ReachesPast (tickOf q) := by
    intro q member
    rcases ExtTreeMap.mem_insert.mp member with same | old
    · exact Std.LawfulEqCmp.compare_eq_iff_eq.mp same ▸ here
    · exact central q old
  obtain ⟨later, inserted, -, laterVacant, -, -, -, keeps⟩ :=
    placed.insert vacant absent notNull notZero
  refine ⟨later, inserted, keeps.mpr ?_, laterVacant, every⟩
  rintro ⟨inside, held, -, -, past, -⟩
  exact every inside
    (mem_iff_ne_none.mpr (placed.willHold_iff.mp held)) past

/-- Three offers, of which the window around the first covers two. -/
def threeOffers : Checked PriceLadder := do
  let ladder ← ({ side := .sell } : PriceLadder).insert 1000000 ⟨1⟩
  let ladder ← ladder.insert 1200000 ⟨2⟩
  ladder.insert 1300000 ⟨3⟩

theorem placed_threeOffers :
    ∃ ladder, threeOffers = .ok ladder ∧ ladder.Vacant ∧
      ladder.Placed
        (((ExtTreeMap.insert ∅ 1000000 ⟨1⟩).insert 1200000 ⟨2⟩).insert
          1300000 ⟨3⟩) := by
  obtain ⟨first, ran, placed, vacant, central⟩ :=
    (placed_empty .sell 0).insert_central (p := 1000000) (h := ⟨1⟩)
      (vacant_empty .sell 0)
      (fun q member => absurd member ExtTreeMap.not_mem_empty) (by decide)
      ExtTreeMap.not_mem_empty (by decide) (by decide)
  obtain ⟨second, ranSecond, placed, vacant, central⟩ :=
    placed.insert_central (p := 1200000) (h := ⟨2⟩) vacant central (by decide)
      (by decide +kernel) (by decide) (by decide)
  obtain ⟨third, ranThird, placed, vacant, -⟩ :=
    placed.insert_central (p := 1300000) (h := ⟨3⟩) vacant central (by decide)
      (by decide +kernel) (by decide) (by decide)
  refine ⟨third, ?_, vacant, placed⟩
  rw [threeOffers, ran, ok_bind, ranSecond, ok_bind, ranThird]

/--
An offer below the others moves the window.  The first offer is lifted to
another slot, the second one goes from its slot to the map, and the third one
stays there.
-/
theorem insert_keepsLevels_displaced :
    ∃ ladder later, threeOffers = .ok ladder ∧
      ladder.held = [(1000000, ⟨1⟩), (1200000, ⟨2⟩), (1300000, ⟨3⟩)] ∧
      ladder.overflow.toList = [(1300000, ⟨3⟩)] ∧
      ladder.insert 800000 ⟨4⟩ = .ok later ∧
        later.overflow.toList = [(1200000, ⟨2⟩), (1300000, ⟨3⟩)] ∧
        later.base = 5952 ∧
        later.held.Perm ((800000, ⟨4⟩) :: ladder.held) ∧
          later.levels.toNat = ladder.levels.toNat + 1 ∧
            later.Vacant ∧
              ∃ best, later.best = .ok best ∧
                later.base + 512 ≤ tickOf best ∧
                  tickOf best < later.base + 3584 := by
  have before : (threeOffers.map fun ladder =>
      (ladder.held, ladder.overflow.toList)) =
        .ok ([(1000000, ⟨1⟩), (1200000, ⟨2⟩), (1300000, ⟨3⟩)],
          [(1300000, ⟨3⟩)]) := by
    decide +kernel
  have behind : (threeOffers >>= fun ladder => ladder.insert 800000 ⟨4⟩).map
      (fun later => (later.overflow.toList, later.base)) =
        .ok ([(1200000, ⟨2⟩), (1300000, ⟨3⟩)], 5952) := by
    decide +kernel
  obtain ⟨ladder, ran, vacant, placed⟩ := placed_threeOffers
  obtain ⟨later, inserted, kept⟩ := insert_keepsLevels ladder _ placed vacant
    800000 ⟨4⟩ (by decide +kernel) (by decide) (by decide)
  rw [ran] at before
  rw [ran, ok_bind, inserted] at behind
  simp only [Except.map, Except.ok.injEq, Prod.mk.injEq] at before behind
  exact ⟨ladder, later, ran, before.1, before.2, inserted, behind.1, behind.2,
    kept⟩

/-- An erasure of a present price keeps the placement invariant. -/
theorem Placed.erase (placed : ladder.Placed present)
    (vacant : ladder.Vacant) (member : p ∈ present) :
    ∃ later, ladder.erase p = .ok later ∧
      later.Placed (present.erase p) ∧ later.Vacant ∧
        later.side = ladder.side := by
  obtain ⟨stores, inside, levels⟩ := placed_iff.mp placed
  have count := PresentLevels.size_erase (mem_iff_ne_none.mp member)
  have some : 0 < ladder.levels := by
    rw [UInt32.lt_iff_toNat_lt, levels]
    exact Nat.lt_of_lt_of_eq (Nat.succ_pos _) count
  have one : (1 : UInt32) ≤ ladder.levels :=
    UInt32.le_iff_toNat_le.mpr (UInt32.lt_iff_toNat_lt.mp some)
  have fewer : (ladder.levels - 1).toNat = (present.erase p).size := by
    rw [UInt32.toNat_sub_of_le _ _ one, levels]
    exact Nat.sub_eq_of_eq_add count.symm
  have others : ∀ q, q ≠ p →
      PresentLevels.map (present.erase p) q = present.map q := fun q other => by
    rw [PresentLevels.map_erase, Function.update_of_ne other]
  have gone : PresentLevels.map (present.erase p) p = none := by
    rw [PresentLevels.map_erase, Function.update_self]
  have notNull : ∀ q g, PresentLevels.map (present.erase p) q =
      Option.some g → g ≠ Handle.null := by
    intro q g here
    by_cases same : q = p
    · rw [same, gone] at here
      cases here
    · exact stores.notNull q g ((others q same).symm.trans here)
  have notZero : PresentLevels.map (present.erase p) 0 = none := by
    by_cases same : 0 = p
    · rw [same]
      exact gone
    · rw [others 0 same]
      exact stores.notZero
  rw [PriceLadder.erase]
  by_cases window : ladder.InWindow p
  · have small := slotOf_lt window
    have occupied : ladder.bitSet (ladder.slotOf p) = true :=
      (placed.occupied _).mpr
        ⟨p, member, window, (tickOf_eq_iff window).mpr rfl⟩
    rw [if_pos window, assertMsg_of occupied, ok_bind, pure_eq_ok, ok_bind]
    dsimp only
    rw [assertMsg_of some, ok_bind]
    set later : PriceLadder := { ladder with
      slots := ladder.slots.set (ladder.slotOf p) Handle.null
      words := BitWords.clear ladder.words (ladder.slotOf p)
      levels := ladder.levels - 1 } with cleared
    have bit : ∀ t, later.bitSet t =
        (decide (t ≠ ladder.slotOf p) && ladder.bitSet t) := by
      intro t
      refine BitWords.test_clear ?_
      rw [stores.words]
      exact small
    have slots : ∀ t, later.slots[t]? =
        if t = ladder.slotOf p then Option.some Handle.null
        else ladder.slots[t]? := fun t => slots_store stores.slots small
    refine ⟨later, rfl, placed_iff.mpr ⟨⟨List.length_set.trans stores.slots,
      List.length_set.trans stores.words, ?_, ?_, ?_, notNull, notZero⟩,
      inside, fewer⟩, ?_, rfl⟩
    · intro s occupied
      rw [bit, Bool.and_eq_true] at occupied
      exact stores.standing s occupied.2
    · intro q (covered : ladder.InWindow q) occupied
      rw [bit, Bool.and_eq_true, decide_eq_true_eq] at occupied
      have distinct : ladder.slotOf q ≠ ladder.slotOf p := occupied.1
      have other : q ≠ p := fun same => distinct (congrArg _ same)
      change _ ∧ later.slots[ladder.slotOf q]? = _ ∧ _
      rw [others q other, slots, if_neg distinct]
      exact stores.window q covered occupied.2
    · intro q notWindow
      by_cases same : q = p
      · subst same
        rw [gone]
        exact inside q window
      · rw [others q same]
        refine stores.outside q fun both => notWindow ⟨both.1, ?_⟩
        have distinct : ladder.slotOf q ≠ ladder.slotOf p :=
          fun equal => same (slotOf_inj both.1 window equal)
        change later.bitSet (ladder.slotOf q) = true
        rw [bit, decide_eq_true distinct, both.2]
        rfl
    · intro t within free
      rw [slots]
      split_ifs with here
      · rfl
      · rw [bit, decide_eq_true here, Bool.true_and] at free
        exact vacant t within free
  · have stored : p ∈ ladder.overflow := by
      rw [mem_iff_ne_none]
      change ladder.overflow[p]? ≠ none
      rw [stores.outside p fun both => window both.1]
      exact mem_iff_ne_none.mp member
    have erased := congrFun (PresentLevels.map_erase ladder.overflow p)
    have stays : ∀ q, q ≠ p →
        (ladder.overflow.erase p)[q]? = ladder.overflow[q]? :=
      fun q other => (erased q).trans (Function.update_of_ne other ..)
    rw [if_neg window, assertMsg_of stored, ok_bind, pure_eq_ok, ok_bind]
    dsimp only
    rw [assertMsg_of some, ok_bind]
    refine ⟨_, rfl, placed_iff.mpr ⟨⟨stores.slots, stores.words,
      stores.standing, ?_, ?_, notNull, notZero⟩, ?_, fewer⟩, vacant, rfl⟩
    · intro q (covered : ladder.InWindow q) occupied
      have other : q ≠ p := by
        rintro rfl
        exact window covered
      change _ ∧ _ ∧ (ladder.overflow.erase p)[q]? = none
      rw [others q other, stays q other]
      exact stores.window q covered occupied
    · intro q notWindow
      change (ladder.overflow.erase p)[q]? = _
      by_cases same : q = p
      · subst same
        rw [gone]
        exact (erased q).trans (Function.update_self ..)
      · rw [others q same, stays q same]
        exact stores.outside q notWindow
    · intro q (covered : ladder.InWindow q)
      have other : q ≠ p := by
        rintro rfl
        exact window covered
      exact (stays q other).trans (inside q covered)

end Insert

end ItchExchange.Book.PriceLadder
