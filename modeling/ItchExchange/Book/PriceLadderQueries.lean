import ItchExchange.Book.PriceLadderPlacement

/-!
# Queries of the price ladder

The walks over the window and the overflow map visit each level once, from the
inside outwards, wherever the levels are kept.  Under the placement invariant
`find` is the lookup of the map as well.
-/

namespace ItchExchange.Book.PriceLadder

open ItchExchange.Core ItchExchange.Library
open Std (ExtTreeMap)

/-! ## The levels as a list -/

/-- The levels in the occupied slots, with the prices of their slots. -/
def windowLevels (ladder : PriceLadder) : List (Price × LevelHandle) :=
  (BitWords.positions ladder.words).map fun s =>
    (ladder.priceOfSlot s, ladder.slots[s]?.getD Handle.null)

/-- The levels in the occupied slots and those in the overflow map. -/
def held (ladder : PriceLadder) : List (Price × LevelHandle) :=
  ladder.windowLevels ++ ladder.overflow.toList

/-- The overflow map is read in ascending order. -/
theorem overflow_pairwise (ladder : PriceLadder) :
    ladder.overflow.toList.Pairwise
      fun first second => first.1 < second.1 :=
  (ExtTreeMap.ordered_keys_toList (t := ladder.overflow)).imp
    Std.compare_eq_lt.mp

section Stores

variable {ladder : PriceLadder} {map : Price → Option LevelHandle}

/-- The upward scan finds the set bits. -/
theorem occupied_eq (ladder : PriceLadder) :
    ladder.occupied = .ok (BitWords.positions ladder.words) := by
  rw [occupied, BitWords.scanUpFrom?_eq]
  rfl

/-- An occupied slot stands for one level. -/
theorem Stores.position (stores : ladder.Stores map) {s : Nat}
    (member : s ∈ BitWords.positions ladder.words) :
    ∃ p h, ladder.InWindow p ∧ ladder.slotOf p = s ∧ map p = some h ∧
      ladder.slots[s]? = some h ∧ ladder.priceOfSlot s = p := by
  have occupied := BitWords.mem_positions.mp member
  obtain ⟨p, inside, rfl⟩ := stores.standing s occupied
  obtain ⟨some, same, -⟩ := stores.window p inside occupied
  obtain ⟨h, here⟩ := Option.ne_none_iff_exists'.mp some
  exact ⟨p, h, inside, rfl, here, same.trans here,
    priceOfSlot_slotOf inside⟩

/-- The occupied slots hold the levels whose bit is set, at their own prices. -/
theorem Stores.mem_windowLevels (stores : ladder.Stores map) {p : Price}
    {h : LevelHandle} :
    (p, h) ∈ ladder.windowLevels ↔
      (ladder.InWindow p ∧ ladder.bitSet (ladder.slotOf p) = true) ∧
        map p = some h := by
  rw [windowLevels, List.mem_map]
  constructor
  · rintro ⟨s, member, pair⟩
    obtain ⟨q, g, inside, rfl, here, slot, price⟩ := stores.position member
    rw [slot, price] at pair
    cases pair
    exact ⟨⟨inside, BitWords.mem_positions.mp member⟩, here⟩
  · rintro ⟨⟨inside, occupied⟩, here⟩
    refine ⟨ladder.slotOf p, BitWords.mem_positions.mpr occupied, ?_⟩
    rw [(stores.window p inside occupied).2.1, here,
      priceOfSlot_slotOf inside]
    rfl

/-- Slot by slot the prices ascend. -/
theorem Stores.windowLevels_pairwise (stores : ladder.Stores map) :
    ladder.windowLevels.Pairwise fun first second => first.1 < second.1 := by
  rw [windowLevels, List.pairwise_map]
  refine (BitWords.positions_pairwise ladder.words).imp_of_mem ?_
  intro s t member other below
  obtain ⟨p, -, inside, rfl, -, -, price⟩ := stores.position member
  obtain ⟨q, -, beside, rfl, -, -, otherPrice⟩ := stores.position other
  dsimp only
  rw [price, otherPrice]
  exact slotOf_lt_slotOf inside beside below

/-- The overflow map holds every other level. -/
theorem Stores.mem_overflow (stores : ladder.Stores map) {p : Price}
    {h : LevelHandle} :
    (p, h) ∈ ladder.overflow.toList ↔
      ¬ (ladder.InWindow p ∧ ladder.bitSet (ladder.slotOf p) = true) ∧
        map p = some h := by
  rw [ExtTreeMap.mem_toList_iff_getElem?_eq_some]
  constructor
  · intro here
    by_cases window :
        ladder.InWindow p ∧ ladder.bitSet (ladder.slotOf p) = true
    · rw [(stores.window p window.1 window.2).2.2] at here
      cases here
    · exact ⟨window, (stores.outside p window).symm.trans here⟩
  · rintro ⟨window, here⟩
    exact (stores.outside p window).trans here

/-- Between them the two parts hold the levels of the map, and no others. -/
theorem Stores.mem_held (stores : ladder.Stores map) {p : Price}
    {h : LevelHandle} : (p, h) ∈ ladder.held ↔ map p = some h := by
  rw [held, List.mem_append, stores.mem_windowLevels, stores.mem_overflow,
    ← or_and_right]
  exact and_iff_right (Classical.em _)

/-- No level is in both parts. -/
theorem Stores.held_nodup (stores : ladder.Stores map) :
    ladder.held.Nodup := by
  refine List.nodup_append.mpr ⟨?_, ladder.overflow.nodup_toList, ?_⟩
  · refine stores.windowLevels_pairwise.imp ?_
    rintro level other below rfl
    exact UInt32.lt_irrefl _ below
  · rintro ⟨p, h⟩ inWindow _ inOverflow rfl
    exact (stores.mem_overflow.mp inOverflow).1
      (stores.mem_windowLevels.mp inWindow).1

theorem Stores.held_perm {present : PresentLevels}
    (stores : ladder.Stores present.map) :
    ladder.held.Perm present.toList := by
  rw [List.perm_ext_iff_of_nodup stores.held_nodup present.nodup_toList]
  rintro ⟨p, h⟩
  rw [stores.mem_held, ExtTreeMap.mem_toList_iff_getElem?_eq_some]
  exact Iff.rfl

/-- The counts of the window and of the map are together all levels. -/
theorem counts_eq_length_held (ladder : PriceLadder) :
    ladder.inWindowCount + ladder.overflowCount = ladder.held.length := by
  rw [held, List.length_append, windowLevels, List.length_map,
    ExtTreeMap.length_toList, inWindowCount, BitWords.count_eq]
  rfl

/-! ## Walks -/

/-- The loops which read the occupied slots. -/
theorem Stores.read (stores : ladder.Stores map) :
    ((BitWords.positions ladder.words).mapM fun s => do
      let h ← ladder.slot s
      pure (ladder.priceOfSlot s, h)) = .ok ladder.windowLevels := by
  refine mapM_eq_ok fun s member => ?_
  obtain ⟨p, h, -, -, -, slot, -⟩ := stores.position member
  rw [PriceLadder.slot, slot]
  rfl

theorem outwards_map {α β : Type} (side : Side) (value : α → β)
    (ascending : List α) :
    outwards side (ascending.map value) =
      (outwards side ascending).map value := by
  cases side with
  | buy => exact List.map_reverse.symm
  | sell => rfl

/-- Either scan collects the prices of the occupied slots from the inside. -/
theorem collectWindow_eq (ladder : PriceLadder) :
    ladder.collectWindow = .ok
      ((outwards ladder.side (BitWords.positions ladder.words)).map
        ladder.priceOfSlot) := by
  rw [collectWindow]
  cases ladder.side with
  | buy =>
      dsimp only
      rw [BitWords.scanDownFrom?_eq]
      rfl
  | sell =>
      dsimp only
      rw [occupied_eq]
      rfl

/-- Looked up again by its price, each collected slot gives its level. -/
theorem Stores.visits (stores : ladder.Stores map) :
    ((outwards ladder.side (BitWords.positions ladder.words)).map
        ladder.priceOfSlot).mapM (fun p => do
      let h ← ladder.slot (ladder.slotOf p)
      pure (p, h)) = .ok (outwards ladder.side ladder.windowLevels) := by
  rw [windowLevels, outwards_map]
  have each : ∀ s ∈ outwards ladder.side (BitWords.positions ladder.words),
      (do
        let h ← ladder.slot (ladder.slotOf (ladder.priceOfSlot s))
        pure (ladder.priceOfSlot s, h) : Checked _) =
      .ok (ladder.priceOfSlot s, ladder.slots[s]?.getD Handle.null) := by
    intro s member
    obtain ⟨p, h, -, rfl, -, slot, price⟩ :=
      stores.position ((mem_outwards _).mp member)
    rw [price, PriceLadder.slot, slot]
    rfl
  rw [List.mapM_map]
  exact mapM_eq_ok each

/--
By induction on both lists: a merge of two ordered lists is ordered where every
element of the one is comparable with every element of the other.
-/
theorem merge_pairwise {α : Type} {R : α → α → Prop} [DecidableRel R]
    (trans : ∀ {a b c}, R a b → R b c → R a c) {xs ys : List α}
    (first : xs.Pairwise R) (second : ys.Pairwise R)
    (either : ∀ x ∈ xs, ∀ y ∈ ys, R x y ∨ R y x) :
    (List.merge xs ys fun a b => decide (R a b)).Pairwise R := by
  induction xs generalizing ys with
  | nil =>
      rw [List.nil_merge]
      exact second
  | cons x xs outer =>
      obtain ⟨belowX, firstRest⟩ := List.pairwise_cons.mp first
      induction ys with
      | nil =>
          rw [List.merge_right]
          exact first
      | cons y ys inner =>
          obtain ⟨belowY, secondRest⟩ := List.pairwise_cons.mp second
          rw [List.cons_merge_cons]
          split_ifs with before
          · have ahead : R x y := of_decide_eq_true before
            refine List.pairwise_cons.mpr ⟨fun z member => ?_,
              outer firstRest second fun z inXs =>
                either z (List.mem_cons_of_mem x inXs)⟩
            rcases List.mem_merge.mp member with inXs | inYs
            · exact belowX z inXs
            · rcases List.mem_cons.mp inYs with rfl | inRest
              · exact ahead
              · exact trans ahead (belowY z inRest)
          · have notAhead : ¬ R x y := of_decide_eq_false
              (Bool.not_eq_true _ |>.mp before)
            have behind : R y x :=
              (either x List.mem_cons_self y List.mem_cons_self).resolve_left
                notAhead
            refine List.pairwise_cons.mpr ⟨fun z member => ?_,
              inner secondRest fun z inXs w inYs =>
                either z inXs w (List.mem_cons_of_mem y inYs)⟩
            rcases List.mem_merge.mp member with inXs | inYs
            · rcases List.mem_cons.mp inXs with rfl | inRest
              · exact behind
              · exact trans behind (belowX z inRest)
            · exact belowY z inYs

/-- The merged walk visits every level once, from the inside outwards. -/
theorem Stores.forEachLevel (stores : ladder.Stores map) :
    ∃ visits, ladder.forEachLevel = .ok visits ∧
      visits.Perm ladder.held ∧
        (visits.map Prod.fst).Pairwise (Closer ladder.side) := by
  have walked : ladder.forEachLevel = .ok (List.merge
      (outwards ladder.side ladder.windowLevels)
      (outwards ladder.side ladder.overflow.toList)
      fun first second => decide (Closer ladder.side first.1 second.1)) := by
    rw [PriceLadder.forEachLevel, collectWindow_eq, ok_bind, stores.visits]
    rfl
  refine ⟨_, walked, (List.merge_perm_append _).trans
    ((outwards_perm _ _).append (outwards_perm _ _)), ?_⟩
  rw [List.pairwise_map]
  refine merge_pairwise (fun first second => first.trans second)
    (List.pairwise_map.mp
      (outwards_pairwise stores.windowLevels_pairwise _))
    (List.pairwise_map.mp
      (outwards_pairwise ladder.overflow_pairwise _)) ?_
  rintro ⟨p, h⟩ inWindow ⟨q, g⟩ inOverflow
  rw [mem_outwards, stores.mem_windowLevels] at inWindow
  rw [mem_outwards, stores.mem_overflow] at inOverflow
  have distinct : p ≠ q := by
    rintro rfl
    exact inOverflow.1 inWindow.1
  rcases Closer.trichotomy ladder.side p q with closer | same | closer
  · exact Or.inl closer
  · exact absurd same distinct
  · exact Or.inr closer

/-! ## The inside -/

/--
The first set bit of the scan from the inside is the first level of the outward
walk of the window.
-/
theorem bestInWindow_eq (ladder : PriceLadder) :
    ladder.bestInWindow =
      ((outwards ladder.side ladder.windowLevels).head?.map
        Prod.fst).getD kNoPrice := by
  rw [bestInWindow, windowLevels, outwards_map, List.head?_map]
  cases ladder.side with
  | buy =>
      rw [outwards, List.head?_reverse, BitWords.highestFrom?_eq]
      rw [BitWords.positions]
      cases (BitWords.positionsFrom 0 ladder.words).getLast? with
      | none => rfl
      | some s => rfl
  | sell =>
      rw [outwards, BitWords.lowestFrom?_eq, BitWords.positions]
      cases (BitWords.positionsFrom 0 ladder.words).head? with
      | none => rfl
      | some s => rfl

/-- `better` returns one of its arguments, and the other one is not closer. -/
theorem better_cases (ladder : PriceLadder) (a b : Price) :
    (ladder.better a b = a ∧ ¬ Closer ladder.side b a) ∨
      (ladder.better a b = b ∧ ¬ Closer ladder.side a b) := by
  rw [better]
  cases ladder.side with
  | buy =>
      simp only [Closer]
      split_ifs with above
      · exact Or.inl ⟨rfl, fun below => UInt32.lt_asymm above below⟩
      · exact Or.inr ⟨rfl, above⟩
  | sell =>
      simp only [Closer]
      split_ifs with below
      · exact Or.inl ⟨rfl, fun above => UInt32.lt_asymm below above⟩
      · exact Or.inr ⟨rfl, below⟩

theorem not_closer_trans {side : Side} {a b c : Price}
    (first : ¬ Closer side a b) (second : ¬ Closer side b c) :
    ¬ Closer side a c := by
  intro closer
  rcases Closer.trichotomy side a b with ahead | rfl | behind
  · exact first ahead
  · exact second closer
  · exact second (behind.trans closer)

/-- Nothing is closer to the inside than the first of an outward walk. -/
theorem not_closer_first {side : Side}
    {ascending rest : List (Price × LevelHandle)}
    {first : Price × LevelHandle}
    (ordered : ascending.Pairwise fun one other => one.1 < other.1)
    (shape : outwards side ascending = first :: rest) :
    ∀ level ∈ ascending, ¬ Closer side level.1 first.1 := by
  intro level member
  have sorted := outwards_pairwise ordered side
  rw [shape, List.map_cons, List.pairwise_cons] at sorted
  rw [← mem_outwards side, shape] at member
  rcases List.mem_cons.mp member with rfl | inRest
  · exact Closer.irrefl side _
  · exact (sorted.1 level.1 (List.mem_map_of_mem inRest)).asymm

/-- The better one of the two first levels is the best of all levels. -/
theorem Stores.best (stores : ladder.Stores map)
    (counted : ladder.levels ≠ 0) {p : Price} (present : map p ≠ none) :
    ∃ best, ladder.best = .ok best ∧ map best ≠ none ∧
      ∀ other, map other ≠ none → ¬ Closer ladder.side other best := by
  have notEmpty : ladder.isEmpty = false := decide_eq_false counted
  have reached : ∀ level ∈ ladder.held, map level.1 ≠ none := by
    intro level member
    rw [stores.mem_held.mp member]
    exact Option.some_ne_none _
  have everyLevel : ∀ {best}, (∀ level ∈ ladder.held,
      ¬ Closer ladder.side level.1 best) →
        ∀ other, map other ≠ none → ¬ Closer ladder.side other best := by
    intro best none other some
    obtain ⟨h, here⟩ := Option.ne_none_iff_exists'.mp some
    exact none (other, h) (stores.mem_held.mpr here)
  rw [PriceLadder.best, assertMsg_of notEmpty, ok_bind, bestInWindow_eq]
  cases window : outwards ladder.side ladder.windowLevels with
  | nil =>
      have noWindow : ladder.windowLevels = [] := by
        have perm := outwards_perm ladder.side ladder.windowLevels
        rw [window] at perm
        exact perm.symm.eq_nil
      have heldOverflow : ladder.held = ladder.overflow.toList := by
        rw [held, noWindow, List.nil_append]
      cases overflow : outwards ladder.side ladder.overflow.toList with
      | nil =>
          have perm := outwards_perm ladder.side ladder.overflow.toList
          rw [overflow] at perm
          obtain ⟨h, here⟩ := Option.ne_none_iff_exists'.mp present
          have member := stores.mem_held.mpr here
          rw [heldOverflow, perm.symm.eq_nil] at member
          cases member
      | cons first rest =>
          have member : first ∈ ladder.overflow.toList :=
            (mem_outwards ladder.side).mp (overflow ▸ List.mem_cons_self)
          refine ⟨first.1, rfl, reached first (heldOverflow ▸ member),
            everyLevel ?_⟩
          rw [heldOverflow]
          exact not_closer_first ladder.overflow_pairwise overflow
  | cons first rest =>
      have member : first ∈ ladder.windowLevels :=
        (mem_outwards ladder.side).mp (window ▸ List.mem_cons_self)
      have heldFirst : first ∈ ladder.held :=
        List.mem_append_left _ member
      have firstClosest :=
        not_closer_first stores.windowLevels_pairwise window
      have notZero : first.1 ≠ kNoPrice := by
        intro zero
        have here := reached first heldFirst
        rw [zero] at here
        exact here stores.notZero
      dsimp only [List.head?_cons, Option.map_some, Option.getD_some]
      cases overflow : outwards ladder.side ladder.overflow.toList with
      | nil =>
          have perm := outwards_perm ladder.side ladder.overflow.toList
          rw [overflow] at perm
          refine ⟨first.1, ?_, reached first heldFirst, everyLevel ?_⟩
          · dsimp only [List.head?_nil]
            rw [assertMsg_of notZero]
            rfl
          · rw [held, perm.symm.eq_nil, List.append_nil]
            exact firstClosest
      | cons other others =>
          have otherMember : other ∈ ladder.overflow.toList :=
            (mem_outwards ladder.side).mp (overflow ▸ List.mem_cons_self)
          have otherClosest :=
            not_closer_first ladder.overflow_pairwise overflow
          dsimp only [List.head?_cons]
          rw [if_neg notZero]
          rcases ladder.better_cases first.1 other.1 with
            ⟨better, notCloser⟩ | ⟨better, notCloser⟩
          · rw [better]
            refine ⟨first.1, rfl, reached first heldFirst, everyLevel ?_⟩
            intro level heldLevel
            rcases List.mem_append.mp heldLevel with inWindow | inOverflow
            · exact firstClosest level inWindow
            · exact not_closer_trans (otherClosest level inOverflow)
                notCloser
          · rw [better]
            refine ⟨other.1, rfl, reached other
              (List.mem_append_right _ otherMember), everyLevel ?_⟩
            intro level heldLevel
            rcases List.mem_append.mp heldLevel with inWindow | inOverflow
            · exact not_closer_trans (firstClosest level inWindow) notCloser
            · exact otherClosest level inOverflow

end Stores

/-! ## The sorted map of the levels -/

section Placed

variable {ladder : PriceLadder} {present : PresentLevels} {p : Price}
  {h : LevelHandle}

/-- With nothing misplaced, looking in one of the two parts is enough. -/
theorem Stores.find (stores : ladder.Stores present.map)
    (inside : ∀ q, ladder.InWindow q → ladder.overflow[q]? = none)
    (p : Price) : ladder.find p = .ok ((present.map p).getD Handle.null) := by
  rw [PriceLadder.find]
  split_ifs with window occupied
  · obtain ⟨some, same, -⟩ := stores.window p window occupied
    obtain ⟨h, here⟩ := Option.ne_none_iff_exists'.mp some
    rw [slot, same, here]
    rfl
  · have none := inside p window
    rw [stores.outside p fun both => occupied both.2] at none
    rw [none]
    rfl
  · rw [stores.outside p fun both => window both.1]

/-- The sorted map of the levels which a ladder stands for. -/
structure IsSortedMap (ladder : PriceLadder) (present : PresentLevels) :
    Prop where
  find : ∀ p, ladder.find p = .ok (present[p]?.getD Handle.null)
  best : ladder.isEmpty = false →
    ∃ best, ladder.best = .ok best ∧ best ∈ present ∧
      ∀ other ∈ present, ¬ Closer ladder.side other best
  size : ladder.levels.toNat = present.size
  counts : ladder.inWindowCount + ladder.overflowCount =
    ladder.levels.toNat
  forEachLevel : ∃ visits, ladder.forEachLevel = .ok visits ∧
    visits.Perm present.toList ∧
      (visits.map Prod.fst).Pairwise (Closer ladder.side)

/-- Under the placement invariant the ladder is the sorted map it stands for. -/
theorem placed_isSortedMap (ladder : PriceLadder) (present : PresentLevels)
    (placed : ladder.Placed present) : ladder.IsSortedMap present := by
  obtain ⟨stores, inside, levels⟩ := placed_iff.mp placed
  refine ⟨stores.find inside, fun notEmpty => ?_, levels, ?_, ?_⟩
  · have counted : ladder.levels ≠ 0 := of_decide_eq_false notEmpty
    have long : present.toList ≠ [] := by
      intro none
      rw [← ExtTreeMap.length_toList, none, List.length_nil,
        ← UInt32.toNat_zero] at levels
      exact counted (UInt32.toNat_inj.mp levels)
    obtain ⟨⟨p, h⟩, member⟩ := List.exists_mem_of_ne_nil _ long
    have here : present.map p = some h :=
      ExtTreeMap.mem_toList_iff_getElem?_eq_some.mp member
    obtain ⟨best, reached, there, closest⟩ :=
      stores.best counted (here ▸ Option.some_ne_none h)
    exact ⟨best, reached, mem_iff_ne_none.mpr there, fun other present =>
      closest other (mem_iff_ne_none.mp present)⟩
  · rw [counts_eq_length_held, stores.held_perm.length_eq,
      ExtTreeMap.length_toList, levels]
  · obtain ⟨visits, walked, perm, sorted⟩ := stores.forEachLevel
    exact ⟨visits, walked, perm.trans stores.held_perm, sorted⟩

/-- A window which begins below the lowest tick, and a price it has not. -/
theorem placed_isSortedMap_below_zero :
    (({ ({ ({ side := .sell, base := -5 } : PriceLadder).put 100 ⟨1⟩ with
          levels := 1 } : PriceLadder).put 7 ⟨2⟩ with
        levels := 2 } : PriceLadder)).IsSortedMap
      (((∅ : PresentLevels).insert 100 ⟨1⟩).insert 7 ⟨2⟩) := by
  have first := (placed_empty .sell (-5)).put (p := 100) (h := ⟨1⟩)
    ExtTreeMap.not_mem_empty (by decide) (by decide) (by simp)
  have second := first.put (p := 7) (h := ⟨2⟩) (by simp) (by decide)
    (by decide) (by simp [PresentLevels.size_insert])
  exact placed_isSortedMap _ _ second

end Placed

end ItchExchange.Book.PriceLadder
