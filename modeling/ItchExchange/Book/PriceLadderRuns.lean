import ItchExchange.Book.PriceLadderRebase

/-!
# Runs of the price ladder

The placement invariant holds after every call of a run exactly where no
insertion of the run strands a level.  An insertion which recentres the window
close to the lowest or the highest price may strand one: a stub quote far below
the book is then in the overflow map and under the window at once, and `find`
misses it.
-/

namespace ItchExchange.Book.PriceLadder

open ItchExchange.Core ItchExchange.Library
open Std (ExtTreeMap)

section Validate

variable {ladder : PriceLadder} {present : PresentLevels}

theorem forM_eq_ok {α : Type} {visited : List α} {body : α → Checked Unit}
    (each : ∀ x ∈ visited, body x = .ok ()) :
    visited.forM body = .ok () := by
  induction visited with
  | nil => rfl
  | cons x rest induction =>
      change (body x >>= fun _ => rest.forM body) = _
      rw [each x List.mem_cons_self, ok_bind]
      exact induction fun y member => each y (List.mem_cons_of_mem x member)

/-- The self-check passes. -/
theorem Placed.validate (placed : ladder.Placed present) :
    ladder.validate = .ok () := by
  obtain ⟨stores, inside, levels⟩ := placed_iff.mp placed
  have counts : ladder.inWindowCount + ladder.overflowCount =
      ladder.levels.toNat := by
    rw [counts_eq_length_held, stores.held_perm.length_eq,
      ExtTreeMap.length_toList, levels]
  have slots : (BitWords.positions ladder.words).forM (fun s => do
      let h ← ladder.slot s
      assertMsg (h ≠ Handle.null) "occupied slot holds a null handle") =
        .ok () := by
    refine forM_eq_ok fun s member => ?_
    obtain ⟨p, h, -, -, here, slot, -⟩ := stores.position member
    have notNull := stores.notNull p h here
    rw [PriceLadder.slot, slot, ok_bind, assertMsg_of notNull]
  have overflow : ladder.overflow.toList.forM (fun level => do
      assertMsg (level.2 ≠ Handle.null) "overflow holds a null handle"
      assertMsg (¬ ladder.InWindow level.1)
        "a price inside the window is in the overflow map") = .ok () := by
    refine forM_eq_ok fun level member => ?_
    have here := ExtTreeMap.mem_toList_iff_getElem?_eq_some.mp member
    have notNull := stores.notNull level.1 level.2
      (stores.mem_overflow.mp member).2
    have outside : ¬ ladder.InWindow level.1 := by
      intro window
      rw [inside level.1 window] at here
      cases here
    rw [assertMsg_of notNull, ok_bind, assertMsg_of outside]
  rw [PriceLadder.validate, assertMsg_of counts, ok_bind, occupied_eq,
    ok_bind, slots, ok_bind, overflow]

end Validate

/-! ## Runs -/

/-- The placement invariant and what follows from it. -/
structure KeepsPlacement (ladder : PriceLadder) (present : PresentLevels) :
    Prop where
  placed : ladder.Placed present
  vacant : ladder.Vacant
  validate : ladder.validate = .ok ()
  find : ∀ p, ladder.find p = .ok (present[p]?.getD Handle.null)

theorem Placed.keepsPlacement {ladder : PriceLadder} {present : PresentLevels}
    (placed : ladder.Placed present) (vacant : ladder.Vacant) :
    ladder.KeepsPlacement present :=
  ⟨placed, vacant, placed.validate,
    (placed_isSortedMap ladder present placed).find⟩

/-- A ladder from the empty one on, up to the first assertion. -/
def after (side : Side) (calls : List LevelCall) : Checked PriceLadder :=
  LevelMap.run (LevelMap.make side) calls

/-- No insertion of the run leaves a level of the window in the map. -/
def NeverStrands (side : Side) (calls : List LevelCall) : Prop :=
  ∀ count p h ladder, calls[count]? = some (.insert p h) →
    after side (calls.take count) = .ok ladder → ¬ ladder.Strands p

/-- The run is one of valid calls, none of them for a price of zero. -/
def ValidCalls (calls : List LevelCall) : Prop :=
  (PresentLevels.run? ∅ calls).isSome = true ∧
    ∀ p h, .insert p h ∈ calls → p ≠ 0

section Runs

variable {side : Side} {calls : List LevelCall}

/-- One call of a run which has kept the invariant so far. -/
theorem Placed.apply {ladder : PriceLadder} {before present : PresentLevels}
    (placed : ladder.Placed before) (vacant : ladder.Vacant)
    {call : LevelCall} (valid : call.perform? before = some present)
    (positive : ∀ p h, call = .insert p h → p ≠ 0)
    (notStrands : ∀ p h, call = .insert p h → ¬ ladder.Strands p) :
    ∃ later, LevelMap.apply ladder call = .ok later ∧
      later.Placed present ∧ later.Vacant := by
  cases call with
  | insert p h =>
      rw [LevelCall.perform?] at valid
      split_ifs at valid with fresh
      cases valid
      have absent : p ∉ before := fun member =>
        mem_iff_ne_none.mp member fresh.2
      obtain ⟨later, inserted, -, laterVacant, -, -, -, keeps⟩ :=
        placed.insert vacant absent fresh.1 (positive p h rfl)
      exact ⟨later, inserted, keeps.mpr (notStrands p h rfl), laterVacant⟩
  | erase p =>
      rw [LevelCall.perform?] at valid
      split_ifs at valid with some
      cases valid
      obtain ⟨later, erased, laterPlaced, laterVacant, -⟩ :=
        placed.erase vacant (mem_iff_ne_none.mpr some)
      exact ⟨later, erased, laterPlaced, laterVacant⟩

/-- The calls before a place of a run strand nothing. -/
theorem NeverStrands.placed (never : NeverStrands side calls)
    (positive : ∀ p h, .insert p h ∈ calls → p ≠ 0) {count : Nat}
    {present : PresentLevels}
    (valid : PresentLevels.run? ∅ (calls.take count) = some present) :
    ∃ ladder, after side (calls.take count) = .ok ladder ∧
      ladder.Placed present ∧ ladder.Vacant := by
  induction count generalizing present with
  | zero =>
      cases valid
      exact ⟨{ side }, rfl, placed_empty side 0, vacant_empty side 0⟩
  | succ count induction =>
      cases here : calls[count]? with
      | none =>
          have short : calls.length ≤ count := List.getElem?_eq_none_iff.mp here
          rw [List.take_of_length_le (Nat.le_succ_of_le short)] at valid ⊢
          rw [← List.take_of_length_le short] at valid ⊢
          exact induction valid
      | some call =>
          obtain ⟨before, reached, performed⟩ :=
            PresentLevels.run?_before here valid
          obtain ⟨ladder, ran, placed, vacant⟩ := induction reached
          have member := List.mem_of_getElem? here
          obtain ⟨later, applied, laterPlaced, laterVacant⟩ :=
            placed.apply vacant performed
              (fun p h same => positive p h (same ▸ member))
              (fun p h same => never count p h ladder (same ▸ here) ran)
          refine ⟨later, ?_, laterPlaced, laterVacant⟩
          rw [after] at ran ⊢
          rw [LevelMap.take_succ_eq here, LevelMap.run_append, ran, ok_bind,
            LevelMap.run_singleton, applied]

/--
The placement invariant holds in every state of a run of valid calls exactly
where no insertion of the run strands a level.
-/
theorem run_keepsPlacement_iff (side : Side) (calls : List LevelCall)
    (valid : ValidCalls calls) :
    (∀ count present,
      PresentLevels.run? ∅ (calls.take count) = some present →
        ∃ ladder, after side (calls.take count) = .ok ladder ∧
          ladder.KeepsPlacement present) ↔ NeverStrands side calls := by
  obtain ⟨accepted, positive⟩ := valid
  constructor
  · intro keeps count p h ladder here ran
    obtain ⟨present, reached⟩ := Option.isSome_iff_exists.mp
      (PresentLevels.isSome_run?_take accepted (count + 1))
    obtain ⟨before, reachedBefore, performed⟩ :=
      PresentLevels.run?_before here reached
    obtain ⟨ladder', ranBefore, kept⟩ := keeps count before reachedBefore
    obtain rfl : ladder = ladder' := Except.ok.inj (ran.symm.trans ranBefore)
    obtain ⟨later, ranLater, keptLater⟩ := keeps (count + 1) present reached
    rw [LevelCall.perform?] at performed
    split_ifs at performed with fresh
    cases performed
    have absent : p ∉ before := fun member =>
      mem_iff_ne_none.mp member fresh.2
    obtain ⟨next, inserted, -, -, -, -, -, placed⟩ :=
      kept.placed.insert kept.vacant absent fresh.1
        (positive p h (List.mem_of_getElem? here))
    rw [after] at ran ranLater
    rw [LevelMap.take_succ_eq here, LevelMap.run_append, ran, ok_bind,
      LevelMap.run_singleton] at ranLater
    obtain rfl : next = later := Except.ok.inj (inserted.symm.trans ranLater)
    exact placed.mp keptLater.placed
  · intro never count present reached
    obtain ⟨ladder, ran, placed, vacant⟩ := never.placed positive reached
    exact ⟨ladder, ran, placed.keepsPlacement vacant⟩

theorem run_keepsPlacement_iff_cents :
    (∀ count present,
      PresentLevels.run? ∅
          ([.insert 1000000 ⟨1⟩, .insert 1000050 ⟨2⟩,
            .erase 1000000].take count) = some present →
        ∃ ladder, after .buy
            ([.insert 1000000 ⟨1⟩, .insert 1000050 ⟨2⟩,
              .erase 1000000].take count) = .ok ladder ∧
          ladder.KeepsPlacement present) ↔
      NeverStrands .buy
        [.insert 1000000 ⟨1⟩, .insert 1000050 ⟨2⟩, .erase 1000000] :=
  run_keepsPlacement_iff .buy _ ⟨by decide +kernel, by
    intro p h member
    simp only [List.mem_cons, List.not_mem_nil, LevelCall.insert.injEq,
      or_false, reduceCtorEq] at member
    rcases member with ⟨rfl, -⟩ | ⟨rfl, -⟩ <;> decide⟩

/-! ## A stranded level -/

/-- An offer of fifty dollars, and then a stub quote of one cent. -/
def stubAfterOffer : List LevelCall := [.insert 500000 ⟨5⟩, .insert 100 ⟨7⟩]

/--
The window moves from the offer to the stub quote and begins below tick zero.
The stub quote stays in the overflow map, `find` misses it and the self-check
fails.
-/
theorem stubAfterOffer_stranded :
    PresentLevels.run? ∅ stubAfterOffer =
        some (((∅ : PresentLevels).insert 500000 ⟨5⟩).insert 100 ⟨7⟩) ∧
      (after .sell stubAfterOffer >>= fun ladder => ladder.find 100) =
        .ok Handle.null ∧
      (after .sell stubAfterOffer >>= fun ladder => ladder.validate) =
        .error (.assertion
          "a price inside the window is in the overflow map") ∧
      ¬ ∃ ladder, after .sell stubAfterOffer = .ok ladder ∧
        ladder.KeepsPlacement
          (((∅ : PresentLevels).insert 500000 ⟨5⟩).insert 100 ⟨7⟩) := by
  have missed : (after .sell stubAfterOffer >>= fun ladder =>
      ladder.find 100) = .ok Handle.null := by decide +kernel
  refine ⟨by decide +kernel, missed, by decide +kernel, ?_⟩
  rintro ⟨ladder, ran, kept⟩
  rw [ran, ok_bind, kept.find] at missed
  simp at missed
  cases missed

end Runs

end ItchExchange.Book.PriceLadder
