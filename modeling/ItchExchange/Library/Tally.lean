import Mathlib.Algebra.BigOperators.Group.List.Basic
import Mathlib.Data.List.DropRight
import Mathlib.Data.UInt

/-!
# Tallies

A machine which takes items one after another keeps counters of 64 bits.  Where
every step adds a number to a counter, a run adds the sum of these numbers, and
where some of the steps add one, it adds the number of those.  The steps may
rely on a condition which they keep.
-/

namespace Tally

variable {σ ι : Type} {step : σ → ι → σ}

/-- A condition which every step keeps, and a state which meets it. -/
structure Kept (step : σ → ι → σ) (holds : σ → Prop) (state : σ) : Prop where
  begins : holds state
  keeps : ∀ {state}, holds state → ∀ item, holds (step state item)

variable {holds : σ → Prop} {state : σ}

theorem Kept.trivial : Kept step (fun _ => True) state :=
  ⟨True.intro, fun _ _ => True.intro⟩

theorem Kept.next (kept : Kept step holds state) (item : ι) :
    Kept step holds (step state item) :=
  ⟨kept.keeps kept.begins item, kept.keeps⟩

theorem Kept.ends (kept : Kept step holds state) (items : List ι) :
    holds (items.foldl step state) := by
  induction items generalizing state with
  | nil => exact kept.begins
  | cons item rest induction => exact induction (kept.next item)

/-- What a run adds to a counter is the sum of what its steps add. -/
theorem foldl_add (counter : σ → UInt64) (weight : ι → Nat)
    (kept : Kept step holds state)
    (each : ∀ {state}, holds state → ∀ item, counter (step state item) =
      counter state + UInt64.ofNat (weight item)) (items : List ι) :
    counter (items.foldl step state) =
      counter state + UInt64.ofNat (items.map weight).sum := by
  induction items generalizing state with
  | nil => exact (UInt64.add_zero _).symm
  | cons item rest induction =>
      rw [List.foldl_cons, induction (kept.next item), each kept.begins,
        List.map_cons, List.sum_cons, UInt64.ofNat_add, UInt64.add_assoc]

/-- The items which are counted, as a sum. -/
theorem sum_map_ite (counted : ι → Prop) [DecidablePred counted]
    (items : List ι) :
    (items.map fun item => if counted item then 1 else 0).sum =
      items.countP fun item => decide (counted item) := by
  induction items with
  | nil => rfl
  | cons item rest induction =>
      rw [List.map_cons, List.sum_cons, induction, List.countP_cons,
        Nat.add_comm]
      simp only [decide_eq_true_eq]

/-- A counter of the steps with a property. -/
theorem foldl_count (counter : σ → UInt64) (counted : ι → Prop)
    [DecidablePred counted] (kept : Kept step holds state)
    (each : ∀ {state}, holds state → ∀ item, counter (step state item) =
      if counted item then counter state + 1 else counter state)
    (items : List ι) :
    counter (items.foldl step state) = counter state +
      UInt64.ofNat (items.countP fun item => decide (counted item)) := by
  rw [← sum_map_ite]
  refine foldl_add counter _ kept (fun held item => ?_) items
  rw [each held]
  split_ifs
  · rfl
  · exact (UInt64.add_zero _).symm

theorem foldl_sum (weights : List Nat) :
    weights.foldl (fun sum weight => sum + UInt64.ofNat weight) (0 : UInt64) =
      UInt64.ofNat weights.sum := by
  have always : Kept (fun sum weight => sum + UInt64.ofNat weight)
      (fun _ => True) 0 := Kept.trivial
  simpa using foldl_add id id always (fun _ _ => rfl) weights

theorem foldl_length (items : List ι) :
    items.foldl (fun count _ => count + 1) (0 : UInt64) =
      UInt64.ofNat items.length := by
  have always : Kept (fun (count : UInt64) (_ : ι) => count + 1)
      (fun _ => True) 0 := Kept.trivial
  simpa using foldl_add id (fun _ => 1) always (fun _ _ => rfl) items

theorem foldl_countP (counted : ι → Prop) [DecidablePred counted]
    (items : List ι) :
    items.foldl (fun count item => if counted item then count + 1 else count)
        (0 : UInt64) =
      UInt64.ofNat (items.countP fun item => decide (counted item)) :=
  (foldl_count id counted Kept.trivial (fun _ _ => rfl) items).trans
    (UInt64.zero_add _)

/-- The values below a bound are those below the one before, and this one. -/
theorem countP_lt_succ (value : ι → Nat) (bound : Nat) (items : List ι) :
    (items.countP fun item => decide (value item < bound + 1)) =
      (items.countP fun item => decide (value item < bound)) +
        items.countP fun item => decide (value item = bound) := by
  induction items with
  | nil => rfl
  | cons item rest induction =>
      rw [List.countP_cons, List.countP_cons, List.countP_cons, induction]
      simp only [decide_eq_true_eq]
      split_ifs <;> omega

/-- A field into which every step folds what the item tells, if anything. -/
theorem foldl_told {α β : Type} (field : σ → α) (told : ι → Option β)
    (combine : α → β → α) (kept : Kept step holds state)
    (each : ∀ {state}, holds state → ∀ item, field (step state item) =
      (told item).elim (field state) (combine (field state)))
    (items : List ι) :
    field (items.foldl step state) =
      (items.filterMap told).foldl combine (field state) := by
  induction items generalizing state with
  | nil => rfl
  | cons item rest induction =>
      rw [List.foldl_cons, induction (kept.next item), each kept.begins,
        List.filterMap_cons]
      cases told item <;> rfl

theorem foldl_replaced {α : Type} (values : List α) (value : α) :
    values.foldl (fun _ later => later) value =
      values.getLast?.getD value := by
  rcases values.eq_nil_or_concat with rfl | ⟨earlier, last, rfl⟩
  · rfl
  · rw [List.concat_eq_append, List.foldl_append, List.getLast?_concat]
    rfl

/-- A field of which every step keeps what the last item tells. -/
theorem foldl_last {α : Type} (field : σ → α) (told : ι → Option α)
    (kept : Kept step holds state)
    (each : ∀ {state}, holds state → ∀ item, field (step state item) =
      (told item).getD (field state)) (items : List ι) :
    field (items.foldl step state) =
      (items.filterMap told).getLast?.getD (field state) := by
  rw [← foldl_replaced]
  refine foldl_told field told _ kept (fun held item => ?_) items
  rw [each held]
  cases told item <;> rfl

/-! ## Greatest and least values -/

/-- A running maximum which starts below all values. -/
theorem foldl_max {α : Type} [Max α] {low : α} (below : ∀ x, max low x = x)
    (values : List α) : values.foldl max low = values.max?.getD low := by
  cases values with
  | nil => rfl
  | cons first rest => rw [List.foldl_cons, below, List.max?_cons']; rfl

theorem max?_le_iff {values : List Nat} {bound : Nat} :
    values.max?.getD 0 ≤ bound ↔ ∀ value ∈ values, value ≤ bound := by
  cases greatest : values.max? with
  | none =>
      rw [List.max?_eq_none_iff.mp greatest]
      simp
  | some value =>
      obtain ⟨member, above⟩ := List.max?_eq_some_iff.mp greatest
      exact ⟨fun most other isIn => (above other isIn).trans most,
        fun all => all value member⟩

section Sentinel

variable {α : Type} [LE α] [Min α] [DecidableEq α]
  [Std.IsLinearOrder α] [Std.LawfulOrderMin α]

/-- A running minimum for which the lowest value stands for none. -/
def minUnless (unset least value : α) : α :=
  if least = unset then value else min least value

/-- It is the least of the values since this one was last among them. -/
theorem foldl_minUnless {unset : α} (below : ∀ x, min x unset = unset)
    (values : List α) :
    values.foldl (minUnless unset) unset =
      (values.rtakeWhile fun value => decide (value ≠ unset)).min?.getD
        unset := by
  induction values using List.reverseRecOn with
  | nil => rfl
  | append_singleton values value induction =>
      rw [List.foldl_append, List.foldl_cons, List.foldl_nil, induction,
        List.rtakeWhile_concat]
      have set := fun {x} => List.mem_rtakeWhile_imp
        (p := fun value => decide (value ≠ unset)) (l := values) (x := x)
      cases since : values.rtakeWhile fun value => decide (value ≠ unset) with
      | nil =>
          have start : ([] : List α).min?.getD unset = unset := rfl
          rw [start, minUnless, if_pos rfl]
          by_cases same : value = unset <;> simp [same]
      | cons first rest =>
          rw [since] at set
          have least : (first :: rest).min? = some (rest.foldl min first) :=
            List.min?_cons'
          have other : rest.foldl min first ≠ unset :=
            of_decide_eq_true (set (List.min?_mem least))
          rw [least, Option.getD_some, minUnless, if_neg other]
          by_cases same : value = unset
          · rw [same, below, if_neg (by simp)]
            rfl
          · rw [if_pos (decide_eq_true same), List.cons_append,
              List.min?_cons', List.foldl_append]
            rfl

end Sentinel

end Tally
