import Mathlib.Data.List.Basic
import Mathlib.Tactic.SplitIfs

/-!
# Grouping in an ordered map

Items are pushed back into the list which an ordered map holds under their key.
The map then holds every key of the items, in its order, with the items of that
key as they came.
-/

namespace Grouping

open Std (ExtTreeMap TransCmp LawfulEqCmp)

variable {κ α : Type} {cmp : κ → κ → Ordering}

/-- The items with a key, as they came. -/
def withKey [DecidableEq κ] (key : κ) (items : List (κ × α)) : List α :=
  (items.filter fun item => decide (item.1 = key)).map Prod.snd

section Map

variable [TransCmp cmp]

/-- `groups[key].push_back(item)`. -/
def pushBack (groups : ExtTreeMap κ (List α) cmp) (item : κ × α) :
    ExtTreeMap κ (List α) cmp :=
  groups.insert item.1 (groups[item.1]?.getD [] ++ [item.2])

/-- The items under their keys. -/
def group (items : List (κ × α)) : ExtTreeMap κ (List α) cmp :=
  items.foldl pushBack ∅

variable [LawfulEqCmp cmp] [DecidableEq κ]
  (groups : ExtTreeMap κ (List α) cmp) (items : List (κ × α))

theorem getElem?_pushBack (item : κ × α) (key : κ) :
    (pushBack groups item)[key]? =
      if item.1 = key then some (groups[key]?.getD [] ++ [item.2])
      else groups[key]? := by
  rw [pushBack, ExtTreeMap.getElem?_insert]
  by_cases same : item.1 = key
  · rw [if_pos (LawfulEqCmp.compare_eq_iff_eq.mpr same), if_pos same, same]
  · rw [if_neg (mt LawfulEqCmp.compare_eq_iff_eq.mp same), if_neg same]

/-- What a key holds after the items are pushed back. -/
theorem getD_foldl_pushBack (key : κ) :
    (items.foldl pushBack groups)[key]?.getD [] =
      groups[key]?.getD [] ++ withKey key items := by
  induction items generalizing groups with
  | nil => exact (List.append_nil _).symm
  | cons item rest induction =>
      rw [List.foldl_cons, induction, getElem?_pushBack, withKey, withKey,
        List.filter_cons]
      by_cases same : item.1 = key
      · rw [if_pos same, if_pos (decide_eq_true same), Option.getD_some,
          List.map_cons, List.append_assoc, List.singleton_append]
      · rw [if_neg same, if_neg (by simpa using same)]

theorem isSome_foldl_pushBack (key : κ) :
    ((items.foldl pushBack groups)[key]?).isSome = true ↔
      (groups[key]?).isSome = true ∨ key ∈ items.map Prod.fst := by
  induction items generalizing groups with
  | nil => simp
  | cons item rest induction =>
      rw [List.foldl_cons, induction, getElem?_pushBack, List.map_cons,
        List.mem_cons]
      by_cases same : item.1 = key
      · simp [same]
      · simp [same, Ne.symm same]

/-- A key of the items holds its items, and no other key holds any. -/
theorem getElem?_group (key : κ) :
    (group items : ExtTreeMap κ (List α) cmp)[key]? =
      if key ∈ items.map Prod.fst then some (withKey key items) else none := by
  have held := getD_foldl_pushBack (∅ : ExtTreeMap κ (List α) cmp) items key
  have some_iff :=
    isSome_foldl_pushBack (∅ : ExtTreeMap κ (List α) cmp) items key
  rw [ExtTreeMap.getElem?_empty, Option.getD_none, List.nil_append] at held
  rw [ExtTreeMap.getElem?_empty, Option.isSome_none, Bool.false_eq_true,
    false_or] at some_iff
  unfold group
  cases found : (items.foldl pushBack ∅ : ExtTreeMap κ (List α) cmp)[key]? with
  | none =>
      rw [found] at some_iff
      rw [if_neg fun member => by simpa using some_iff.mpr member]
  | some list =>
      rw [found] at held some_iff
      rw [if_pos (some_iff.mp rfl)]
      exact congrArg some held

theorem mem_keys_group (key : κ) :
    key ∈ (group items : ExtTreeMap κ (List α) cmp).toList.map Prod.fst ↔
      key ∈ items.map Prod.fst := by
  rw [List.mem_map]
  constructor
  · rintro ⟨⟨other, list⟩, member, rfl⟩
    rw [ExtTreeMap.mem_toList_iff_getElem?_eq_some, getElem?_group] at member
    split_ifs at member with present
    exact present
  · intro present
    refine ⟨(key, withKey key items), ?_, rfl⟩
    rw [ExtTreeMap.mem_toList_iff_getElem?_eq_some, getElem?_group,
      if_pos present]

/-- The map is walked in the order of its keys, each with its items. -/
theorem toList_group :
    (group items : ExtTreeMap κ (List α) cmp).toList =
      ((group items : ExtTreeMap κ (List α) cmp).toList.map Prod.fst).map
        fun key => (key, withKey key items) := by
  rw [List.map_map]
  refine (List.map_id _).symm.trans
    (List.map_congr_left fun pair member => ?_)
  obtain ⟨key, list⟩ := pair
  rw [ExtTreeMap.mem_toList_iff_getElem?_eq_some, getElem?_group] at member
  split_ifs at member with present
  exact congrArg (Prod.mk key) (Option.some.inj member).symm

end Map

end Grouping
