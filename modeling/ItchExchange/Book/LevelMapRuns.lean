import ItchExchange.Book.LevelMap
import Std.Data.ExtTreeMap.Lemmas

/-!
# Runs of level maps

A run of a level map is a sequence of insertions of absent prices and erasures
of present ones.  The levels which are present after it are a finite map.
-/

namespace ItchExchange.Book

open ItchExchange.Core
open Std (ExtTreeMap)

/-- One call which changes a level map. -/
inductive LevelCall where
  | insert (p : Price) (h : LevelHandle)
  | erase (p : Price)

/-- The levels which are present, with their handles. -/
abbrev PresentLevels := ExtTreeMap Price LevelHandle

/-- The levels after a call, or none where the call is not a valid one. -/
def LevelCall.perform? (present : PresentLevels) : LevelCall → Option PresentLevels
  | .insert p h =>
      if h ≠ Handle.null ∧ present[p]? = none then some (present.insert p h)
      else none
  | .erase p =>
      if present[p]? ≠ none then some (present.erase p) else none

/-- The levels after a sequence of valid calls. -/
def PresentLevels.run? (present : PresentLevels) : List LevelCall → Option PresentLevels
  | [] => some present
  | call :: rest =>
      match call.perform? present with
      | none => none
      | some next => PresentLevels.run? next rest

/-- The same levels as a function. -/
def PresentLevels.map (present : PresentLevels) (p : Price) : Option LevelHandle :=
  present[p]?

theorem PresentLevels.map_insert (present : PresentLevels) (p : Price)
    (h : LevelHandle) :
    PresentLevels.map (present.insert p h) =
      Function.update (PresentLevels.map present) p (some h) := by
  funext other
  rw [PresentLevels.map, ExtTreeMap.getElem?_insert, Function.update_apply]
  by_cases same : other = p
  · subst same
    rw [if_pos Std.ReflCmp.compare_self, if_pos rfl]
  · have different : ¬ compare p other = .eq := fun equal =>
      same (Std.LawfulEqCmp.compare_eq_iff_eq.mp equal).symm
    rw [if_neg different, if_neg same]
    rfl

theorem PresentLevels.map_erase (present : PresentLevels) (p : Price) :
    PresentLevels.map (present.erase p) =
      Function.update (PresentLevels.map present) p none := by
  funext other
  rw [PresentLevels.map, ExtTreeMap.getElem?_erase, Function.update_apply]
  by_cases same : other = p
  · subst same
    rw [if_pos Std.ReflCmp.compare_self, if_pos rfl]
  · have different : ¬ compare p other = .eq := fun equal =>
      same (Std.LawfulEqCmp.compare_eq_iff_eq.mp equal).symm
    rw [if_neg different, if_neg same]
    rfl

theorem PresentLevels.size_insert {present : PresentLevels} {p : Price}
    {h : LevelHandle} (absent : present[p]? = none) :
    (present.insert p h).size = present.size + 1 := by
  rw [ExtTreeMap.size_insert, ExtTreeMap.contains_eq_isSome_getElem?,
    absent]
  rfl

theorem PresentLevels.size_erase {present : PresentLevels} {p : Price}
    (some : present[p]? ≠ none) :
    (present.erase p).size + 1 = present.size := by
  have member : present.contains p = true := by
    rw [ExtTreeMap.contains_eq_isSome_getElem?]
    exact Option.isSome_iff_ne_none.mpr some
  have positive : present.size ≠ 0 := by
    intro zero
    rw [← ExtTreeMap.eq_empty_iff_size_eq_zero] at zero
    subst zero
    exact some ExtTreeMap.getElem?_empty
  rw [ExtTreeMap.size_erase, if_pos member]
  exact Nat.succ_pred_eq_of_ne_zero positive

theorem PresentLevels.nodup_toList (present : PresentLevels) :
    present.toList.Nodup := by
  refine (ExtTreeMap.distinct_keys_toList (t := present)).imp ?_
  rintro entry other different rfl
  exact different Std.ReflCmp.compare_self

/-- Without a price of zero, some 32 bit price is absent. -/
theorem PresentLevels.size_lt {present : PresentLevels}
    (notZero : present[(0 : Price)]? = none) : present.size < 2 ^ 32 := by
  have distinct : (present.toList.map fun level => level.1.toNat).Nodup := by
    refine List.nodup_iff_pairwise_ne.mpr (List.pairwise_map.mpr
      ((ExtTreeMap.distinct_keys_toList (t := present)).imp ?_))
    intro first second different same
    exact different
      (Std.LawfulEqCmp.compare_eq_iff_eq.mpr (UInt32.toNat_inj.mp same))
  have within : present.toList.map (fun level => level.1.toNat) ⊆
      List.range' 1 (2 ^ 32 - 1) := by
    intro value member
    obtain ⟨⟨p, h⟩, here, rfl⟩ := List.mem_map.mp member
    rw [ExtTreeMap.mem_toList_iff_getElem?_eq_some] at here
    have positive : p.toNat ≠ 0 := by
      intro zero
      rw [show p = 0 from UInt32.toNat_inj.mp zero, notZero] at here
      cases here
    have bound := p.toNat_lt
    rw [List.mem_range'_1]
    change 1 ≤ p.toNat ∧ p.toNat < 1 + (2 ^ 32 - 1)
    omega
  have count := (distinct.subperm within).length_le
  rw [List.length_map, ExtTreeMap.length_toList, List.length_range'] at count
  omega

/-- A valid call brings at most one level. -/
theorem LevelCall.size_perform?_le {present next : PresentLevels}
    {call : LevelCall} (valid : call.perform? present = some next) :
    next.size ≤ present.size + 1 := by
  cases call with
  | insert p h =>
      rw [LevelCall.perform?] at valid
      split_ifs at valid with fresh
      cases valid
      exact (PresentLevels.size_insert fresh.2).le
  | erase p =>
      rw [LevelCall.perform?] at valid
      split_ifs at valid with some
      cases valid
      have count := PresentLevels.size_erase some
      omega

theorem PresentLevels.run?_cons {present final : PresentLevels}
    {call : LevelCall} {rest : List LevelCall}
    (valid : present.run? (call :: rest) = some final) :
    ∃ next, call.perform? present = some next ∧
      PresentLevels.run? next rest = some final := by
  rw [PresentLevels.run?] at valid
  cases performed : call.perform? present with
  | none =>
      rw [performed] at valid
      cases valid
  | some next =>
      rw [performed] at valid
      exact ⟨next, rfl, valid⟩

theorem PresentLevels.run?_append (present : PresentLevels)
    (calls more : List LevelCall) :
    present.run? (calls ++ more) =
      (present.run? calls).bind fun next => PresentLevels.run? next more := by
  induction calls generalizing present with
  | nil => rfl
  | cons call rest induction =>
      rw [List.cons_append, PresentLevels.run?, PresentLevels.run?]
      cases call.perform? present with
      | none => rfl
      | some next => exact induction next

theorem PresentLevels.size_run?_le {present final : PresentLevels}
    {calls : List LevelCall} (valid : present.run? calls = some final) :
    final.size ≤ present.size + calls.length := by
  induction calls generalizing present with
  | nil =>
      cases valid
      exact Nat.le_refl _
  | cons call rest induction =>
      obtain ⟨next, performed, validRest⟩ := run?_cons valid
      have first := LevelCall.size_perform?_le performed
      have later := induction validRest
      rw [List.length_cons]
      omega

/-- The calls up to one of them, and that one. -/
theorem LevelMap.take_succ_eq {calls : List LevelCall} {call : LevelCall}
    {count : Nat}
    (here : calls[count]? = some call) :
    calls.take (count + 1) = calls.take count ++ [call] := by
  rw [List.take_add_one, here]
  rfl

/-- The levels before a valid call. -/
theorem PresentLevels.run?_before {calls : List LevelCall} {call : LevelCall}
    {count : Nat} {present : PresentLevels} (here : calls[count]? = some call)
    (valid : PresentLevels.run? ∅ (calls.take (count + 1)) = some present) :
    ∃ before, PresentLevels.run? ∅ (calls.take count) = some before ∧
      call.perform? before = some present := by
  rw [LevelMap.take_succ_eq here, PresentLevels.run?_append] at valid
  obtain ⟨before, reached, last⟩ := Option.bind_eq_some_iff.mp valid
  obtain ⟨next, performed, ended⟩ := PresentLevels.run?_cons last
  cases ended
  exact ⟨before, reached, performed⟩

theorem PresentLevels.isSome_run?_take {present : PresentLevels}
    {calls : List LevelCall} (accepted : (present.run? calls).isSome = true)
    (count : Nat) : (present.run? (calls.take count)).isSome = true := by
  rw [← List.take_append_drop count calls, PresentLevels.run?_append]
    at accepted
  cases first : present.run? (calls.take count) with
  | none =>
      rw [first] at accepted
      cases accepted
  | some next => rfl

namespace LevelMap

variable {M : Type} [LevelMap M]

def apply (levels : M) : LevelCall → Checked M
  | .insert p h => LevelMap.insert levels p h
  | .erase p => LevelMap.erase levels p

/-- Calls one after another, up to the first assertion. -/
def run (levels : M) : List LevelCall → Checked M
  | [] => .ok levels
  | call :: rest => do
      let levels ← apply levels call
      run levels rest

theorem run_append (levels : M)
    (calls more : List LevelCall) :
    run levels (calls ++ more) =
      run levels calls >>= fun later =>
        run later more := by
  induction calls generalizing levels with
  | nil => rfl
  | cons call rest induction =>
      rw [List.cons_append, run, run]
      cases apply levels call with
      | error failure => rfl
      | ok next => exact induction next

theorem run_singleton (levels : M)
    (call : LevelCall) :
    run levels [call] = apply levels call := by
  rw [run]
  cases apply levels call with
  | error failure => rfl
  | ok next => rfl

end LevelMap

end ItchExchange.Book
