import Mathlib.Data.UInt
import Mathlib.Data.List.Sort
import Mathlib.Data.List.Dedup
import Mathlib.Tactic.Ring
import Mathlib.Tactic.Linarith
import Mathlib.Tactic.SplitIfs

/-!
# Scalars, sides and checked computations

The scalar aliases of `core/types.hpp` keep their machine widths, so every
value a field can hold is a value of its type and nothing more.  The two
element arrays indexed by `side_index` become `PerSide`.

Every function of the source which contains an assertion returns a `Checked`
value.  The invariant checks (`ITCH_INVARIANT`) are on, as they are in every
build preset above level zero: a run which passes all of them is also a run of
the release preset, which compiles them out.
-/

namespace ItchExchange.Core

/-- Raw ITCH price: dollars with four implied decimals. -/
abbrev Price := UInt32

/-- Shares. -/
abbrev Qty := UInt32

/-- Order reference number. -/
abbrev OrderRef := UInt64

/-- Participant identifier; zero on the replay path. -/
abbrev Owner := UInt16

/-- Nanoseconds since midnight. -/
abbrev Timestamp := UInt64

inductive Side where
  | buy
  | sell
deriving DecidableEq, Repr

/-- The other side of the book. -/
def opposite : Side → Side
  | .buy => .sell
  | .sell => .buy

@[simp]
theorem opposite_ne (side : Side) : opposite side ≠ side := by
  cases side <;> decide

@[simp]
theorem opposite_opposite (side : Side) :
    opposite (opposite side) = side := by
  cases side <;> rfl

theorem eq_or_eq_opposite (first second : Side) :
    first = second ∨ first = opposite second := by
  cases first <;> cases second <;> simp [opposite]

/-! ## Two element arrays indexed by side -/

/-- An array of two elements indexed by `side_index`. -/
structure PerSide (α : Type) where
  buy : α
  sell : α
deriving DecidableEq, Repr

namespace PerSide

variable {α : Type}

/-- The same value on both sides. -/
def both (value : α) : PerSide α := ⟨value, value⟩

def get (pair : PerSide α) : Side → α
  | .buy => pair.buy
  | .sell => pair.sell

def set (pair : PerSide α) (side : Side) (value : α) : PerSide α :=
  match side with
  | .buy => { pair with buy := value }
  | .sell => { pair with sell := value }

@[simp]
theorem get_both (value : α) (side : Side) :
    (both value).get side = value := by
  cases side <;> rfl

@[simp]
theorem get_set_self (pair : PerSide α) (side : Side) (value : α) :
    (pair.set side value).get side = value := by
  cases side <;> rfl

theorem get_set (pair : PerSide α) (side other : Side) (value : α) :
    (pair.set side value).get other =
      if other = side then value else pair.get other := by
  cases side <;> cases other <;> rfl

@[simp]
theorem get_set_of_ne {pair : PerSide α} {side other : Side} {value : α}
    (distinct : other ≠ side) :
    (pair.set side value).get other = pair.get other := by
  rw [get_set, if_neg distinct]

theorem ext_get {left right : PerSide α}
    (equal : ∀ side, left.get side = right.get side) :
    left = right := by
  cases left
  cases right
  have buy := equal .buy
  have sell := equal .sell
  simp only [get] at buy sell
  rw [buy, sell]

end PerSide

/-! ## The order of a side, from the inside outwards -/

/--
The comparison of a side's price map: `std::greater` for bids and `std::less`
for asks, so that the first key is the inside on both sides.
-/
def inside : Side → Price → Price → Ordering
  | .buy => fun left right => compare right left
  | .sell => fun left right => compare left right

instance inside_transCmp (side : Side) : Std.TransCmp (inside side) := by
  cases side
  · exact inferInstanceAs
      (Std.TransCmp fun left right : Price => compare right left)
  · exact inferInstanceAs
      (Std.TransCmp fun left right : Price => compare left right)

instance inside_lawfulEqCmp (side : Side) :
    Std.LawfulEqCmp (inside side) where
  eq_of_compare := by
    intro left right equal
    cases side
    · have same : compare right left = .eq := equal
      exact (Std.LawfulEqCmp.eq_of_compare same).symm
    · have same : compare left right = .eq := equal
      exact Std.LawfulEqCmp.eq_of_compare same

/-- `first` is strictly closer to the inside of the book than `second`. -/
def Closer (side : Side) (first second : Price) : Prop :=
  match side with
  | .buy => second < first
  | .sell => first < second

instance (side : Side) (first second : Price) :
    Decidable (Closer side first second) := by
  cases side <;> unfold Closer <;> infer_instance

instance decidableCloserToAll (side : Side) (prev : Option Price)
    (price : Price) : Decidable (∀ before ∈ prev, Closer side before price) :=
  Option.decidableForallMem prev

theorem inside_eq_lt_iff {side : Side} {first second : Price} :
    inside side first second = .lt ↔ Closer side first second := by
  cases side <;>
    simp only [inside, Closer, Std.compare_eq_lt]

theorem inside_eq_eq_iff {side : Side} {first second : Price} :
    inside side first second = .eq ↔ first = second :=
  Std.LawfulEqCmp.compare_eq_iff_eq

theorem Closer.irrefl (side : Side) (price : Price) :
    ¬ Closer side price price := by
  cases side <;> simp [Closer]

theorem Closer.trans {side : Side} {first second third : Price}
    (left : Closer side first second) (right : Closer side second third) :
    Closer side first third := by
  cases side <;> simp only [Closer] at * <;> grind

theorem Closer.asymm {side : Side} {first second : Price}
    (closer : Closer side first second) :
    ¬ Closer side second first := by
  cases side <;> simp only [Closer] at * <;> grind

theorem Closer.trichotomy (side : Side) (first second : Price) :
    Closer side first second ∨ first = second ∨
      Closer side second first := by
  cases side <;> simp only [Closer] <;> grind

instance (side : Side) : Std.Irrefl (Closer side) :=
  ⟨Closer.irrefl side⟩

instance (side : Side) : Std.Antisymm (Closer side) :=
  ⟨fun _ _ left right => (left.asymm right).elim⟩

/-! ## Checked computations -/

/-- Why a function of the source does not return. -/
inductive Failure where
  /-- A failed assertion, with its message. -/
  | assertion (message : String)
  /-- A loop of the source which never ends. -/
  | divergence
  /-- A step whose behaviour the language leaves undefined. -/
  | undefined
deriving DecidableEq, Repr

/-- A computation which may stop at an assertion. -/
abbrev Checked := Except Failure

instance decidableEqExcept {ε α : Type} [DecidableEq ε] [DecidableEq α] :
    DecidableEq (Except ε α)
  | .error first, .error second =>
      decidable_of_iff (first = second) ⟨congrArg _, Except.error.inj⟩
  | .ok first, .ok second =>
      decidable_of_iff (first = second) ⟨congrArg _, Except.ok.inj⟩
  | .error _, .ok _ => isFalse nofun
  | .ok _, .error _ => isFalse nofun

/-- `ITCH_ASSERT_MSG` and `ITCH_INVARIANT_MSG`. -/
def assertMsg (condition : Prop) [Decidable condition]
    (message : String) : Checked Unit :=
  if condition then .ok () else .error (.assertion message)

section Checked

variable {α β : Type}

@[simp]
theorem ok_bind (value : α) (next : α → Checked β) :
    (Except.ok value >>= next) = next value :=
  rfl

@[simp]
theorem error_bind (failure : Failure) (next : α → Checked β) :
    ((Except.error failure : Checked α) >>= next) = .error failure :=
  rfl

@[simp]
theorem pure_eq_ok (value : α) : (pure value : Checked α) = .ok value :=
  rfl

/-- A sequence returns exactly when both of its parts do. -/
theorem bind_eq_ok_iff {first : Checked α} {next : α → Checked β}
    {result : β} :
    (first >>= next) = .ok result ↔
      ∃ value, first = .ok value ∧ next value = .ok result := by
  cases first with
  | error failure => simp
  | ok value => simp

/-- A sequence fails in its first part or in its second. -/
theorem bind_eq_error_iff {first : Checked α} {next : α → Checked β}
    {failure : Failure} :
    (first >>= next) = .error failure ↔
      first = .error failure ∨
        ∃ value, first = .ok value ∧ next value = .error failure := by
  cases first with
  | error other => simp
  | ok value => simp

/-- A checked walk whose every step returns. -/
theorem mapM_eq_ok {visited : List α} {body : α → Checked β}
    {result : α → β} (each : ∀ x ∈ visited, body x = .ok (result x)) :
    visited.mapM body = .ok (visited.map result) := by
  induction visited with
  | nil => rfl
  | cons x rest induction =>
      rw [List.mapM_cons, each x List.mem_cons_self, ok_bind,
        induction fun y member => each y (List.mem_cons_of_mem x member)]
      rfl

variable {condition : Prop} [Decidable condition] {message : String}

@[simp]
theorem assertMsg_of (holds : condition) :
    assertMsg condition message = .ok () :=
  if_pos holds

@[simp]
theorem assertMsg_of_not (fails : ¬ condition) :
    assertMsg condition message = .error (.assertion message) :=
  if_neg fails

theorem assertMsg_eq_ok_iff {result : Unit} :
    assertMsg condition message = .ok result ↔ condition := by
  by_cases holds : condition <;> simp [holds]

end Checked

end ItchExchange.Core
