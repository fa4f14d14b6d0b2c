import Mathlib.Data.Fintype.EquivFin
import Mathlib.Data.UInt

/-!
# Hashing

The finaliser of splitmix64 and the journal digest, from `core/hash.hpp`.  Every
step of the finaliser can be undone, so it is a bijection, and a digest never
forgets what it was fed: two sequences which differ at one position have
different digests.
-/

namespace ItchExchange.Core

def mix64 (z : UInt64) : UInt64 :=
  let z := z + 0x9e3779b97f4a7c15
  let z := (z ^^^ (z >>> 30)) * 0xbf58476d1ce4e5b9
  let z := (z ^^^ (z >>> 27)) * 0x94d049bb133111eb
  z ^^^ (z >>> 31)

/-! ## The steps of the finaliser -/

theorem add_injective (constant : UInt64) :
    Function.Injective fun z : UInt64 => z + constant := by
  intro first second equal
  exact (UInt64.add_left_inj constant).mp equal

/-- A factor with an inverse can be divided out. -/
theorem mul_injective (factor inverse : UInt64)
    (inverts : factor * inverse = 1) :
    Function.Injective fun z : UInt64 => z * factor := by
  intro first second equal
  have undone : ∀ z : UInt64, z * factor * inverse = z := by
    intro z
    rw [UInt64.mul_assoc, inverts, UInt64.mul_one]
  rw [← undone first, ← undone second]
  exact congrArg (· * inverse) equal

/-- A number which is its own shift is zero. -/
theorem eq_zero_of_shiftRight {value shift : Nat} (positive : 0 < shift)
    (equal : value = value >>> shift) : value = 0 := by
  rw [Nat.shiftRight_eq_div_pow] at equal
  by_contra nonzero
  have smaller : value / 2 ^ shift < value :=
    Nat.div_lt_self (Nat.pos_of_ne_zero nonzero)
      (Nat.one_lt_two_pow (by omega))
  omega

/-- A word is known from its sum with its own shift, bit by bit from the top. -/
theorem xorShift_injective (shift : UInt64)
    (positive : 0 < shift.toNat % 64) :
    Function.Injective fun z : UInt64 => z ^^^ (z >>> shift) := by
  intro first second equal
  dsimp only at equal
  have cancelled :
      (first ^^^ second) ^^^ ((first >>> shift) ^^^ (second >>> shift)) = 0 := by
    rw [← UInt64.xor_eq_zero_iff.mpr equal]
    ac_rfl
  have difference : first ^^^ second = (first ^^^ second) >>> shift := by
    rw [UInt64.shiftRight_xor]
    exact UInt64.xor_eq_zero_iff.mp cancelled
  have naturals := congrArg UInt64.toNat difference
  rw [UInt64.toNat_shiftRight] at naturals
  have zero := eq_zero_of_shiftRight positive naturals
  exact UInt64.xor_eq_zero_iff.mp (UInt64.toNat_inj.mp zero)

theorem mix64_injective : Function.Injective mix64 := by
  have first := add_injective 0x9e3779b97f4a7c15
  have second := xorShift_injective 30 (by decide)
  have third := mul_injective
    0xbf58476d1ce4e5b9 0x96de1b173f119089 (by decide)
  have fourth := xorShift_injective 27 (by decide)
  have fifth := mul_injective
    0x94d049bb133111eb 0x319642b2d24d8ec3 (by decide)
  have sixth := xorShift_injective 31 (by decide)
  exact sixth.comp (fifth.comp (fourth.comp (third.comp (second.comp first))))

instance finiteUInt64 : Finite UInt64 :=
  Finite.of_injective UInt64.toFin fun _ _ => UInt64.toFin_inj.mp

theorem mix64_bijective : Function.Bijective mix64 :=
  Finite.injective_iff_bijective.mp mix64_injective

/-! ## The digest -/

structure Digest where
  h : UInt64 := 0x243f6a8885a308d3
deriving DecidableEq, Repr

namespace Digest

def feed (digest : Digest) (x : UInt64) : Digest :=
  ⟨mix64 (digest.h ^^^ mix64 x)⟩

/-- Feed a sequence of values, one after the other. -/
def feedAll (digest : Digest) (values : List UInt64) : Digest :=
  values.foldl feed digest

def value (digest : Digest) : UInt64 := digest.h

@[simp]
theorem feedAll_nil (digest : Digest) : digest.feedAll [] = digest := rfl

@[simp]
theorem feedAll_cons (digest : Digest) (x : UInt64) (rest : List UInt64) :
    digest.feedAll (x :: rest) = (digest.feed x).feedAll rest :=
  rfl

theorem feedAll_append (digest : Digest) (first second : List UInt64) :
    digest.feedAll (first ++ second) =
      (digest.feedAll first).feedAll second :=
  List.foldl_append

theorem value_inj {first second : Digest} :
    first.value = second.value ↔ first = second := by
  cases first
  cases second
  rw [mk.injEq]
  rfl

/-- What is fed is known from the digest before and after. -/
theorem feed_injective (digest : Digest) :
    Function.Injective digest.feed := by
  intro first second equal
  have mixed := mix64_injective (mk.inj equal)
  exact mix64_injective (UInt64.xor_right_inj digest.h |>.mp mixed)

/-- The digest before is known from what is fed and the digest after. -/
theorem feed_left_injective (x : UInt64) :
    Function.Injective fun digest : Digest => digest.feed x := by
  intro first second equal
  have mixed := mix64_injective (mk.inj equal)
  exact value_inj.mp (UInt64.xor_left_inj (mix64 x) |>.mp mixed)

/-- A difference survives every later feed. -/
theorem feedAll_injective (values : List UInt64) :
    Function.Injective fun digest : Digest => digest.feedAll values := by
  induction values with
  | nil => exact fun _ _ equal => equal
  | cons x rest induction =>
      intro first second equal
      exact feed_left_injective x (induction equal)

/--
A single changed field changes the digest: the finaliser is a bijection, a feed
is injective in the value and in the running hash, and so two sequences of one
length which differ at exactly one position have different digests.
-/
theorem digest_detectsOneChange :
    Function.Bijective mix64 ∧
      (∀ digest, Function.Injective (feed digest)) ∧
      (∀ x, Function.Injective fun digest => feed digest x) ∧
      ∀ (first second : List UInt64) (position : Nat),
        first.length = second.length → position < first.length →
          first[position]? ≠ second[position]? →
          (∀ other, other ≠ position → first[other]? = second[other]?) →
            (feedAll {} first).value ≠ (feedAll {} second).value := by
  refine ⟨mix64_bijective, feed_injective, feed_left_injective, ?_⟩
  intro first second position length inside differ same equal
  have before : first.take position = second.take position := by
    apply List.ext_getElem?
    intro other
    rw [List.getElem?_take, List.getElem?_take]
    split_ifs with earlier
    · exact same other earlier.ne
    · rfl
  have behind : first.drop (position + 1) = second.drop (position + 1) := by
    apply List.ext_getElem?
    intro other
    rw [List.getElem?_drop, List.getElem?_drop]
    exact same _ (by omega)
  have split : ∀ values : List UInt64, (here : position < values.length) →
      values = values.take position ++
        values[position] :: values.drop (position + 1) := by
    intro values here
    rw [List.getElem_cons_drop, List.take_append_drop]
  have secondInside : position < second.length := length ▸ inside
  rw [split first inside, split second secondInside, before, behind,
    feedAll_append, feedAll_append, feedAll_cons, feedAll_cons,
    value_inj] at equal
  have fed := feed_injective _ (feedAll_injective _ equal)
  rw [List.getElem?_eq_getElem inside,
    List.getElem?_eq_getElem secondInside, fed] at differ
  exact differ rfl

theorem digest_detectsOneChange_middle :
    (feedAll {} [1, 2, 3]).value ≠ (feedAll {} [1, 5, 3]).value :=
  digest_detectsOneChange.2.2.2 [1, 2, 3] [1, 5, 3] 1 rfl (by decide)
    (by decide) (by
      intro other different
      match other with
      | 0 => rfl
      | 1 => exact absurd rfl different
      | other + 2 => rfl)

end Digest

end ItchExchange.Core
