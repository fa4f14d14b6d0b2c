import Mathlib.Algebra.Order.Ring.Nat
import Mathlib.Data.List.Basic
import Mathlib.Data.List.Sort
import Mathlib.Tactic.SplitIfs

/-!
# Sets of numbers as words of bits

A set of small numbers is a list of machine words, one bit for each number.  A
scan visits the numbers by counting zeros from one end of a word, upwards or
downwards, and clearing each bit it has seen.
-/

namespace ItchExchange.Library.BitWords

variable {n : Nat}

/-! ## One word -/

/-- The positions of the ones of a word, the lowest first. -/
def ones (word : BitVec n) : List Nat :=
  (List.range n).filter fun i => word.getLsbD i

section Ones

variable {word : BitVec n} {i : Nat}

theorem mem_ones : i ∈ ones word ↔ word.getLsbD i = true := by
  rw [ones, List.mem_filter, List.mem_range]
  exact ⟨And.right, fun one => ⟨BitVec.lt_of_getLsbD one, one⟩⟩

theorem ones_pairwise (word : BitVec n) : (ones word).Pairwise (· < ·) :=
  List.pairwise_lt_range.filter _

theorem ones_eq_nil_iff : ones word = [] ↔ word = 0#n := by
  constructor
  · intro none
    refine BitVec.eq_of_getLsbD_eq fun i inside => ?_
    rw [BitVec.getLsbD_zero, ← Bool.not_eq_true, ← mem_ones, none]
    exact List.not_mem_nil
  · rintro rfl
    rw [List.eq_nil_iff_forall_not_mem]
    intro i member
    rw [mem_ones, BitVec.getLsbD_zero] at member
    cases member

theorem length_ones (word : BitVec n) :
    (ones word).length = word.cpop.toNat := by
  have below : ∀ m, ((List.range m).filter fun i => word.getLsbD i).length =
      word.cpopNatRec m 0 := by
    intro m
    induction m with
    | zero => rfl
    | succ m induction =>
        rw [List.range_succ, List.filter_append, List.length_append,
          induction, BitVec.cpopNatRec_succ, BitVec.cpopNatRec_add]
        cases one : word.getLsbD m <;> simp [one]
  rw [BitVec.toNat_cpop]
  exact below n

/-- The position of the highest one, by counting the zeros above it. -/
def highest (word : BitVec n) : Nat := n - 1 - word.clz.toNat

/-- A word without its lowest one. -/
def clearLowest (word : BitVec n) : BitVec n := word &&& (word - 1#n)

/-- A word without its highest one. -/
def clearHighest (word : BitVec n) : BitVec n :=
  word &&& ~~~(1#n <<< highest word)

theorem width_pos (some : word ≠ 0#n) : 0 < n := by
  rcases Nat.eq_zero_or_pos n with rfl | positive
  · exact absurd (BitVec.eq_nil word |>.trans (BitVec.eq_nil 0#0).symm) some
  · exact positive

/-- A number is its lowest one and an even multiple above it. -/
theorem toNat_eq_lowest (some : word ≠ 0#n) :
    ∃ above, word.toNat = 2 ^ word.ctz.toNat * (2 * above + 1) := by
  have low : word.toNat % 2 ^ word.ctz.toNat = 0 := by
    refine Nat.eq_of_testBit_eq fun i => ?_
    rw [Nat.testBit_mod_two_pow, Nat.zero_testBit]
    by_cases below : i < word.ctz.toNat
    · have zero : word.toNat.testBit i = false :=
        BitVec.getLsbD_false_of_lt_ctz below
      rw [zero, Bool.and_false]
    · rw [decide_eq_false below, Bool.false_and]
  have one : word.toNat.testBit word.ctz.toNat = true :=
    BitVec.getLsbD_true_ctz_of_ne_zero some
  obtain ⟨upper, whole⟩ := Nat.dvd_of_mod_eq_zero low
  refine ⟨upper / 2, ?_⟩
  rw [whole, Nat.testBit_two_pow_mul, Nat.sub_self, Nat.testBit_zero] at one
  have odd : upper % 2 = 1 := by simpa using one
  have split := Nat.div_add_mod upper 2
  rw [odd] at split
  rw [whole, split]

theorem getLsbD_clearLowest (some : word ≠ 0#n) (i : Nat) :
    (clearLowest word).getLsbD i =
      (word.getLsbD i && decide (i ≠ word.ctz.toNat)) := by
  have width := width_pos some
  obtain ⟨above, whole⟩ := toNat_eq_lowest some
  set k := word.ctz.toNat with lowest
  have positive : 0 < 2 ^ k := Nat.two_pow_pos k
  have one : (1#n).toNat = 1 := by
    rw [BitVec.toNat_ofNat]
    exact Nat.mod_eq_of_lt (Nat.one_lt_two_pow width.ne')
  have less : (word - 1#n).toNat = 2 ^ k * (2 * above) + (2 ^ k - 1) := by
    have atLeast : 1#n ≤ word := by
      rw [BitVec.le_def, one, whole]
      exact Nat.one_le_iff_ne_zero.mpr (Nat.mul_ne_zero positive.ne'
        (Nat.succ_ne_zero _))
    rw [BitVec.toNat_sub_of_le atLeast, one, whole, Nat.mul_add, Nat.mul_one]
    omega
  have small : 2 ^ k - 1 < 2 ^ k := Nat.sub_lt positive Nat.one_pos
  rw [clearLowest, BitVec.getLsbD_and]
  change (word.toNat.testBit i && (word - 1#n).toNat.testBit i) =
    (word.toNat.testBit i && _)
  rw [less, whole, Nat.testBit_two_pow_mul_add _ small,
    Nat.testBit_two_pow_mul]
  rcases Nat.lt_trichotomy i k with below | rfl | higher
  · simp [Nat.not_le.mpr below]
  · simp
  · obtain ⟨rest, rfl⟩ := Nat.exists_eq_add_of_lt higher
    have beyond : k + rest + 1 - k = rest + 1 := by omega
    rw [if_neg (by omega), beyond, Nat.testBit_succ, Nat.testBit_succ]
    have half : (2 * above + 1) / 2 = 2 * above / 2 := by omega
    have distinct : k + rest + 1 ≠ k := by omega
    rw [half]
    simp [distinct]

theorem ones_eq_lowest_cons (some : word ≠ 0#n) :
    ones word = word.ctz.toNat :: ones (clearLowest word) := by
  have sorted : (word.ctz.toNat :: ones (clearLowest word)).Pairwise
      (· < ·) := by
    refine List.pairwise_cons.mpr ⟨fun i member => ?_, ones_pairwise _⟩
    rw [mem_ones, getLsbD_clearLowest some, Bool.and_eq_true,
      decide_eq_true_eq] at member
    obtain ⟨one, other⟩ := member
    by_contra notAbove
    have zero := BitVec.getLsbD_false_of_lt_ctz
      (lt_of_le_of_ne (Nat.not_lt.mp notAbove) other)
    rw [zero] at one
    cases one
  refine (ones_pairwise word).eq_of_mem_iff sorted fun i => ?_
  rw [List.mem_cons, mem_ones, mem_ones, getLsbD_clearLowest some,
    Bool.and_eq_true, decide_eq_true_eq]
  constructor
  · intro one
    by_cases lowest : i = word.ctz.toNat
    · exact Or.inl lowest
    · exact Or.inr ⟨one, lowest⟩
  · rintro (rfl | ⟨one, -⟩)
    · exact BitVec.getLsbD_true_ctz_of_ne_zero some
    · exact one

theorem getLsbD_highest (some : word ≠ 0#n) :
    word.getLsbD (highest word) = true :=
  BitVec.getLsbD_true_clz_of_ne_zero (width_pos some) some

theorem le_highest (one : word.getLsbD i = true) : i ≤ highest word := by
  by_contra above
  have bound : word.toNat < 2 ^ i :=
    lt_of_lt_of_le BitVec.toNat_lt_two_pow_sub_clz
      (Nat.pow_le_pow_right Nat.two_pos (by
        rw [highest] at above
        omega))
  have zero : word.toNat.testBit i = false := Nat.testBit_lt_two_pow bound
  exact Bool.false_ne_true (zero.symm.trans one)

theorem getLsbD_clearHighest (some : word ≠ 0#n) (i : Nat) :
    (clearHighest word).getLsbD i =
      (word.getLsbD i && decide (i ≠ highest word)) := by
  have width := width_pos some
  rw [clearHighest, BitVec.getLsbD_and, BitVec.getLsbD_not,
    BitVec.getLsbD_shiftLeft, BitVec.getLsbD_one]
  cases one : word.getLsbD i with
  | false => rw [Bool.false_and, Bool.false_and]
  | true =>
      have inside := BitVec.lt_of_getLsbD one
      have notAbove := le_highest one
      by_cases top : i = highest word <;>
        simp [top, inside] <;> omega

theorem ones_eq_append_highest (some : word ≠ 0#n) :
    ones word = ones (clearHighest word) ++ [highest word] := by
  have sorted : (ones (clearHighest word) ++ [highest word]).Pairwise
      (· < ·) := by
    refine List.pairwise_append.mpr ⟨ones_pairwise _,
      List.pairwise_singleton _ _, fun i member top isTop => ?_⟩
    rw [List.mem_singleton.mp isTop]
    rw [mem_ones, getLsbD_clearHighest some, Bool.and_eq_true,
      decide_eq_true_eq] at member
    exact lt_of_le_of_ne (le_highest member.1) member.2
  refine (ones_pairwise word).eq_of_mem_iff sorted fun i => ?_
  rw [List.mem_append, List.mem_singleton, mem_ones, mem_ones,
    getLsbD_clearHighest some, Bool.and_eq_true, decide_eq_true_eq]
  constructor
  · intro one
    by_cases top : i = highest word
    · exact Or.inr top
    · exact Or.inl ⟨one, top⟩
  · rintro (⟨one, -⟩ | rfl)
    · exact one
    · exact getLsbD_highest some

/-- The turns of a loop which visits the ones upwards. -/
def lowFirst? : Nat → BitVec n → Option (List Nat)
  | 0, _ => none
  | turns + 1, word =>
      if word = 0#n then some []
      else (lowFirst? turns (clearLowest word)).map (word.ctz.toNat :: ·)

/-- The turns of a loop which visits the ones downwards. -/
def highFirst? : Nat → BitVec n → Option (List Nat)
  | 0, _ => none
  | turns + 1, word =>
      if word = 0#n then some []
      else (highFirst? turns (clearHighest word)).map (highest word :: ·)

theorem lowFirst?_eq {turns : Nat} (enough : (ones word).length < turns) :
    lowFirst? turns word = some (ones word) := by
  induction turns generalizing word with
  | zero => exact absurd enough (Nat.not_lt_zero _)
  | succ turns induction =>
      rw [lowFirst?]
      split_ifs with zero
      · rw [ones_eq_nil_iff.mpr zero]
      · rw [ones_eq_lowest_cons zero] at enough ⊢
        rw [induction (Nat.lt_of_succ_lt_succ enough)]
        rfl

theorem highFirst?_eq {turns : Nat} (enough : (ones word).length < turns) :
    highFirst? turns word = some (ones word).reverse := by
  induction turns generalizing word with
  | zero => exact absurd enough (Nat.not_lt_zero _)
  | succ turns induction =>
      rw [highFirst?]
      split_ifs with zero
      · rw [ones_eq_nil_iff.mpr zero]
        rfl
      · rw [ones_eq_append_highest zero] at enough ⊢
        rw [List.length_append, List.length_singleton] at enough
        rw [induction (by omega), List.reverse_append]
        rfl

theorem length_ones_le (word : BitVec n) : (ones word).length ≤ n := by
  have bound := List.length_filter_le (fun i => word.getLsbD i)
    (List.range n)
  rw [List.length_range] at bound
  exact bound

end Ones

/-! ## The words of a set -/

def test (words : List (BitVec n)) (s : Nat) : Bool :=
  (words.getD (s / n) 0#n).getLsbD (s % n)

def set (words : List (BitVec n)) (s : Nat) : List (BitVec n) :=
  words.set (s / n) (words.getD (s / n) 0#n ||| 1#n <<< (s % n))

def clear (words : List (BitVec n)) (s : Nat) : List (BitVec n) :=
  words.set (s / n) (words.getD (s / n) 0#n &&& ~~~(1#n <<< (s % n)))

/-- The members of the set, upwards; the numbers of the words start here. -/
def positionsFrom : Nat → List (BitVec n) → List Nat
  | _, [] => []
  | w, word :: rest =>
      (ones word).map (fun i => w * n + i) ++ positionsFrom (w + 1) rest

/-- The members of the set, upwards. -/
def positions (words : List (BitVec n)) : List Nat := positionsFrom 0 words

/-! ## Scans -/

/-- All members, word by word upwards. -/
def scanUpFrom? : Nat → List (BitVec n) → Option (List Nat)
  | _, [] => some []
  | w, word :: rest => do
      let low ← lowFirst? (n + 1) word
      let above ← scanUpFrom? (w + 1) rest
      some (low.map (fun i => w * n + i) ++ above)

/-- All members, word by word downwards. -/
def scanDownFrom? : Nat → List (BitVec n) → Option (List Nat)
  | _, [] => some []
  | w, word :: rest => do
      let above ← scanDownFrom? (w + 1) rest
      let high ← highFirst? (n + 1) word
      some (above ++ high.map fun i => w * n + i)

/-- The lowest member: the lowest one of the first word which has one. -/
def lowestFrom? : Nat → List (BitVec n) → Option Nat
  | _, [] => none
  | w, word :: rest =>
      if word = 0#n then lowestFrom? (w + 1) rest
      else some (w * n + word.ctz.toNat)

/-- The highest member: the highest one of the last word which has one. -/
def highestFrom? : Nat → List (BitVec n) → Option Nat
  | _, [] => none
  | w, word :: rest =>
      match highestFrom? (w + 1) rest with
      | some s => some s
      | none => if word = 0#n then none else some (w * n + highest word)

/-- The number of ones of all words. -/
def count (words : List (BitVec n)) : Nat :=
  (words.map fun word => word.cpop.toNat).sum

section Words

variable {words : List (BitVec n)} {s t : Nat}

theorem scanUpFrom?_eq (w : Nat) (words : List (BitVec n)) :
    scanUpFrom? w words = some (positionsFrom w words) := by
  induction words generalizing w with
  | nil => rfl
  | cons word rest induction =>
      rw [scanUpFrom?, lowFirst?_eq (Nat.lt_succ_of_le (length_ones_le _)),
        induction]
      rfl

theorem scanDownFrom?_eq (w : Nat) (words : List (BitVec n)) :
    scanDownFrom? w words = some (positionsFrom w words).reverse := by
  induction words generalizing w with
  | nil => rfl
  | cons word rest induction =>
      rw [scanDownFrom?, induction,
        highFirst?_eq (Nat.lt_succ_of_le (length_ones_le _)), positionsFrom,
        List.reverse_append, ← List.map_reverse]
      rfl

theorem lowestFrom?_eq (w : Nat) (words : List (BitVec n)) :
    lowestFrom? w words = (positionsFrom w words).head? := by
  induction words generalizing w with
  | nil => rfl
  | cons word rest induction =>
      rw [lowestFrom?, positionsFrom]
      split_ifs with zero
      · rw [ones_eq_nil_iff.mpr zero, induction]
        rfl
      · rw [ones_eq_lowest_cons zero]
        rfl

theorem highestFrom?_eq (w : Nat) (words : List (BitVec n)) :
    highestFrom? w words = (positionsFrom w words).getLast? := by
  induction words generalizing w with
  | nil => rfl
  | cons word rest induction =>
      rw [highestFrom?, positionsFrom, induction, List.getLast?_append]
      cases later : (positionsFrom (w + 1) rest).getLast? with
      | some s => rfl
      | none =>
          rw [Option.none_or]
          dsimp only
          split_ifs with zero
          · rw [ones_eq_nil_iff.mpr zero]
            rfl
          · rw [ones_eq_append_highest zero, List.map_append,
              List.map_singleton, List.getLast?_concat]

theorem count_eq (words : List (BitVec n)) :
    count words = (positions words).length := by
  have from_ : ∀ w, count words = (positionsFrom w words).length := by
    induction words with
    | nil => exact fun w => rfl
    | cons word rest induction =>
        intro w
        rw [positionsFrom, List.length_append, List.length_map,
          length_ones, ← induction (w + 1)]
        rfl
  exact from_ 0

theorem mem_positionsFrom {w : Nat} :
    s ∈ positionsFrom w words ↔
      ∃ v i, s = (w + v) * n + i ∧ i < n ∧
        (words.getD v 0#n).getLsbD i = true := by
  induction words generalizing w with
  | nil =>
      constructor
      · intro member
        cases member
      · rintro ⟨v, i, -, -, one⟩
        rw [List.getD_nil, BitVec.getLsbD_zero] at one
        cases one
  | cons word rest induction =>
      rw [positionsFrom, List.mem_append, List.mem_map, induction]
      constructor
      · rintro (⟨i, member, rfl⟩ | ⟨v, i, rfl, inside, one⟩)
        · have one := mem_ones.mp member
          exact ⟨0, i, rfl, BitVec.lt_of_getLsbD one, one⟩
        · exact ⟨v + 1, i, by rw [Nat.add_assoc, Nat.add_comm 1], inside,
            one⟩
      · rintro ⟨v, i, rfl, inside, one⟩
        cases v with
        | zero => exact Or.inl ⟨i, mem_ones.mpr one, rfl⟩
        | succ v =>
            exact Or.inr ⟨v, i, by rw [Nat.add_assoc, Nat.add_comm 1],
              inside, one⟩

theorem mem_positions : s ∈ positions words ↔ test words s = true := by
  rw [positions, mem_positionsFrom, test]
  constructor
  · rintro ⟨v, i, rfl, inside, one⟩
    have positive : 0 < n := Nat.zero_lt_of_lt inside
    rw [Nat.zero_add, Nat.mul_comm, Nat.mul_add_div positive,
      Nat.div_eq_of_lt inside, Nat.add_zero, Nat.mul_add_mod,
      Nat.mod_eq_of_lt inside]
    exact one
  · intro one
    refine ⟨s / n, s % n, ?_, BitVec.lt_of_getLsbD one, one⟩
    rw [Nat.zero_add, Nat.mul_comm, Nat.div_add_mod]

theorem positionsFrom_bound {w : Nat} (member : s ∈ positionsFrom w words) :
    w * n ≤ s := by
  obtain ⟨v, i, rfl, -, -⟩ := mem_positionsFrom.mp member
  exact (Nat.mul_le_mul_right n (Nat.le_add_right w v)).trans
    (Nat.le_add_right _ _)

theorem positionsFrom_pairwise (w : Nat) (words : List (BitVec n)) :
    (positionsFrom w words).Pairwise (· < ·) := by
  induction words generalizing w with
  | nil => exact List.Pairwise.nil
  | cons word rest induction =>
      refine List.pairwise_append.mpr ⟨?_, induction (w + 1), ?_⟩
      · rw [List.pairwise_map]
        exact (ones_pairwise word).imp fun below =>
          Nat.add_lt_add_left below _
      · intro s member t later
        obtain ⟨i, one, rfl⟩ := List.mem_map.mp member
        have inside := BitVec.lt_of_getLsbD (mem_ones.mp one)
        have above := positionsFrom_bound later
        rw [Nat.add_mul, Nat.one_mul] at above
        omega

theorem positions_pairwise (words : List (BitVec n)) :
    (positions words).Pairwise (· < ·) :=
  positionsFrom_pairwise 0 words

theorem test_replicate (words s : Nat) :
    test (List.replicate words (0#n)) s = false := by
  rw [test, List.getD_eq_getElem?_getD, List.getElem?_replicate]
  split_ifs <;> exact BitVec.getLsbD_zero

/-- What a change of one word says about all members. -/
theorem test_word {word : BitVec n} (inside : s < words.length * n) :
    test (words.set (s / n) word) t =
      if t / n = s / n then word.getLsbD (t % n) else test words t := by
  have positive : 0 < n := by
    rcases Nat.eq_zero_or_pos n with rfl | positive
    · exact absurd inside (Nat.not_lt_zero _)
    · exact positive
  have there : s / n < words.length :=
    (Nat.div_lt_iff_lt_mul positive).mpr inside
  rw [test, List.getD_eq_getElem?_getD, List.getElem?_set]
  by_cases same : s / n = t / n
  · rw [if_pos same, if_pos there, if_pos same.symm]
    rfl
  · rw [if_neg same, if_neg (Ne.symm same), ← List.getD_eq_getElem?_getD]
    rfl

theorem getLsbD_one_shiftLeft {i k : Nat} (inside : i < n) :
    (1#n <<< k).getLsbD i = decide (i = k) := by
  rw [BitVec.getLsbD_shiftLeft, BitVec.getLsbD_one]
  by_cases equal : i = k <;> simp [equal] <;> omega

/-- Within one word, a number is told by its bit. -/
theorem eq_iff_bit (same : t / n = s / n) : t = s ↔ t % n = s % n := by
  constructor
  · rintro rfl
    rfl
  · intro bit
    rw [← Nat.div_add_mod t n, same, bit, Nat.div_add_mod]

theorem mod_lt_width (inside : s < words.length * n) : t % n < n := by
  refine Nat.mod_lt _ (Nat.pos_of_ne_zero ?_)
  rintro rfl
  exact Nat.not_lt_zero _ inside

theorem test_set (inside : s < words.length * n) :
    test (set words s) t = (decide (t = s) || test words t) := by
  rw [set, test_word inside]
  by_cases same : t / n = s / n
  · have bit : decide (t = s) = decide (t % n = s % n) :=
      decide_eq_decide.mpr (eq_iff_bit same)
    rw [if_pos same, BitVec.getLsbD_or,
      getLsbD_one_shiftLeft (mod_lt_width inside), bit, test, same,
      Bool.or_comm]
  · have distinct : t ≠ s := fun equal => same (congrArg (· / n) equal)
    rw [if_neg same, decide_eq_false distinct, Bool.false_or]

theorem test_clear (inside : s < words.length * n) :
    test (clear words s) t = (decide (t ≠ s) && test words t) := by
  rw [clear, test_word inside]
  by_cases same : t / n = s / n
  · have small := mod_lt_width (t := t) inside
    have bit : decide (t ≠ s) = !decide (t % n = s % n) := by
      rw [decide_not, decide_eq_decide.mpr (eq_iff_bit same)]
    rw [if_pos same, BitVec.getLsbD_and, BitVec.getLsbD_not,
      getLsbD_one_shiftLeft small, decide_eq_true small, Bool.true_and, bit,
      test, same, Bool.and_comm]
  · have distinct : t ≠ s := fun equal => same (congrArg (· / n) equal)
    rw [if_neg same, decide_eq_true distinct, Bool.true_and]

end Words

end ItchExchange.Library.BitWords
