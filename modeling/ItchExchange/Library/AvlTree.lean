import Mathlib.Data.Nat.Fib.Basic
import Mathlib.Data.List.Sort
import Mathlib.Order.Basic
import Mathlib.Tactic.SplitIfs
import Mathlib.Tactic.Linarith

/-!
# Height balanced search trees

A search tree whose nodes stay at places, so that it can be spelt by links
between the elements of an array.  Rotations keep the places and the entries in
order.  An insertion takes one new place, and an erasure gives one back.
-/

namespace ItchExchange.Library

/-- A binary tree whose nodes have a place, a key and a value. -/
inductive AvlTree (ι κ α : Type) where
  | nil
  | node (place : ι) (left : AvlTree ι κ α) (key : κ) (value : α)
      (right : AvlTree ι κ α)

namespace AvlTree

variable {ι κ α : Type}

def height : AvlTree ι κ α → Nat
  | nil => 0
  | node _ left _ _ right => 1 + max left.height right.height

/-- The entries in order. -/
def entries : AvlTree ι κ α → List (κ × α)
  | nil => []
  | node _ left key value right =>
      left.entries ++ (key, value) :: right.entries

/-- The places in order. -/
def places : AvlTree ι κ α → List ι
  | nil => []
  | node place left _ _ right => left.places ++ place :: right.places

/-- The heights of the children of a node differ by at most one. -/
def Balanced : AvlTree ι κ α → Prop
  | nil => True
  | node _ left _ _ right =>
      left.Balanced ∧ right.Balanced ∧
        left.height ≤ right.height + 1 ∧ right.height ≤ left.height + 1

/-- How much higher the left child is. -/
def tilt : AvlTree ι κ α → Int
  | nil => 0
  | node _ left _ _ right => (left.height : Int) - right.height

theorem length_places (tree : AvlTree ι κ α) :
    tree.places.length = tree.entries.length := by
  induction tree with
  | nil => rfl
  | node place left key value right leftIH rightIH =>
      simp only [places, entries, List.length_append, List.length_cons,
        leftIH, rightIH]

theorem height_le_length (tree : AvlTree ι κ α) :
    tree.height ≤ tree.entries.length := by
  induction tree with
  | nil => exact le_refl _
  | node place left key value right leftIH rightIH =>
      rw [height, entries, List.length_append, List.length_cons]
      omega

/-- A balanced tree of some height has at least as many nodes as Fibonacci's. -/
theorem fib_height_le {tree : AvlTree ι κ α} (balanced : tree.Balanced) :
    Nat.fib (tree.height + 2) ≤ tree.entries.length + 1 := by
  induction tree with
  | nil => simp [height, entries]
  | node place left key value right leftIH rightIH =>
      obtain ⟨leftBalanced, rightBalanced, leftLow, rightLow⟩ := balanced
      have leftBound := leftIH leftBalanced
      have rightBound := rightIH rightBalanced
      have step := Nat.fib_add_two (n := max left.height right.height + 1)
      have shape : height (node place left key value right) + 2 =
          max left.height right.height + 1 + 2 := by
        rw [height]
        omega
      rw [shape, step, entries, List.length_append, List.length_cons]
      rcases Nat.le_total left.height right.height with taller | taller
      · have same : right.height + 1 + 1 = right.height + 2 := rfl
        rw [Nat.max_eq_right taller, same]
        have smaller := Nat.fib_mono
          (show right.height + 1 ≤ left.height + 2 by omega)
        omega
      · have same : left.height + 1 + 1 = left.height + 2 := rfl
        rw [Nat.max_eq_left taller, same]
        have smaller := Nat.fib_mono
          (show left.height + 1 ≤ right.height + 2 by omega)
        omega

/-! ## Rotations -/

def rotateRight : AvlTree ι κ α → AvlTree ι κ α
  | node y (node x left xKey xValue middle) yKey yValue right =>
      node x left xKey xValue (node y middle yKey yValue right)
  | tree => tree

def rotateLeft : AvlTree ι κ α → AvlTree ι κ α
  | node x left xKey xValue (node y middle yKey yValue right) =>
      node y (node x left xKey xValue middle) yKey yValue right
  | tree => tree

/-- A node over two children, rotated where one of them is too high. -/
def rebalance (place : ι) (left : AvlTree ι κ α) (key : κ) (value : α)
    (right : AvlTree ι κ α) : AvlTree ι κ α :=
  if (left.height : Int) - right.height > 1 then
    rotateRight
      (node place (if left.tilt < 0 then left.rotateLeft else left)
        key value right)
  else if (left.height : Int) - right.height < -1 then
    rotateLeft
      (node place left key value
        (if right.tilt > 0 then right.rotateRight else right))
  else node place left key value right

@[simp]
theorem entries_rotateRight (tree : AvlTree ι κ α) :
    tree.rotateRight.entries = tree.entries := by
  unfold rotateRight
  split <;> simp [entries]

@[simp]
theorem entries_rotateLeft (tree : AvlTree ι κ α) :
    tree.rotateLeft.entries = tree.entries := by
  unfold rotateLeft
  split <;> simp [entries]

@[simp]
theorem places_rotateRight (tree : AvlTree ι κ α) :
    tree.rotateRight.places = tree.places := by
  unfold rotateRight
  split <;> simp [places]

@[simp]
theorem places_rotateLeft (tree : AvlTree ι κ α) :
    tree.rotateLeft.places = tree.places := by
  unfold rotateLeft
  split <;> simp [places]

section Rebalance

variable (place : ι) (left : AvlTree ι κ α) (key : κ) (value : α)
  (right : AvlTree ι κ α)

@[simp]
theorem entries_rebalance :
    (rebalance place left key value right).entries =
      left.entries ++ (key, value) :: right.entries := by
  unfold rebalance
  split_ifs <;> simp [entries]

@[simp]
theorem places_rebalance :
    (rebalance place left key value right).places =
      left.places ++ place :: right.places := by
  unfold rebalance
  split_ifs <;> simp [places]

end Rebalance

/--
Over balanced children whose heights differ by at most two, `rebalance` is
balanced.  It is one higher than the higher child, or as high.
-/
theorem balanced_rebalance (place : ι) {left : AvlTree ι κ α} (key : κ)
    (value : α) {right : AvlTree ι κ α} (leftBalanced : left.Balanced)
    (rightBalanced : right.Balanced)
    (leftLow : left.height ≤ right.height + 2)
    (rightLow : right.height ≤ left.height + 2) :
    (rebalance place left key value right).Balanced ∧
      max left.height right.height ≤
        (rebalance place left key value right).height ∧
      (rebalance place left key value right).height ≤
        max left.height right.height + 1 ∧
      (left.height ≤ right.height + 1 → right.height ≤ left.height + 1 →
        (rebalance place left key value right).height =
          max left.height right.height + 1) := by
  unfold rebalance
  split_ifs with high inner low inner
  · cases left with
    | nil =>
        simp only [height] at high
        omega
    | node x outside xKey xValue inside =>
        cases inside with
        | nil =>
            simp only [height, tilt] at inner
            omega
        | node z near zKey zValue far =>
            obtain ⟨first, ⟨second, third, inLeft, inRight⟩, outLeft,
              outRight⟩ := leftBalanced
            simp only [rotateLeft, rotateRight, Balanced, height, tilt,
              first, second, third, rightBalanced, true_and] at *
            omega
  · cases left with
    | nil =>
        simp only [height] at high
        omega
    | node x outside xKey xValue inside =>
        obtain ⟨first, second, inLeft, inRight⟩ := leftBalanced
        simp only [rotateRight, Balanced, height, tilt, first, second,
          rightBalanced, true_and] at *
        omega
  · cases right with
    | nil =>
        simp only [height] at low
        omega
    | node x inside xKey xValue outside =>
        cases inside with
        | nil =>
            simp only [height, tilt] at inner
            omega
        | node z near zKey zValue far =>
            obtain ⟨⟨first, second, inLeft, inRight⟩, third, outLeft,
              outRight⟩ := rightBalanced
            simp only [rotateLeft, rotateRight, Balanced, height, tilt,
              first, second, third, leftBalanced, true_and] at *
            omega
  · cases right with
    | nil =>
        simp only [height] at low
        omega
    | node x inside xKey xValue outside =>
        obtain ⟨first, second, inLeft, inRight⟩ := rightBalanced
        simp only [rotateLeft, Balanced, height, tilt, first, second,
          leftBalanced, true_and] at *
        omega
  · simp only [Balanced, height, leftBalanced, rightBalanced, true_and]
    omega

/-! ## Search trees -/

/-- The keys increase from the left to the right. -/
def Ordered [LT κ] (tree : AvlTree ι κ α) : Prop :=
  tree.entries.Pairwise fun first second => first.1 < second.1

/-- The entry at the left end. -/
def first? : AvlTree ι κ α → Option (κ × α)
  | nil => none
  | node _ left key value _ =>
      match left.first? with
      | none => some (key, value)
      | some entry => some entry

theorem first?_eq_head? (tree : AvlTree ι κ α) :
    tree.first? = tree.entries.head? := by
  induction tree with
  | nil => rfl
  | node place left key value right leftIH rightIH =>
      rw [first?, leftIH, entries]
      cases left.entries <;> rfl

theorem first?_eq_none_iff {tree : AvlTree ι κ α} :
    tree.first? = none ↔ tree = nil := by
  cases tree with
  | nil => simp [first?]
  | node place left key value right =>
      rw [first?]
      cases left.first? <;> simp

section Search

variable [LinearOrder κ] {place fresh : ι} {key other : κ} {value given : α}
  {left right tree : AvlTree ι κ α}

theorem ordered_node_iff :
    Ordered (node place left key value right) ↔
      left.Ordered ∧ right.Ordered ∧
        (∀ entry ∈ left.entries, entry.1 < key) ∧
        ∀ entry ∈ right.entries, key < entry.1 := by
  unfold Ordered
  rw [entries, List.pairwise_append, List.pairwise_cons]
  constructor
  · rintro ⟨leftOrdered, ⟨above, rightOrdered⟩, across⟩
    exact ⟨leftOrdered, rightOrdered,
      fun entry member => across entry member _ List.mem_cons_self, above⟩
  · rintro ⟨leftOrdered, rightOrdered, below, above⟩
    refine ⟨leftOrdered, ⟨above, rightOrdered⟩, ?_⟩
    intro first firstMember second secondMember
    rcases List.mem_cons.mp secondMember with rfl | inRight
    · exact below first firstMember
    · exact (below first firstMember).trans (above second inRight)

/-- The value under a key, found on the way down. -/
def find (key : κ) : AvlTree ι κ α → Option α
  | nil => none
  | node _ left here value right =>
      if key = here then some value
      else if key < here then left.find key
      else right.find key

theorem find_eq_some_iff (ordered : tree.Ordered) :
    tree.find key = some value ↔ (key, value) ∈ tree.entries := by
  induction tree with
  | nil => simp [find, entries]
  | node place left here held right leftIH rightIH =>
      obtain ⟨leftOrdered, rightOrdered, below, above⟩ :=
        ordered_node_iff.mp ordered
      rw [find, entries, List.mem_append, List.mem_cons]
      split_ifs with same smaller
      · subst same
        constructor
        · rintro ⟨rfl⟩
          exact Or.inr (Or.inl rfl)
        · rintro (inLeft | equal | inRight)
          · exact absurd (below _ inLeft) (lt_irrefl _)
          · cases equal
            rfl
          · exact absurd (above _ inRight) (lt_irrefl _)
      · rw [leftIH leftOrdered]
        constructor
        · exact Or.inl
        · rintro (inLeft | equal | inRight)
          · exact inLeft
          · cases equal
            exact absurd rfl same
          · exact absurd (above _ inRight) smaller.asymm
      · rw [rightIH rightOrdered]
        constructor
        · exact fun inRight => Or.inr (Or.inr inRight)
        · rintro (inLeft | equal | inRight)
          · exact absurd (below _ inLeft) smaller
          · cases equal
            exact absurd rfl same
          · exact inRight

/-! ## Insertion -/

/-- Put an entry at a fresh place. -/
def insert (fresh : ι) (key : κ) (given : α) :
    AvlTree ι κ α → AvlTree ι κ α
  | nil => node fresh nil key given nil
  | node place left here value right =>
      if key < here then
        rebalance place (left.insert fresh key given) here value right
      else
        rebalance place left here value (right.insert fresh key given)

theorem places_insert :
    (tree.insert fresh key given).places.Perm (fresh :: tree.places) := by
  induction tree with
  | nil => exact List.Perm.refl _
  | node place left here value right leftIH rightIH =>
      rw [insert]
      split_ifs
      · rw [places_rebalance]
        exact leftIH.append_right _
      · rw [places_rebalance, places]
        exact ((rightIH.cons place).append_left left.places).trans
          (((List.Perm.swap fresh place _).append_left _).trans
            List.perm_middle)

/-- A fresh key joins the entries between the smaller and the larger keys. -/
theorem entries_insert (ordered : tree.Ordered)
    (absent : ∀ entry ∈ tree.entries, entry.1 ≠ key) :
    (tree.insert fresh key given).entries =
      (tree.entries.filter fun entry => decide (entry.1 < key)) ++
        (key, given) ::
          tree.entries.filter fun entry => decide (key < entry.1) := by
  induction tree with
  | nil => rfl
  | node place left here value right leftIH rightIH =>
      obtain ⟨leftOrdered, rightOrdered, below, above⟩ :=
        ordered_node_iff.mp ordered
      rw [entries] at absent
      have notHere : here ≠ key := absent (here, value) (by simp)
      rw [insert, entries]
      by_cases smaller : key < here
      · have none : right.entries.filter
            (fun entry => decide (entry.1 < key)) = [] :=
          List.filter_eq_nil_iff.mpr fun entry member => by
            simpa using (smaller.trans (above entry member)).le
        have all : right.entries.filter
            (fun entry => decide (key < entry.1)) = right.entries :=
          List.filter_eq_self.mpr fun entry member => by
            simpa using smaller.trans (above entry member)
        rw [if_pos smaller, entries_rebalance,
          leftIH leftOrdered fun entry member =>
            absent entry (List.mem_append_left _ member)]
        simp [none, all, smaller, smaller.asymm]
      · have larger : here < key :=
          lt_of_le_of_ne (not_lt.mp smaller) notHere
        have none : left.entries.filter
            (fun entry => decide (key < entry.1)) = [] :=
          List.filter_eq_nil_iff.mpr fun entry member => by
            simpa using ((below entry member).trans larger).le
        have all : left.entries.filter
            (fun entry => decide (entry.1 < key)) = left.entries :=
          List.filter_eq_self.mpr fun entry member => by
            simpa using (below entry member).trans larger
        rw [if_neg smaller, entries_rebalance,
          rightIH rightOrdered fun entry member =>
            absent entry (List.mem_append_right _
              (List.mem_cons_of_mem _ member))]
        simp [none, all, larger, smaller]

theorem ordered_insert (ordered : tree.Ordered)
    (absent : ∀ entry ∈ tree.entries, entry.1 ≠ key) :
    (tree.insert fresh key given).Ordered := by
  unfold Ordered
  rw [entries_insert ordered absent, List.pairwise_append,
    List.pairwise_cons]
  refine ⟨ordered.filter _, ⟨?_, ordered.filter _⟩, ?_⟩
  · intro entry member
    simpa using (List.mem_filter.mp member).2
  · intro first firstMember second secondMember
    have smaller : first.1 < key := by
      simpa using (List.mem_filter.mp firstMember).2
    rcases List.mem_cons.mp secondMember with rfl | larger
    · exact smaller
    · have above : key < second.1 := by
        simpa using (List.mem_filter.mp larger).2
      exact smaller.trans above

theorem mem_entries_insert (ordered : tree.Ordered)
    (absent : ∀ entry ∈ tree.entries, entry.1 ≠ key) {entry : κ × α} :
    entry ∈ (tree.insert fresh key given).entries ↔
      entry = (key, given) ∨ entry ∈ tree.entries := by
  rw [entries_insert ordered absent, List.mem_append, List.mem_cons,
    List.mem_filter, List.mem_filter, decide_eq_true_eq, decide_eq_true_eq]
  constructor
  · rintro (⟨member, -⟩ | rfl | ⟨member, -⟩)
    · exact Or.inr member
    · exact Or.inl rfl
    · exact Or.inr member
  · rintro (rfl | member)
    · exact Or.inr (Or.inl rfl)
    · rcases lt_or_gt_of_ne (absent entry member) with smaller | larger
      · exact Or.inl ⟨member, smaller⟩
      · exact Or.inr (Or.inr ⟨member, larger⟩)

theorem length_insert :
    (tree.insert fresh key given).entries.length =
      tree.entries.length + 1 := by
  rw [← length_places, places_insert.length_eq, List.length_cons,
    length_places]

/-- An insertion keeps the balance, and raises the tree by at most one. -/
theorem balanced_insert (balanced : tree.Balanced) :
    (tree.insert fresh key given).Balanced ∧
      tree.height ≤ (tree.insert fresh key given).height ∧
      (tree.insert fresh key given).height ≤ tree.height + 1 := by
  induction tree with
  | nil => simp [insert, Balanced, height]
  | node place left here value right leftIH rightIH =>
      obtain ⟨leftBalanced, rightBalanced, leftLow, rightLow⟩ := balanced
      rw [insert, height]
      split_ifs
      · obtain ⟨grown, notLower, notHigher⟩ := leftIH leftBalanced
        obtain ⟨whole, low, high, level⟩ := balanced_rebalance
          place here value grown
          rightBalanced (by omega) (by omega)
        exact ⟨whole, by omega, by omega⟩
      · obtain ⟨grown, notLower, notHigher⟩ := rightIH rightBalanced
        obtain ⟨whole, low, high, level⟩ := balanced_rebalance
          place here value leftBalanced
          grown (by omega) (by omega)
        exact ⟨whole, by omega, by omega⟩

/-! ## Erasure -/

/--
What takes the place of a node: its child, when it has at most one, and else
its successor, which is erased in the right child.
-/
def eraseRoot (place : ι) (left right : AvlTree ι κ α)
    (shrunk : κ → AvlTree ι κ α) : AvlTree ι κ α :=
  match left, right.first? with
  | nil, _ => right
  | node .., none => left
  | node .., some next =>
      rebalance place left next.1 next.2 (shrunk next.1)

def erase (key : κ) : AvlTree ι κ α → AvlTree ι κ α
  | nil => nil
  | node place left here value right =>
      if key < here then rebalance place (left.erase key) here value right
      else if here < key then
        rebalance place left here value (right.erase key)
      else eraseRoot place left right fun next => right.erase next

/-- The place of a node, or that of its successor. -/
def dropRoot (place : ι) (left right : AvlTree ι κ α)
    (dropped : κ → Option ι) : Option ι :=
  match left, right.first? with
  | nil, _ => some place
  | node .., none => some place
  | node .., some next => dropped next.1

/-- The place which an erasure gives back. -/
def dropped (key : κ) : AvlTree ι κ α → Option ι
  | nil => none
  | node place left here _ right =>
      if key < here then left.dropped key
      else if here < key then right.dropped key
      else dropRoot place left right fun next => right.dropped next

section Root

omit [LinearOrder κ]

variable {shrunk : κ → AvlTree ι κ α} {drops : κ → Option ι}

/-- At most one child: it takes the place of the node. -/
theorem eraseRoot_of_nil (leaf : left = nil) :
    eraseRoot place left right shrunk = right := by
  subst leaf
  rfl

theorem eraseRoot_of_right_nil (some : left ≠ nil) (leaf : right = nil) :
    eraseRoot place left right shrunk = left := by
  subst leaf
  cases left with
  | nil => exact absurd rfl some
  | node => rfl

/-- Two children: the successor takes the place of the node. -/
theorem eraseRoot_of_next {next : κ × α} (some : left ≠ nil)
    (found : right.first? = .some next) :
    eraseRoot place left right shrunk =
      rebalance place left next.1 next.2 (shrunk next.1) := by
  cases left with
  | nil => exact absurd rfl some
  | node =>
      unfold eraseRoot
      rw [found]

theorem dropRoot_of_leaf (leaf : left = nil ∨ right = nil) :
    dropRoot place left right drops = .some place := by
  rcases leaf with rfl | rfl
  · rfl
  · cases left <;> rfl

theorem dropRoot_of_next {next : κ × α} (some : left ≠ nil)
    (found : right.first? = .some next) :
    dropRoot place left right drops = drops next.1 := by
  cases left with
  | nil => exact absurd rfl some
  | node =>
      unfold dropRoot
      rw [found]

end Root

/-- The places are those which are left and the one given back. -/
theorem places_erase (key : κ) (tree : AvlTree ι κ α) :
    ((tree.dropped key).toList ++ (tree.erase key).places).Perm
      tree.places := by
  induction tree generalizing key with
  | nil => exact List.Perm.refl _
  | node place left here value right leftIH rightIH =>
      rw [dropped, erase, places]
      split_ifs
      · rw [places_rebalance, ← List.append_assoc]
        exact (leftIH key).append_right _
      · rw [places_rebalance, ← List.append_assoc]
        refine (List.perm_append_comm.append_right _).trans ?_
        rw [List.append_assoc]
        refine List.Perm.append_left _ (List.perm_middle.trans ?_)
        exact (rightIH key).cons place
      · unfold dropRoot eraseRoot
        cases left with
        | nil => exact List.Perm.refl _
        | node place' left' here' value' right' =>
            cases found : right.first? with
            | none =>
                rw [first?_eq_none_iff] at found
                subst found
                exact List.perm_append_comm
            | some next =>
                dsimp only
                rw [places_rebalance, ← List.append_assoc]
                refine (List.perm_append_comm.append_right _).trans ?_
                rw [List.append_assoc]
                refine List.Perm.append_left _ (List.perm_middle.trans ?_)
                exact (rightIH next.1).cons place

/-- Exactly the erased key is gone. -/
theorem entries_erase (ordered : tree.Ordered) (key : κ) :
    (tree.erase key).entries =
      tree.entries.filter fun entry => decide (entry.1 ≠ key) := by
  induction tree generalizing key with
  | nil => rfl
  | node place left here value right leftIH rightIH =>
      obtain ⟨leftOrdered, rightOrdered, below, above⟩ :=
        ordered_node_iff.mp ordered
      have keepRight : key ≤ here → right.entries.filter
          (fun entry => decide (entry.1 ≠ key)) = right.entries :=
        fun bound => List.filter_eq_self.mpr fun entry member => by
          simpa using (bound.trans_lt (above entry member)).ne'
      have keepLeft : here ≤ key → left.entries.filter
          (fun entry => decide (entry.1 ≠ key)) = left.entries :=
        fun bound => List.filter_eq_self.mpr fun entry member => by
          simpa using ((below entry member).trans_le bound).ne
      rw [erase, entries, List.filter_append]
      by_cases smaller : key < here
      · rw [if_pos smaller, entries_rebalance, leftIH leftOrdered,
          List.filter_cons_of_pos (by simpa using smaller.ne'),
          keepRight smaller.le]
      · rw [if_neg smaller]
        by_cases larger : here < key
        · rw [if_pos larger, entries_rebalance, rightIH rightOrdered,
            List.filter_cons_of_pos (by simpa using larger.ne),
            keepLeft larger.le]
        · have same : here = key :=
            le_antisymm (not_lt.mp smaller) (not_lt.mp larger)
          rw [if_neg larger, List.filter_cons_of_neg (by simpa using same),
            keepLeft same.le, keepRight same.ge]
          unfold eraseRoot
          cases left with
          | nil => rfl
          | node place' left' here' value' right' =>
              cases found : right.first? with
              | none =>
                  rw [first?_eq_none_iff] at found
                  subst found
                  exact (List.append_nil _).symm
              | some next =>
                  dsimp only
                  rw [entries_rebalance, rightIH rightOrdered]
                  congr 1
                  rw [first?_eq_head?] at found
                  unfold Ordered at rightOrdered
                  cases shape : right.entries with
                  | nil => simp [shape] at found
                  | cons head rest =>
                      rw [shape, List.head?_cons,
                        Option.some.injEq] at found
                      rw [shape, List.pairwise_cons] at rightOrdered
                      subst found
                      rw [List.filter_cons_of_neg (by simp)]
                      congr 1
                      exact List.filter_eq_self.mpr fun entry member => by
                        simpa using (rightOrdered.1 entry member).ne'

theorem ordered_erase (ordered : tree.Ordered) (key : κ) :
    (tree.erase key).Ordered := by
  unfold Ordered
  rw [entries_erase ordered]
  exact ordered.filter _

theorem mem_entries_erase (ordered : tree.Ordered) {entry : κ × α} :
    entry ∈ (tree.erase key).entries ↔
      entry ∈ tree.entries ∧ entry.1 ≠ key := by
  rw [entries_erase ordered, List.mem_filter, decide_eq_true_eq]

/-- An erasure keeps the balance, and lowers the tree by at most one. -/
theorem balanced_erase (balanced : tree.Balanced) (key : κ) :
    (tree.erase key).Balanced ∧
      (tree.erase key).height ≤ tree.height ∧
      tree.height ≤ (tree.erase key).height + 1 := by
  induction tree generalizing key with
  | nil => simp [erase, Balanced, height]
  | node place left here value right leftIH rightIH =>
      obtain ⟨leftBalanced, rightBalanced, leftLow, rightLow⟩ := balanced
      rw [erase]
      split_ifs
      · obtain ⟨shrunk, notHigher, notLower⟩ := leftIH leftBalanced key
        obtain ⟨whole, low, high, level⟩ := balanced_rebalance
          place here value shrunk
          rightBalanced (by omega) (by omega)
        rw [height]
        exact ⟨whole, by omega, by omega⟩
      · obtain ⟨shrunk, notHigher, notLower⟩ := rightIH rightBalanced key
        obtain ⟨whole, low, high, level⟩ := balanced_rebalance
          place here value leftBalanced
          shrunk (by omega) (by omega)
        rw [height]
        exact ⟨whole, by omega, by omega⟩
      · unfold eraseRoot
        cases left with
        | nil =>
            simp only [height] at rightLow ⊢
            exact ⟨rightBalanced, by omega, by omega⟩
        | node place' left' here' value' right' =>
            cases found : right.first? with
            | none =>
                rw [first?_eq_none_iff] at found
                subst found
                refine ⟨leftBalanced, ?_, ?_⟩ <;>
                  simp only [height] at leftLow ⊢ <;> omega
            | some next =>
                obtain ⟨shrunk, notHigher, notLower⟩ :=
                  rightIH rightBalanced next.1
                obtain ⟨whole, low, high, level⟩ := balanced_rebalance
                  place next.1 next.2
                  leftBalanced shrunk (by omega) (by omega)
                dsimp only
                generalize node place' left' here' value' right' = left
                  at *
                rw [height]
                exact ⟨whole, by omega, by omega⟩

end Search

end AvlTree

end ItchExchange.Library
