import ItchExchange.Book.AvlLevelMapRuns

/-!
# The height of the tree of price levels

Every node which the links reach stores its height, and its children are of
almost one height, so the tree is as shallow as the Fibonacci numbers bound it.
A new node in the last element which an index can name is lost: its index is the
null index, and the tree with it is the tree without it.
-/

namespace ItchExchange.Book.AvlLevelMap

open ItchExchange.Core ItchExchange.Library
open Std (ExtTreeMap)

/-- The nodes which the links reach from the root. -/
inductive Reaches (levels : AvlLevelMap) : UInt32 → Prop
  | root : levels.root ≠ kNull → Reaches levels levels.root
  | left {n : UInt32} {node : Node} : Reaches levels n →
      levels.node n = .ok node → node.left ≠ kNull →
        Reaches levels node.left
  | right {n : UInt32} {node : Node} : Reaches levels n →
      levels.node n = .ok node → node.right ≠ kNull →
        Reaches levels node.right

/-- What a node stores, against the heights of its children. -/
structure IsTuned (levels : AvlLevelMap) (n : UInt32) (node : Node)
    (left right : UInt32) : Prop where
  here : levels.node n = .ok node
  ofLeft : levels.heightOf node.left = .ok left
  ofRight : levels.heightOf node.right = .ok right
  height : node.height.toNat = 1 + max left.toNat right.toNat
  leftLow : left.toNat ≤ right.toNat + 1
  rightLow : right.toNat ≤ left.toNat + 1

/-- The tree is balanced everywhere, and shallow. -/
structure IsShallow (levels : AvlLevelMap) : Prop where
  nodes : ∀ n, levels.Reaches n →
    ∃ node left right, IsTuned levels n node left right
  height : ∃ height, levels.height = .ok height ∧
    Nat.fib (height.toNat + 2) ≤ levels.size.toNat + 1

section Shallow

variable {levels : AvlLevelMap} {tree : Tree} {frees : List UInt32}

/-- What the links reach is the root of a balanced tree. -/
theorem Reaches.subtree {n : UInt32} (reached : levels.Reaches n)
    (root : levels.root = rootOf tree) (spells : Spells levels.nodes tree)
    (balanced : tree.Balanced) (low : Low tree) :
    ∃ left key value right,
      Spells levels.nodes (.node n left key value right : Tree) ∧
        (.node n left key value right : Tree).Balanced ∧
          Low (.node n left key value right) := by
  have rooted : ∀ {sub : Tree}, Spells levels.nodes sub → sub.Balanced →
      Low sub → rootOf sub ≠ kNull →
        ∃ left key value right,
          Spells levels.nodes (.node (rootOf sub) left key value right) ∧
            (.node (rootOf sub) left key value right : Tree).Balanced ∧
              Low (.node (rootOf sub) left key value right) := by
    intro sub spells balanced low some
    cases sub with
    | nil => exact absurd rfl some
    | node place left key value right =>
        exact ⟨left, key, value, right, spells, balanced, low⟩
  induction reached with
  | root some =>
      rw [root] at some ⊢
      exact rooted spells balanced low some
  | left reached here some induction =>
      obtain ⟨left, key, value, right, subSpells, subBalanced, subLow⟩ :=
        induction
      obtain rfl := Except.ok.inj (here.symm.trans (node_of subSpells.2.1))
      unfold Low at subLow
      rw [AvlTree.height] at subLow
      exact rooted subSpells.2.2.1 subBalanced.1 (by unfold Low; omega) some
  | right reached here some induction =>
      obtain ⟨left, key, value, right, subSpells, subBalanced, subLow⟩ :=
        induction
      obtain rfl := Except.ok.inj (here.symm.trans (node_of subSpells.2.1))
      unfold Low at subLow
      rw [AvlTree.height] at subLow
      exact rooted subSpells.2.2.2 subBalanced.2.1 (by unfold Low; omega)
        some

theorem Stands.isShallow (stands : Stands levels tree frees) :
    levels.IsShallow := by
  have high := stands.low
  have low : Low tree := by
    unfold Low
    omega
  constructor
  · intro n reached
    obtain ⟨left, key, value, right, spells, balanced, subLow⟩ :=
      reached.subtree stands.root stands.spells stands.balanced low
    have whole := toNat_height subLow
    unfold Low at subLow
    rw [AvlTree.height] at subLow
    have leftLow : Low left := by
      unfold Low
      omega
    have rightLow : Low right := by
      unfold Low
      omega
    refine ⟨_, _, _, node_of spells.2.1, heightOf_spelt spells.2.2.1,
      heightOf_spelt spells.2.2.2, ?_, ?_, ?_⟩
    · rw [toNat_height leftLow, toNat_height rightLow]
      exact whole
    · rw [toNat_height leftLow, toNat_height rightLow]
      exact balanced.2.2.1
    · rw [toNat_height leftLow, toNat_height rightLow]
      exact balanced.2.2.2
  · refine ⟨UInt32.ofNat tree.height, ?_, ?_⟩
    · rw [height, stands.root, heightOf_spelt stands.spells]
    · rw [toNat_height low, stands.size]
      exact AvlTree.fib_height_le stands.balanced

end Shallow

/--
After every valid sequence of insertions and erasures which leaves some price
absent all the time, the tree is balanced and shallow.
-/
theorem avlLevelMap_isShallow (side : Side) (calls : List LevelCall)
    (free : LeavesPriceFree calls) (present : PresentLevels)
    (valid : PresentLevels.run? ∅ calls = some present) :
    ∃ levels, LevelMap.run (LevelMap.make side : AvlLevelMap) calls =
        .ok levels ∧ levels.IsShallow := by
  obtain ⟨levels, ran, holds⟩ := (holds_start side).run free valid
  obtain ⟨-, tree, frees, stands, -⟩ := holds
  exact ⟨levels, ran, stands.isShallow⟩

theorem avlLevelMap_isShallow_rotations :
    LeavesPriceFree rotations ∧
      ∃ levels, LevelMap.run (LevelMap.make .sell : AvlLevelMap) rotations =
          .ok levels ∧
        (levels.nodes.map fun node => (node.price, node.height)) =
          [(60, 2), (30, 1), (40, 3), (60, 2), (65, 1), (45, 1)] ∧
        levels.IsShallow := by
  have free : LeavesPriceFree rotations :=
    leavesPriceFree_of_length (by simp [rotations])
  have value := run_rotations
  obtain ⟨present, valid, -⟩ := run?_rotations
  obtain ⟨levels, ran, shallow⟩ :=
    avlLevelMap_isShallow .sell rotations free present valid
  rw [ran] at value
  simp only [Except.map, Except.ok.injEq, Prod.mk.injEq] at value
  exact ⟨free, levels, ran, value.2.2, shallow⟩

/-! ## Every price at once -/

section EveryPrice

variable {levels : AvlLevelMap} {tree : Tree} {frees : List UInt32}

theorem update_same {n : UInt32} {node : Node} {change : Node → Node}
    (here : levels.nodes[n.toNat]? = some node)
    (same : change node = node) : levels.update n change = .ok levels := by
  have unchanged : levels.nodes.set n.toNat node = levels.nodes := by
    obtain ⟨inside, rfl⟩ := List.getElem?_eq_some_iff.mp here
    exact List.set_getElem_self inside
  rw [update_of here, same, unchanged]

/-- A node which is in balance stays as it is. -/
theorem rebalance_balanced {place : UInt32} {left right : Tree}
    {key : Price} {value : LevelHandle}
    (spells : Spells levels.nodes (.node place left key value right))
    (low : Low (.node place left key value right))
    (leftLow : left.height ≤ right.height + 1)
    (rightLow : right.height ≤ left.height + 1) :
    levels.rebalance place = .ok (place, levels) := by
  have balance : levels.balanceOf place =
      .ok ((left.height : Int) - right.height) := balanceOf_spelt low spells
  obtain ⟨-, here, leftSpells, rightSpells⟩ := spells
  unfold Low at low
  rw [AvlTree.height] at low
  have tuned : levels.retune place = .ok levels := by
    rw [retune, node_of here, ok_bind, recordOf, heightOf_spelt leftSpells,
      ok_bind, heightOf_spelt rightSpells, ok_bind]
    refine update_same here ?_
    rw [max_heights (by unfold Low; omega) (by unfold Low; omega)]
    rfl
  rw [rebalance, tuned, ok_bind, balance, ok_bind, node_of here, ok_bind,
    if_neg (by omega), if_neg (by omega)]
  rfl

/--
The index of the element after the last which can be named is the null index,
so the links stay as they are.
-/
theorem insertAt_full (free : levels.free = kNull)
    (full : levels.nodes.length = 2 ^ 32 - 1)
    (spells : Spells levels.nodes tree) (balanced : tree.Balanced)
    (low : Low tree) {p : Price}
    (absent : ∀ entry ∈ tree.entries, entry.1 ≠ p) (h : LevelHandle)
    {depth : Nat} (deep : tree.height < depth) :
    insertAt p h depth levels (rootOf tree) =
      .ok (rootOf tree,
        { levels with
          nodes := levels.nodes ++ [{ price := p, level := h }] }) := by
  induction tree generalizing depth with
  | nil =>
      obtain ⟨depth, rfl⟩ := Nat.exists_eq_add_of_lt deep
      have last : UInt32.ofNat levels.nodes.length = kNull := by
        rw [full]
        rfl
      have position : kNull.toNat = levels.nodes.length := by
        rw [full]
        rfl
      rw [insertAt, rootOf, if_pos rfl, newNode]
      dsimp only
      rw [if_neg (not_not_intro free), last, position]
      simp
  | node place left key value right leftIH rightIH =>
      obtain ⟨depth, rfl⟩ := Nat.exists_eq_add_of_lt deep
      obtain ⟨leftBalanced, rightBalanced, leftLow, rightLow⟩ := balanced
      have grown : Spells
          (levels.nodes ++ [({ price := p, level := h } : Node)])
          (.node place left key value right) :=
        spells.congr fun other member =>
          List.getElem?_append_left (spells.places_lt other member)
      have rebalanced : rebalance { levels with
          nodes := levels.nodes ++ [{ price := p, level := h }] } place =
            .ok (place, { levels with
              nodes := levels.nodes ++ [{ price := p, level := h }] }) :=
        rebalance_balanced grown low leftLow rightLow
      have notHere : p ≠ (recordOf left key value right).price :=
        (absent (key, value) (by simp [AvlTree.entries])).symm
      unfold Low at low
      rw [AvlTree.height] at low deep
      obtain ⟨notNull, here, leftSpells, rightSpells⟩ := spells
      rw [insertAt, rootOf, if_neg notNull, node_of here, ok_bind,
        assertMsg_of notHere, ok_bind]
      split_ifs with smaller
      · have inserted := leftIH leftSpells leftBalanced
          (by unfold Low; omega)
          (fun entry member =>
            absent entry (List.mem_append_left _ member))
          (show left.height <
            AvlTree.height (.node place left key value right) + depth by
            rw [AvlTree.height]
            omega)
        change (insertAt p h _ levels (rootOf left) >>= _) = _
        rw [inserted, ok_bind]
        dsimp only
        rw [update_same grown.2.1 rfl, ok_bind, rebalanced]
      · have inserted := rightIH rightSpells rightBalanced
          (by unfold Low; omega)
          (fun entry member => absent entry
            (List.mem_append_right _ (List.mem_cons_of_mem _ member)))
          (show right.height <
            AvlTree.height (.node place left key value right) + depth by
            rw [AvlTree.height]
            omega)
        change (insertAt p h _ levels (rootOf right) >>= _) = _
        rw [inserted, ok_bind]
        dsimp only
        rw [update_same grown.2.1 rfl, ok_bind, rebalanced]

/-- All indices but the null index are in use where one price is absent. -/
theorem Stands.full (stands : Stands levels tree frees)
    (many : tree.entries.length + 1 = 2 ^ 32) :
    levels.free = kNull ∧ levels.nodes.length = 2 ^ 32 - 1 := by
  have count := stands.length
  have few : levels.nodes.length < 2 ^ 32 := by
    by_contra more
    have last : kNull.toNat ∈
        (tree.places ++ frees).map UInt32.toNat := by
      rw [stands.exactly.mem_iff, List.mem_range]
      have value : kNull.toNat = 2 ^ 32 - 1 := rfl
      omega
    obtain ⟨place, member, equal⟩ := List.mem_map.mp last
    have null : place = kNull := UInt32.toNat_inj.mp equal
    rcases List.mem_append.mp member with inTree | inFrees
    · exact stands.spells.ne_null place inTree null
    · exact stands.chain.ne_null place inFrees null
  have none : frees = [] := List.length_eq_zero_iff.mp (by omega)
  have chain := stands.chain
  rw [none] at chain
  exact ⟨chain, by omega⟩

/-- The last price is counted, but the size and the links do not show it. -/
theorem Stands.insert_full (stands : Stands levels tree frees)
    (many : tree.entries.length + 1 = 2 ^ 32) {p : Price} {h : LevelHandle}
    (absent : ∀ entry ∈ tree.entries, entry.1 ≠ p)
    (notNull : h ≠ Handle.null) :
    ∃ later, levels.insert p h = .ok later ∧ ¬ later.IsShallow := by
  obtain ⟨free, full⟩ := stands.full many
  have high := stands.low
  have inserted := insertAt_full free full stands.spells stands.balanced
    (by unfold Low; omega) absent h
    (stands.spells.height_lt_limit stands.places_nodup)
  refine ⟨{ levels with
    nodes := levels.nodes ++ [{ price := p, level := h }]
    root := rootOf tree, size := levels.size + 1 }, ?_, ?_⟩
  · rw [AvlLevelMap.insert, assertMsg_of notNull, ok_bind, stands.root,
      inserted, ok_bind]
    rfl
  · intro shallow
    have some : rootOf tree ≠ kNull := by
      rw [Ne, rootOf_eq_null_iff stands.spells]
      rintro rfl
      cases many
    obtain ⟨node, left, right, tuned⟩ :=
      shallow.nodes (rootOf tree) (.root some)
    obtain ⟨height, reached, bound⟩ := shallow.height
    have stored : node.height = height := by
      rw [AvlLevelMap.height, heightOf, if_neg some, tuned.here, ok_bind]
        at reached
      exact Except.ok.inj reached
    have above := tuned.height
    rw [stored] at above
    have atLeast : Nat.fib 3 ≤ Nat.fib (height.toNat + 2) :=
      Nat.fib_mono (by omega)
    have size : levels.size + 1 = 0 := by
      rw [← UInt32.toNat_inj, UInt32.toNat_add, stands.size]
      change (tree.entries.length + 1) % 2 ^ 32 = 0
      omega
    have value : Nat.fib 3 = 2 := rfl
    dsimp only at bound
    rw [size] at bound
    change _ ≤ 0 + 1 at bound
    omega

end EveryPrice

theorem avlLevelMap_deepAtEveryPrice :
    ∃ present levels,
      PresentLevels.run? ∅ (firstPrices (2 ^ 32)) = some present ∧
        LevelMap.run (LevelMap.make .buy : AvlLevelMap)
            (firstPrices (2 ^ 32)) = .ok levels ∧
          ¬ levels.IsShallow := by
  obtain ⟨count, many⟩ : ∃ count, count + 1 = 2 ^ 32 := ⟨2 ^ 32 - 1, rfl⟩
  have calls : firstPrices (count + 1) =
      firstPrices count ++ [.insert (UInt32.ofNat count) ⟨0⟩] := by
    rw [firstPrices, List.range_succ, List.map_append, List.map_singleton]
    rfl
  obtain ⟨all, reachedAll, -⟩ := run?_firstPrices (count + 1) many.le
  obtain ⟨present, reached, size, absent⟩ :=
    run?_firstPrices count (by omega)
  have length : (firstPrices count).length = count := by
    rw [firstPrices, List.length_map, List.length_range]
  obtain ⟨levels, ran, holds⟩ := (holds_start .buy).run
    (leavesPriceFree_of_length (length.trans_lt (by omega))) reached
  obtain ⟨-, tree, frees, stands, entries, same⟩ := holds
  have small : count < 2 ^ 32 := by omega
  have fresh : present.map (UInt32.ofNat count) = none :=
    absent _ (UInt32.toNat_ofNat_of_lt' small).ge
  have notNull : (⟨0⟩ : LevelHandle) ≠ Handle.null := by decide
  obtain ⟨later, inserted, deep⟩ := stands.insert_full
    (by rw [entries, size, many]) ((absent_iff same).mp fresh) notNull
  rw [← many]
  refine ⟨all, later, reachedAll, ?_, deep⟩
  rw [calls, LevelMap.run_append, ran, ok_bind]
  change (levels.insert (UInt32.ofNat count) ⟨0⟩ >>= _) = _
  rw [inserted]
  rfl

end ItchExchange.Book.AvlLevelMap
