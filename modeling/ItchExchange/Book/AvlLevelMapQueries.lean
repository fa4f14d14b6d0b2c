import ItchExchange.Book.AvlLevelMapErase

/-!
# Queries of the tree of price levels

What `find`, `best`, `for_each_level` and `validate` answer where the elements
spell a balanced search tree.
-/

namespace ItchExchange.Book.AvlLevelMap

open ItchExchange.Core ItchExchange.Library

section Queries

variable {levels : AvlLevelMap} {tree left right : Tree}

/-! ## Lookup -/

/--
By induction on the tree: the search in the array ends at the node at which the
search in the tree ends.
-/
theorem findWithin_spelt (spells : Spells levels.nodes tree) (p : Price)
    {turns : Nat} (enough : tree.height < turns) :
    levels.findWithin p turns (rootOf tree) =
      .ok ((tree.find p).getD Handle.null) := by
  induction tree generalizing turns with
  | nil =>
      obtain ⟨turns, rfl⟩ := Nat.exists_eq_add_of_lt enough
      rw [findWithin, rootOf, if_pos rfl]
      rfl
  | node place left key value right leftIH rightIH =>
      obtain ⟨turns, rfl⟩ := Nat.exists_eq_add_of_lt enough
      obtain ⟨notNull, here, leftSpells, rightSpells⟩ := spells
      have room : left.height <
            AvlTree.height (.node place left key value right) + turns ∧
          right.height <
            AvlTree.height (.node place left key value right) + turns := by
        rw [AvlTree.height]
        omega
      rw [findWithin, rootOf, if_neg notNull, node_of here, ok_bind,
        AvlTree.find]
      by_cases same : p = key
      · have equal : p = (recordOf left key value right).price := same
        rw [if_pos same, if_pos equal]
        rfl
      · have different : ¬ p = (recordOf left key value right).price := same
        rw [if_neg same, if_neg different]
        by_cases smaller : p < key
        · have below : p < (recordOf left key value right).price := smaller
          rw [if_pos smaller, if_pos below]
          exact leftIH leftSpells room.1
        · have above : ¬ p < (recordOf left key value right).price :=
            smaller
          rw [if_neg smaller, if_neg above]
          exact rightIH rightSpells room.2

/-! ## From the inside outwards -/

/-- The child of a node towards the inside of a side. -/
def innerOf (left right : Tree) : Side → Tree
  | .buy => right
  | .sell => left

/-- The subtree away from the inside of a side. -/
def outerOf (left right : Tree) : Side → Tree
  | .buy => left
  | .sell => right

/--
An outward traversal passes the inner subtree, the node and the outer one.
-/
theorem outwards_node (side : Side) (place : UInt32) (key : Price)
    (value : LevelHandle) :
    outwards side
        (AvlTree.entries (.node place left key value right : Tree)) =
      outwards side (innerOf left right side).entries ++
        (key, value) :: outwards side (outerOf left right side).entries := by
  cases side
  · simp [outwards, innerOf, outerOf, AvlTree.entries]
  · rfl

theorem outwards_eq_nil_iff {side : Side} :
    outwards side tree.entries = [] ↔ tree = .nil := by
  cases tree with
  | nil => cases side <;> simp [outwards, AvlTree.entries]
  | node place left key value right =>
      rw [outwards_node]
      simp

theorem record_inner (side : Side) (key : Price) (value : LevelHandle) :
    (recordOf left key value right).inner side =
      rootOf (innerOf left right side) := by
  cases side <;> rfl

theorem record_outer (side : Side) (key : Price) (value : LevelHandle) :
    (recordOf left key value right).outer side =
      rootOf (outerOf left right side) := by
  cases side <;> rfl

/-- What holds of both children holds of the inner and of the outer one. -/
theorem of_children (property : Tree → Prop) {left right : Tree} (side : Side)
    (ofLeft : property left) (ofRight : property right) :
    property (innerOf left right side) ∧
      property (outerOf left right side) := by
  cases side
  · exact ⟨ofRight, ofLeft⟩
  · exact ⟨ofLeft, ofRight⟩

/-- The way inwards ends at the first entry outwards. -/
theorem bestWithin_spelt (spells : Spells levels.nodes tree)
    {entry : Price × LevelHandle}
    (found : (outwards levels.side tree.entries).head? = some entry)
    {turns : Nat} (enough : tree.height ≤ turns) :
    levels.bestWithin turns (rootOf tree) = .ok entry.1 := by
  induction tree generalizing turns with
  | nil =>
      rw [outwards_eq_nil_iff.mpr rfl] at found
      cases found
  | node place left key value right leftIH rightIH =>
      obtain ⟨notNull, here, leftSpells, rightSpells⟩ := spells
      rw [AvlTree.height] at enough
      obtain ⟨turns, rfl⟩ : ∃ fewer, turns = fewer + 1 :=
        ⟨turns - 1, by omega⟩
      have innerIH := (of_children (fun tree =>
        Spells levels.nodes tree →
          (outwards levels.side tree.entries).head? = some entry →
            tree.height ≤ turns →
              levels.bestWithin turns (rootOf tree) = .ok entry.1)
        levels.side
        (fun spells found enough => leftIH spells found enough)
        (fun spells found enough => rightIH spells found enough)).1
      have innerSpells := (of_children (Spells levels.nodes) levels.side
        leftSpells rightSpells).1
      have leftLow : left.height ≤ turns := by omega
      have rightLow : right.height ≤ turns := by omega
      have innerLow := (of_children (fun tree => tree.height ≤ turns)
        levels.side leftLow rightLow).1
      have rootIff := rootOf_eq_null_iff innerSpells
      rw [outwards_node] at found
      rw [bestWithin, rootOf, node_of here, ok_bind, record_inner]
      by_cases leaf : innerOf left right levels.side = .nil
      · rw [outwards_eq_nil_iff.mpr leaf] at found
        cases found
        rw [if_neg (not_not_intro (rootIff.mpr leaf))]
        rfl
      · have some : outwards levels.side
            (innerOf left right levels.side).entries ≠ [] :=
          mt outwards_eq_nil_iff.mp leaf
        rw [List.head?_append_of_ne_nil _ some] at found
        rw [if_pos (mt rootIff.mp leaf)]
        exact innerIH innerSpells found innerLow

/-! ## The walk with an explicit stack -/

/-- A node which waits on the stack, with the subtree behind it. -/
structure Waiting where
  price : Price
  level : LevelHandle
  behind : Tree

/-- The elements of the stack are the nodes which wait. -/
def Stacked (levels : AvlLevelMap) (stack : List UInt32)
    (waiting : List Waiting) : Prop :=
  List.Forall₂
    (fun n item => ∃ node, levels.nodes[n.toNat]? = some node ∧
      node.price = item.price ∧ node.level = item.level ∧
      node.outer levels.side = rootOf item.behind ∧
      Spells levels.nodes item.behind ∧ item.behind.places.Nodup)
    stack waiting

/-- What is still to be visited for the nodes which wait. -/
def remaining (side : Side) (waiting : List Waiting) :
    List (Price × LevelHandle) :=
  waiting.flatMap fun item =>
    (item.price, item.level) :: outwards side item.behind.entries

/-- The inner loop pushes the nodes on the way to the innermost one. -/
theorem descendWithin_spelt (spells : Spells levels.nodes tree)
    (distinct : tree.places.Nodup) {stack : List UInt32}
    {waiting : List Waiting} (stacked : Stacked levels stack waiting)
    {turns : Nat} (enough : tree.height < turns) :
    ∃ deeper more,
      levels.descendWithin turns (rootOf tree) stack = .ok deeper ∧
        Stacked levels deeper more ∧
        remaining levels.side more =
          outwards levels.side tree.entries ++
            remaining levels.side waiting := by
  induction tree generalizing turns stack waiting with
  | nil =>
      obtain ⟨turns, rfl⟩ := Nat.exists_eq_add_of_lt enough
      refine ⟨stack, waiting, ?_, stacked, ?_⟩
      · rw [descendWithin, rootOf, if_pos rfl]
      · rw [outwards_eq_nil_iff.mpr rfl, List.nil_append]
  | node place left key value right leftIH rightIH =>
      obtain ⟨turns, rfl⟩ := Nat.exists_eq_add_of_lt enough
      obtain ⟨notNull, here, leftSpells, rightSpells⟩ := spells
      have separate := separate_of_nodup distinct
      obtain ⟨innerSpells, outerSpells⟩ :=
        of_children (Spells levels.nodes) levels.side leftSpells rightSpells
      obtain ⟨innerNodup, outerNodup⟩ :=
        of_children (fun tree => tree.places.Nodup) levels.side
          separate.leftNodup separate.rightNodup
      have room : (innerOf left right levels.side).height <
          AvlTree.height (.node place left key value right) + turns := by
        refine (of_children (fun tree => tree.height <
          AvlTree.height (.node place left key value right) + turns)
          levels.side ?_ ?_).1 <;> rw [AvlTree.height] <;> omega
      have innerIH := (of_children (fun tree =>
        ∀ (turns : Nat) (stack : List UInt32) (waiting : List Waiting),
          Spells levels.nodes tree → tree.places.Nodup →
          Stacked levels stack waiting → tree.height < turns →
            ∃ deeper more,
              levels.descendWithin turns (rootOf tree) stack = .ok deeper ∧
                Stacked levels deeper more ∧
                remaining levels.side more =
                  outwards levels.side tree.entries ++
                    remaining levels.side waiting)
        levels.side
        (fun _ _ _ spells nodup stacked enough =>
          leftIH spells nodup stacked enough)
        (fun _ _ _ spells nodup stacked enough =>
          rightIH spells nodup stacked enough)).1
      have pushed : Stacked levels (place :: stack)
          (⟨key, value, outerOf left right levels.side⟩ :: waiting) :=
        List.Forall₂.cons ⟨_, here, rfl, rfl,
          record_outer levels.side key value, outerSpells, outerNodup⟩
          stacked
      obtain ⟨deeper, more, descended, moreStacked, visits⟩ :=
        innerIH _ _ _ innerSpells innerNodup pushed room
      refine ⟨deeper, more, ?_, moreStacked, ?_⟩
      · rw [descendWithin, rootOf, if_neg notNull, node_of here, ok_bind,
          record_inner]
        exact descended
      · rw [visits, outwards_node, remaining, List.flatMap_cons]
        simp [remaining]

theorem remaining_eq_nil_iff {side : Side} {waiting : List Waiting} :
    remaining side waiting = [] ↔ waiting = [] := by
  cases waiting <;> simp [remaining]

/-- The walk visits what is below the node and what waits on the stack. -/
theorem walkWithin_spelt (spells : Spells levels.nodes tree)
    (distinct : tree.places.Nodup) {stack : List UInt32}
    {waiting : List Waiting} (stacked : Stacked levels stack waiting)
    {turns : Nat}
    (enough : (outwards levels.side tree.entries ++
      remaining levels.side waiting).length < turns) :
    levels.walkWithin turns (rootOf tree) stack =
      .ok (outwards levels.side tree.entries ++
        remaining levels.side waiting) := by
  induction turns generalizing tree stack waiting with
  | zero => exact absurd enough (Nat.not_lt_zero _)
  | succ turns induction =>
      rw [walkWithin]
      obtain ⟨deeper, more, descended, moreStacked, visits⟩ :=
        descendWithin_spelt spells distinct stacked
          (spells.height_lt_limit distinct)
      rw [← visits] at enough ⊢
      split_ifs with done
      · obtain ⟨none, empty⟩ := done
        rw [(rootOf_eq_null_iff spells).mp none,
          outwards_eq_nil_iff.mpr rfl, List.nil_append] at visits
        subst empty
        cases stacked
        rw [visits]
        rfl
      · rw [descended, ok_bind]
        cases moreStacked with
        | nil =>
            have nothing := List.append_eq_nil_iff.mp visits.symm
            have noTree := outwards_eq_nil_iff.mp nothing.1
            have noneWait := remaining_eq_nil_iff.mp nothing.2
            subst noneWait
            cases stacked
            exact absurd
              ⟨(rootOf_eq_null_iff spells).mpr noTree, rfl⟩ done
        | cons top rest =>
            obtain ⟨node, here, samePrice, sameLevel, outer, behindSpells,
              behindNodup⟩ := top
            rw [remaining, List.flatMap_cons, List.cons_append] at enough ⊢
            have later := induction behindSpells behindNodup rest
              (Nat.lt_of_succ_lt_succ enough)
            dsimp only
            rw [node_of here, ok_bind, outer, later, ok_bind, samePrice,
              sameLevel]
            rfl

/-- The visits are the entries of the tree, from the inside outwards. -/
theorem forEachLevel_spelt (root : levels.root = rootOf tree)
    (spells : Spells levels.nodes tree) (distinct : tree.places.Nodup) :
    levels.forEachLevel = .ok (outwards levels.side tree.entries) := by
  have long := spells.length_le distinct
  rw [AvlTree.length_places] at long
  have none : Stacked levels [] [] := List.Forall₂.nil
  have walked := @walkWithin_spelt levels tree spells distinct [] [] none
    levels.limit
  have count : (outwards levels.side tree.entries).length =
      tree.entries.length := by
    cases levels.side <;> simp [outwards]
  have nothing : remaining levels.side [] = [] := rfl
  rw [nothing, List.append_nil, count] at walked
  rw [forEachLevel, root]
  refine walked ?_
  rw [limit]
  omega

/-! ## The self-check -/

/--
By induction on the tree: a balanced tree passes `check`, which counts its
nodes.
-/
theorem check_spelt (spells : Spells levels.nodes tree)
    (low : tree.height < 2 ^ 30) (balanced : tree.Balanced)
    (notNull : ∀ entry ∈ tree.entries, entry.2 ≠ Handle.null) {depth : Nat}
    (deep : tree.height < depth) :
    levels.check depth (rootOf tree) = .ok tree.entries.length := by
  induction tree generalizing depth with
  | nil =>
      obtain ⟨depth, rfl⟩ := Nat.exists_eq_add_of_lt deep
      rw [check, rootOf, if_pos rfl]
      rfl
  | node place left key value right leftIH rightIH =>
      obtain ⟨depth, rfl⟩ := Nat.exists_eq_add_of_lt deep
      have tilt := balanceOf_spelt low spells
      obtain ⟨someRoot, here, leftSpells, rightSpells⟩ := spells
      obtain ⟨leftBalanced, rightBalanced, leftLow, rightLow⟩ := balanced
      have room : left.height <
            AvlTree.height (.node place left key value right) + depth ∧
          right.height <
            AvlTree.height (.node place left key value right) + depth := by
        rw [AvlTree.height]
        omega
      rw [AvlTree.height] at low
      have lowLeft : Low left := by
        unfold Low
        omega
      have lowRight : Low right := by
        unfold Low
        omega
      have leftCount := leftIH leftSpells lowLeft leftBalanced
        (fun entry member =>
          notNull entry (List.mem_append_left _ member)) room.1
      have rightCount := rightIH rightSpells lowRight rightBalanced
        (fun entry member => notNull entry
          (List.mem_append_right _ (List.mem_cons_of_mem _ member))) room.2
      have height : (recordOf left key value right).height =
          1 + max (UInt32.ofNat left.height) (UInt32.ofNat right.height) :=
        (max_heights lowLeft lowRight).symm
      have handle : (recordOf left key value right).level ≠ Handle.null :=
        notNull (key, value) (by simp [AvlTree.entries])
      have within : AvlTree.tilt (.node place left key value right) ≥ -1 ∧
          AvlTree.tilt (.node place left key value right) ≤ 1 := by
        rw [AvlTree.tilt]
        omega
      rw [check, rootOf, if_neg someRoot, node_of here, ok_bind]
      change (levels.check _ (rootOf left) >>= _) = _
      rw [leftCount, ok_bind]
      change (levels.check _ (rootOf right) >>= _) = _
      rw [rightCount, ok_bind]
      change (levels.heightOf (rootOf left) >>= _) = _
      rw [heightOf_spelt leftSpells, ok_bind]
      change (levels.heightOf (rootOf right) >>= _) = _
      rw [heightOf_spelt rightSpells, ok_bind, assertMsg_of height, ok_bind]
      rw [rootOf] at tilt
      rw [tilt, ok_bind, assertMsg_of within, ok_bind, assertMsg_of handle,
        ok_bind, AvlTree.entries, List.length_append, List.length_cons]
      exact congrArg Except.ok (by omega)

/-- The recursive traversal yields the prices in ascending order. -/
theorem walkAscending_spelt (spells : Spells levels.nodes tree)
    {depth : Nat} (deep : tree.height < depth) :
    levels.walkAscending depth (rootOf tree) =
      .ok (tree.entries.map Prod.fst) := by
  induction tree generalizing depth with
  | nil =>
      obtain ⟨depth, rfl⟩ := Nat.exists_eq_add_of_lt deep
      rw [walkAscending, rootOf, if_pos rfl]
      rfl
  | node place left key value right leftIH rightIH =>
      obtain ⟨depth, rfl⟩ := Nat.exists_eq_add_of_lt deep
      obtain ⟨someRoot, here, leftSpells, rightSpells⟩ := spells
      have room : left.height <
            AvlTree.height (.node place left key value right) + depth ∧
          right.height <
            AvlTree.height (.node place left key value right) + depth := by
        rw [AvlTree.height]
        omega
      rw [walkAscending, rootOf, if_neg someRoot, node_of here, ok_bind]
      change (levels.walkAscending _ (rootOf left) >>= _) = _
      rw [leftIH leftSpells room.1, ok_bind]
      change (levels.walkAscending _ (rootOf right) >>= _) = _
      rw [rightIH rightSpells room.2, ok_bind, AvlTree.entries,
        List.map_append, List.map_cons]
      rfl

end Queries

end ItchExchange.Book.AvlLevelMap
