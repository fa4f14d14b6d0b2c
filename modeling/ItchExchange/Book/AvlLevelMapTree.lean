import ItchExchange.Book.AvlLevelMap
import ItchExchange.Library.AvlTree

/-!
# The tree which the nodes spell

A tree of the library is spelt by the links between elements of the array.  The
functions of `AvlLevelMap` turn the elements which spell a tree into elements
which spell the tree of the corresponding operation, and leave all others alone.
-/

namespace ItchExchange.Book.AvlLevelMap

open ItchExchange.Core ItchExchange.Library

abbrev Tree := AvlTree UInt32 Price LevelHandle

/-- The index of the root. -/
def rootOf : Tree → UInt32
  | .nil => kNull
  | .node place _ _ _ _ => place

/-- The element of a node over two children. -/
def recordOf (left : Tree) (key : Price) (value : LevelHandle)
    (right : Tree) : Node where
  price := key
  level := value
  left := rootOf left
  right := rootOf right
  height := UInt32.ofNat (1 + max left.height right.height)

/-- Every node of the tree is at its place. -/
def Spells (nodes : List Node) : Tree → Prop
  | .nil => True
  | .node place left key value right =>
      place ≠ kNull ∧
        nodes[place.toNat]? = some (recordOf left key value right) ∧
        Spells nodes left ∧ Spells nodes right

/-- A node is at its place, but for its height; its children are spelt. -/
def SpellsLinks (nodes : List Node) (place : UInt32) (left : Tree)
    (key : Price) (value : LevelHandle) (right : Tree) : Prop :=
  place ≠ kNull ∧
    (∃ height, nodes[place.toNat]? =
      some { recordOf left key value right with height }) ∧
    Spells nodes left ∧ Spells nodes right

theorem Spells.congr {nodes nodes' : List Node} {tree : Tree}
    (same : ∀ place ∈ tree.places,
      nodes'[place.toNat]? = nodes[place.toNat]?)
    (spells : Spells nodes tree) : Spells nodes' tree := by
  induction tree with
  | nil => trivial
  | node place left key value right leftIH rightIH =>
      obtain ⟨notNull, record, leftSpells, rightSpells⟩ := spells
      rw [AvlTree.places] at same
      refine ⟨notNull, ?_, leftIH ?_ leftSpells, rightIH ?_ rightSpells⟩
      · rw [same place (by simp), record]
      · exact fun other member =>
          same other (List.mem_append_left _ member)
      · exact fun other member => same other
          (List.mem_append_right _ (List.mem_cons_of_mem _ member))

theorem Spells.links {nodes : List Node} {place : UInt32} {left right : Tree}
    {key : Price} {value : LevelHandle}
    (spells : Spells nodes (.node place left key value right)) :
    SpellsLinks nodes place left key value right :=
  ⟨spells.1, ⟨_, spells.2.1⟩, spells.2.2⟩

theorem Spells.ne_null {nodes : List Node} {tree : Tree}
    (spells : Spells nodes tree) : ∀ place ∈ tree.places, place ≠ kNull := by
  induction tree with
  | nil => exact fun place member => absurd member List.not_mem_nil
  | node place left key value right leftIH rightIH =>
      obtain ⟨notNull, -, leftSpells, rightSpells⟩ := spells
      intro other member
      rcases List.mem_append.mp member with inLeft | member
      · exact leftIH leftSpells other inLeft
      · rcases List.mem_cons.mp member with rfl | inRight
        · exact notNull
        · exact rightIH rightSpells other inRight

theorem rootOf_eq_null_iff {nodes : List Node} {tree : Tree}
    (spells : Spells nodes tree) : rootOf tree = kNull ↔ tree = .nil := by
  cases tree with
  | nil => simp [rootOf]
  | node place left key value right =>
      simpa [rootOf] using spells.1

/-! ## Steps on single elements -/

section Elements

variable {levels : AvlLevelMap} {n : UInt32} {node : Node}

theorem node_of (here : levels.nodes[n.toNat]? = some node) :
    levels.node n = .ok node := by
  rw [AvlLevelMap.node, here]

theorem update_of (here : levels.nodes[n.toNat]? = some node)
    (change : Node → Node) :
    levels.update n change =
      .ok { levels with
        nodes := levels.nodes.set n.toNat (change node) } := by
  rw [update, node_of here]
  rfl

theorem getElem?_set_self {nodes : List Node}
    (here : nodes[n.toNat]? = some node) (changed : Node) :
    (nodes.set n.toNat changed)[n.toNat]? = some changed := by
  have inside : n.toNat < nodes.length := by
    by_contra outside
    rw [List.getElem?_eq_none (not_lt.mp outside)] at here
    cases here
  rw [List.getElem?_set_self inside]

theorem getElem?_set_ne {nodes : List Node} {other : UInt32}
    (distinct : other ≠ n) (changed : Node) :
    (nodes.set n.toNat changed)[other.toNat]? = nodes[other.toNat]? :=
  List.getElem?_set_ne fun equal => distinct (UInt32.toNat_inj.mp equal).symm

/-- A change at another place leaves a tree alone. -/
theorem Spells.set {nodes : List Node} {tree : Tree}
    (spells : Spells nodes tree) (other : n ∉ tree.places)
    (changed : Node) : Spells (nodes.set n.toNat changed) tree := by
  refine spells.congr fun place member => getElem?_set_ne ?_ changed
  rintro rfl
  exact other member

end Elements

/-- Only the elements at the given places differ. -/
structure Touches (levels later : AvlLevelMap) (places : List UInt32) :
    Prop where
  elsewhere : ∀ n, n ∉ places →
    later.nodes[n.toNat]? = levels.nodes[n.toNat]?
  length : later.nodes.length = levels.nodes.length
  side : later.side = levels.side
  root : later.root = levels.root
  free : later.free = levels.free
  size : later.size = levels.size

namespace Touches

variable {first second third : AvlLevelMap} {places more : List UInt32}

theorem refl (levels : AvlLevelMap) (places : List UInt32) :
    Touches levels levels places :=
  ⟨fun _ _ => rfl, rfl, rfl, rfl, rfl, rfl⟩

theorem trans (before : Touches first second places)
    (after : Touches second third places) : Touches first third places where
  elsewhere := fun n other =>
    (after.elsewhere n other).trans (before.elsewhere n other)
  length := after.length.trans before.length
  side := after.side.trans before.side
  root := after.root.trans before.root
  free := after.free.trans before.free
  size := after.size.trans before.size

theorem mono (touches : Touches first second places)
    (subset : ∀ n ∈ places, n ∈ more) : Touches first second more where
  elsewhere := fun n other =>
    touches.elsewhere n fun member => other (subset n member)
  length := touches.length
  side := touches.side
  root := touches.root
  free := touches.free
  size := touches.size

theorem set (levels : AvlLevelMap) {n : UInt32} (member : n ∈ places)
    (changed : Node) :
    Touches levels
      { levels with nodes := levels.nodes.set n.toNat changed } places where
  elsewhere := by
    intro other outside
    refine getElem?_set_ne ?_ changed
    rintro rfl
    exact outside member
  length := List.length_set
  side := rfl
  root := rfl
  free := rfl
  size := rfl

theorem spells (touches : Touches first second places) {tree : Tree}
    (disjoint : ∀ n ∈ tree.places, n ∉ places)
    (spells : Spells first.nodes tree) : Spells second.nodes tree :=
  spells.congr fun n member => touches.elsewhere n (disjoint n member)

end Touches

/-! ## Heights -/

/-- Heights which `int` arithmetic carries exactly. -/
def Low (tree : Tree) : Prop := tree.height < 2 ^ 30

section Heights

variable {levels : AvlLevelMap} {tree left right : Tree} {n : UInt32}
  {node : Node}

theorem heightOf_spelt (spells : Spells levels.nodes tree) :
    levels.heightOf (rootOf tree) = .ok (UInt32.ofNat tree.height) := by
  cases tree with
  | nil => rfl
  | node place left key value right =>
      obtain ⟨notNull, here, -, -⟩ := spells
      rw [heightOf, rootOf, if_neg notNull, node_of here]
      rfl

theorem toNat_height (low : Low tree) :
    (UInt32.ofNat tree.height).toNat = tree.height :=
  UInt32.toNat_ofNat_of_lt' (lt_trans low (by decide))

theorem max_heights (leftLow : Low left) (rightLow : Low right) :
    1 + max (UInt32.ofNat left.height) (UInt32.ofNat right.height) =
      UInt32.ofNat (1 + max left.height right.height) := by
  have bound := leftLow
  have bound' := rightLow
  unfold Low at bound bound'
  have leftNat := toNat_height leftLow
  have rightNat := toNat_height rightLow
  rw [UInt32.ofNat_add]
  congr 1
  change (if UInt32.ofNat left.height ≤ UInt32.ofNat right.height then
    UInt32.ofNat right.height else UInt32.ofNat left.height) = _
  split_ifs with taller
  · rw [UInt32.le_iff_toNat_le, leftNat, rightNat] at taller
    rw [max_eq_right taller]
  · rw [UInt32.le_iff_toNat_le, leftNat, rightNat] at taller
    rw [max_eq_left (not_le.mp taller).le]

theorem subtractInt_heights (leftLow : Low left) (rightLow : Low right) :
    subtractInt (UInt32.ofNat left.height) (UInt32.ofNat right.height) =
      .ok ((left.height : Int) - right.height) := by
  have cast : ∀ {tree : Tree}, Low tree →
      (UInt32.ofNat tree.height).toInt32.toInt = tree.height := fun low =>
    Int32.toInt_ofNat_of_lt (lt_trans low (by decide))
  unfold Low at leftLow rightLow
  rw [subtractInt, cast leftLow, cast rightLow]
  exact if_pos (by omega)

theorem balanceOf_spelt (low : Low tree) (spells : Spells levels.nodes tree) :
    levels.balanceOf (rootOf tree) = .ok tree.tilt := by
  cases tree with
  | nil => rfl
  | node place left key value right =>
      obtain ⟨notNull, here, leftSpells, rightSpells⟩ := spells
      unfold Low at low
      rw [AvlTree.height] at low
      rw [balanceOf, rootOf, if_neg notNull, node_of here, ok_bind,
        recordOf, heightOf_spelt leftSpells, ok_bind,
        heightOf_spelt rightSpells, ok_bind,
        subtractInt_heights (by unfold Low; omega) (by unfold Low; omega)]
      rfl

variable {place : UInt32} {key : Price} {value : LevelHandle}

/-- `retune` stores the height which is missing. -/
theorem retune_links (leftLow : Low left) (rightLow : Low right)
    (other : place ∉ left.places ++ right.places)
    (links : SpellsLinks levels.nodes place left key value right) :
    ∃ later, levels.retune place = .ok later ∧
      Spells later.nodes (.node place left key value right) ∧
      Touches levels later [place] := by
  obtain ⟨notNull, ⟨height, here⟩, leftSpells, rightSpells⟩ := links
  rw [List.mem_append, not_or] at other
  refine ⟨_, ?_, ⟨notNull, getElem?_set_self here _,
    leftSpells.set other.1 _, rightSpells.set other.2 _⟩,
    Touches.set levels List.mem_cons_self _⟩
  rw [retune, node_of here, ok_bind, recordOf, heightOf_spelt leftSpells,
    ok_bind, heightOf_spelt rightSpells, ok_bind, update_of here,
    max_heights leftLow rightLow]
  rfl

end Heights

/-! ## Rotations -/

section Rotations

variable {levels : AvlLevelMap} {place x y : UInt32}
  {left middle right : Tree} {key xKey yKey : Price}
  {value xValue yValue : LevelHandle}

/-- What keeps the parts of a rotation apart. -/
structure Apart (left : Tree) (x : UInt32) (middle : Tree) (y : UInt32)
    (right : Tree) : Prop where
  places : x ≠ y
  leftX : x ∉ left.places
  leftY : y ∉ left.places
  middleX : x ∉ middle.places
  middleY : y ∉ middle.places
  rightX : x ∉ right.places
  rightY : y ∉ right.places

theorem apart_of_nodup
    (distinct :
      (left.places ++ x :: (middle.places ++ y :: right.places)).Nodup) :
    Apart left x middle y right := by
  simp only [List.nodup_append, List.nodup_cons, List.mem_append,
    List.mem_cons, not_or] at distinct
  obtain ⟨-, ⟨⟨middleX, places, rightX⟩, -, ⟨rightY, -⟩, middleRight⟩,
    leftRest⟩ := distinct
  refine ⟨places, ?_, ?_, middleX, ?_, rightX, rightY⟩
  · exact fun member => leftRest x member x (Or.inl rfl) rfl
  · exact fun member =>
      leftRest y member y (Or.inr (Or.inr (Or.inl rfl))) rfl
  · exact fun member => middleRight y member y (Or.inl rfl) rfl

theorem rotateRight_links (apart : Apart left x middle y right)
    (low : Low (.node y (.node x left xKey xValue middle) yKey yValue right))
    (links : SpellsLinks levels.nodes y
      (.node x left xKey xValue middle) yKey yValue right) :
    ∃ later, levels.rotateRight y = .ok (x, later) ∧
      Spells later.nodes
        (.node x left xKey xValue (.node y middle yKey yValue right)) ∧
      Touches levels later [x, y] := by
  unfold Low at low
  simp only [AvlTree.height] at low
  obtain ⟨notNullY, ⟨height, upper⟩,
    ⟨notNullX, lower, leftSpells, middleSpells⟩, rightSpells⟩ := links
  have lowerStill : (levels.nodes.set y.toNat
      { price := yKey, level := yValue, left := rootOf middle,
        right := rootOf right, height := height })[x.toNat]? =
        some (recordOf left xKey xValue middle) := by
    rw [getElem?_set_ne apart.places, lower]
  set swapped : AvlLevelMap :=
    { levels with
      nodes := (levels.nodes.set y.toNat
        { price := yKey, level := yValue, left := rootOf middle,
          right := rootOf right, height := height }).set x.toNat
        { recordOf left xKey xValue middle with right := y } } with changed
  have touched : Touches levels swapped [x, y] :=
    (Touches.set levels (by simp) _).trans
      (Touches.set _ (by simp) _)
  have keeps : ∀ {tree : Tree}, x ∉ tree.places → y ∉ tree.places →
      Spells levels.nodes tree → Spells swapped.nodes tree :=
    fun otherX otherY spells => (spells.set otherY _).set otherX _
  have linksY : SpellsLinks swapped.nodes y middle yKey yValue right := by
    refine ⟨notNullY, ⟨height, ?_⟩,
      keeps apart.middleX apart.middleY middleSpells,
      keeps apart.rightX apart.rightY rightSpells⟩
    rw [changed]
    dsimp only
    rw [getElem?_set_ne apart.places.symm, getElem?_set_self upper]
    rfl
  obtain ⟨second, tunedY, spellsY, touchedY⟩ := retune_links
    (by unfold Low; omega) (by unfold Low; omega)
    (by simp [apart.middleY, apart.rightY]) linksY
  have linksX : SpellsLinks second.nodes x left xKey xValue
      (.node y middle yKey yValue right) := by
    refine ⟨notNullX, ⟨UInt32.ofNat (1 + max left.height middle.height), ?_⟩,
      touchedY.spells (fun n member equal => ?_)
        (keeps apart.leftX apart.leftY leftSpells), spellsY⟩
    · rw [touchedY.elsewhere x (by simpa using apart.places), changed]
      dsimp only
      rw [getElem?_set_self lowerStill]
      rfl
    · rw [List.mem_singleton] at equal
      exact apart.leftY (equal ▸ member)
  obtain ⟨third, tunedX, spellsX, touchedX⟩ := retune_links
    (by unfold Low; omega)
    (by unfold Low; simp only [AvlTree.height]; omega)
    (by simp [AvlTree.places, apart.leftX, apart.middleX, apart.rightX,
      apart.places]) linksX
  refine ⟨third, ?_, spellsX, (touched.trans
    (touchedY.mono (by simp))).trans (touchedX.mono (by simp))⟩
  rw [rotateRight, node_of upper, ok_bind]
  dsimp only [recordOf, rootOf]
  rw [node_of lower, ok_bind, update_of upper, ok_bind]
  dsimp only [recordOf, rootOf]
  rw [update_of lowerStill, ok_bind]
  change (swapped.retune y >>= _) = _
  rw [tunedY, ok_bind, tunedX]
  rfl

theorem rotateLeft_links (apart : Apart left x middle y right)
    (low : Low (.node x left xKey xValue (.node y middle yKey yValue right)))
    (links : SpellsLinks levels.nodes x left xKey xValue
      (.node y middle yKey yValue right)) :
    ∃ later, levels.rotateLeft x = .ok (y, later) ∧
      Spells later.nodes
        (.node y (.node x left xKey xValue middle) yKey yValue right) ∧
      Touches levels later [x, y] := by
  unfold Low at low
  simp only [AvlTree.height] at low
  obtain ⟨notNullX, ⟨height, upper⟩, leftSpells,
    ⟨notNullY, lower, middleSpells, rightSpells⟩⟩ := links
  have lowerStill : (levels.nodes.set x.toNat
      { price := xKey, level := xValue, left := rootOf left,
        right := rootOf middle, height := height })[y.toNat]? =
        some (recordOf middle yKey yValue right) := by
    rw [getElem?_set_ne apart.places.symm, lower]
  set swapped : AvlLevelMap :=
    { levels with
      nodes := (levels.nodes.set x.toNat
        { price := xKey, level := xValue, left := rootOf left,
          right := rootOf middle, height := height }).set y.toNat
        { recordOf middle yKey yValue right with left := x } } with changed
  have touched : Touches levels swapped [x, y] :=
    (Touches.set levels (by simp) _).trans
      (Touches.set _ (by simp) _)
  have keeps : ∀ {tree : Tree}, x ∉ tree.places → y ∉ tree.places →
      Spells levels.nodes tree → Spells swapped.nodes tree :=
    fun otherX otherY spells => (spells.set otherX _).set otherY _
  have linksX : SpellsLinks swapped.nodes x left xKey xValue middle := by
    refine ⟨notNullX, ⟨height, ?_⟩,
      keeps apart.leftX apart.leftY leftSpells,
      keeps apart.middleX apart.middleY middleSpells⟩
    rw [changed]
    dsimp only
    rw [getElem?_set_ne apart.places, getElem?_set_self upper]
    rfl
  obtain ⟨second, tunedX, spellsX, touchedX⟩ := retune_links
    (by unfold Low; omega) (by unfold Low; omega)
    (by simp [apart.leftX, apart.middleX]) linksX
  have linksY : SpellsLinks second.nodes y
      (.node x left xKey xValue middle) yKey yValue right := by
    refine ⟨notNullY,
      ⟨UInt32.ofNat (1 + max middle.height right.height), ?_⟩,
      spellsX, touchedX.spells (fun n member equal => ?_)
        (keeps apart.rightX apart.rightY rightSpells)⟩
    · rw [touchedX.elsewhere y (by simpa using apart.places.symm), changed]
      dsimp only
      rw [getElem?_set_self lowerStill]
      rfl
    · rw [List.mem_singleton] at equal
      exact apart.rightX (equal ▸ member)
  obtain ⟨third, tunedY, spellsY, touchedY⟩ := retune_links
    (by unfold Low; simp only [AvlTree.height]; omega)
    (by unfold Low; omega)
    (by simp [AvlTree.places, apart.leftY, apart.middleY, apart.rightY,
      apart.places.symm]) linksY
  refine ⟨third, ?_, spellsY, (touched.trans
    (touchedX.mono (by simp))).trans (touchedY.mono (by simp))⟩
  rw [rotateLeft, node_of upper, ok_bind]
  dsimp only [recordOf, rootOf]
  rw [node_of lower, ok_bind, update_of upper, ok_bind]
  dsimp only [recordOf, rootOf]
  rw [update_of lowerStill, ok_bind]
  change (swapped.retune x >>= _) = _
  rw [tunedX, ok_bind, tunedY]
  rfl

end Rotations

/-! ## Rebalancing -/

section Rebalance

variable {levels : AvlLevelMap} {place : UInt32} {left right : Tree}
  {key : Price} {value : LevelHandle}

/-- The places of a node over two children. -/
abbrev around (left : Tree) (place : UInt32) (right : Tree) : List UInt32 :=
  left.places ++ place :: right.places

/-- What keeps the parts of a node apart. -/
structure Separate (left : Tree) (place : UInt32) (right : Tree) :
    Prop where
  leftNodup : left.places.Nodup
  rightNodup : right.places.Nodup
  notLeft : place ∉ left.places
  notRight : place ∉ right.places
  disjoint : ∀ n ∈ left.places, n ∉ right.places

theorem separate_of_nodup (distinct : (around left place right).Nodup) :
    Separate left place right := by
  simp only [around, List.nodup_append, List.nodup_cons,
    List.mem_cons] at distinct
  obtain ⟨leftNodup, ⟨notRight, rightNodup⟩, across⟩ := distinct
  refine ⟨leftNodup, rightNodup, ?_, notRight, ?_⟩
  · exact fun member => across place member place (Or.inl rfl) rfl
  · exact fun n member inRight => across n member n (Or.inr inRight) rfl

/-- Replace the left child of a node. -/
theorem update_left {other : Tree} {height : UInt32}
    (here : levels.nodes[place.toNat]? =
      some { recordOf left key value right with height })
    (notNull : place ≠ kNull) (notLeft : place ∉ other.places)
    (notRight : place ∉ right.places)
    (spells : Spells levels.nodes other)
    (rightSpells : Spells levels.nodes right) :
    ∃ later,
      levels.update place (fun node => { node with left := rootOf other }) =
          .ok later ∧
        SpellsLinks later.nodes place other key value right ∧
        Touches levels later [place] :=
  ⟨_, update_of here _,
    ⟨notNull, ⟨height, getElem?_set_self here _⟩, spells.set notLeft _,
      rightSpells.set notRight _⟩,
    Touches.set levels List.mem_cons_self _⟩

/-- Replace the right child of a node. -/
theorem update_right {other : Tree} {height : UInt32}
    (here : levels.nodes[place.toNat]? =
      some { recordOf left key value right with height })
    (notNull : place ≠ kNull) (notLeft : place ∉ left.places)
    (notRight : place ∉ other.places)
    (leftSpells : Spells levels.nodes left)
    (spells : Spells levels.nodes other) :
    ∃ later,
      levels.update place (fun node => { node with right := rootOf other }) =
          .ok later ∧
        SpellsLinks later.nodes place left key value other ∧
        Touches levels later [place] :=
  ⟨_, update_of here _,
    ⟨notNull, ⟨height, getElem?_set_self here _⟩,
      leftSpells.set notLeft _, spells.set notRight _⟩,
    Touches.set levels List.mem_cons_self _⟩

/-- The left child, turned so that a rotation to the right is enough. -/
def turnedLeft (left : Tree) : Tree :=
  if left.tilt < 0 then left.rotateLeft else left

/-- The right child, turned so that a rotation to the left is enough. -/
def turnedRight (right : Tree) : Tree :=
  if right.tilt > 0 then right.rotateRight else right

theorem turnedLeft_spec (separate : Separate left place right)
    (low : Low left)
    (links : SpellsLinks levels.nodes place left key value right) :
    ∃ later,
      (if left.tilt < 0 then do
          let (child, levels) ← levels.rotateLeft (rootOf left)
          levels.update place fun node => { node with left := child }
        else .ok levels) = .ok later ∧
        SpellsLinks later.nodes place (turnedLeft left) key value right ∧
        Touches levels later (around left place right) := by
  unfold turnedLeft
  split_ifs with inner
  · obtain ⟨notNull, ⟨height, here⟩, leftSpells, rightSpells⟩ := links
    cases left with
    | nil => simp [AvlTree.tilt] at inner
    | node x outside xKey xValue inside =>
        cases inside with
        | nil =>
            simp only [AvlTree.tilt, AvlTree.height] at inner
            omega
        | node z middle zKey zValue inside =>
            obtain ⟨turned, rotated, turnedSpells, touched⟩ :=
              rotateLeft_links (apart_of_nodup separate.leftNodup) low
                leftSpells.links
            have members : ∀ n ∈ [x, z], n ∈ AvlTree.places
                (.node x outside xKey xValue
                  (.node z middle zKey zValue inside) : Tree) := by
              simp [AvlTree.places]
            have outsidePlace : place ∉ [x, z] := fun member =>
              separate.notLeft (members place member)
            have outsideRight : ∀ n ∈ right.places, n ∉ [x, z] :=
              fun n inRight member =>
                separate.disjoint n (members n member) inRight
            have notTurned : place ∉ AvlTree.places
                (.node z (.node x outside xKey xValue middle) zKey zValue
                  inside : Tree) := by
              have same := separate.notLeft
              simpa [AvlTree.places] using same
            obtain ⟨later, updated, laterLinks, touchedPlace⟩ :=
              update_left
                (by rw [touched.elsewhere place outsidePlace, here])
                notNull notTurned separate.notRight turnedSpells
                (touched.spells outsideRight rightSpells)
            refine ⟨later, ?_, laterLinks, (touched.mono ?_).trans
              (touchedPlace.mono (by simp))⟩
            · rw [rootOf, rotated]
              exact updated
            · exact fun n member =>
                List.mem_append_left _ (members n member)
  · exact ⟨levels, rfl, links, Touches.refl _ _⟩

theorem turnedRight_spec (separate : Separate left place right)
    (low : Low right)
    (links : SpellsLinks levels.nodes place left key value right) :
    ∃ later,
      (if right.tilt > 0 then do
          let (child, levels) ← levels.rotateRight (rootOf right)
          levels.update place fun node => { node with right := child }
        else .ok levels) = .ok later ∧
        SpellsLinks later.nodes place left key value (turnedRight right) ∧
        Touches levels later (around left place right) := by
  unfold turnedRight
  split_ifs with inner
  · obtain ⟨notNull, ⟨height, here⟩, leftSpells, rightSpells⟩ := links
    cases right with
    | nil => simp [AvlTree.tilt] at inner
    | node x inside xKey xValue outside =>
        cases inside with
        | nil =>
            simp only [AvlTree.tilt, AvlTree.height] at inner
            omega
        | node z inside zKey zValue middle =>
            have distinct := separate.rightNodup
            simp only [AvlTree.places, List.append_assoc,
              List.cons_append] at distinct
            obtain ⟨turned, rotated, turnedSpells, touched⟩ :=
              rotateRight_links (apart_of_nodup distinct) low
                rightSpells.links
            have members : ∀ n ∈ [z, x], n ∈ AvlTree.places
                (.node x (.node z inside zKey zValue middle) xKey xValue
                  outside : Tree) := by
              simp [AvlTree.places]
            have outsidePlace : place ∉ [z, x] := fun member =>
              separate.notRight (members place member)
            have outsideLeft : ∀ n ∈ left.places, n ∉ [z, x] :=
              fun n inLeft member =>
                separate.disjoint n inLeft (members n member)
            have notTurned : place ∉ AvlTree.places
                (.node z inside zKey zValue
                  (.node x middle xKey xValue outside) : Tree) := by
              have same := separate.notRight
              simpa [AvlTree.places] using same
            obtain ⟨later, updated, laterLinks, touchedPlace⟩ :=
              update_right
                (by rw [touched.elsewhere place outsidePlace, here])
                notNull separate.notLeft notTurned
                (touched.spells outsideLeft leftSpells) turnedSpells
            refine ⟨later, ?_, laterLinks, (touched.mono ?_).trans
              (touchedPlace.mono (by simp))⟩
            · rw [rootOf, rotated]
              exact updated
            · exact fun n member => List.mem_append_right _
                (List.mem_cons_of_mem _ (members n member))
  · exact ⟨levels, rfl, links, Touches.refl _ _⟩

/-- Turning a child does not make it higher. -/
theorem height_turnedLeft_le (left : Tree) :
    (turnedLeft left).height ≤ left.height := by
  unfold turnedLeft
  split_ifs with inner
  · cases left with
    | nil => exact le_refl _
    | node x outside xKey xValue inside =>
        cases inside with
        | nil => exact le_refl _
        | node z middle zKey zValue inside =>
            simp only [AvlTree.rotateLeft, AvlTree.height,
              AvlTree.tilt] at *
            omega
  · exact le_refl _

theorem height_turnedRight_le (right : Tree) :
    (turnedRight right).height ≤ right.height := by
  unfold turnedRight
  split_ifs with inner
  · cases right with
    | nil => exact le_refl _
    | node x inside xKey xValue outside =>
        cases inside with
        | nil => exact le_refl _
        | node z inside zKey zValue middle =>
            simp only [AvlTree.rotateRight, AvlTree.height,
              AvlTree.tilt] at *
            omega
  · exact le_refl _

@[simp]
theorem places_turnedLeft (left : Tree) :
    (turnedLeft left).places = left.places := by
  unfold turnedLeft
  split_ifs <;> simp

@[simp]
theorem places_turnedRight (right : Tree) :
    (turnedRight right).places = right.places := by
  unfold turnedRight
  split_ifs <;> simp

theorem nil_of_places {tree : Tree} (none : tree.places = []) :
    tree = .nil := by
  cases tree with
  | nil => rfl
  | node place left key value right => simp [AvlTree.places] at none

/-- `rebalance` restores the height of a node, and rotates where it must. -/
theorem rebalance_links (distinct : (around left place right).Nodup)
    (low : Low (.node place left key value right))
    (links : SpellsLinks levels.nodes place left key value right) :
    ∃ later,
      levels.rebalance place =
          .ok (rootOf (AvlTree.rebalance place left key value right),
            later) ∧
        Spells later.nodes (AvlTree.rebalance place left key value right) ∧
        Touches levels later (around left place right) := by
  have separate := separate_of_nodup distinct
  have lows := low
  unfold Low at lows
  simp only [AvlTree.height] at lows
  have leftLow : Low left := by
    unfold Low
    omega
  have rightLow : Low right := by
    unfold Low
    omega
  obtain ⟨tuned, retuned, spells, touched⟩ := retune_links leftLow rightLow
    (by simp [separate.notLeft, separate.notRight]) links
  have touchedAll : Touches levels tuned (around left place right) :=
    touched.mono (by simp [around])
  have balance : tuned.balanceOf place =
      .ok ((left.height : Int) - right.height) := balanceOf_spelt low spells
  obtain ⟨notNull, here, leftSpells, rightSpells⟩ := spells
  unfold AvlLevelMap.rebalance AvlTree.rebalance
  rw [retuned, ok_bind, balance, ok_bind, node_of here, ok_bind]
  by_cases high : (left.height : Int) - right.height > 1
  · rw [if_pos high, if_pos high]
    have inner : tuned.balanceOf (rootOf left) = .ok left.tilt :=
      balanceOf_spelt leftLow leftSpells
    obtain ⟨turned, done, turnedLinks, touchedTurn⟩ := turnedLeft_spec
      separate leftLow ⟨notNull, ⟨_, here⟩, leftSpells, rightSpells⟩
    have lower := height_turnedLeft_le left
    have same := places_turnedLeft left
    rw [← turnedLeft]
    dsimp only [recordOf]
    rw [inner, ok_bind]
    cases shape : turnedLeft left with
    | nil =>
        rw [shape] at same
        rw [nil_of_places same.symm, AvlTree.height] at high
        omega
    | node x outside xKey xValue middle =>
        rw [shape] at turnedLinks lower same
        have rotatedDistinct : (outside.places ++
            x :: (middle.places ++ place :: right.places)).Nodup := by
          have equal := distinct
          rw [around, ← same] at equal
          simpa [AvlTree.places] using equal
        rw [AvlTree.height] at lower
        obtain ⟨later, rotated, laterSpells, touchedLater⟩ :=
          rotateRight_links (apart_of_nodup rotatedDistinct)
            (by unfold Low; simp only [AvlTree.height]; omega) turnedLinks
        refine ⟨later, ?_, laterSpells,
          (touchedAll.trans touchedTurn).trans (touchedLater.mono ?_)⟩
        · have step := congrArg (fun result : Checked AvlLevelMap =>
            result >>= fun levels => levels.rotateRight place) done
          refine Eq.trans ?_ (step.trans rotated)
          split_ifs
          · exact (bind_assoc ..).symm
          · rfl
        · have member : x ∈ left.places := by
            rw [← same]
            simp [AvlTree.places]
          simp [around, member]
  · rw [if_neg high, if_neg high]
    by_cases deep : (left.height : Int) - right.height < -1
    · rw [if_pos deep, if_pos deep]
      have inner : tuned.balanceOf (rootOf right) = .ok right.tilt :=
        balanceOf_spelt rightLow rightSpells
      obtain ⟨turned, done, turnedLinks, touchedTurn⟩ := turnedRight_spec
        separate rightLow ⟨notNull, ⟨_, here⟩, leftSpells, rightSpells⟩
      have lower := height_turnedRight_le right
      have same := places_turnedRight right
      rw [← turnedRight]
      dsimp only [recordOf]
      rw [inner, ok_bind]
      cases shape : turnedRight right with
      | nil =>
          rw [shape] at same
          rw [nil_of_places same.symm, AvlTree.height] at deep
          omega
      | node y middle yKey yValue outside =>
          rw [shape] at turnedLinks lower same
          have rotatedDistinct : (left.places ++
              place :: (middle.places ++ y :: outside.places)).Nodup := by
            have equal := distinct
            rw [around, ← same] at equal
            simpa [AvlTree.places] using equal
          rw [AvlTree.height] at lower
          obtain ⟨later, rotated, laterSpells, touchedLater⟩ :=
            rotateLeft_links (apart_of_nodup rotatedDistinct)
              (by unfold Low; simp only [AvlTree.height]; omega) turnedLinks
          refine ⟨later, ?_, laterSpells,
            (touchedAll.trans touchedTurn).trans (touchedLater.mono ?_)⟩
          · have step := congrArg (fun result : Checked AvlLevelMap =>
              result >>= fun levels => levels.rotateLeft place) done
            refine Eq.trans ?_ (step.trans rotated)
            split_ifs
            · exact (bind_assoc ..).symm
            · rfl
          · have member : y ∈ right.places := by
              rw [← same]
              simp [AvlTree.places]
            simp [around, member]
    · rw [if_neg deep, if_neg deep]
      exact ⟨tuned, rfl, ⟨notNull, here, leftSpells, rightSpells⟩,
        touchedAll⟩

end Rebalance

/-! ## Insertion -/

/-- The order of prices is linear. -/
scoped instance : LinearOrder Price where
  le := (· ≤ ·)
  lt := (· < ·)
  le_refl := UInt32.le_refl
  le_trans := fun _ _ _ => UInt32.le_trans
  le_antisymm := fun _ _ => UInt32.le_antisymm
  le_total := UInt32.le_total
  lt_iff_le_not_ge := fun first second => by
    rw [UInt32.lt_iff_toNat_lt, UInt32.le_iff_toNat_le,
      UInt32.le_iff_toNat_le]
    omega
  toDecidableLE := UInt32.decLe
  toDecidableEq := instDecidableEqUInt32
  toDecidableLT := UInt32.decLt

section Insert

variable {levels made : AvlLevelMap} {tree : Tree} {fresh : UInt32}
  {p : Price} {h : LevelHandle}

/-- A node for the entry has been taken, and nothing else has changed. -/
structure Taken (levels made : AvlLevelMap) (fresh : UInt32) (p : Price)
    (h : LevelHandle) : Prop where
  taken : levels.newNode p h = .ok (fresh, made)
  notNull : fresh ≠ kNull
  here : made.nodes[fresh.toNat]? = some (recordOf .nil p h .nil)
  elsewhere : ∀ n, n ≠ fresh →
    made.nodes[n.toNat]? = levels.nodes[n.toNat]?

/-- `insert_at` inserts below a node. -/
theorem insertAt_spelt (taken : Taken levels made fresh p h)
    (spells : Spells levels.nodes tree)
    (distinct : (fresh :: tree.places).Nodup)
    (low : tree.height + 1 < 2 ^ 30) (balanced : tree.Balanced)
    (absent : ∀ entry ∈ tree.entries, entry.1 ≠ p) {depth : Nat}
    (deep : tree.height < depth) :
    ∃ later,
      insertAt p h depth levels (rootOf tree) =
          .ok (rootOf (tree.insert fresh p h), later) ∧
        Spells later.nodes (tree.insert fresh p h) ∧
        Touches made later (fresh :: tree.places) := by
  induction tree generalizing depth with
  | nil =>
      obtain ⟨depth, rfl⟩ := Nat.exists_eq_add_of_lt deep
      refine ⟨made, ?_, ⟨taken.notNull, taken.here, trivial, trivial⟩,
        Touches.refl _ _⟩
      rw [insertAt, rootOf, if_pos rfl, taken.taken]
      rfl
  | node place left key value right leftIH rightIH =>
      obtain ⟨depth, rfl⟩ := Nat.exists_eq_add_of_lt deep
      obtain ⟨notNull, here, leftSpells, rightSpells⟩ := spells
      obtain ⟨leftBalanced, rightBalanced, -, -⟩ := balanced
      rw [List.nodup_cons] at distinct
      obtain ⟨notFresh, nodup⟩ := distinct
      have separate := separate_of_nodup nodup
      have freshPlace : place ≠ fresh := by
        rintro rfl
        exact notFresh (by simp [AvlTree.places])
      have freshLeft : fresh ∉ left.places := fun member =>
        notFresh (List.mem_append_left _ member)
      have freshRight : fresh ∉ right.places := fun member =>
        notFresh (List.mem_append_right _ (List.mem_cons_of_mem _ member))
      have notHere : p ≠ (recordOf left key value right).price :=
        (absent (key, value) (by simp [AvlTree.entries])).symm
      rw [AvlTree.height] at low deep
      rw [insertAt, rootOf, if_neg notNull, node_of here, ok_bind,
        assertMsg_of notHere, ok_bind, AvlTree.insert]
      by_cases smaller : p < key
      · have below : p < (recordOf left key value right).price := smaller
        rw [if_pos smaller, if_pos below]
        have room : left.height <
            AvlTree.height (.node place left key value right) + depth := by
          rw [AvlTree.height]
          omega
        obtain ⟨grown, done, grownSpells, touched⟩ := leftIH leftSpells
          (List.nodup_cons.mpr ⟨freshLeft, separate.leftNodup⟩) (by omega)
          leftBalanced
          (fun entry member =>
            absent entry (List.mem_append_left _ member)) room
        have members : ∀ n, n ∈ (left.insert fresh p h).places ↔
            n ∈ fresh :: left.places :=
          fun n => AvlTree.places_insert.mem_iff
        have notGrown : place ∉ (left.insert fresh p h).places := by
          rw [members, List.mem_cons, not_or]
          exact ⟨freshPlace, separate.notLeft⟩
        have hereStill : grown.nodes[place.toNat]? =
            some (recordOf left key value right) := by
          rw [touched.elsewhere place, taken.elsewhere place freshPlace, here]
          rw [List.mem_cons, not_or]
          exact ⟨freshPlace, separate.notLeft⟩
        have rightStill : Spells grown.nodes right := by
          refine rightSpells.congr fun n member => ?_
          have other : n ≠ fresh := fun equal => freshRight (equal ▸ member)
          rw [touched.elsewhere n, taken.elsewhere n other]
          rw [List.mem_cons, not_or]
          exact ⟨other, fun inLeft => separate.disjoint n inLeft member⟩
        obtain ⟨linked, updated, links, touchedPlace⟩ :=
          update_left hereStill notNull notGrown separate.notRight grownSpells
            rightStill
        have higher : (left.insert fresh p h).height ≤
            left.height + 1 := (AvlTree.balanced_insert leftBalanced).2.2
        have rearranged : (around (left.insert fresh p h) place right).Perm
            (fresh :: around left place right) :=
          AvlTree.places_insert.append_right _
        obtain ⟨later, rebalanced, laterSpells, touchedLater⟩ :=
          rebalance_links
            (rearranged.nodup_iff.mpr
              (List.nodup_cons.mpr ⟨notFresh, nodup⟩))
            (by unfold Low; rw [AvlTree.height]; omega) links
        refine ⟨later, ?_, laterSpells,
          ((touched.mono ?_).trans (touchedPlace.mono ?_)).trans
            (touchedLater.mono ?_)⟩
        · change (insertAt p h _ levels (rootOf left) >>= _) = _
          rw [done, ok_bind]
          dsimp only
          rw [updated, ok_bind]
          exact rebalanced
        · intro n member
          rcases List.mem_cons.mp member with rfl | inLeft
          · exact List.mem_cons_self
          · exact List.mem_cons_of_mem _ (List.mem_append_left _ inLeft)
        · simp [AvlTree.places]
        · exact fun n member => rearranged.mem_iff.mp member
      · have above : ¬ p < (recordOf left key value right).price := smaller
        rw [if_neg smaller, if_neg above]
        have room : right.height <
            AvlTree.height (.node place left key value right) + depth := by
          rw [AvlTree.height]
          omega
        obtain ⟨grown, done, grownSpells, touched⟩ := rightIH rightSpells
          (List.nodup_cons.mpr ⟨freshRight, separate.rightNodup⟩)
          (by omega) rightBalanced
          (fun entry member => absent entry (List.mem_append_right _
            (List.mem_cons_of_mem _ member))) room
        have members : ∀ n, n ∈ (right.insert fresh p h).places ↔
            n ∈ fresh :: right.places :=
          fun n => AvlTree.places_insert.mem_iff
        have notGrown : place ∉ (right.insert fresh p h).places := by
          rw [members, List.mem_cons, not_or]
          exact ⟨freshPlace, separate.notRight⟩
        have hereStill : grown.nodes[place.toNat]? =
            some (recordOf left key value right) := by
          rw [touched.elsewhere place, taken.elsewhere place freshPlace, here]
          rw [List.mem_cons, not_or]
          exact ⟨freshPlace, separate.notRight⟩
        have leftStill : Spells grown.nodes left := by
          refine leftSpells.congr fun n member => ?_
          have other : n ≠ fresh := fun equal => freshLeft (equal ▸ member)
          rw [touched.elsewhere n, taken.elsewhere n other]
          rw [List.mem_cons, not_or]
          exact ⟨other, separate.disjoint n member⟩
        obtain ⟨linked, updated, links, touchedPlace⟩ :=
          update_right hereStill notNull separate.notLeft notGrown leftStill
            grownSpells
        have higher : (right.insert fresh p h).height ≤
            right.height + 1 := (AvlTree.balanced_insert rightBalanced).2.2
        have rearranged : (around left place (right.insert fresh p h)).Perm
            (fresh :: around left place right) :=
          ((AvlTree.places_insert.cons place).append_left _).trans
            (((List.Perm.swap fresh place _).append_left _).trans
              List.perm_middle)
        obtain ⟨later, rebalanced, laterSpells, touchedLater⟩ :=
          rebalance_links
            (rearranged.nodup_iff.mpr
              (List.nodup_cons.mpr ⟨notFresh, nodup⟩))
            (by unfold Low; rw [AvlTree.height]; omega) links
        refine ⟨later, ?_, laterSpells,
          ((touched.mono ?_).trans (touchedPlace.mono ?_)).trans
            (touchedLater.mono ?_)⟩
        · change (insertAt p h _ levels (rootOf right) >>= _) = _
          rw [done, ok_bind]
          dsimp only
          rw [updated, ok_bind]
          exact rebalanced
        · intro n member
          rcases List.mem_cons.mp member with rfl | inRight
          · exact List.mem_cons_self
          · exact List.mem_cons_of_mem _ (List.mem_append_right _
              (List.mem_cons_of_mem _ inRight))
        · simp [AvlTree.places]
        · exact fun n member => rearranged.mem_iff.mp member

end Insert

end ItchExchange.Book.AvlLevelMap
