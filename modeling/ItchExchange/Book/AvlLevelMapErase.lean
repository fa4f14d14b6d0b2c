import ItchExchange.Book.AvlLevelMapTree

/-!
# Erasure from the tree of price levels

`erase_at` turns the elements which spell a tree into elements which spell the
tree without a price.  It gives one element back, which becomes the head of the
free list.
-/

namespace ItchExchange.Book.AvlLevelMap

open ItchExchange.Core ItchExchange.Library

/-- Distinct places of a tree which is spelt are elements of the array. -/
theorem Spells.places_lt {nodes : List Node} {tree : Tree}
    (spells : Spells nodes tree) :
    ∀ place ∈ tree.places, place.toNat < nodes.length := by
  induction tree with
  | nil => exact fun place member => absurd member List.not_mem_nil
  | node place left key value right leftIH rightIH =>
      obtain ⟨-, here, leftSpells, rightSpells⟩ := spells
      intro other member
      rcases List.mem_append.mp member with inLeft | member
      · exact leftIH leftSpells other inLeft
      · rcases List.mem_cons.mp member with rfl | inRight
        · by_contra outside
          rw [List.getElem?_eq_none (not_lt.mp outside)] at here
          cases here
        · exact rightIH rightSpells other inRight

theorem Spells.length_le {nodes : List Node} {tree : Tree}
    (spells : Spells nodes tree) (distinct : tree.places.Nodup) :
    tree.places.length ≤ nodes.length := by
  have nodup : (tree.places.map UInt32.toNat).Nodup :=
    distinct.map fun _ _ => UInt32.toNat_inj.mp
  have inside : tree.places.map UInt32.toNat ⊆ List.range nodes.length := by
    intro n member
    obtain ⟨place, inTree, rfl⟩ := List.mem_map.mp member
    exact List.mem_range.mpr (spells.places_lt place inTree)
  have bound := (List.subperm_of_subset nodup inside).length_le
  rwa [List.length_map, List.length_range] at bound

/-- A search below the root of a tree stays within the limit. -/
theorem Spells.height_lt_limit {levels : AvlLevelMap} {tree : Tree}
    (spells : Spells levels.nodes tree) (distinct : tree.places.Nodup) :
    tree.height < levels.limit := by
  have high := tree.height_le_length
  have long := spells.length_le distinct
  rw [AvlTree.length_places] at long
  rw [limit]
  omega

section Erase

variable {levels middle later : AvlLevelMap} {tree left right : Tree}
  {place : UInt32} {key : Price} {value : LevelHandle}

/-- The entry at the left end. -/
theorem leftmostWithin_spelt {entry : Price × LevelHandle}
    (spells : Spells levels.nodes tree) (found : tree.first? = some entry)
    {turns : Nat} (enough : tree.height ≤ turns) :
    ∃ node, levels.leftmostWithin turns (rootOf tree) = .ok node ∧
      node.price = entry.1 ∧ node.level = entry.2 := by
  induction tree generalizing turns with
  | nil => cases found
  | node place left key value right leftIH rightIH =>
      obtain ⟨notNull, here, leftSpells, -⟩ := spells
      rw [AvlTree.height] at enough
      obtain ⟨turns, rfl⟩ : ∃ fewer, turns = fewer + 1 :=
        ⟨turns - 1, by omega⟩
      have rootIff := rootOf_eq_null_iff leftSpells
      rw [leftmostWithin, rootOf, node_of here, ok_bind]
      rw [AvlTree.first?] at found
      cases inner : left.first? with
      | none =>
          rw [inner] at found
          cases found
          have none : (recordOf left key value right).left = kNull :=
            rootIff.mpr (AvlTree.first?_eq_none_iff.mp inner)
          rw [if_neg (not_not_intro none)]
          exact ⟨_, rfl, rfl, rfl⟩
      | some first =>
          rw [inner] at found
          cases found
          have some : (recordOf left key value right).left ≠ kNull := by
            intro null
            rw [rootIff.mp null, AvlTree.first?] at inner
            cases inner
          rw [if_pos some]
          exact leftIH leftSpells inner (by omega)

/-- What an erasure among the given places does to the bookkeeping. -/
structure Gives (levels later : AvlLevelMap) (places : List UInt32)
    (dropped : Option UInt32) : Prop where
  elsewhere : ∀ n, n ∉ places →
    later.nodes[n.toNat]? = levels.nodes[n.toNat]?
  length : later.nodes.length = levels.nodes.length
  side : later.side = levels.side
  root : later.root = levels.root
  kept : dropped = none →
    later.free = levels.free ∧ later.size = levels.size
  given : ∀ f, dropped = some f →
    later.free = f ∧ later.size = levels.size - 1 ∧
      ∃ record, later.nodes[f.toNat]? = some record ∧
        record.left = levels.free

/-- Later changes which leave the element which is given back alone. -/
theorem Gives.touches (more : List UInt32) {places changed : List UInt32}
    {dropped : Option UInt32} (gives : Gives levels middle places dropped)
    (touches : Touches middle later changed)
    (inner : ∀ n ∈ places, n ∈ more) (outer : ∀ n ∈ changed, n ∈ more)
    (other : ∀ f, dropped = some f → f ∉ changed) :
    Gives levels later more dropped where
  elsewhere := fun n outside =>
    (touches.elsewhere n fun member => outside (outer n member)).trans
      (gives.elsewhere n fun member => outside (inner n member))
  length := touches.length.trans gives.length
  side := touches.side.trans gives.side
  root := touches.root.trans gives.root
  kept := by
    intro none
    obtain ⟨free, size⟩ := gives.kept none
    exact ⟨touches.free.trans free, touches.size.trans size⟩
  given := by
    intro f some
    obtain ⟨free, size, record, here, link⟩ := gives.given f some
    exact ⟨touches.free.trans free, touches.size.trans size, record,
      (touches.elsewhere f (other f some)).trans here, link⟩

/-- `release` links an element in front of the free list. -/
theorem release_spelt {node : Node} {n : UInt32}
    (here : levels.nodes[n.toNat]? = some node) :
    ∃ later, levels.release n = .ok later ∧
      (∀ other, other ≠ n →
        later.nodes[other.toNat]? = levels.nodes[other.toNat]?) ∧
      later.nodes.length = levels.nodes.length ∧
      later.side = levels.side ∧ later.root = levels.root ∧
      later.free = n ∧ later.size = levels.size ∧
      later.nodes[n.toNat]? = some { node with left := levels.free } := by
  refine ⟨{ levels with
      nodes := levels.nodes.set n.toNat { node with left := levels.free }
      free := n }, ?_, fun other distinct => getElem?_set_ne distinct _,
    List.length_set, rfl, rfl, rfl, rfl, getElem?_set_self here _⟩
  rw [release, update_of here]
  rfl

/-- The payload of a node is replaced. -/
theorem update_entry (newKey : Price) (newValue : LevelHandle)
    (notLeft : place ∉ left.places) (notRight : place ∉ right.places)
    (links : SpellsLinks levels.nodes place left key value right) :
    ∃ later,
      levels.update place (fun node =>
          { node with price := newKey, level := newValue }) = .ok later ∧
        SpellsLinks later.nodes place left newKey newValue right ∧
        Touches levels later [place] := by
  obtain ⟨notNull, ⟨height, here⟩, leftSpells, rightSpells⟩ := links
  exact ⟨_, update_of here _,
    ⟨notNull, ⟨height, getElem?_set_self here _⟩,
      leftSpells.set notLeft _, rightSpells.set notRight _⟩,
    Touches.set levels List.mem_cons_self _⟩

/-- A node is given back; its children stay. -/
theorem releaseRoot (spells :
      Spells levels.nodes (.node place left key value right))
    (separate : Separate left place right) :
    ∃ later,
      ({ levels with size := levels.size - 1 } : AvlLevelMap).release place =
          .ok later ∧
        Spells later.nodes left ∧ Spells later.nodes right ∧
        Gives levels later (around left place right) (some place) := by
  obtain ⟨notNull, here, leftSpells, rightSpells⟩ := spells
  obtain ⟨later, released, elsewhere, length, side, root, free, size,
    record⟩ := release_spelt (
      show ({ levels with size := levels.size - 1 } : AvlLevelMap).nodes[
        place.toNat]? = some _ from here)
  have keeps : ∀ {tree : Tree}, place ∉ tree.places →
      Spells levels.nodes tree → Spells later.nodes tree := by
    intro tree other spells
    refine spells.congr fun n member => elsewhere n ?_
    rintro rfl
    exact other member
  refine ⟨later, released, keeps separate.notLeft leftSpells,
    keeps separate.notRight rightSpells, ?_, length, side, root, ?_, ?_⟩
  · intro n outside
    refine elsewhere n ?_
    rintro rfl
    exact outside (by simp [around])
  · intro none
    cases none
  · intro f some
    cases some
    exact ⟨free, size, _, record, rfl⟩

/-- The smaller left child is linked to its node again. -/
theorem relinkLeft {less : Tree} {dropped : Option UInt32}
    (spells : Spells levels.nodes (.node place left key value right))
    (separate : Separate left place right)
    (places : (dropped.toList ++ less.places).Perm left.places)
    (lessSpells : Spells middle.nodes less)
    (gives : Gives levels middle left.places dropped) :
    ∃ linked,
      middle.update place (fun node => { node with left := rootOf less }) =
          .ok linked ∧
        SpellsLinks linked.nodes place less key value right ∧
        Gives levels linked (around left place right) dropped := by
  obtain ⟨notNull, here, -, rightSpells⟩ := spells
  have subset : ∀ n ∈ less.places, n ∈ left.places := fun n member =>
    places.mem_iff.mp (List.mem_append_right _ member)
  obtain ⟨linked, updated, links, touched⟩ := update_left
    ((gives.elsewhere place separate.notLeft).trans here) notNull
    (fun member => separate.notLeft (subset place member))
    separate.notRight lessSpells
    (rightSpells.congr fun n member =>
      gives.elsewhere n fun inLeft => separate.disjoint n inLeft member)
  refine ⟨linked, updated, links, gives.touches _ touched
    (fun n member => List.mem_append_left _ member) (by simp [around]) ?_⟩
  rintro f rfl equal
  rw [List.mem_singleton] at equal
  subst equal
  exact separate.notLeft (places.mem_iff.mp (by simp))

/-- The smaller right child is linked to its node again. -/
theorem relinkRight {less : Tree} {dropped : Option UInt32}
    (spells : Spells levels.nodes (.node place left key value right))
    (separate : Separate left place right)
    (places : (dropped.toList ++ less.places).Perm right.places)
    (lessSpells : Spells middle.nodes less)
    (gives : Gives levels middle right.places dropped) :
    ∃ linked,
      middle.update place (fun node => { node with right := rootOf less }) =
          .ok linked ∧
        SpellsLinks linked.nodes place left key value less ∧
        Gives levels linked (around left place right) dropped := by
  obtain ⟨notNull, here, leftSpells, -⟩ := spells
  have subset : ∀ n ∈ less.places, n ∈ right.places := fun n member =>
    places.mem_iff.mp (List.mem_append_right _ member)
  obtain ⟨linked, updated, links, touched⟩ := update_right
    ((gives.elsewhere place separate.notRight).trans here) notNull
    separate.notLeft
    (fun member => separate.notRight (subset place member))
    (leftSpells.congr fun n member =>
      gives.elsewhere n fun inRight => separate.disjoint n member inRight)
    lessSpells
  refine ⟨linked, updated, links, gives.touches _ touched
    (fun n member => List.mem_append_right _
      (List.mem_cons_of_mem _ member)) (by simp [around]) ?_⟩
  rintro f rfl equal
  rw [List.mem_singleton] at equal
  subst equal
  exact separate.notRight (places.mem_iff.mp (by simp))

/-- The node is rebalanced after its child has been linked. -/
theorem rebalance_gives {newLeft newRight : Tree} {all : List UInt32}
    {dropped : Option UInt32}
    (links : SpellsLinks middle.nodes place newLeft key value newRight)
    (places :
      (dropped.toList ++ around newLeft place newRight).Perm all)
    (distinct : all.Nodup)
    (low : 1 + max newLeft.height newRight.height < 2 ^ 30)
    (gives : Gives levels middle all dropped) :
    ∃ later,
      middle.rebalance place =
          .ok (rootOf (AvlTree.rebalance place newLeft key value newRight),
            later) ∧
        Spells later.nodes
          (AvlTree.rebalance place newLeft key value newRight) ∧
        Gives levels later all dropped := by
  have nodup := places.nodup_iff.mpr distinct
  obtain ⟨later, rebalanced, spells, touched⟩ := rebalance_links
    (List.nodup_append.mp nodup).2.1 low links
  refine ⟨later, rebalanced, spells, gives.touches _ touched
    (fun _ member => member)
    (fun n member => places.mem_iff.mp (List.mem_append_right _ member)) ?_⟩
  rintro f rfl member
  exact (List.nodup_append.mp nodup).2.2 f (by simp) f member rfl

/-- `erase_at` erases below a node. -/
theorem eraseAt_spelt (spells : Spells levels.nodes tree)
    (distinct : tree.places.Nodup) (low : tree.height < 2 ^ 30)
    (balanced : tree.Balanced) (p : Price) {depth : Nat}
    (deep : tree.height < depth) :
    ∃ later,
      eraseAt depth levels (rootOf tree) p =
          .ok (rootOf (tree.erase p), later) ∧
        Spells later.nodes (tree.erase p) ∧
        Gives levels later tree.places (tree.dropped p) := by
  induction tree generalizing levels p depth with
  | nil =>
      obtain ⟨depth, rfl⟩ := Nat.exists_eq_add_of_lt deep
      refine ⟨levels, ?_, trivial, fun _ _ => rfl, rfl, rfl, rfl,
        fun _ => ⟨rfl, rfl⟩, ?_⟩
      · rw [eraseAt, rootOf, if_pos rfl]
        rfl
      · intro f some
        cases some
  | node place left key value right leftIH rightIH =>
      obtain ⟨depth, rfl⟩ := Nat.exists_eq_add_of_lt deep
      have separate := separate_of_nodup distinct
      have whole := spells
      obtain ⟨notNull, here, leftSpells, rightSpells⟩ := spells
      obtain ⟨leftBalanced, rightBalanced, -, -⟩ := balanced
      have room : left.height <
            AvlTree.height (.node place left key value right) + depth ∧
          right.height <
            AvlTree.height (.node place left key value right) + depth := by
        rw [AvlTree.height]
        omega
      rw [AvlTree.height] at low
      have placesErase := AvlTree.places_erase p
        (.node place left key value right : Tree)
      rw [eraseAt, rootOf, if_neg notNull, node_of here, ok_bind,
        AvlTree.erase, AvlTree.dropped]
      rw [AvlTree.erase, AvlTree.dropped] at placesErase
      by_cases smaller : p < key
      · have below : p < (recordOf left key value right).price := smaller
        rw [if_pos smaller, if_pos smaller] at placesErase
        rw [if_pos smaller, if_pos smaller, if_pos below]
        obtain ⟨shrunk, erased, shrunkSpells, gives⟩ := leftIH leftSpells
          separate.leftNodup (by omega) leftBalanced p room.1
        obtain ⟨linked, updated, links, givesLinked⟩ := relinkLeft whole
          separate (AvlTree.places_erase p left) shrunkSpells gives
        have lower := (AvlTree.balanced_erase leftBalanced p).2.1
        rw [AvlTree.places_rebalance] at placesErase
        obtain ⟨later, rebalanced, laterSpells, givesLater⟩ :=
          rebalance_gives links placesErase distinct (by omega) givesLinked
        refine ⟨later, ?_, laterSpells, givesLater⟩
        change (eraseAt _ levels (rootOf left) p >>= _) = _
        rw [erased, ok_bind]
        dsimp only
        rw [updated, ok_bind]
        exact rebalanced
      · have notBelow : ¬ p < (recordOf left key value right).price :=
          smaller
        rw [if_neg smaller, if_neg smaller] at placesErase
        rw [if_neg smaller, if_neg smaller, if_neg notBelow]
        by_cases larger : key < p
        · have above : p > (recordOf left key value right).price := larger
          rw [if_pos larger, if_pos larger] at placesErase
          rw [if_pos larger, if_pos larger, if_pos above]
          obtain ⟨shrunk, erased, shrunkSpells, gives⟩ :=
            rightIH rightSpells separate.rightNodup (by omega)
              rightBalanced p room.2
          obtain ⟨linked, updated, links, givesLinked⟩ := relinkRight whole
            separate (AvlTree.places_erase p right) shrunkSpells gives
          have lower := (AvlTree.balanced_erase rightBalanced p).2.1
          rw [AvlTree.places_rebalance] at placesErase
          obtain ⟨later, rebalanced, laterSpells, givesLater⟩ :=
            rebalance_gives links placesErase distinct (by omega)
              givesLinked
          refine ⟨later, ?_, laterSpells, givesLater⟩
          change (eraseAt _ levels (rootOf right) p >>= _) = _
          rw [erased, ok_bind]
          dsimp only
          rw [updated, ok_bind]
          exact rebalanced
        · have notAbove : ¬ p > (recordOf left key value right).price :=
            larger
          rw [if_neg larger, if_neg larger] at placesErase
          rw [if_neg larger, if_neg larger, if_neg notAbove]
          have leftNull := rootOf_eq_null_iff leftSpells
          have rightNull := rootOf_eq_null_iff rightSpells
          by_cases leftNil : left = .nil
          · obtain ⟨later, released, -, kept, gives⟩ :=
              releaseRoot whole separate
            rw [AvlTree.eraseRoot_of_nil leftNil,
              AvlTree.dropRoot_of_leaf (Or.inl leftNil)]
            refine ⟨later, ?_, kept, gives⟩
            dsimp only [recordOf]
            rw [if_pos (Or.inl (leftNull.mpr leftNil)), released, ok_bind,
              if_pos (leftNull.mpr leftNil)]
            rfl
          · cases found : right.first? with
            | none =>
                have rightNil := AvlTree.first?_eq_none_iff.mp found
                obtain ⟨later, released, kept, -, gives⟩ :=
                  releaseRoot whole separate
                rw [AvlTree.eraseRoot_of_right_nil leftNil rightNil,
                  AvlTree.dropRoot_of_leaf (Or.inr rightNil)]
                refine ⟨later, ?_, kept, gives⟩
                dsimp only [recordOf]
                rw [if_pos (Or.inr (rightNull.mpr rightNil)), released,
                  ok_bind, if_neg (mt leftNull.mp leftNil)]
                rfl
            | some next =>
                have rightNotNil : right ≠ .nil := by
                  intro nil
                  rw [nil, AvlTree.first?] at found
                  cases found
                have two : ¬ (rootOf left = kNull ∨ rootOf right = kNull) :=
                  not_or.mpr ⟨mt leftNull.mp leftNil,
                    mt rightNull.mp rightNotNil⟩
                rw [AvlTree.eraseRoot_of_next leftNil found,
                  AvlTree.dropRoot_of_next leftNil found] at placesErase ⊢
                rw [AvlTree.places_rebalance] at placesErase
                have restored : ({ levels with
                    size := levels.size - 1 + 1 } : AvlLevelMap) =
                      levels := by
                  rw [UInt32.sub_add_cancel]
                obtain ⟨successor, reached, samePrice, sameLevel⟩ :=
                  @leftmostWithin_spelt
                    { levels with size := levels.size - 1 } right next
                    rightSpells found levels.limit
                    (rightSpells.height_lt_limit separate.rightNodup).le
                obtain ⟨shrunk, erased, shrunkSpells, gives⟩ :=
                  rightIH rightSpells separate.rightNodup (by omega)
                    rightBalanced next.1 room.2
                have lower := (AvlTree.balanced_erase rightBalanced
                  next.1).2.1
                obtain ⟨relinked, updated, relinks, givesRelinked⟩ :=
                  relinkRight whole separate
                    (AvlTree.places_erase next.1 right) shrunkSpells gives
                have distinctLater :=
                  placesErase.nodup_iff.mpr distinct
                have apart := separate_of_nodup
                  (List.nodup_append.mp distinctLater).2.1
                obtain ⟨renamed, replaced, renamedLinks, touched⟩ :=
                  update_entry next.1 next.2
                    apart.notLeft apart.notRight relinks
                have givesRenamed := givesRelinked.touches
                  (around left place right) touched
                  (fun _ member => member) (by simp [around]) (by
                    rintro f drops member
                    rw [List.mem_singleton] at member
                    subst member
                    rw [drops] at distinctLater
                    exact (List.nodup_append.mp distinctLater).2.2 f
                      (by simp) f (by simp) rfl)
                obtain ⟨later, rebalanced, laterSpells, givesLater⟩ :=
                  rebalance_gives renamedLinks placesErase distinct
                    (by omega) givesRenamed
                refine ⟨later, ?_, laterSpells, givesLater⟩
                dsimp only [recordOf]
                rw [if_neg two]
                change (leftmostWithin _ levels.limit (rootOf right) >>= _) =
                  _
                rw [reached, ok_bind, restored, samePrice, sameLevel]
                rw [erased, ok_bind]
                dsimp only
                rw [updated, ok_bind, replaced, ok_bind]
                exact rebalanced

end Erase

end ItchExchange.Book.AvlLevelMap
