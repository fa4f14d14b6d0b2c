import ItchExchange.Book.AvlLevelMapQueries
import ItchExchange.Book.LevelMapRuns

/-!
# Runs of the tree of price levels

The invariant of `AvlLevelMap`: the elements of the array are those of a
balanced search tree and those of the free list, each of them once.  An
insertion and an erasure preserve it, so after every run the tree is the sorted
map of the levels which are present.
-/

namespace ItchExchange.Book.AvlLevelMap

open ItchExchange.Core ItchExchange.Library
open Std (ExtTreeMap)

/-- The elements linked through their `left` fields from `free` on. -/
def FreeChain (nodes : List Node) : UInt32 → List UInt32 → Prop
  | free, [] => free = kNull
  | free, f :: rest =>
      free = f ∧ f ≠ kNull ∧
        ∃ node, nodes[f.toNat]? = some node ∧ FreeChain nodes node.left rest

theorem FreeChain.congr {nodes nodes' : List Node} {free : UInt32}
    {frees : List UInt32}
    (same : ∀ f ∈ frees, nodes'[f.toNat]? = nodes[f.toNat]?)
    (chain : FreeChain nodes free frees) : FreeChain nodes' free frees := by
  induction frees generalizing free with
  | nil => exact chain
  | cons f rest induction =>
      obtain ⟨first, notNull, node, here, behind⟩ := chain
      exact ⟨first, notNull, node, (same f List.mem_cons_self).trans here,
        induction (fun g member => same g (List.mem_cons_of_mem f member))
          behind⟩

theorem FreeChain.ne_null {nodes : List Node} {free : UInt32}
    {frees : List UInt32} (chain : FreeChain nodes free frees) :
    ∀ f ∈ frees, f ≠ kNull := by
  induction frees generalizing free with
  | nil => exact fun f member => absurd member List.not_mem_nil
  | cons f rest induction =>
      obtain ⟨-, notNull, node, -, behind⟩ := chain
      intro g member
      rcases List.mem_cons.mp member with rfl | inRest
      · exact notNull
      · exact induction behind g inRest

/-- The elements are exactly those of the tree and of the free list. -/
structure Stands (levels : AvlLevelMap) (tree : Tree)
    (frees : List UInt32) : Prop where
  root : levels.root = rootOf tree
  spells : Spells levels.nodes tree
  chain : FreeChain levels.nodes levels.free frees
  exactly : ((tree.places ++ frees).map UInt32.toNat).Perm
    (List.range levels.nodes.length)
  balanced : tree.Balanced
  ordered : tree.Ordered
  size : levels.size.toNat = tree.entries.length
  notNull : ∀ entry ∈ tree.entries, entry.2 ≠ Handle.null

section Stands

variable {levels : AvlLevelMap} {tree : Tree} {frees : List UInt32}

theorem stands_empty (side : Side) : Stands { side } .nil [] :=
  ⟨rfl, trivial, rfl, List.Perm.refl _, trivial, List.Pairwise.nil, rfl,
    fun _ member => absurd member List.not_mem_nil⟩

theorem Stands.nodup (stands : Stands levels tree frees) :
    (tree.places ++ frees).Nodup :=
  (stands.exactly.nodup_iff.mpr List.nodup_range).of_map

theorem Stands.places_nodup (stands : Stands levels tree frees) :
    tree.places.Nodup :=
  (List.nodup_append.mp stands.nodup).1

/-- A balanced tree of 32 bit size is less than fifty nodes high. -/
theorem Stands.low (stands : Stands levels tree frees) :
    tree.height < 50 := by
  by_contra high
  have bound := AvlTree.fib_height_le stands.balanced
  have grown := Nat.fib_mono (show 50 ≤ tree.height + 2 by omega)
  have value : Nat.fib 50 = 12586269025 := by decide +kernel
  have small := levels.size.toNat_lt
  rw [stands.size] at small
  omega

theorem Stands.length (stands : Stands levels tree frees) :
    levels.nodes.length = tree.entries.length + frees.length := by
  have count := stands.exactly.length_eq
  rw [List.length_map, List.length_append, List.length_range,
    AvlTree.length_places] at count
  exact count.symm

/-! ## Insertion -/

/-- A fresh element comes from the free list, or from the end of the array. -/
theorem Stands.newNode (stands : Stands levels tree frees) (p : Price)
    (h : LevelHandle) (room : tree.entries.length + 1 < 2 ^ 32) :
    ∃ fresh made rest,
      Taken levels made fresh p h ∧
        FreeChain made.nodes made.free rest ∧
        (((fresh :: tree.places) ++ rest).map UInt32.toNat).Perm
          (List.range made.nodes.length) ∧
        (fresh :: tree.places).Nodup ∧
        (∀ f ∈ rest, f ∉ fresh :: tree.places) ∧
        made.side = levels.side ∧ made.size = levels.size := by
  have nodup := stands.nodup
  have chain := stands.chain
  have exactly := stands.exactly
  cases frees with
  | nil =>
      have free : levels.free = kNull := chain
      have count := stands.length
      rw [List.length_nil, Nat.add_zero] at count
      have short : levels.nodes.length < 2 ^ 32 := by omega
      have cast : (UInt32.ofNat levels.nodes.length).toNat =
          levels.nodes.length := UInt32.toNat_ofNat_of_lt' short
      have appended : (levels.nodes ++ [({} : Node)]).set
          (UInt32.ofNat levels.nodes.length).toNat
            { price := p, level := h } =
          levels.nodes ++ [{ price := p, level := h }] := by
        rw [cast]
        simp
      rw [List.append_nil] at exactly nodup
      have fresh : UInt32.ofNat levels.nodes.length ∉ tree.places := by
        intro member
        have inside := stands.spells.places_lt _ member
        omega
      refine ⟨UInt32.ofNat levels.nodes.length, { levels with
          nodes := levels.nodes ++ [{ price := p, level := h }] }, [],
        ⟨?_, ?_, ?_, ?_⟩, free, ?_, List.nodup_cons.mpr ⟨fresh, nodup⟩,
        fun _ member => absurd member List.not_mem_nil, rfl, rfl⟩
      · rw [AvlLevelMap.newNode]
        dsimp only
        rw [if_neg (not_not_intro free), appended]
      · intro null
        have last := congrArg UInt32.toNat null
        have value : kNull.toNat = 2 ^ 32 - 1 := rfl
        omega
      · dsimp only
        rw [cast, List.getElem?_concat_length]
        rfl
      · intro n distinct
        have other : n.toNat ≠ levels.nodes.length := fun equal =>
          distinct (UInt32.toNat_inj.mp (equal.trans cast.symm))
        dsimp only
        rcases Nat.lt_or_gt_of_ne other with inside | outside
        · rw [List.getElem?_append_left inside]
        · have longer :
              (levels.nodes ++ [({ price := p, level := h } : Node)]).length ≤
                n.toNat := by
            rw [List.length_append, List.length_singleton]
            exact outside
          rw [List.getElem?_eq_none longer,
            List.getElem?_eq_none outside.le]
      · dsimp only
        rw [List.append_nil, List.map_cons, cast, List.length_append,
          List.length_singleton, List.range_succ]
        exact (exactly.cons _).trans (List.perm_append_singleton _ _).symm
  | cons f rest =>
      obtain ⟨first, notNull, node, here, behind⟩ := chain
      have arranged : (f :: (tree.places ++ rest)).Nodup :=
        List.perm_middle.nodup_iff.mp nodup
      rw [List.nodup_cons, List.mem_append, not_or] at arranged
      obtain ⟨⟨notTree, notRest⟩, others⟩ := arranged
      have restSame : ∀ g ∈ rest,
          (levels.nodes.set f.toNat { price := p, level := h })[g.toNat]? =
            levels.nodes[g.toNat]? := by
        intro g member
        refine getElem?_set_ne ?_ _
        rintro rfl
        exact notRest member
      refine ⟨f, { levels with
          free := node.left
          nodes := levels.nodes.set f.toNat { price := p, level := h } },
        rest, ⟨?_, notNull, getElem?_set_self here _, ?_⟩,
        behind.congr restSame, ?_,
        List.nodup_cons.mpr ⟨notTree, (List.nodup_append.mp others).1⟩, ?_,
        rfl, rfl⟩
      · rw [AvlLevelMap.newNode]
        dsimp only
        rw [first, if_pos notNull, node_of here]
        rfl
      · exact fun n distinct => getElem?_set_ne distinct _
      · rw [List.length_set]
        exact ((List.perm_middle.map UInt32.toNat).symm).trans exactly
      · intro g member inTree
        rcases List.mem_cons.mp inTree with rfl | inTree
        · exact notRest member
        · exact (List.nodup_append.mp others).2.2 g inTree g member rfl

/-- An insertion of an absent price. -/
theorem Stands.insert (stands : Stands levels tree frees) {p : Price}
    {h : LevelHandle} (room : tree.entries.length + 1 < 2 ^ 32)
    (absent : ∀ entry ∈ tree.entries, entry.1 ≠ p)
    (notNull : h ≠ Handle.null) :
    ∃ later fresh rest, levels.insert p h = .ok later ∧
      Stands later (tree.insert fresh p h) rest ∧
      later.side = levels.side := by
  obtain ⟨fresh, made, rest, taken, chain, exactly, nodup, others, side,
    size⟩ := stands.newNode p h room
  have low := stands.low
  obtain ⟨grown, inserted, spells, touched⟩ := insertAt_spelt taken
    stands.spells nodup (by omega) stands.balanced absent
    (stands.spells.height_lt_limit stands.places_nodup)
  refine ⟨{ grown with
      root := rootOf (tree.insert fresh p h), size := grown.size + 1 },
    fresh, rest, ?_, ⟨rfl, spells, ?_, ?_,
      (AvlTree.balanced_insert stands.balanced).1,
      AvlTree.ordered_insert stands.ordered absent, ?_, ?_⟩,
    touched.side.trans side⟩
  · rw [AvlLevelMap.insert, assertMsg_of notNull, ok_bind, stands.root,
      inserted]
    rfl
  · dsimp only
    rw [touched.free]
    exact chain.congr fun f member =>
      touched.elsewhere f (others f member)
  · dsimp only
    rw [touched.length]
    exact ((AvlTree.places_insert.append_right rest).map
      UInt32.toNat).trans exactly
  · have before := stands.size
    dsimp only
    rw [touched.size, size, AvlTree.length_insert, UInt32.toNat_add, before]
    exact Nat.mod_eq_of_lt room
  · intro entry member
    rcases (AvlTree.mem_entries_insert stands.ordered absent).mp member with
      rfl | old
    · exact notNull
    · exact stands.notNull entry old

/-! ## Erasure -/

theorem dropped_isSome_iff (ordered : tree.Ordered) (p : Price) :
    (tree.dropped p).isSome = true ↔ ∃ entry ∈ tree.entries, entry.1 = p := by
  have count := (AvlTree.places_erase p tree).length_eq
  rw [List.length_append, AvlTree.length_places, AvlTree.length_places,
    AvlTree.entries_erase ordered] at count
  constructor
  · intro some
    by_contra absent
    have all : tree.entries.filter (fun entry => decide (entry.1 ≠ p)) =
        tree.entries :=
      List.filter_eq_self.mpr fun entry member =>
        decide_eq_true fun atPrice => absent ⟨entry, member, atPrice⟩
    obtain ⟨f, dropped⟩ := Option.isSome_iff_exists.mp some
    rw [all, dropped] at count
    simp at count
  · rintro ⟨entry, member, rfl⟩
    have fewer : (tree.entries.filter
        fun other => decide (other.1 ≠ entry.1)).length <
          tree.entries.length :=
      List.length_filter_lt_length_iff_exists.mpr
        ⟨entry, member, by simp⟩
    cases dropped : tree.dropped entry.1 with
    | none =>
        rw [dropped] at count
        simp only [Option.toList_none, List.length_nil, Nat.zero_add]
          at count
        omega
    | some f => rfl

/-- An erasure of a present price. -/
theorem Stands.erase (stands : Stands levels tree frees) {p : Price}
    (present : ∃ entry ∈ tree.entries, entry.1 = p) :
    ∃ later rest, levels.erase p = .ok later ∧
      Stands later (tree.erase p) rest ∧ later.side = levels.side := by
  have low := stands.low
  obtain ⟨f, dropped⟩ := Option.isSome_iff_exists.mp
    ((dropped_isSome_iff stands.ordered p).mpr present)
  have places := AvlTree.places_erase p tree
  rw [dropped] at places
  obtain ⟨shrunk, erased, spells, gives⟩ := eraseAt_spelt stands.spells
    stands.places_nodup (by omega) stands.balanced p
    (stands.spells.height_lt_limit stands.places_nodup)
  obtain ⟨free, size, record, here, link⟩ := gives.given f dropped
  have inTree : f ∈ tree.places := places.mem_iff.mp (by simp)
  have some : 0 < levels.size := by
    obtain ⟨entry, member, -⟩ := present
    rw [UInt32.lt_iff_toNat_lt, stands.size]
    exact List.length_pos_of_mem member
  refine ⟨{ shrunk with root := rootOf (tree.erase p) }, f :: frees, ?_,
    ⟨rfl, spells, ⟨free, stands.spells.ne_null f inTree, record, here, ?_⟩,
      ?_, (AvlTree.balanced_erase stands.balanced p).1,
      AvlTree.ordered_erase stands.ordered p, ?_, ?_⟩, gives.side⟩
  · rw [AvlLevelMap.erase, assertMsg_of some, ok_bind, stands.root, erased,
      ok_bind]
    dsimp only
    rw [assertMsg_of size]
    rfl
  · rw [link]
    refine stands.chain.congr fun g member => gives.elsewhere g ?_
    intro inPlaces
    exact (List.nodup_append.mp stands.nodup).2.2 g inPlaces g member rfl
  · dsimp only
    rw [gives.length]
    refine List.Perm.trans (List.Perm.map _ ?_) stands.exactly
    exact List.perm_middle.trans (places.append_right frees)
  · have count := places.length_eq
    have before := stands.size
    rw [AvlTree.length_places, List.length_append, AvlTree.length_places]
      at count
    dsimp only
    rw [size, UInt32.toNat_sub_of_le _ _ (UInt32.le_iff_toNat_le.mpr (by
      change 1 ≤ levels.size.toNat
      simp at count
      omega)), before]
    change tree.entries.length - 1 = _
    simp at count
    omega
  · intro entry member
    exact stands.notNull entry
      ((AvlTree.mem_entries_erase stands.ordered).mp member).1

/-- An erasure of an absent price stops at one of its assertions. -/
theorem Stands.erase_absent (stands : Stands levels tree frees) {p : Price}
    (absent : ∀ entry ∈ tree.entries, entry.1 ≠ p) :
    levels.erase p = .error (.assertion "erasing from an empty tree") ∨
      levels.erase p =
        .error (.assertion "erasing a level that is not there") := by
  rw [AvlLevelMap.erase]
  by_cases some : 0 < levels.size
  · right
    have low := stands.low
    have dropped : tree.dropped p = none := by
      rw [← Option.not_isSome_iff_eq_none,
        dropped_isSome_iff stands.ordered p]
      rintro ⟨entry, member, atPrice⟩
      exact absent entry member atPrice
    obtain ⟨shrunk, erased, -, gives⟩ := eraseAt_spelt stands.spells
      stands.places_nodup (by omega) stands.balanced p
      (stands.spells.height_lt_limit stands.places_nodup)
    have size := (gives.kept dropped).2
    have different : ¬ shrunk.size = levels.size - 1 := by
      rw [size]
      grind
    rw [assertMsg_of some, ok_bind, stands.root, erased, ok_bind]
    dsimp only
    rw [assertMsg_of_not different]
    rfl
  · left
    rw [assertMsg_of_not some]
    rfl

end Stands

/-! ## The tree as a finite map -/

/-- The tree of a side stands for a map with this many prices. -/
def Holds (side : Side) (levels : AvlLevelMap)
    (map : Price → Option LevelHandle) (count : Nat) : Prop :=
  levels.side = side ∧
    ∃ tree frees, Stands levels tree frees ∧
      tree.entries.length = count ∧
      ∀ p h, map p = some h ↔ (p, h) ∈ tree.entries

section Holds

variable {side : Side} {levels : AvlLevelMap}
  {map : Price → Option LevelHandle} {count : Nat} {p : Price}
  {h : LevelHandle}

theorem holds_empty (side : Side) : Holds side { side } (fun _ => none) 0 :=
  ⟨rfl, .nil, [], stands_empty side, rfl, fun p h => by
    simp [AvlTree.entries]⟩

theorem absent_iff {tree : Tree}
    (same : ∀ p h, map p = some h ↔ (p, h) ∈ tree.entries) :
    map p = none ↔ ∀ entry ∈ tree.entries, entry.1 ≠ p := by
  rw [Option.eq_none_iff_forall_ne_some]
  constructor
  · rintro none ⟨q, g⟩ member rfl
    exact none g ((same q g).mpr member)
  · intro absent g found
    exact absent (p, g) ((same p g).mp found) rfl

theorem Holds.find (holds : Holds side levels map count) (p : Price) :
    levels.find p = .ok ((map p).getD Handle.null) := by
  obtain ⟨-, tree, frees, stands, -, same⟩ := holds
  have found : tree.find p = map p := Option.ext fun g => by
    rw [AvlTree.find_eq_some_iff stands.ordered, same]
  rw [AvlLevelMap.find, stands.root, findWithin_spelt stands.spells p
    (stands.spells.height_lt_limit stands.places_nodup), found]

theorem Holds.insert (holds : Holds side levels map count)
    (absent : map p = none) (notNull : h ≠ Handle.null)
    (room : count + 1 < 2 ^ 32) :
    ∃ later, levels.insert p h = .ok later ∧
      Holds side later (Function.update map p (some h)) (count + 1) := by
  obtain ⟨sameSide, tree, frees, stands, rfl, same⟩ := holds
  have none := (absent_iff same).mp absent
  obtain ⟨later, fresh, rest, inserted, laterStands, laterSide⟩ :=
    stands.insert room none notNull
  refine ⟨later, inserted, laterSide.trans sameSide, _, rest, laterStands,
    AvlTree.length_insert, fun q g => ?_⟩
  rw [AvlTree.mem_entries_insert stands.ordered none,
    Function.update_apply, Prod.mk.injEq]
  split_ifs with here
  · subst here
    rw [Option.some.injEq]
    constructor
    · rintro rfl
      exact Or.inl ⟨rfl, rfl⟩
    · rintro (⟨-, rfl⟩ | member)
      · rfl
      · exact absurd rfl (none _ member)
  · rw [same]
    constructor
    · exact Or.inr
    · rintro (⟨atPrice, -⟩ | member)
      · exact absurd atPrice here
      · exact member

theorem Holds.erase (holds : Holds side levels map (count + 1))
    (present : map p = some h) :
    ∃ later, levels.erase p = .ok later ∧
      Holds side later (Function.update map p none) count := by
  obtain ⟨sameSide, tree, frees, stands, long, same⟩ := holds
  have member := (same p h).mp present
  obtain ⟨later, rest, erased, laterStands, laterSide⟩ :=
    stands.erase ⟨(p, h), member, rfl⟩
  have places := (AvlTree.places_erase p tree).length_eq
  obtain ⟨f, (dropped : tree.dropped p = some f)⟩ :=
    Option.isSome_iff_exists.mp
      ((dropped_isSome_iff stands.ordered p).mpr ⟨(p, h), member, rfl⟩)
  rw [dropped, List.length_append, AvlTree.length_places,
    AvlTree.length_places, long, Option.toList_some, List.length_singleton]
    at places
  have fewer : (tree.erase p).entries.length = count := by omega
  refine ⟨later, erased, laterSide.trans sameSide, _, rest, laterStands,
    fewer, fun q g => ?_⟩
  · rw [AvlTree.mem_entries_erase stands.ordered, Function.update_apply]
    split_ifs with here
    · simp [here]
    · rw [same]
      exact ⟨fun member => ⟨member, here⟩, And.left⟩

theorem Holds.erase_absent (holds : Holds side levels map count)
    (absent : map p = none) :
    levels.erase p = .error (.assertion "erasing from an empty tree") ∨
      levels.erase p =
        .error (.assertion "erasing a level that is not there") := by
  obtain ⟨-, tree, frees, stands, -, same⟩ := holds
  exact stands.erase_absent ((absent_iff same).mp absent)

theorem Holds.size (holds : Holds side levels map count) :
    levels.size.toNat = count := by
  obtain ⟨-, tree, frees, stands, rfl, -⟩ := holds
  exact stands.size

theorem Holds.count_eq_zero_iff (holds : Holds side levels map count) :
    count = 0 ↔ ∀ p, map p = none := by
  obtain ⟨-, tree, frees, -, rfl, same⟩ := holds
  rw [List.length_eq_zero_iff]
  constructor
  · intro none p
    refine (absent_iff same).mpr fun entry member => ?_
    rw [none] at member
    cases member
  · intro none
    rw [List.eq_nil_iff_forall_not_mem]
    rintro ⟨p, h⟩ member
    rw [← same, none] at member
    cases member

theorem Holds.isEmpty (holds : Holds side levels map count) :
    levels.isEmpty = true ↔ ∀ p, map p = none := by
  rw [AvlLevelMap.isEmpty, decide_eq_true_eq, ← holds.count_eq_zero_iff,
    ← holds.size]
  exact UInt32.toNat_inj.symm

theorem Holds.forEachLevel (holds : Holds side levels map count) :
    ∃ visits, levels.forEachLevel = .ok visits ∧
      (visits.map Prod.fst).Pairwise (Closer side) ∧
      ∀ p h, (p, h) ∈ visits ↔ map p = some h := by
  obtain ⟨rfl, tree, frees, stands, -, same⟩ := holds
  exact ⟨_, forEachLevel_spelt stands.root stands.spells
      stands.places_nodup, outwards_pairwise stands.ordered levels.side,
    fun p h => (mem_outwards levels.side).trans (same p h).symm⟩

theorem Holds.best (holds : Holds side levels map count)
    (present : map p = some h) :
    ∃ best, levels.best = .ok best ∧ map best ≠ none ∧
      ∀ other, map other ≠ none → ¬ Closer side other best := by
  have notEmpty : levels.isEmpty = false := by
    rw [← Bool.not_eq_true, holds.isEmpty]
    intro none
    rw [none] at present
    cases present
  obtain ⟨rfl, tree, frees, stands, -, same⟩ := holds
  have ordered := outwards_pairwise stands.ordered levels.side
  cases shape : outwards levels.side tree.entries with
  | nil =>
      have member := (mem_outwards levels.side).mpr ((same p h).mp present)
      rw [shape] at member
      cases member
  | cons first rest =>
      rw [shape, List.map_cons, List.pairwise_cons] at ordered
      have head : (outwards levels.side tree.entries).head? =
          some first := by
        rw [shape]
        rfl
      have reached := bestWithin_spelt stands.spells head
        (stands.spells.height_lt_limit stands.places_nodup).le
      refine ⟨first.1, ?_, ?_, ?_⟩
      · rw [AvlLevelMap.best, assertMsg_of notEmpty, ok_bind, stands.root,
          reached]
      · have member := (mem_outwards levels.side).mp
          (shape ▸ List.mem_cons_self : first ∈ outwards levels.side
            tree.entries)
        rw [(same first.1 first.2).mpr member]
        exact Option.some_ne_none _
      · intro other someOther closer
        obtain ⟨g, found⟩ := Option.ne_none_iff_exists'.mp someOther
        have member := (mem_outwards levels.side).mpr
          ((same other g).mp found)
        rw [shape] at member
        rcases List.mem_cons.mp member with rfl | inRest
        · exact Closer.irrefl _ _ closer
        · exact closer.asymm
            (ordered.1 other (List.mem_map_of_mem (f := Prod.fst) inRest))

/-- The self-check passes. -/
theorem Holds.validate (holds : Holds side levels map count) :
    levels.validate = .ok () := by
  obtain ⟨-, tree, frees, stands, -, same⟩ := holds
  have low := stands.low
  have deep := stands.spells.height_lt_limit stands.places_nodup
  have ascending : (tree.entries.map Prod.fst).IsChain (· < ·) :=
    (List.pairwise_map.mpr stands.ordered).isChain
  have size : UInt32.ofNat tree.entries.length = levels.size := by
    rw [← stands.size]
    exact UInt32.ofNat_toNat
  rw [AvlLevelMap.validate, stands.root, check_spelt stands.spells
    (by omega) stands.balanced stands.notNull deep, ok_bind,
    walkAscending_spelt stands.spells deep, ok_bind,
    assertMsg_of ascending, ok_bind, assertMsg_of size]

end Holds

/-- The tree is a level map for every price. -/
theorem implements :
    LevelMap.Implements Holds fun (_ : AvlLevelMap) _ => True where
  make := holds_empty
  find := fun holds price => holds.find price
  insert := fun holds absent notNull _ small _ =>
    holds.insert absent notNull (by
      have value : Handle.kMaxCapacity = 2 ^ 24 - 1 := rfl
      omega)
  erase := fun holds present => holds.erase present
  isEmpty := fun holds => holds.isEmpty
  best := fun holds present => holds.best present
  forEachLevel := fun holds => holds.forEachLevel

theorem isFiniteMap : LevelMap.IsFiniteMap (M := AvlLevelMap) Holds where
  implements := implements
  takes := fun _ _ _ _ _ _ holds absent notNull small =>
    holds.insert absent notNull (by
      have value : Handle.kMaxCapacity = 2 ^ 24 - 1 := rfl
      omega)

/-! ## Runs -/

/-- The tree is the sorted map of the levels which are present. -/
structure IsOrderedMap (side : Side) (levels : AvlLevelMap)
    (present : PresentLevels) : Prop where
  find : ∀ p, levels.find p = .ok (present[p]?.getD Handle.null)
  size : levels.size.toNat = present.size
  isEmpty : levels.isEmpty = present.isEmpty
  best : present.isEmpty = false →
    ∃ best, levels.best = .ok best ∧ best ∈ present ∧
      ∀ other ∈ present, ¬ Closer side other best
  forEachLevel : ∃ visits, levels.forEachLevel = .ok visits ∧
    visits.Perm present.toList ∧
      (visits.map Prod.fst).Pairwise (Closer side)
  eraseAbsent : ∀ p, p ∉ present →
    ∃ text, levels.erase p = .error (.assertion text)
  nodes : ∃ tree frees, levels.root = rootOf tree ∧
    Spells levels.nodes tree ∧ FreeChain levels.nodes levels.free frees ∧
      ((tree.places ++ frees).map UInt32.toNat).Perm
        (List.range levels.nodes.length)

/-- Some price is absent after every call. -/
def LeavesPriceFree (calls : List LevelCall) : Prop :=
  ∀ count present, PresentLevels.run? ∅ (calls.take count) = some present →
    present.size < 2 ^ 32

section Runs

variable {side : Side} {levels : AvlLevelMap} {present : PresentLevels}

theorem Holds.isOrderedMap
    (holds : Holds side levels present.map present.size) :
    IsOrderedMap side levels present where
  find := holds.find
  size := holds.size
  isEmpty := by
    rw [Bool.eq_iff_iff, holds.isEmpty, ← holds.count_eq_zero_iff,
      ExtTreeMap.isEmpty_iff, ExtTreeMap.eq_empty_iff_size_eq_zero]
  best := by
    intro some
    have notEmpty : ¬ ∀ p, present.map p = none := by
      rw [← holds.count_eq_zero_iff,
        ← ExtTreeMap.eq_empty_iff_size_eq_zero, ← ExtTreeMap.isEmpty_iff,
        some]
      exact Bool.false_ne_true
    obtain ⟨p, occupied⟩ := not_forall.mp notEmpty
    obtain ⟨h, here⟩ := Option.ne_none_iff_exists'.mp occupied
    obtain ⟨best, reached, there, closest⟩ := holds.best here
    refine ⟨best, reached, ?_, fun other member => closest other ?_⟩
    · exact ExtTreeMap.mem_iff_isSome_getElem?.mpr
        (Option.isSome_iff_ne_none.mpr there)
    · exact Option.isSome_iff_ne_none.mp
        (ExtTreeMap.mem_iff_isSome_getElem?.mp member)
  forEachLevel := by
    obtain ⟨visits, visited, sorted, same⟩ := holds.forEachLevel
    refine ⟨visits, visited, ?_, sorted⟩
    have distinct : visits.Nodup := by
      refine List.Nodup.of_map Prod.fst (sorted.imp ?_)
      rintro p q closer rfl
      exact Closer.irrefl _ _ closer
    rw [List.perm_ext_iff_of_nodup distinct present.nodup_toList]
    rintro ⟨p, h⟩
    rw [same, ExtTreeMap.mem_toList_iff_getElem?_eq_some]
    exact Iff.rfl
  eraseAbsent := by
    intro p absent
    have none : present.map p = none := by
      rw [PresentLevels.map, ← Option.not_isSome_iff_eq_none,
        ← ExtTreeMap.mem_iff_isSome_getElem?]
      exact absent
    rcases holds.erase_absent none with stopped | stopped
    · exact ⟨_, stopped⟩
    · exact ⟨_, stopped⟩
  nodes := by
    obtain ⟨-, tree, frees, stands, -⟩ := holds
    exact ⟨tree, frees, stands.root, stands.spells, stands.chain,
      stands.exactly⟩

/-- A valid call which leaves some price absent. -/
theorem Holds.apply (holds : Holds side levels present.map present.size)
    {call : LevelCall} {next : PresentLevels}
    (valid : call.perform? present = some next) (room : next.size < 2 ^ 32) :
    ∃ later, LevelMap.apply levels call = .ok later ∧
      Holds side later next.map next.size := by
  cases call with
  | insert p h =>
      rw [LevelCall.perform?] at valid
      split_ifs at valid with fresh
      cases valid
      rw [PresentLevels.size_insert fresh.2] at room ⊢
      rw [PresentLevels.map_insert]
      exact holds.insert fresh.2 fresh.1 room
  | erase p =>
      rw [LevelCall.perform?] at valid
      split_ifs at valid with some
      cases valid
      obtain ⟨h, here⟩ := Option.ne_none_iff_exists'.mp some
      rw [← PresentLevels.size_erase some] at holds
      rw [PresentLevels.map_erase]
      exact holds.erase here

theorem Holds.run (holds : Holds side levels present.map present.size)
    {calls : List LevelCall}
    (free : ∀ count later, present.run? (calls.take count) = some later →
      later.size < 2 ^ 32)
    {final : PresentLevels} (valid : present.run? calls = some final) :
    ∃ later, LevelMap.run levels calls = .ok later ∧
      Holds side later final.map final.size := by
  induction calls generalizing levels present with
  | nil =>
      cases valid
      exact ⟨levels, rfl, holds⟩
  | cons call rest induction =>
      obtain ⟨next, performed, validRest⟩ := PresentLevels.run?_cons valid
      have step : ∀ behind, PresentLevels.run? present (call :: behind) =
          PresentLevels.run? next behind := by
        intro behind
        rw [PresentLevels.run?, performed]
      obtain ⟨middle, applied, middleHolds⟩ := holds.apply performed
        (free 1 next (step []))
      obtain ⟨later, ran, laterHolds⟩ := induction middleHolds
        (fun count final reached => free (count + 1) final
          ((step (rest.take count)).trans reached)) validRest
      refine ⟨later, ?_, laterHolds⟩
      rw [LevelMap.run, applied, ok_bind, ran]

/-- A new tree holds no level. -/
theorem holds_start (side : Side) :
    Holds side (LevelMap.make side) (PresentLevels.map ∅)
      (∅ : PresentLevels).size := by
  have nothing : PresentLevels.map ∅ = fun _ => none := by
    funext p
    exact ExtTreeMap.getElem?_empty
  rw [nothing, ExtTreeMap.size_empty]
  exact holds_empty side

end Runs

/--
After every valid sequence of insertions and erasures which leaves some price
absent all the time, the tree is the sorted map of the levels present.
-/
theorem avlLevelMap_isOrderedMap (side : Side) (calls : List LevelCall)
    (free : LeavesPriceFree calls) (present : PresentLevels)
    (valid : PresentLevels.run? ∅ calls = some present) :
    ∃ levels, LevelMap.run (LevelMap.make side : AvlLevelMap) calls =
        .ok levels ∧ IsOrderedMap side levels present := by
  obtain ⟨levels, ran, holds⟩ := (holds_start side).run free valid
  exact ⟨levels, ran, holds.isOrderedMap⟩

theorem leavesPriceFree_of_length {calls : List LevelCall}
    (short : calls.length < 2 ^ 32) : LeavesPriceFree calls := by
  intro count present reached
  have bound := PresentLevels.size_run?_le reached
  have taken := List.length_take_le' count calls
  rw [ExtTreeMap.size_empty] at bound
  omega

/--
Forty goes above fifty and thirty in a double rotation, and fifty above forty
and sixty in another.  Fifty is erased below two children, and its successor
takes its node.  Without seventy the root turns around a child in balance, and
the last insertion takes the node of seventy again.
-/
def rotations : List LevelCall :=
  [.insert 50 ⟨1⟩, .insert 30 ⟨2⟩, .insert 40 ⟨3⟩, .insert 60 ⟨4⟩,
    .insert 70 ⟨5⟩, .insert 45 ⟨6⟩, .erase 50, .erase 70, .insert 65 ⟨7⟩]

theorem run?_rotations :
    ∃ present, PresentLevels.run? ∅ rotations = some present ∧
      present.toList =
        [(30, ⟨2⟩), (40, ⟨3⟩), (45, ⟨6⟩), (60, ⟨4⟩), (65, ⟨7⟩)] := by
  have value : (PresentLevels.run? ∅ rotations).map ExtTreeMap.toList =
      some [(30, ⟨2⟩), (40, ⟨3⟩), (45, ⟨6⟩), (60, ⟨4⟩), (65, ⟨7⟩)] := by
    decide +kernel
  exact Option.map_eq_some_iff.mp value

theorem run_rotations :
    (LevelMap.run (LevelMap.make .sell : AvlLevelMap) rotations).map
        (fun levels => (levels.root, levels.free,
          levels.nodes.map fun node => (node.price, node.height))) =
      .ok (2, 3,
        [(60, 2), (30, 1), (40, 3), (60, 2), (65, 1), (45, 1)]) := by
  decide +kernel

theorem avlLevelMap_isOrderedMap_rotations :
    LeavesPriceFree rotations ∧
      ∃ present levels, PresentLevels.run? ∅ rotations = some present ∧
        present.toList =
          [(30, ⟨2⟩), (40, ⟨3⟩), (45, ⟨6⟩), (60, ⟨4⟩), (65, ⟨7⟩)] ∧
        LevelMap.run (LevelMap.make .sell : AvlLevelMap) rotations =
          .ok levels ∧
        (levels.root, levels.free) = (2, 3) ∧
        IsOrderedMap .sell levels present := by
  have free : LeavesPriceFree rotations :=
    leavesPriceFree_of_length (by simp [rotations])
  have value := run_rotations
  obtain ⟨present, valid, entries⟩ := run?_rotations
  obtain ⟨levels, ran, ordered⟩ :=
    avlLevelMap_isOrderedMap .sell rotations free present valid
  rw [ran] at value
  simp only [Except.map, Except.ok.injEq, Prod.mk.injEq] at value
  exact ⟨free, present, levels, valid, entries, ran,
    Prod.ext value.1 value.2.1, ordered⟩

/-- An insertion for each of the first prices, from zero on. -/
def firstPrices (count : Nat) : List LevelCall :=
  (List.range count).map fun n => .insert (UInt32.ofNat n) ⟨0⟩

theorem run?_firstPrices (count : Nat) (small : count ≤ 2 ^ 32) :
    ∃ present, PresentLevels.run? ∅ (firstPrices count) = some present ∧
      present.size = count ∧
        ∀ p : Price, count ≤ p.toNat → present[p]? = none := by
  induction count with
  | zero => exact ⟨∅, rfl, ExtTreeMap.size_empty, fun p _ =>
      ExtTreeMap.getElem?_empty⟩
  | succ count induction =>
      obtain ⟨present, reached, size, absent⟩ := induction (by omega)
      have value : (UInt32.ofNat count).toNat = count :=
        UInt32.toNat_ofNat_of_lt' small
      have fresh : present[UInt32.ofNat count]? = none :=
        absent _ value.ge
      refine ⟨present.insert (UInt32.ofNat count) ⟨0⟩, ?_, ?_, ?_⟩
      · rw [firstPrices, List.range_succ, List.map_append,
          PresentLevels.run?_append]
        change (PresentLevels.run? ∅ (firstPrices count)).bind _ = _
        rw [reached, Option.bind_some, List.map_singleton,
          PresentLevels.run?, LevelCall.perform?,
          if_pos ⟨by decide, fresh⟩]
        rfl
      · rw [PresentLevels.size_insert fresh, size]
      · intro p above
        have different : p ≠ UInt32.ofNat count := by
          rintro rfl
          omega
        change PresentLevels.map (present.insert _ _) p = none
        rw [PresentLevels.map_insert, Function.update_of_ne different]
        exact absent p (by omega)

/-- Where every price is present, the 32 bit size is not their number. -/
theorem avlLevelMap_everyPrice :
    ∃ present,
      PresentLevels.run? ∅ (firstPrices (2 ^ 32)) = some present ∧
        ¬ ∃ levels, LevelMap.run (LevelMap.make .buy : AvlLevelMap)
            (firstPrices (2 ^ 32)) = .ok levels ∧
          IsOrderedMap .buy levels present := by
  obtain ⟨present, reached, size, -⟩ :=
    run?_firstPrices (2 ^ 32) (Nat.le_refl _)
  refine ⟨present, reached, ?_⟩
  rintro ⟨levels, -, ordered⟩
  have bound := levels.size.toNat_lt
  rw [ordered.size, size] at bound
  exact Nat.lt_irrefl _ bound

end ItchExchange.Book.AvlLevelMap
