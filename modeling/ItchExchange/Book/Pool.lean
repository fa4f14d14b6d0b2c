import ItchExchange.Book.Handle

/-!
# The slot pool

`pool.hpp`: slots which are handed out by handle, with a free list that runs
through the slots themselves.  A reference which the source obtains from
`operator[]` is a checked read (`get`); a write through it changes the slot at
the handle's index (`modify`).
-/

namespace ItchExchange.Book

open ItchExchange.Core

/-- A poolable slot lends the pool two fields it is not using while free. -/
class PoolSlot (T : Type) (Tag : outParam Type) where
  poolLink : T → Handle Tag
  setPoolLink : T → Handle Tag → T
  poolGeneration : T → UInt8
  setPoolGeneration : T → UInt8 → T
  /-- The value a slot is constructed with. -/
  fresh : T

/-- The two fields are fields. -/
class LawfulPoolSlot (T : Type) {Tag : Type} [PoolSlot T Tag] : Prop where
  link_setLink : ∀ (slot : T) (link : Handle Tag),
    PoolSlot.poolLink (PoolSlot.setPoolLink slot link) = link
  generation_setLink : ∀ (slot : T) (link : Handle Tag),
    PoolSlot.poolGeneration (PoolSlot.setPoolLink slot link) =
      PoolSlot.poolGeneration slot
  link_setGeneration : ∀ (slot : T) (generation : UInt8),
    PoolSlot.poolLink (PoolSlot.setPoolGeneration slot generation) =
      PoolSlot.poolLink slot
  generation_setGeneration : ∀ (slot : T) (generation : UInt8),
    PoolSlot.poolGeneration (PoolSlot.setPoolGeneration slot generation) =
      generation

/--
The slots, the first-in first-out quarantine of freed ones and its bound, the
head of the free list and the number of live slots.
-/
structure Pool (T : Type) {Tag : Type} [PoolSlot T Tag] where
  slots : List T
  quarantine : List Nat := []
  quarantineLimit : Nat
  freeHead : Handle Tag
  live : UInt32 := 0

namespace Pool

variable {T Tag : Type} [PoolSlot T Tag]

open PoolSlot

/-- The slot which the constructor builds at an index, linked to the next. -/
def initialSlot (capacity i : Nat) : T :=
  setPoolLink (setPoolGeneration fresh 0)
    (if i + 1 < capacity then Handle.pack (i + 1) 0 else Handle.null)

/-- The constructor. -/
def make (capacity : UInt32) (quarantineLimit : Nat) :
    Checked (Pool T) := do
  assertMsg (capacity > 0) "a pool needs at least one slot"
  assertMsg (capacity.toNat ≤ Handle.kMaxCapacity)
    "capacity exceeds what a 24-bit index can address"
  pure
    { slots := (List.range capacity.toNat).map (initialSlot capacity.toNat)
      quarantineLimit
      freeHead := Handle.pack 0 0 }

def capacity (pool : Pool T) : Nat := pool.slots.length

/-- The head of the free list is handed out, its generation now odd. -/
def allocate (pool : Pool T) : Checked (Handle Tag × Pool T) :=
  let index := pool.freeHead.index
  match pool.slots[index]? with
  | none => .error (.assertion "order pool exhausted")
  | some slot => do
      let generation := poolGeneration slot + 1
      assertMsg (generation &&& 1 = 1) "(slot.pool_generation() & 1u) == 1u"
      let h ← Handle.make index generation
      pure
        (h,
          { pool with
            slots := pool.slots.set index (setPoolGeneration slot generation)
            freeHead := poolLink slot
            live := pool.live + 1 })

/-- `operator[]`. -/
def get (pool : Pool T) (h : Handle Tag) : Checked T :=
  match pool.slots[h.index]? with
  | none =>
      .error (.assertion
        "handle is null, out of range, or from another pool")
  | some slot => do
      assertMsg (poolGeneration slot = h.generation)
        "stale handle: the slot has been freed or reused"
      pure slot

/-- A read through a reference to the slot of a handle, obtained before. -/
def value (pool : Pool T) (h : Handle Tag) : T :=
  pool.slots[h.index]?.getD fresh

/-- A write through a reference to the slot of a handle. -/
def modify (pool : Pool T) (h : Handle Tag) (write : T → T) : Pool T :=
  { pool with slots := pool.slots.modify h.index write }

/-- Puts a slot at the head of the free list. -/
def release (pool : Pool T) (index : Nat) : Checked (Pool T) :=
  match pool.slots[index]? with
  | none => .error .undefined
  | some slot => do
      let freeHead ← Handle.make index (poolGeneration slot)
      pure
        { pool with
          slots := pool.slots.set index (setPoolLink slot pool.freeHead)
          freeHead }

/--
The generation turns even, and the slot waits in the quarantine or goes to the
free list at once.
-/
def free (pool : Pool T) (h : Handle Tag) : Checked (Pool T) := do
  let slot ← pool.get h
  let generation := poolGeneration slot + 1
  assertMsg (generation &&& 1 = 0) "(slot.pool_generation() & 1u) == 0u"
  let pool :=
    { pool with
      slots := pool.slots.set h.index (setPoolGeneration slot generation)
      live := pool.live - 1 }
  if pool.quarantineLimit > 0 then
    let quarantine := pool.quarantine ++ [h.index]
    if quarantine.length > pool.quarantineLimit then do
      let pool ← pool.release (quarantine.headD 0)
      pure { pool with quarantine := quarantine.tail }
    else pure { pool with quarantine }
  else pool.release h.index

/-- Whether a handle names a slot which is still the one it was issued for. -/
def isLive (pool : Pool T) (h : Handle Tag) : Bool :=
  if h.isNull = true then false
  else
    match pool.slots[h.index]? with
    | none => false
    | some slot =>
        let g := poolGeneration slot
        decide (g = h.generation ∧ g &&& 1 = 1)

/--
The loop of `validate` along the free list.  It keeps the slots it has seen, so
it ends before it passes more slots than there are.
-/
def walkFree (pool : Pool T) :
    Nat → Handle Tag → List Nat → Checked (List Nat)
  | 0, _, _ => .error .divergence
  | fuel + 1, h, seen =>
      if h.isNull then pure seen
      else
        match pool.slots[h.index]? with
        | none => .error (.assertion "free list leaves the pool")
        | some slot => do
            assertMsg (h.index ∉ seen) "free list has a cycle"
            assertMsg (poolGeneration slot &&& 1 = 0)
              "a live slot is in the free list"
            pool.walkFree fuel (poolLink slot) (h.index :: seen)

/-- Every slot is live, free or held back, and each free one is found once. -/
def validate (pool : Pool T) : Checked Unit := do
  let seen ← pool.walkFree (pool.slots.length + 1) pool.freeHead []
  assertMsg
    (seen.length + pool.live.toNat + pool.quarantine.length =
      pool.slots.length)
    "slots are neither live, free nor quarantined"

/-! ## The shape of a pool -/

/-- From the head, the links run through these slots and end. -/
def FreeChain (slots : List T) : Handle Tag → List Nat → Prop
  | head, [] => head = Handle.null
  | head, index :: rest =>
      head.index = index ∧
        ∃ slot, slots[index]? = some slot ∧
          FreeChain slots (poolLink slot) rest

/--
The slots are split into those of the live handles, those on the free list and
those in the quarantine.
-/
structure Split (pool : Pool T) (live : List (Handle Tag))
    (free : List Nat) : Prop where
  bounded : pool.slots.length ≤ Handle.kMaxCapacity
  exact : (live.map Handle.index ++ (free ++ pool.quarantine)).Perm
    (List.range pool.slots.length)
  issued : ∀ h ∈ live, ∃ slot, pool.slots[h.index]? = some slot ∧
    poolGeneration slot = h.generation
  odd : ∀ h ∈ live, h.generation &&& 1 = 1
  even : ∀ index ∈ free ++ pool.quarantine, ∃ slot,
    pool.slots[index]? = some slot ∧ poolGeneration slot &&& 1 = 0
  chain : FreeChain pool.slots pool.freeHead free
  counted : pool.live = UInt32.ofNat live.length
  limited : pool.quarantine.length ≤ pool.quarantineLimit

/-- The free list only depends on the slots which are on it. -/
theorem FreeChain.congr {slots slots' : List T} {head : Handle Tag}
    {free : List Nat} (chain : FreeChain slots head free)
    (same : ∀ index ∈ free, slots'[index]? = slots[index]?) :
    FreeChain slots' head free := by
  induction free generalizing head with
  | nil => exact chain
  | cons index rest induction =>
      obtain ⟨here, slot, found, later⟩ := chain
      obtain ⟨sameHere, sameLater⟩ := List.forall_mem_cons.mp same
      exact ⟨here, slot, sameHere.trans found, induction later sameLater⟩

section Split

variable {pool : Pool T} {live : List (Handle Tag)} {free : List Nat}

theorem Split.nodup (split : pool.Split live free) :
    (live.map Handle.index ++ (free ++ pool.quarantine)).Nodup :=
  split.exact.nodup_iff.mpr List.nodup_range

/-- The live, the free and the held back slots are all there are. -/
theorem Split.length_eq (split : pool.Split live free) :
    live.length + (free.length + pool.quarantine.length) =
      pool.slots.length := by
  have length := split.exact.length_eq
  simpa using length

/-- The slots are those of live handles, the free ones and those held back. -/
theorem Split.mem_iff (split : pool.Split live free) (index : Nat) :
    index < pool.slots.length ↔
      (∃ h ∈ live, h.index = index) ∨ index ∈ free ∨
        index ∈ pool.quarantine := by
  rw [← List.mem_range, ← split.exact.mem_iff]
  simp

/-- The order in which the live handles are listed does not matter. -/
theorem Split.perm (split : pool.Split live free)
    {live' : List (Handle Tag)} (perm : live'.Perm live) :
    pool.Split live' free where
  bounded := split.bounded
  exact := ((perm.map _).append_right _).trans split.exact
  issued := fun h member => split.issued h (perm.mem_iff.mp member)
  odd := fun h member => split.odd h (perm.mem_iff.mp member)
  even := split.even
  chain := split.chain
  counted := by rw [perm.length_eq, split.counted]
  limited := split.limited

/-- Live handles are told apart by their indices. -/
theorem Split.eq_of_index (split : pool.Split live free)
    {first second : Handle Tag} (firstLive : first ∈ live)
    (secondLive : second ∈ live) (index : first.index = second.index) :
    first = second :=
  List.inj_on_of_nodup_map (List.nodup_append.mp split.nodup).1
    firstLive secondLive index

theorem Split.bounds (split : pool.Split live free) {h : Handle Tag}
    (member : h ∈ live) : h.index < pool.slots.length :=
  (split.mem_iff h.index).mpr (Or.inl ⟨h, member, rfl⟩)

/-- No live slot is on the free list, or held back. -/
theorem Split.not_mem_free (split : pool.Split live free) {h : Handle Tag}
    (member : h ∈ live) : h.index ∉ free ++ pool.quarantine := fun other =>
  (List.nodup_append.mp split.nodup).2.2 _
    (List.mem_map_of_mem member) _ other rfl

theorem Split.ne_null (split : pool.Split live free) {h : Handle Tag}
    (member : h ∈ live) : h ≠ Handle.null :=
  Handle.ne_null_of_index
    (Nat.lt_of_lt_of_le (split.bounds member) split.bounded)

/-! ## Reading and writing -/

/-- A live handle passes the checks of `operator[]`. -/
theorem Split.get (split : pool.Split live free) {h : Handle Tag}
    (member : h ∈ live) : pool.get h = .ok (pool.value h) := by
  obtain ⟨slot, found, generation⟩ := split.issued h member
  rw [Pool.get, value, found]
  simp only [assertMsg_of generation, ok_bind, Option.getD_some, pure_eq_ok]

theorem slot_modify_self (h : Handle Tag) (write : T → T) :
    (pool.modify h write).slots[h.index]? =
      (pool.slots[h.index]?).map write := by
  simp [modify]

theorem slot_modify_of_ne {h : Handle Tag} {index : Nat}
    (distinct : index ≠ h.index) (write : T → T) :
    (pool.modify h write).slots[index]? = pool.slots[index]? := by
  simp [modify, distinct.symm]

theorem value_modify_self {h : Handle Tag}
    (inside : h.index < pool.slots.length) (write : T → T) :
    (pool.modify h write).value h = write (pool.value h) := by
  rw [value, value, slot_modify_self, List.getElem?_eq_getElem inside]
  rfl

/-- A write through one handle does not reach the slot of another. -/
theorem value_modify_of_ne {h other : Handle Tag}
    (distinct : other.index ≠ h.index) (write : T → T) :
    (pool.modify h write).value other = pool.value other := by
  rw [value, value, slot_modify_of_ne distinct]

/-- An owner may write anything into a slot but its generation. -/
theorem Split.modify (split : pool.Split live free) {h : Handle Tag}
    (member : h ∈ live) {write : T → T}
    (keeps : ∀ slot, poolGeneration (write slot) = poolGeneration slot) :
    (pool.modify h write).Split live free := by
  have length : (pool.modify h write).slots.length = pool.slots.length :=
    List.length_modify _ _ _
  have elsewhere : ∀ index ∈ free ++ pool.quarantine,
      (pool.modify h write).slots[index]? = pool.slots[index]? := by
    intro index other
    refine slot_modify_of_ne ?_ write
    rintro rfl
    exact split.not_mem_free member other
  constructor
  case bounded => rw [length]; exact split.bounded
  case exact => rw [length]; exact split.exact
  case issued =>
    intro other otherLive
    obtain ⟨slot, found, generation⟩ := split.issued other otherLive
    by_cases same : other.index = h.index
    · refine ⟨write slot, ?_, (keeps slot).trans generation⟩
      rw [same, slot_modify_self, ← same, found]
      rfl
    · exact ⟨slot, (slot_modify_of_ne same write).trans found, generation⟩
  case odd => exact split.odd
  case even =>
    intro index other
    obtain ⟨slot, found, even⟩ := split.even index other
    exact ⟨slot, (elsewhere index other).trans found, even⟩
  case chain =>
    exact split.chain.congr fun index other =>
      elsewhere index (List.mem_append_left _ other)
  case counted => exact split.counted
  case limited => exact split.limited

end Split

/-! ## Allocating and freeing -/

/-- An even generation is followed by an odd one, also where it wraps. -/
theorem odd_succ {generation : UInt8} (even : generation &&& 1 = 0) :
    (generation + 1) &&& 1 = 1 := by
  have parity := congrArg UInt8.toNat even
  apply UInt8.toNat_inj.mp
  simp only [UInt8.toNat_and, UInt8.toNat_add, UInt8.toNat_one,
    UInt8.toNat_zero, Nat.and_one_is_mod] at parity ⊢
  omega

/-- An odd generation is followed by an even one, also where it wraps. -/
theorem even_succ {generation : UInt8} (odd : generation &&& 1 = 1) :
    (generation + 1) &&& 1 = 0 := by
  have parity := congrArg UInt8.toNat odd
  apply UInt8.toNat_inj.mp
  simp only [UInt8.toNat_and, UInt8.toNat_add, UInt8.toNat_one,
    UInt8.toNat_zero, Nat.and_one_is_mod] at parity ⊢
  omega

section Operations

variable [LawfulPoolSlot T] {pool : Pool T} {live : List (Handle Tag)}
  {vacant : List Nat}

/-- The head of the free list is handed out under its next generation. -/
theorem Split.allocate {index : Nat}
    (split : pool.Split live (index :: vacant)) :
    ∃ h pool', pool.allocate = .ok (h, pool') ∧
      pool'.Split (h :: live) vacant ∧
      pool'.slots.length = pool.slots.length ∧
      pool'.quarantine = pool.quarantine ∧
      pool'.quarantineLimit = pool.quarantineLimit ∧
      ∀ other ∈ live, pool'.value other = pool.value other := by
  obtain ⟨rfl, slot, found, chain⟩ := split.chain
  obtain ⟨other, foundOther, even⟩ :=
    split.even pool.freeHead.index (List.mem_append_left _ List.mem_cons_self)
  obtain rfl := Option.some.inj (found.symm.trans foundOther)
  have inside : pool.freeHead.index < pool.slots.length :=
    (split.mem_iff _).mpr (Or.inr (Or.inl List.mem_cons_self))
  have below : pool.freeHead.index < Handle.kMaxCapacity :=
    Nat.lt_of_lt_of_le inside split.bounded
  have index : (Handle.pack pool.freeHead.index
      (poolGeneration slot + 1) : Handle Tag).index =
        pool.freeHead.index :=
    Handle.index_pack pool.freeHead.index_lt _
  have generation : (Handle.pack pool.freeHead.index
      (poolGeneration slot + 1) : Handle Tag).generation =
        poolGeneration slot + 1 :=
    Handle.generation_pack pool.freeHead.index_lt _
  have elsewhere : ∀ {place : Nat}, place ≠ pool.freeHead.index →
      (pool.slots.set pool.freeHead.index
        (setPoolGeneration slot (poolGeneration slot + 1)))[place]? =
          pool.slots[place]? := fun distinct =>
    List.getElem?_set_ne distinct.symm
  have liveElsewhere : ∀ other ∈ live,
      other.index ≠ pool.freeHead.index := by
    intro other member same
    refine split.not_mem_free member ?_
    rw [same]
    exact List.mem_append_left _ List.mem_cons_self
  have notAgain : pool.freeHead.index ∉ vacant ++ pool.quarantine :=
    (List.nodup_cons.mp (List.nodup_append.mp split.nodup).2.1).1
  refine ⟨Handle.pack pool.freeHead.index (poolGeneration slot + 1),
    { pool with
      slots := pool.slots.set pool.freeHead.index
        (setPoolGeneration slot (poolGeneration slot + 1))
      freeHead := poolLink slot
      live := pool.live + 1 }, ?_, ?_, List.length_set, rfl, rfl, ?_⟩
  · rw [Pool.allocate]
    simp only [found, assertMsg_of (odd_succ even), ok_bind,
      Handle.make_eq_ok below, pure_eq_ok]
  · constructor
    case bounded => rw [List.length_set]; exact split.bounded
    case exact =>
      rw [List.length_set, List.map_cons, index]
      exact List.perm_middle.symm.trans split.exact
    case issued =>
      intro other member
      rcases List.mem_cons.mp member with rfl | older
      · rw [index, List.getElem?_set_self inside]
        exact ⟨_, rfl,
          (LawfulPoolSlot.generation_setGeneration _ _).trans
            generation.symm⟩
      · rw [elsewhere (liveElsewhere other older)]
        exact split.issued other older
    case odd =>
      intro other member
      rcases List.mem_cons.mp member with rfl | older
      · rw [generation]
        exact odd_succ even
      · exact split.odd other older
    case even =>
      intro place member
      rw [elsewhere fun same => notAgain (same ▸ member)]
      exact split.even place (List.mem_cons_of_mem _ member)
    case chain =>
      refine chain.congr fun place member => ?_
      exact elsewhere fun same =>
        notAgain (same ▸ List.mem_append_left _ member)
    case counted =>
      rw [split.counted, List.length_cons, UInt32.ofNat_add]
      rfl
    case limited => exact split.limited
  · intro other member
    rw [value, value, elsewhere (liveElsewhere other member)]

omit [LawfulPoolSlot T] in
/-- With no slot on the free list the pool reports that it is exhausted. -/
theorem Split.allocate_of_nil (split : pool.Split live []) :
    pool.allocate = .error (.assertion "order pool exhausted") := by
  have outside : pool.slots[pool.freeHead.index]? = none := by
    have empty : pool.freeHead = Handle.null := split.chain
    rw [empty, Handle.index_null]
    exact List.getElem?_eq_none split.bounded
  rw [Pool.allocate]
  simp only [outside]

/-- A live slot moves to the end of the quarantine. -/
theorem Split.retire (split : pool.Split live vacant) {h : Handle Tag}
    (member : h ∈ live) {limit : Nat}
    (room : pool.quarantine.length + 1 ≤ limit) :
    ∃ slot, pool.get h = .ok slot ∧ (poolGeneration slot + 1) &&& 1 = 0 ∧
      Split
        { pool with
          slots := pool.slots.set h.index
            (setPoolGeneration slot (poolGeneration slot + 1))
          live := pool.live - 1
          quarantine := pool.quarantine ++ [h.index]
          quarantineLimit := limit }
        (live.erase h) vacant ∧
      ∀ other ∈ live, other ≠ h →
        (pool.slots.set h.index
          (setPoolGeneration slot (poolGeneration slot + 1)))[other.index]? =
            pool.slots[other.index]? := by
  obtain ⟨slot, found, generation⟩ := split.issued h member
  have inside := split.bounds member
  have even : (poolGeneration slot + 1) &&& 1 = 0 :=
    even_succ (generation ▸ split.odd h member)
  have outside := split.not_mem_free member
  have split_live : live.Perm (h :: live.erase h) :=
    List.perm_cons_erase member
  have nodup : live.Nodup :=
    List.Nodup.of_map _ (List.nodup_append.mp split.nodup).1
  have remaining : ∀ other ∈ live.erase h,
      other ∈ live ∧ other.index ≠ h.index := by
    intro other otherLeft
    have otherLive := List.mem_of_mem_erase otherLeft
    refine ⟨otherLive, fun same => ?_⟩
    obtain rfl := split.eq_of_index otherLive member same
    exact nodup.not_mem_erase otherLeft
  have elsewhere : ∀ {place : Nat}, place ≠ h.index →
      (pool.slots.set h.index
        (setPoolGeneration slot (poolGeneration slot + 1)))[place]? =
          pool.slots[place]? := fun distinct =>
    List.getElem?_set_ne distinct.symm
  refine ⟨slot, ?_, even, ?_, ?_⟩
  · rw [split.get member, value, found]
    rfl
  · constructor
    case bounded => rw [List.length_set]; exact split.bounded
    case exact =>
      rw [List.length_set]
      refine List.Perm.trans ?_ split.exact
      rw [← List.append_assoc, ← List.append_assoc]
      refine List.perm_append_comm.trans ?_
      rw [List.singleton_append, List.append_assoc]
      exact (split_live.map Handle.index).symm.append_right _
    case issued =>
      intro other otherLeft
      obtain ⟨otherLive, distinct⟩ := remaining other otherLeft
      rw [elsewhere distinct]
      exact split.issued other otherLive
    case odd =>
      exact fun other otherLeft =>
        split.odd other (remaining other otherLeft).1
    case even =>
      intro place inFree
      rw [← List.append_assoc] at inFree
      rcases List.mem_append.mp inFree with older | new
      · rw [elsewhere fun same => outside (same ▸ older)]
        exact split.even place older
      · rw [List.mem_singleton.mp new, List.getElem?_set_self inside]
        refine ⟨_, rfl, ?_⟩
        rw [LawfulPoolSlot.generation_setGeneration, even]
    case chain =>
      refine split.chain.congr fun place inFree => ?_
      exact elsewhere fun same =>
        outside (same ▸ List.mem_append_left _ inFree)
    case counted =>
      have length := split_live.length_eq
      rw [List.length_cons] at length
      dsimp only
      rw [split.counted, length, UInt32.ofNat_add]
      exact UInt32.add_sub_cancel _ _
    case limited =>
      dsimp only
      rw [List.length_append]
      exact room
  · exact fun other otherLive distinct => elsewhere fun same =>
      distinct (split.eq_of_index otherLive member same)

omit [LawfulPoolSlot T] in
theorem release_eq_ok {index : Nat} {slot : T}
    (found : pool.slots[index]? = some slot)
    (below : index < Handle.kMaxCapacity) :
    pool.release index =
      .ok { pool with
        slots := pool.slots.set index (setPoolLink slot pool.freeHead)
        freeHead := Handle.pack index (poolGeneration slot) } := by
  rw [release, found]
  simp only [Handle.make_eq_ok below, ok_bind, pure_eq_ok]

/-- The first slot of the quarantine becomes the head of the free list. -/
theorem Split.release (split : pool.Split live vacant) {index : Nat}
    {rest : List Nat} (front : pool.quarantine = index :: rest)
    {limit : Nat} (room : rest.length ≤ limit) :
    ∃ slot, pool.slots[index]? = some slot ∧
      index < Handle.kMaxCapacity ∧
      Split
        { pool with
          slots := pool.slots.set index (setPoolLink slot pool.freeHead)
          freeHead := Handle.pack index (poolGeneration slot)
          quarantine := rest
          quarantineLimit := limit }
        live (index :: vacant) ∧
      ∀ h ∈ live,
        (pool.slots.set index (setPoolLink slot pool.freeHead))[h.index]? =
          pool.slots[h.index]? := by
  have held : index ∈ vacant ++ pool.quarantine := by
    rw [front]
    exact List.mem_append_right _ List.mem_cons_self
  obtain ⟨slot, found, even⟩ := split.even index held
  have inside := (List.getElem?_eq_some_iff.mp found).1
  have below := Nat.lt_of_lt_of_le inside split.bounded
  have small : index < 2 ^ 24 := below.trans (by decide)
  have notLive : ∀ h ∈ live, h.index ≠ index := by
    rintro h member rfl
    exact split.not_mem_free member held
  have moved : (vacant ++ index :: rest).Nodup :=
    front ▸ (List.nodup_append.mp split.nodup).2.1
  have notAgain : index ∉ vacant ++ rest :=
    (List.nodup_cons.mp (List.perm_middle.nodup_iff.mp moved)).1
  have elsewhere : ∀ {place : Nat}, place ≠ index →
      (pool.slots.set index (setPoolLink slot pool.freeHead))[place]? =
        pool.slots[place]? := fun distinct =>
    List.getElem?_set_ne distinct.symm
  refine ⟨slot, found, below, ?_,
    fun h member => elsewhere (notLive h member)⟩
  constructor
  case bounded => rw [List.length_set]; exact split.bounded
  case exact =>
    rw [List.length_set]
    refine List.Perm.trans ?_ split.exact
    rw [front]
    exact List.Perm.append_left _ List.perm_middle.symm
  case issued =>
    intro h member
    rw [elsewhere (notLive h member)]
    exact split.issued h member
  case odd => exact split.odd
  case even =>
    intro place inFree
    rcases List.mem_cons.mp inFree with rfl | other
    · rw [List.getElem?_set_self inside]
      refine ⟨_, rfl, ?_⟩
      rw [LawfulPoolSlot.generation_setLink, even]
    · rw [elsewhere fun same => notAgain (same ▸ other)]
      refine split.even place ?_
      rw [front]
      rcases List.mem_append.mp other with older | waiting
      · exact List.mem_append_left _ older
      · exact List.mem_append_right _ (List.mem_cons_of_mem _ waiting)
  case chain =>
    refine ⟨Handle.index_pack small _, _, List.getElem?_set_self inside, ?_⟩
    have link : poolLink (setPoolLink slot pool.freeHead) = pool.freeHead :=
      LawfulPoolSlot.link_setLink _ _
    rw [link]
    refine split.chain.congr fun place inFree => ?_
    exact elsewhere fun same =>
      notAgain (same ▸ List.mem_append_left _ inFree)
  case counted => exact split.counted
  case limited => exact room

/-- A live slot joins the quarantine, and the first slot there leaves it. -/
theorem Split.retire_release (split : pool.Split live vacant)
    {h : Handle Tag} (member : h ∈ live) {index : Nat} {rest : List Nat}
    (front : pool.quarantine ++ [h.index] = index :: rest) {limit : Nat}
    (room : rest.length ≤ limit) :
    ∃ slot freed, pool.get h = .ok slot ∧
      (poolGeneration slot + 1) &&& 1 = 0 ∧
      (pool.slots.set h.index
        (setPoolGeneration slot (poolGeneration slot + 1)))[index]? =
          some freed ∧
      index < Handle.kMaxCapacity ∧
      Split
        { pool with
          slots := (pool.slots.set h.index
              (setPoolGeneration slot (poolGeneration slot + 1))).set index
            (setPoolLink freed pool.freeHead)
          freeHead := Handle.pack index (poolGeneration freed)
          live := pool.live - 1
          quarantine := rest
          quarantineLimit := limit }
        (live.erase h) (index :: vacant) ∧
      ∀ other ∈ live, other ≠ h →
        ((pool.slots.set h.index
            (setPoolGeneration slot (poolGeneration slot + 1))).set index
          (setPoolLink freed pool.freeHead))[other.index]? =
            pool.slots[other.index]? := by
  obtain ⟨slot, got, even, retired, kept⟩ :=
    split.retire member (Nat.le_refl (pool.quarantine.length + 1))
  obtain ⟨freed, found, below, released, kept'⟩ :=
    retired.release front room
  refine ⟨slot, freed, got, even, found, below, released, ?_⟩
  intro other otherLive distinct
  have remains : other ∈ live.erase h :=
    (List.mem_erase_of_ne distinct).mpr otherLive
  exact (kept' other remains).trans (kept other otherLive distinct)

/--
The slot of a live handle moves to the quarantine, or to the free list, and the
slot which leaves the quarantine for it also does.
-/
theorem Split.free (split : pool.Split live vacant) {h : Handle Tag}
    (member : h ∈ live) :
    ∃ pool' vacant', pool.free h = .ok pool' ∧
      pool'.Split (live.erase h) vacant' ∧
      pool'.slots.length = pool.slots.length ∧
      pool'.quarantineLimit = pool.quarantineLimit ∧
      ∀ other ∈ live, other ≠ h →
        pool'.value other = pool.value other := by
  have limited := split.limited
  by_cases immediate : pool.quarantineLimit = 0
  · have empty : pool.quarantine = [] :=
      List.eq_nil_of_length_eq_zero (by omega)
    have front : pool.quarantine ++ [h.index] =
        h.index :: pool.quarantine := by rw [empty]; rfl
    obtain ⟨slot, freed, got, even, found, below, released, kept⟩ :=
      split.retire_release member front limited
    refine ⟨_, _, ?_, released, ?_, rfl, ?_⟩
    · rw [Pool.free, got, ok_bind]
      dsimp only
      rw [assertMsg_of even, ok_bind, if_neg (by omega)]
      exact release_eq_ok found below
    · simp only [List.length_set]
    · intro other otherLive distinct
      rw [value, value, kept other otherLive distinct]
  · by_cases full : pool.quarantineLimit < pool.quarantine.length + 1
    · obtain ⟨index, rest, front⟩ := List.exists_cons_of_length_pos
        (show 0 < pool.quarantine.length by omega)
      have moved : pool.quarantine ++ [h.index] =
          index :: (rest ++ [h.index]) := by rw [front]; rfl
      have room : (rest ++ [h.index]).length ≤ pool.quarantineLimit := by
        rw [front, List.length_cons] at limited
        rw [List.length_append, List.length_singleton]
        exact limited
      obtain ⟨slot, freed, got, even, found, below, released, kept⟩ :=
        split.retire_release member moved room
      refine ⟨_, _, ?_, released, ?_, rfl, ?_⟩
      · rw [Pool.free, got, ok_bind]
        dsimp only
        rw [assertMsg_of even, ok_bind, if_pos (by omega), if_pos (by
          rw [List.length_append, List.length_singleton]
          exact full), front, List.cons_append, List.headD_cons]
        exact bind_eq_ok_iff.mpr ⟨_, release_eq_ok found below, rfl⟩
      · simp only [List.length_set]
      · intro other otherLive distinct
        rw [value, value, kept other otherLive distinct]
    · obtain ⟨slot, got, even, retired, kept⟩ :=
        split.retire member (Nat.le_of_not_lt full)
      refine ⟨_, _, ?_, retired, List.length_set, rfl, ?_⟩
      · rw [Pool.free, got, ok_bind]
        dsimp only
        rw [assertMsg_of even, ok_bind, if_pos (by omega), if_neg (by
          rw [List.length_append, List.length_singleton]
          exact full)]
        rfl
      · intro other otherLive distinct
        rw [value, value, kept other otherLive distinct]

end Operations

/-! ## A new pool -/

/-- The handle with which the constructor links to an index. -/
def initialLink (capacity i : Nat) : Handle Tag :=
  if i < capacity then Handle.pack i 0 else Handle.null

theorem slot_initial {capacity i : Nat} (inside : i < capacity) :
    ((List.range capacity).map (initialSlot (T := T) capacity))[i]? =
      some (initialSlot capacity i) := by
  simp [inside]

section Initial

variable [LawfulPoolSlot T]

/-- From any index on, the initial slots are linked in ascending order. -/
theorem freeChain_initial {capacity : Nat}
    (bounded : capacity ≤ Handle.kMaxCapacity) {count start : Nat}
    (exact : start + count = capacity) :
    FreeChain ((List.range capacity).map (initialSlot (T := T) capacity))
      (initialLink capacity start) (List.range' start count) := by
  induction count generalizing start with
  | zero =>
      exact if_neg (by omega)
  | succ count induction =>
      have inside : start < capacity := by omega
      have small : start < 2 ^ 24 := by
        unfold Handle.kMaxCapacity Handle.kNullIndex at bounded
        omega
      rw [List.range'_succ]
      refine ⟨?_, initialSlot capacity start, slot_initial inside, ?_⟩
      · rw [initialLink, if_pos inside, Handle.index_pack small]
      · rw [initialSlot, LawfulPoolSlot.link_setLink]
        exact induction (by omega)

/-- The constructor puts every slot on the free list. -/
theorem split_of_make {capacity : UInt32} {quarantineLimit : Nat}
    {pool : Pool T} (made : make capacity quarantineLimit = .ok pool) :
    pool.Split [] (List.range capacity.toNat) ∧
      pool.slots.length = capacity.toNat ∧
      pool.quarantineLimit = quarantineLimit := by
  unfold make at made
  obtain ⟨_, someSlot, made⟩ := bind_eq_ok_iff.mp made
  obtain ⟨_, bounded, made⟩ := bind_eq_ok_iff.mp made
  rw [assertMsg_eq_ok_iff] at someSlot bounded
  rw [pure_eq_ok, Except.ok.injEq] at made
  subst made
  have length : ((List.range capacity.toNat).map
      (initialSlot (T := T) capacity.toNat)).length = capacity.toNat := by
    simp
  refine ⟨?_, length, rfl⟩
  constructor
  case bounded => exact length.trans_le bounded
  case exact => simp
  case issued => simp
  case odd => simp
  case even =>
    intro index member
    rw [List.append_nil, List.mem_range] at member
    refine ⟨_, slot_initial member, ?_⟩
    rw [initialSlot, LawfulPoolSlot.generation_setLink,
      LawfulPoolSlot.generation_setGeneration]
    rfl
  case chain =>
    have chain := freeChain_initial (T := T) bounded
      (Nat.zero_add capacity.toNat)
    have head : (initialLink capacity.toNat 0 : Handle Tag) =
        Handle.pack 0 0 := if_pos (UInt32.lt_iff_toNat_lt.mp someSlot)
    rwa [head, ← List.range_eq_range'] at chain
  case counted => rfl
  case limited => exact Nat.zero_le _

end Initial

/-! ## The handles of a pool -/

/--
A pool in which these handles are live, with room for a number of them.  The
quarantine may hold back as many slots as its limit.
-/
structure Serves (pool : Pool T) (size : Nat) (live : List (Handle Tag)) :
    Prop where
  split : ∃ vacant, pool.Split live vacant
  size : pool.slots.length - pool.quarantineLimit = size

section Serves

variable {pool : Pool T} {size : Nat} {live : List (Handle Tag)}
  {h : Handle Tag}

theorem Serves.nodup (serves : pool.Serves size live) :
    (live.map Handle.index).Nodup := by
  obtain ⟨vacant, split⟩ := serves.split
  exact (List.nodup_append.mp split.nodup).1

theorem Serves.perm (serves : pool.Serves size live)
    {live' : List (Handle Tag)} (perm : live'.Perm live) :
    pool.Serves size live' := by
  obtain ⟨vacant, split⟩ := serves.split
  exact ⟨⟨vacant, split.perm perm⟩, serves.size⟩

/-- No more handles are live than there are slots. -/
theorem Serves.length_le (serves : pool.Serves size live) :
    live.length ≤ pool.slots.length := by
  obtain ⟨vacant, split⟩ := serves.split
  have length := split.length_eq
  omega

theorem Serves.size_le (serves : pool.Serves size live) :
    size ≤ Handle.kMaxCapacity := by
  obtain ⟨vacant, split⟩ := serves.split
  have bounded := split.bounded
  have size := serves.size
  omega

theorem Serves.capacity_le (serves : pool.Serves size live) :
    pool.slots.length ≤ Handle.kMaxCapacity := by
  obtain ⟨vacant, split⟩ := serves.split
  exact split.bounded

theorem Serves.ne_null (serves : pool.Serves size live)
    (member : h ∈ live) : h ≠ Handle.null := by
  obtain ⟨vacant, split⟩ := serves.split
  exact split.ne_null member

/-- A live handle of a serving pool passes the checks of `operator[]`. -/
theorem Serves.get (serves : pool.Serves size live) (member : h ∈ live) :
    pool.get h = .ok (pool.value h) := by
  obtain ⟨vacant, split⟩ := serves.split
  exact split.get member

/-- A pool serves on after a write which leaves the generation alone. -/
theorem Serves.modify (serves : pool.Serves size live)
    (member : h ∈ live) {write : T → T}
    (keeps : ∀ slot, poolGeneration (write slot) = poolGeneration slot) :
    (pool.modify h write).Serves size live := by
  obtain ⟨vacant, split⟩ := serves.split
  refine ⟨⟨vacant, split.modify member keeps⟩, ?_⟩
  rw [Pool.modify, List.length_modify, serves.size]

/-- After a write the slot of its handle has changed, and no other one. -/
theorem Serves.value_modify (serves : pool.Serves size live)
    (member : h ∈ live) (write : T → T) :
    ∀ other ∈ live, (pool.modify h write).value other =
      if other = h then write (pool.value other) else pool.value other := by
  intro other otherLive
  obtain ⟨vacant, split⟩ := serves.split
  by_cases same : other = h
  · rw [if_pos same, same, value_modify_self (split.bounds member)]
  · rw [if_neg same]
    exact value_modify_of_ne
      (fun index => same (split.eq_of_index otherLive member index)) write

variable [LawfulPoolSlot T]

/-- A pool with room hands out one more handle, and no value changes. -/
theorem Serves.allocate (serves : pool.Serves size live)
    (room : live.length < size) :
    ∃ h pool', pool.allocate = .ok (h, pool') ∧
      pool'.Serves size (h :: live) ∧
      ∀ other ∈ live, pool'.value other = pool.value other := by
  obtain ⟨vacant, split⟩ := serves.split
  have length := split.length_eq
  have limited := split.limited
  have size := serves.size
  cases vacant with
  | nil =>
      rw [List.length_nil] at length
      omega
  | cons index vacant =>
      obtain ⟨h, pool', allocated, split', length', -, limit', same⟩ :=
        split.allocate
      refine ⟨h, pool', allocated, ⟨⟨vacant, split'⟩, ?_⟩, same⟩
      rw [length', limit', size]

/-- A pool takes back a live handle, and no other value changes. -/
theorem Serves.free (serves : pool.Serves size live) (member : h ∈ live) :
    ∃ pool', pool.free h = .ok pool' ∧
      pool'.Serves size (live.erase h) ∧
      ∀ other ∈ live, other ≠ h →
        pool'.value other = pool.value other := by
  obtain ⟨vacant, split⟩ := serves.split
  obtain ⟨pool', vacant', freed, split', length', limit', same⟩ :=
    split.free member
  refine ⟨pool', freed, ⟨⟨vacant', split'⟩, ?_⟩, same⟩
  rw [length', limit', serves.size]

/-- A new pool serves what the quarantine leaves of its capacity. -/
theorem serves_of_make {capacity : UInt32} {quarantineLimit : Nat}
    (made : make capacity quarantineLimit = .ok pool) :
    pool.Serves (capacity.toNat - quarantineLimit) [] := by
  obtain ⟨split, size, limit⟩ := split_of_make made
  exact ⟨⟨_, split⟩, by rw [size, limit]⟩

end Serves

/-! ## The self-check -/

section Validate

variable {pool : Pool T} {live : List (Handle Tag)} {vacant : List Nat}

/--
By induction on the free list: the walk collects its slots, each of which it has
not seen and finds even.
-/
theorem walkFree_chain {h : Handle Tag} {chain seen : List Nat} {fuel : Nat}
    (bounded : pool.slots.length ≤ Handle.kMaxCapacity)
    (links : FreeChain pool.slots h chain) (distinct : (chain ++ seen).Nodup)
    (even : ∀ index ∈ chain, ∃ slot,
      pool.slots[index]? = some slot ∧ poolGeneration slot &&& 1 = 0)
    (enough : chain.length < fuel) :
    pool.walkFree fuel h seen = .ok (chain.reverse ++ seen) := by
  induction chain generalizing h seen fuel with
  | nil =>
      obtain ⟨fuel, rfl⟩ := Nat.exists_eq_add_of_lt enough
      rw [walkFree, if_pos (Handle.isNull_iff.mpr links)]
      rfl
  | cons index rest induction =>
      obtain ⟨fuel, rfl⟩ := Nat.exists_eq_add_of_lt enough
      obtain ⟨rfl, slot, found, later⟩ := links
      obtain ⟨evenHere, evenLater⟩ := List.forall_mem_cons.mp even
      obtain ⟨other, otherFound, isEven⟩ := evenHere
      obtain rfl : slot = other :=
        Option.some.inj (found.symm.trans otherFound)
      have inside := (List.getElem?_eq_some_iff.mp found).1
      have notNull : h ≠ Handle.null :=
        Handle.ne_null_of_index (Nat.lt_of_lt_of_le inside bounded)
      have moved : (rest ++ h.index :: seen).Nodup :=
        (List.perm_middle.nodup_iff).mpr distinct
      have fresh : h.index ∉ seen := fun member =>
        (List.nodup_cons.mp distinct).1 (List.mem_append_right _ member)
      have walked := induction later moved evenLater
        (show rest.length < (h.index :: rest).length + fuel by
          rw [List.length_cons]; omega)
      rw [walkFree, if_neg (mt Handle.isNull_iff.mp notNull), found]
      dsimp only
      rw [assertMsg_of fresh, ok_bind, assertMsg_of isEven, ok_bind, walked,
        List.reverse_cons, List.append_assoc]
      rfl

/-- A pool whose slots are split passes its self-check. -/
theorem Split.validate (split : pool.Split live vacant) :
    pool.validate = .ok () := by
  have length := split.length_eq
  have distinct : vacant.Nodup :=
    (List.nodup_append.mp (List.nodup_append.mp split.nodup).2.1).1
  have bounded := split.bounded
  have small : Handle.kMaxCapacity < UInt32.size := by decide
  have counted : pool.live.toNat = live.length := by
    rw [split.counted, UInt32.toNat_ofNat_of_lt' (by omega)]
  have walked : pool.walkFree (pool.slots.length + 1) pool.freeHead [] =
      .ok (vacant.reverse ++ []) :=
    walkFree_chain bounded split.chain
      (by rw [List.append_nil]; exact distinct)
      (fun index member => split.even index (List.mem_append_left _ member))
      (by omega)
  rw [Pool.validate, walked, ok_bind, List.append_nil, List.length_reverse,
    counted]
  exact assertMsg_of (by omega)

theorem Serves.validate {size : Nat} (serves : pool.Serves size live) :
    pool.validate = .ok () := by
  obtain ⟨vacant, split⟩ := serves.split
  exact split.validate

end Validate

end Pool

end ItchExchange.Book
