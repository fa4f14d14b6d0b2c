import ItchExchange.Book.FlatBook

/-!
# Runs of a pool

The calls which the clients of a pool make, one after another: allocations,
frees of live handles, and writes of an owner to the link field of its slot.  The
history of a run is a list with its last event first.
-/

namespace ItchExchange.Book.Pool

open ItchExchange.Core

/-- What a client has done. -/
inductive Event (Tag : Type) where
  | allocated (h : Handle Tag)
  | freed (h : Handle Tag)
  | linked (h : Handle Tag)

/-- The handles which are issued and not freed. -/
def outstanding {Tag : Type} : List (Event Tag) → List (Handle Tag)
  | [] => []
  | .allocated h :: past => h :: outstanding past
  | .freed h :: past => (outstanding past).erase h
  | .linked _ :: past => outstanding past

def Event.allocates {Tag : Type} (index : Nat) : Event Tag → Bool
  | .allocated h => decide (h.index = index)
  | _ => false

def Event.releases {Tag : Type} (index : Nat) : Event Tag → Bool
  | .freed h => decide (h.index = index)
  | _ => false

def Event.isFree {Tag : Type} : Event Tag → Bool
  | .freed _ => true
  | _ => false

/-- How often the slot at an index was allocated. -/
def allocations {Tag : Type} (index : Nat) (past : List (Event Tag)) : Nat :=
  past.countP (Event.allocates index)

/-- How often the slot at an index was freed. -/
def releases {Tag : Type} (index : Nat) (past : List (Event Tag)) : Nat :=
  past.countP (Event.releases index)

/-- The number of all frees. -/
def frees {Tag : Type} (past : List (Event Tag)) : Nat :=
  past.countP Event.isFree

section Counts

variable {Tag : Type} (index : Nat) (h : Handle Tag) (past : List (Event Tag))

@[simp]
theorem allocations_allocated :
    allocations index (.allocated h :: past) =
      allocations index past + if h.index = index then 1 else 0 := by
  simp [allocations, List.countP_cons, Event.allocates]

@[simp]
theorem allocations_freed :
    allocations index (.freed h :: past) = allocations index past := by
  simp [allocations, Event.allocates]

@[simp]
theorem allocations_linked :
    allocations index (.linked h :: past) = allocations index past := by
  simp [allocations, Event.allocates]

@[simp]
theorem releases_allocated :
    releases index (.allocated h :: past) = releases index past := by
  simp [releases, Event.releases]

@[simp]
theorem releases_freed :
    releases index (.freed h :: past) =
      releases index past + if h.index = index then 1 else 0 := by
  simp [releases, List.countP_cons, Event.releases]

@[simp]
theorem releases_linked :
    releases index (.linked h :: past) = releases index past := by
  simp [releases, Event.releases]

@[simp]
theorem frees_allocated : frees (.allocated h :: past) = frees past := by
  simp [frees, Event.isFree]

@[simp]
theorem frees_freed : frees (.freed h :: past) = frees past + 1 := by
  simp [frees, List.countP_cons, Event.isFree]

@[simp]
theorem frees_linked : frees (.linked h :: past) = frees past := by
  simp [frees, Event.isFree]

end Counts

variable {T Tag : Type} [PoolSlot T Tag]

open PoolSlot

/-- The pools which a history leads to. -/
inductive Reaches (start : Pool T) : Pool T → List (Event Tag) → Prop
  | start : Reaches start start []
  | allocate {pool next : Pool T} {past : List (Event Tag)}
      {h : Handle Tag} :
      Reaches start pool past → pool.allocate = .ok (h, next) →
        Reaches start next (.allocated h :: past)
  | free {pool next : Pool T} {past : List (Event Tag)} {h : Handle Tag} :
      Reaches start pool past → h ∈ outstanding past →
        pool.free h = .ok next → Reaches start next (.freed h :: past)
  | link {pool : Pool T} {past : List (Event Tag)} {h : Handle Tag}
      (link : Handle Tag) :
      Reaches start pool past → h ∈ outstanding past →
        Reaches start (pool.modify h fun slot => setPoolLink slot link)
          (.linked h :: past)

/-- Allocate a slot and free it again, so many times, behind some events. -/
def churn : Nat → Pool T → List (Event Tag) →
    Checked (List (Event Tag) × Pool T)
  | 0, pool, events => .ok (events, pool)
  | turns + 1, pool, events => do
      let (h, pool) ← pool.allocate
      let pool ← pool.free h
      churn turns pool (.freed h :: .allocated h :: events)

theorem Reaches.churn {start pool later : Pool T}
    {past events : List (Event Tag)} {turns : Nat}
    (earlier : List (Event Tag))
    (reached : Reaches start pool (earlier ++ past))
    (ran : Pool.churn turns pool earlier = .ok (events, later)) :
    Reaches start later (events ++ past) := by
  induction turns generalizing pool earlier with
  | zero =>
      cases ran
      exact reached
  | succ turns induction =>
      obtain ⟨⟨h, held⟩, allocated, ran⟩ := bind_eq_ok_iff.mp ran
      obtain ⟨next, freed, ran⟩ := bind_eq_ok_iff.mp ran
      exact induction _
        (.free (.allocate reached allocated) List.mem_cons_self freed) ran

/-! ## What a call changes -/

section Calls

variable [LawfulPoolSlot T] {pool next : Pool T} {h : Handle Tag}

/-- The generation of the slot at an index. -/
def generationAt (pool : Pool T) (index : Nat) : Option UInt8 :=
  pool.slots[index]?.map poolGeneration

/-- The slot which an allocation hands out moves to its next generation. -/
theorem allocate_effect (allocated : pool.allocate = .ok (h, next)) :
    next.quarantine = pool.quarantine ∧
      next.quarantineLimit = pool.quarantineLimit ∧
      next.generationAt h.index = some h.generation ∧
      ∀ index, next.generationAt index =
        (pool.generationAt index).map fun generation =>
          if h.index = index then generation + 1 else generation := by
  rw [allocate] at allocated
  cases found : pool.slots[pool.freeHead.index]? with
  | none =>
      simp only [found] at allocated
      cases allocated
  | some slot =>
      simp only [found] at allocated
      obtain ⟨_, -, rest⟩ := bind_eq_ok_iff.mp allocated
      obtain ⟨made, packed, equal⟩ := bind_eq_ok_iff.mp rest
      cases equal
      obtain ⟨_, -, isPacked⟩ := bind_eq_ok_iff.mp packed
      cases isPacked
      have inside := (List.getElem?_eq_some_iff.mp found).1
      rw [Handle.index_pack pool.freeHead.index_lt,
        Handle.generation_pack pool.freeHead.index_lt]
      refine ⟨rfl, rfl, ?_, fun index => ?_⟩
      · rw [generationAt, List.getElem?_set_self inside, Option.map_some,
          LawfulPoolSlot.generation_setGeneration]
      · rw [generationAt, generationAt]
        by_cases same : pool.freeHead.index = index
        · subst same
          rw [List.getElem?_set_self inside, found]
          simp only [Option.map_some, if_pos,
            LawfulPoolSlot.generation_setGeneration]
        · rw [List.getElem?_set_ne same]
          simp only [if_neg same, Option.map_id']

/-- A slot keeps its generation when it joins the free list. -/
theorem release_effect {place : Nat}
    (released : pool.release place = .ok next) :
    next.quarantine = pool.quarantine ∧
      next.quarantineLimit = pool.quarantineLimit ∧
      ∀ index, next.generationAt index = pool.generationAt index := by
  rw [release] at released
  cases found : pool.slots[place]? with
  | none =>
      simp only [found] at released
      cases released
  | some slot =>
      simp only [found] at released
      obtain ⟨_, -, equal⟩ := bind_eq_ok_iff.mp released
      cases equal
      have inside := (List.getElem?_eq_some_iff.mp found).1
      refine ⟨rfl, rfl, fun index => ?_⟩
      rw [generationAt, generationAt]
      by_cases same : place = index
      · subst same
        rw [List.getElem?_set_self inside, found]
        exact congrArg some (LawfulPoolSlot.generation_setLink _ _)
      · rw [List.getElem?_set_ne same]

/-- The quarantine after a slot was held back. -/
def heldBack (limit : Nat) (quarantine : List Nat) (index : Nat) : List Nat :=
  if limit < quarantine.length + 1 then (quarantine ++ [index]).tail
  else quarantine ++ [index]

/-- The slot which is freed moves to its next generation. -/
theorem free_effect (limited : pool.quarantine.length ≤ pool.quarantineLimit)
    (freed : pool.free h = .ok next) :
    next.quarantine =
        heldBack pool.quarantineLimit pool.quarantine h.index ∧
      next.quarantineLimit = pool.quarantineLimit ∧
      ∀ index, next.generationAt index =
        (pool.generationAt index).map fun generation =>
          if h.index = index then generation + 1 else generation := by
  rw [free] at freed
  obtain ⟨slot, got, freed⟩ := bind_eq_ok_iff.mp freed
  obtain ⟨_, -, freed⟩ := bind_eq_ok_iff.mp freed
  have found : pool.slots[h.index]? = some slot := by
    rw [Pool.get] at got
    cases found : pool.slots[h.index]? with
    | none =>
        simp only [found] at got
        cases got
    | some other =>
        simp only [found] at got
        obtain ⟨_, -, equal⟩ := bind_eq_ok_iff.mp got
        cases equal
        rfl
  have inside := (List.getElem?_eq_some_iff.mp found).1
  have advanced : ∀ index,
      ((pool.slots.set h.index
          (setPoolGeneration slot (poolGeneration slot + 1)))[index]?).map
            poolGeneration =
        (pool.generationAt index).map fun generation =>
          if h.index = index then generation + 1 else generation := by
    intro index
    rw [generationAt]
    by_cases same : h.index = index
    · subst same
      rw [List.getElem?_set_self inside, found]
      simp only [Option.map_some, if_pos,
        LawfulPoolSlot.generation_setGeneration]
    · rw [List.getElem?_set_ne same]
      simp only [if_neg same, Option.map_id']
  dsimp only at freed
  split_ifs at freed with holds full
  · rw [List.length_append, List.length_singleton] at full
    obtain ⟨middle, released, equal⟩ := bind_eq_ok_iff.mp freed
    cases equal
    obtain ⟨-, limit, same⟩ := release_effect released
    refine ⟨?_, limit, fun index => (same index).trans (advanced index)⟩
    rw [heldBack, if_pos full]
  · rw [List.length_append, List.length_singleton] at full
    cases freed
    refine ⟨?_, rfl, advanced⟩
    rw [heldBack, if_neg full]
  · obtain ⟨quarantine, limit, same⟩ := release_effect freed
    refine ⟨?_, limit, fun index => (same index).trans (advanced index)⟩
    have empty : pool.quarantine = [] :=
      List.eq_nil_of_length_eq_zero (by omega)
    rw [quarantine, heldBack, empty, if_pos (by
      rw [List.length_nil]
      omega)]
    rfl

omit [LawfulPoolSlot T] in
theorem modify_effect {write : T → T}
    (keeps : ∀ slot, poolGeneration (write slot) = poolGeneration slot)
    (index : Nat) :
    (pool.modify h write).generationAt index = pool.generationAt index := by
  rw [generationAt, generationAt, modify, List.getElem?_modify]
  cases pool.slots[index]? with
  | none => rfl
  | some slot =>
      by_cases same : h.index = index
      · simp only [if_pos same, Option.map_some, Option.map_eq_map, keeps]
      · simp only [if_neg same, Option.map_some, Option.map_eq_map]

end Calls

/-! ## The invariant of a run -/

/-- The pool is split by the outstanding handles, and has its sizes. -/
structure Tracks (capacity limit : Nat) (pool : Pool T)
    (past : List (Event Tag)) : Prop where
  split : ∃ vacant, pool.Split (outstanding past) vacant
  size : pool.slots.length = capacity
  held : pool.quarantineLimit = limit
  /-- Every allocation and every free advances the generation. -/
  generation : ∀ index < capacity, pool.generationAt index =
    some (UInt8.ofNat (allocations index past + releases index past))

section Runs

variable [LawfulPoolSlot T] {start pool next : Pool T}
  {past : List (Event Tag)} {h : Handle Tag} {capacity limit : Nat}

theorem Tracks.allocate (tracks : Tracks capacity limit pool past)
    (allocated : pool.allocate = .ok (h, next)) :
    Tracks capacity limit next (.allocated h :: past) := by
  obtain ⟨vacant, split⟩ := tracks.split
  obtain ⟨-, sameLimit, -, generations⟩ := allocate_effect allocated
  cases vacant with
  | nil =>
      rw [split.allocate_of_nil] at allocated
      cases allocated
  | cons index vacant =>
      obtain ⟨other, later, again, laterSplit, length, -⟩ := split.allocate
      obtain ⟨rfl, rfl⟩ :=
        Prod.mk.inj (Except.ok.inj (allocated.symm.trans again))
      refine ⟨⟨vacant, laterSplit⟩, length.trans tracks.size,
        sameLimit.trans tracks.held, fun place inside => ?_⟩
      rw [generations, tracks.generation place inside,
        allocations_allocated, releases_allocated, Option.map_some]
      split_ifs
      · rw [Nat.add_right_comm, UInt8.ofNat_add (_ + _) 1]
        rfl
      · rfl

theorem Tracks.free (tracks : Tracks capacity limit pool past)
    (member : h ∈ outstanding past) (freed : pool.free h = .ok next) :
    Tracks capacity limit next (.freed h :: past) := by
  obtain ⟨vacant, split⟩ := tracks.split
  obtain ⟨-, sameLimit, generations⟩ := free_effect split.limited freed
  obtain ⟨later, laterVacant, again, laterSplit, length, -⟩ :=
    split.free member
  obtain rfl := Except.ok.inj (freed.symm.trans again)
  refine ⟨⟨laterVacant, laterSplit⟩, length.trans tracks.size,
    sameLimit.trans tracks.held, fun place inside => ?_⟩
  rw [generations, tracks.generation place inside, allocations_freed,
    releases_freed, Option.map_some]
  split_ifs
  · rw [← Nat.add_assoc, UInt8.ofNat_add (_ + _) 1]
    rfl
  · rfl

theorem Tracks.link (tracks : Tracks capacity limit pool past)
    (member : h ∈ outstanding past) (link : Handle Tag) :
    Tracks capacity limit (pool.modify h fun slot => setPoolLink slot link)
      (.linked h :: past) := by
  obtain ⟨vacant, split⟩ := tracks.split
  have keeps : ∀ slot : T,
      poolGeneration (setPoolLink slot link) = poolGeneration slot :=
    fun slot => LawfulPoolSlot.generation_setLink slot link
  refine ⟨⟨vacant, split.modify member keeps⟩,
    (List.length_modify _ _ _).trans tracks.size, tracks.held,
    fun place inside => ?_⟩
  rw [modify_effect keeps, allocations_linked, releases_linked]
  exact tracks.generation place inside

theorem tracks_of_make {size : UInt32}
    (made : make size limit = .ok start) :
    Tracks size.toNat limit start ([] : List (Event Tag)) := by
  obtain ⟨split, length, sameLimit⟩ := split_of_make made
  refine ⟨⟨_, split⟩, length, sameLimit, fun index inside => ?_⟩
  obtain ⟨_, -, made⟩ := bind_eq_ok_iff.mp made
  obtain ⟨_, -, equal⟩ := bind_eq_ok_iff.mp made
  cases equal
  rw [generationAt, slot_initial inside, Option.map_some, initialSlot,
    LawfulPoolSlot.generation_setLink,
    LawfulPoolSlot.generation_setGeneration]
  rfl

theorem Reaches.tracks (reached : Reaches start pool past)
    (begun : Tracks capacity limit start ([] : List (Event Tag))) :
    Tracks capacity limit pool past := by
  induction reached with
  | start => exact begun
  | allocate _ allocated induction => exact induction.allocate allocated
  | free _ member freed induction => exact induction.free member freed
  | link link _ member induction => exact induction.link member link

/-! ## Every slot is live, free or held back -/

/-- What holds of a pool whose clients hold these handles. -/
structure Sound (capacity limit : Nat) (pool : Pool T)
    (live : List (Handle Tag)) : Prop where
  /-- The slots are live, on the free list or in the quarantine. -/
  split : ∃ vacant, pool.Split live vacant ∧
    pool.live.toNat + vacant.length + pool.quarantine.length = capacity
  size : pool.slots.length = capacity
  limited : pool.quarantine.length ≤ limit
  validate : pool.validate = .ok ()
  apart : (live.map Handle.index).Nodup
  /-- A live handle dereferences to its own slot, and can be freed. -/
  get : ∀ h ∈ live, ∃ slot, pool.slots[h.index]? = some slot ∧
    pool.get h = .ok slot
  free : ∀ h ∈ live, ∃ next, pool.free h = .ok next
  /-- An allocation asserts exactly when no slot is on the free list. -/
  exhausted : pool.live.toNat + pool.quarantine.length = capacity →
    pool.allocate = .error (.assertion "order pool exhausted")
  allocate : pool.live.toNat + pool.quarantine.length ≠ capacity →
    ∃ h next, pool.allocate = .ok (h, next) ∧
      ∀ other ∈ live, other.index ≠ h.index

omit [LawfulPoolSlot T] in
theorem Split.toNat_live {live : List (Handle Tag)} {vacant : List Nat}
    (split : pool.Split live vacant) : pool.live.toNat = live.length := by
  have length := split.length_eq
  have bounded := split.bounded
  have small : Handle.kMaxCapacity < UInt32.size := by decide
  rw [split.counted, UInt32.toNat_ofNat_of_lt' (by omega)]

theorem Tracks.sound (tracks : Tracks capacity limit pool past) :
    Sound capacity limit pool (outstanding past) := by
  obtain ⟨vacant, split⟩ := tracks.split
  have counted := split.toNat_live
  have length := split.length_eq
  rw [tracks.size] at length
  constructor
  case split => exact ⟨vacant, split, by omega⟩
  case size => exact tracks.size
  case limited => exact tracks.held ▸ split.limited
  case validate => exact split.validate
  case apart => exact (List.nodup_append.mp split.nodup).1
  case get =>
    intro h member
    obtain ⟨slot, found, -⟩ := split.issued h member
    refine ⟨slot, found, ?_⟩
    rw [split.get member, value, found]
    rfl
  case free =>
    intro h member
    obtain ⟨next, _, freed, -⟩ := split.free member
    exact ⟨next, freed⟩
  case exhausted =>
    intro full
    obtain rfl : vacant = [] := List.eq_nil_of_length_eq_zero (by omega)
    exact split.allocate_of_nil
  case allocate =>
    intro room
    cases vacant with
    | nil =>
        rw [List.length_nil] at length
        omega
    | cons index vacant =>
        obtain ⟨h, next, allocated, later, -⟩ := split.allocate
        refine ⟨h, next, allocated, fun other member same => ?_⟩
        have apart := (List.nodup_append.mp later.nodup).1
        rw [List.map_cons, List.nodup_cons] at apart
        exact apart.1 (same ▸ List.mem_map_of_mem member)

/--
For every capacity and every quarantine, a new pool stays split into live, free
and quarantined slots through all calls of its clients.
-/
theorem pool_staysSplit {size : UInt32} (some : 0 < size.toNat)
    (bounded : size.toNat ≤ Handle.kMaxCapacity) (limit : Nat) :
    ∃ start : Pool T, make size limit = .ok start ∧
      ∀ pool past, Reaches start pool past →
        Sound size.toNat limit pool (outstanding past) := by
  obtain ⟨start, made⟩ : ∃ start : Pool T, make size limit = .ok start := by
    have positive : size > 0 := UInt32.lt_iff_toNat_lt.mpr some
    rw [make, assertMsg_of positive, ok_bind, assertMsg_of bounded]
    exact ⟨_, rfl⟩
  exact ⟨start, made, fun pool past reached =>
    (reached.tracks (tracks_of_make made)).sound⟩

/-- Two orders rest, one of them linked, and other slots come and go. -/
def churned : Checked (Pool Order) := do
  let start : Pool Order ← make 5 2
  let (first, pool) ← start.allocate
  let (second, pool) ← pool.allocate
  let (_, pool) ← churn 3
    (pool.modify first fun slot => setPoolLink slot second) []
  pure pool

theorem pool_staysSplit_churned :
    ∃ (start pool : Pool Order) (past : List (Event OrderTag)),
      make 5 2 = .ok start ∧ churned = .ok pool ∧
        Reaches start pool past ∧ (outstanding past).length = 2 ∧
        pool.live = 2 ∧ pool.quarantine = [3, 4] ∧
        Sound (5 : UInt32).toNat 2 pool (outstanding past) := by
  have value : churned.map (fun pool => (pool.live, pool.quarantine)) =
      .ok (2, [3, 4]) := by
    decide +kernel
  obtain ⟨start, made, sound⟩ : ∃ start : Pool Order,
      make 5 2 = .ok start ∧ ∀ pool past, Reaches start pool past →
        Sound (5 : UInt32).toNat 2 pool (outstanding past) :=
    pool_staysSplit (by decide) (by decide) 2
  cases ran : churned with
  | error failure =>
      rw [ran] at value
      cases value
  | ok pool =>
      rw [ran] at value
      simp only [Except.map, Except.ok.injEq, Prod.mk.injEq] at value
      rw [churned, made, ok_bind] at ran
      obtain ⟨⟨first, one⟩, firstIssued, ran⟩ := bind_eq_ok_iff.mp ran
      obtain ⟨⟨second, two⟩, secondIssued, ran⟩ := bind_eq_ok_iff.mp ran
      obtain ⟨⟨events, last⟩, came, equal⟩ := bind_eq_ok_iff.mp ran
      cases equal
      have held : Reaches start two [.allocated second, .allocated first] :=
        .allocate (.allocate .start firstIssued) secondIssued
      have linked := held.link second
        (List.mem_cons_of_mem _ List.mem_cons_self)
      have reached := Reaches.churn [] linked came
      have kept := sound _ _ reached
      obtain ⟨vacant, split, -⟩ := kept.split
      have counted := split.toNat_live
      rw [value.1] at counted
      exact ⟨start, pool, _, made, rfl, reached, counted.symm, value.1, value.2,
        kept⟩

/-! ## Stale handles -/

/-- How many of the handles name the slot at an index. -/
def holders (index : Nat) (live : List (Handle Tag)) : Nat :=
  live.countP fun h => decide (h.index = index)

omit [LawfulPoolSlot T] in
theorem Split.holders_le {live : List (Handle Tag)} {vacant : List Nat}
    (split : pool.Split live vacant) (index : Nat) :
    holders index live ≤ 1 := by
  have apart := (List.nodup_append.mp split.nodup).1
  have count := List.nodup_iff_count_le_one.mp apart index
  rw [List.count, List.countP_map] at count
  exact count

theorem holders_pos_iff {index : Nat} {live : List (Handle Tag)} :
    0 < holders index live ↔ ∃ h ∈ live, h.index = index := by
  simp [holders, List.countP_pos_iff]

omit [LawfulPoolSlot T] in
/-- Every allocation of a slot is freed, but the one of a live handle. -/
theorem Reaches.balance (reached : Reaches start pool past) (index : Nat) :
    releases index past + holders index (outstanding past) =
      allocations index past := by
  induction reached with
  | start => rfl
  | @allocate pool next past h reached allocated induction =>
      rw [releases_allocated, allocations_allocated, outstanding, holders,
        List.countP_cons, ← induction, holders]
      simp only [decide_eq_true_eq]
      omega
  | @free pool next past h reached member freed induction =>
      rw [holders, (List.perm_cons_erase member).countP_eq,
        List.countP_cons] at induction
      simp only [decide_eq_true_eq] at induction
      rw [releases_freed, allocations_freed, outstanding, holders,
        ← induction]
      omega
  | link link reached member induction =>
      rw [releases_linked, allocations_linked]
      exact induction

omit [LawfulPoolSlot T] in
/-- Every part of a history is a history. -/
theorem Reaches.before {later earlier : List (Event Tag)}
    (reached : Reaches start pool (later ++ earlier)) :
    ∃ older, Reaches start older earlier := by
  induction later generalizing pool with
  | nil => exact ⟨pool, reached⟩
  | cons event rest induction =>
      cases reached with
      | allocate reached allocated => exact induction reached
      | free reached member freed => exact induction reached
      | link link reached member => exact induction reached

omit [LawfulPoolSlot T] in
/-- `operator[]` looks at the generation of the slot. -/
theorem get_ok_iff :
    (∃ slot, pool.get h = .ok slot) ↔
      pool.generationAt h.index = some h.generation := by
  rw [Pool.get, generationAt]
  cases pool.slots[h.index]? with
  | none => simp
  | some slot =>
      rw [Option.map_some, Option.some.injEq]
      constructor
      · rintro ⟨_, got⟩
        obtain ⟨_, same, -⟩ := bind_eq_ok_iff.mp got
        exact assertMsg_eq_ok_iff.mp same
      · intro same
        exact ⟨slot, by simp only [assertMsg_of same, ok_bind, pure_eq_ok]⟩

omit [LawfulPoolSlot T] in
theorem isLive_iff :
    pool.isLive h = true ↔
      h ≠ Handle.null ∧ h.generation &&& 1 = 1 ∧
        pool.generationAt h.index = some h.generation := by
  rw [isLive, generationAt]
  by_cases null : h.isNull = true
  · rw [if_pos null]
    simp [Handle.isNull_iff.mp null]
  · rw [if_neg null]
    have notNull := mt Handle.isNull_iff.mpr null
    cases pool.slots[h.index]? with
    | none => simp
    | some slot =>
        simp only [decide_eq_true_eq, Option.map_some, Option.some.injEq]
        constructor
        · rintro ⟨same, odd⟩
          exact ⟨notNull, same ▸ odd, same⟩
        · rintro ⟨-, odd, same⟩
          exact ⟨same, same ▸ odd⟩

omit [LawfulPoolSlot T] in
/-- The live handles are those of the slots in use. -/
theorem Split.isLive_iff {live : List (Handle Tag)} {vacant : List Nat}
    (split : pool.Split live vacant) : pool.isLive h = true ↔ h ∈ live := by
  rw [Pool.isLive_iff]
  constructor
  · rintro ⟨-, odd, same⟩
    obtain ⟨slot, found, generation⟩ := Option.map_eq_some_iff.mp same
    have inside := (List.getElem?_eq_some_iff.mp found).1
    rcases (split.mem_iff h.index).mp inside with
      ⟨other, member, index⟩ | notLive
    · obtain ⟨own, foundOwn, issued⟩ := split.issued other member
      rw [index, found] at foundOwn
      obtain rfl := Option.some.inj foundOwn
      rwa [← Handle.ext_index index (issued.symm.trans generation)]
    · obtain ⟨own, foundOwn, even⟩ :=
        split.even h.index (List.mem_append.mpr notLive)
      obtain rfl := Option.some.inj (found.symm.trans foundOwn)
      rw [generation, odd] at even
      cases even
  · intro member
    obtain ⟨slot, found, generation⟩ := split.issued h member
    exact ⟨split.ne_null member, split.odd h member,
      Option.map_eq_some_iff.mpr ⟨slot, found, generation⟩⟩

theorem ofNat_add_eq_iff (issue since : Nat) :
    UInt8.ofNat (issue + since) = UInt8.ofNat issue ↔ since % 256 = 0 := by
  rw [← UInt8.toNat_inj, UInt8.toNat_ofNat', UInt8.toNat_ofNat']
  omega

/--
A live handle which is freed later names the slot again where as many
generations have passed as one byte can count, twice as many as allocations.
-/
theorem Reaches.generationAt_iff {later earlier : List (Event Tag)}
    (reached : Reaches start pool (later ++ earlier))
    (begun : Tracks capacity limit start ([] : List (Event Tag)))
    (member : h ∈ outstanding earlier) (freed : .freed h ∈ later) :
    h ≠ Handle.null ∧ h.generation &&& 1 = 1 ∧
      (pool.generationAt h.index = some h.generation ↔
        (∃ other ∈ outstanding (later ++ earlier),
            other.index = h.index) ∧
          0 < allocations h.index later ∧
          128 ∣ allocations h.index later) := by
  obtain ⟨older, reachedOlder⟩ := reached.before
  have tracks := reached.tracks begun
  have tracksOlder := reachedOlder.tracks begun
  obtain ⟨vacant, split⟩ := tracks.split
  obtain ⟨olderVacant, splitOlder⟩ := tracksOlder.split
  have inside : h.index < capacity :=
    tracksOlder.size ▸ splitOlder.bounds member
  refine ⟨splitOlder.ne_null member, splitOlder.odd h member, ?_⟩
  -- The generation of the handle is that of the slot when it was issued.
  obtain ⟨slot, found, same⟩ := splitOlder.issued h member
  have issue := tracksOlder.generation h.index inside
  rw [generationAt, found, Option.map_some, Option.some.injEq, same] at issue
  have balanceOlder := reachedOlder.balance h.index
  have balance := reached.balance h.index
  have once := splitOlder.holders_le h.index
  have atMost := split.holders_le h.index
  have holds : 0 < holders h.index (outstanding earlier) :=
    holders_pos_iff.mpr ⟨h, member, rfl⟩
  have some : 0 < releases h.index later :=
    List.countP_pos_iff.mpr ⟨_, freed, decide_eq_true rfl⟩
  rw [releases, List.countP_append, allocations, List.countP_append,
    ← releases, ← releases, ← allocations, ← allocations] at balance
  rw [tracks.generation h.index inside, Option.some.injEq, issue,
    allocations, List.countP_append, releases, List.countP_append,
    ← releases, ← releases, ← allocations, ← allocations,
    ← holders_pos_iff]
  have grouped : ∀ a b c d : Nat, a + b + (c + d) = b + d + (a + c) := by
    omega
  rw [grouped, ofNat_add_eq_iff]
  omega

/-! ## How long the quarantine holds a slot back -/

/--
The frees which have followed that of a slot, where it was allocated a number of
times since: each time after the quarantine had been pushed through.
-/
structure Delayed (limit : Nat) (quarantine : List Nat)
    (live : List (Handle Tag)) (index allocated freed : Nat) : Prop where
  inUse : (∃ h ∈ live, h.index = index) →
    allocated * (limit + 1) ≤ freed + 1
  waiting : ∀ front behind, quarantine = front ++ index :: behind →
    allocated * (limit + 1) + behind.length ≤ freed
  unused : index ∉ quarantine → (∀ h ∈ live, h.index ≠ index) →
    allocated * (limit + 1) + limit ≤ freed

/-- A slot which waits behind others waits for a free less after each one. -/
theorem heldBack_cases {quarantine front behind : List Nat}
    {index other : Nat}
    (split : heldBack limit quarantine other = front ++ index :: behind) :
    (behind = [] ∧ index = other) ∨
      ∃ ahead rest, behind = rest ++ [other] ∧
        quarantine = ahead ++ index :: rest := by
  have whole : ∃ ahead, quarantine ++ [other] = ahead ++ index :: behind := by
    rw [heldBack] at split
    split_ifs at split
    · cases quarantine with
      | nil =>
          rw [List.nil_append, List.tail_cons] at split
          cases front <;> cases split
      | cons first rest =>
          rw [List.cons_append, List.tail_cons] at split
          exact ⟨first :: front, by rw [List.cons_append, split]; rfl⟩
    · exact ⟨front, split⟩
  obtain ⟨ahead, whole⟩ := whole
  rcases List.eq_nil_or_concat behind with rfl | ⟨rest, last, rfl⟩
  · have same := List.append_inj_right' whole rfl
    exact Or.inl ⟨rfl, (List.singleton_inj.mp same).symm⟩
  · right
    rw [List.concat_eq_append] at whole ⊢
    rw [← List.cons_append, ← List.append_assoc] at whole
    obtain ⟨same, sameLast⟩ := List.append_inj' whole rfl
    rw [List.singleton_inj.mp sameLast]
    exact ⟨ahead, rest, rfl, same⟩

/-- Only without a quarantine a slot is not held back at all. -/
theorem heldBack_self {quarantine : List Nat} {index : Nat}
    (left : index ∉ heldBack limit quarantine index) : limit = 0 := by
  rw [heldBack] at left
  split_ifs at left with full
  · cases quarantine with
    | nil =>
        rw [List.length_nil] at full
        omega
    | cons first rest =>
        rw [List.cons_append, List.tail_cons] at left
        simp at left
  · simp at left

/-- A slot which leaves the quarantine has waited for all of it. -/
theorem heldBack_released {quarantine front behind : List Nat}
    {index other : Nat} (short : quarantine.length ≤ limit)
    (split : quarantine = front ++ index :: behind)
    (left : index ∉ heldBack limit quarantine other) :
    behind.length + 1 = limit := by
  rw [heldBack] at left
  split_ifs at left with full
  · cases front with
    | nil =>
        rw [split, List.nil_append, List.length_cons] at full short
        omega
    | cons first front =>
        refine absurd ?_ left
        rw [split, List.cons_append, List.cons_append, List.tail_cons]
        simp
  · exact absurd (by rw [split]; simp) left

section Delays

variable {index allocated freed : Nat}

omit [LawfulPoolSlot T] in
theorem Delayed.allocate
    (delayed : Delayed limit pool.quarantine (outstanding past) index
      allocated freed)
    (tracks : Tracks capacity limit next (.allocated h :: past))
    (same : next.quarantine = pool.quarantine) :
    Delayed limit next.quarantine (outstanding (.allocated h :: past)) index
      (allocated + if h.index = index then 1 else 0) freed := by
  obtain ⟨vacant, split⟩ := tracks.split
  have fresh := (List.nodup_append.mp split.nodup).1
  rw [outstanding, List.map_cons, List.nodup_cons] at fresh
  have outside := split.not_mem_free (h := h) List.mem_cons_self
  rw [same] at outside ⊢
  by_cases here : h.index = index
  · subst here
    have bound := delayed.unused
      (fun waits => outside (List.mem_append_right _ waits))
      (fun other member equal =>
        fresh.1 (equal ▸ List.mem_map_of_mem member))
    rw [if_pos rfl]
    constructor
    · intro _
      rw [Nat.add_mul, Nat.one_mul]
      omega
    · intro front behind split
      refine absurd ?_ outside
      rw [split]
      simp
    · exact fun _ unused => absurd rfl (unused h List.mem_cons_self)
  · rw [if_neg here, Nat.add_zero]
    constructor
    · rintro ⟨other, member, equal⟩
      rcases List.mem_cons.mp member with rfl | older
      · exact absurd equal here
      · exact delayed.inUse ⟨other, older, equal⟩
    · exact delayed.waiting
    · exact fun absent unused => delayed.unused absent
        fun other member => unused other (List.mem_cons_of_mem _ member)

omit [LawfulPoolSlot T] in
theorem Delayed.free
    (delayed : Delayed limit pool.quarantine (outstanding past) index
      allocated freed)
    (tracks : Tracks capacity limit pool past) (member : h ∈ outstanding past)
    (held : next.quarantine = heldBack limit pool.quarantine h.index) :
    Delayed limit next.quarantine (outstanding (.freed h :: past)) index
      allocated (freed + 1) := by
  obtain ⟨vacant, split⟩ := tracks.split
  have short : pool.quarantine.length ≤ limit := tracks.held ▸ split.limited
  have apart := (List.nodup_append.mp split.nodup).2.1
  rw [held]
  constructor
  · rintro ⟨other, stays, equal⟩
    have bound :=
      delayed.inUse ⟨other, List.mem_of_mem_erase stays, equal⟩
    omega
  · intro front behind isSplit
    rcases heldBack_cases isSplit with
      ⟨rfl, rfl⟩ | ⟨ahead, rest, rfl, older⟩
    · have bound := delayed.inUse ⟨h, member, rfl⟩
      rw [List.length_nil]
      omega
    · have bound := delayed.waiting ahead rest older
      rw [List.length_append, List.length_singleton]
      omega
  · intro left unused
    by_cases here : h.index = index
    · subst here
      have bound := delayed.inUse ⟨h, member, rfl⟩
      have none := heldBack_self left
      omega
    · by_cases waits : index ∈ pool.quarantine
      · obtain ⟨front, behind, isSplit⟩ := List.append_of_mem waits
        have bound := delayed.waiting front behind isSplit
        have whole := heldBack_released short isSplit left
        omega
      · have bound := delayed.unused waits fun other otherLive equal =>
          unused other ((List.mem_erase_of_ne (by
            rintro rfl
            exact here equal)).mpr otherLive) equal
        omega

end Delays

/-- After a free of a slot, every allocation of it waits for the quarantine. -/
theorem Reaches.delayed {after before : List (Event Tag)}
    (reached : Reaches start pool (after ++ .freed h :: before))
    (begun : Tracks capacity limit start ([] : List (Event Tag))) :
    Delayed limit pool.quarantine (outstanding (after ++ .freed h :: before))
      h.index (allocations h.index after) (frees after) := by
  induction after generalizing pool with
  | nil =>
      cases reached with
      | free reached member freed =>
          have tracks := reached.tracks begun
          obtain ⟨vacant, split⟩ := tracks.split
          obtain ⟨held, -⟩ := free_effect split.limited freed
          rw [tracks.held] at held
          rw [List.nil_append, held]
          constructor
          · exact fun _ => (Nat.zero_mul _).le.trans (Nat.zero_le _)
          · intro front behind isSplit
            rcases heldBack_cases isSplit with
              ⟨rfl, -⟩ | ⟨ahead, rest, rfl, older⟩
            · exact (Nat.zero_mul _).le
            · refine absurd ?_ (split.not_mem_free member)
              rw [older]
              simp
          · intro left _
            rw [heldBack_self left]
            exact Nat.le_refl _
  | cons event rest induction =>
      rw [List.cons_append] at reached ⊢
      have tracks := reached.tracks begun
      cases reached with
      | allocate reached allocated =>
          rw [allocations_allocated, frees_allocated]
          exact (induction reached).allocate tracks
            (allocate_effect allocated).1
      | free reached member freed =>
          have older := reached.tracks begun
          obtain ⟨vacant, split⟩ := older.split
          have held := (free_effect split.limited freed).1
          rw [older.held] at held
          rw [allocations_freed, frees_freed]
          exact (induction reached).free older member held
      | link link reached member =>
          have older := induction reached
          rw [allocations_linked, frees_linked]
          exact older

/-- What a pool says of a handle, against the history of its slot. -/
structure DetectsStale (capacity limit : Nat) (pool : Pool T)
    (past : List (Event Tag)) (h : Handle Tag) : Prop where
  /-- After its free, a handle is accepted exactly at a wrap. -/
  wraps : ∀ later earlier, past = later ++ .allocated h :: earlier →
    .freed h ∈ later →
      (pool.isLive h = true ↔
          (∃ other ∈ outstanding past, other.index = h.index) ∧
            0 < allocations h.index later ∧
              128 ∣ allocations h.index later) ∧
        ((∃ slot, pool.get h = .ok slot) ↔ pool.isLive h = true)
  /-- A wrap takes that many frees. -/
  delayed : ∀ after before, past = after ++ .freed h :: before →
    frees after < 128 * limit + 127 →
      pool.isLive h = false ∧ ∀ slot, pool.get h ≠ .ok slot
  outside : h = Handle.null ∨ capacity ≤ h.index →
    pool.isLive h = false ∧
      pool.get h = .error (.assertion
        "handle is null, out of range, or from another pool")

/--
Stale handles are detected exactly up to the wrap of the generation, which the
quarantine puts off.
-/
theorem pool_detectsStaleHandles {size : UInt32}
    (made : make size limit = .ok start) (reached : Reaches start pool past)
    (h : Handle Tag) : DetectsStale size.toNat limit pool past h := by
  have begun := tracks_of_make made
  have tracks := reached.tracks begun
  obtain ⟨vacant, split⟩ := tracks.split
  constructor
  case wraps =>
    rintro later earlier rfl freed
    obtain ⟨notNull, odd, wraps⟩ :=
      reached.generationAt_iff begun List.mem_cons_self freed
    rw [get_ok_iff, isLive_iff, wraps]
    exact ⟨⟨fun live => live.2.2, fun wrapped => ⟨notNull, odd, wrapped⟩⟩,
      ⟨fun wrapped => ⟨notNull, odd, wrapped⟩, fun live => live.2.2⟩⟩
  case delayed =>
    rintro after before rfl few
    have delayed := reached.delayed begun
    obtain ⟨middle, reachedFree⟩ := reached.before
    rw [List.append_cons] at reached
    have issued : h ∈ outstanding before := by
      cases reachedFree
      assumption
    obtain ⟨notNull, odd, wraps⟩ :=
      reached.generationAt_iff begun issued (by simp)
    have counted : allocations h.index (after ++ [.freed h]) =
        allocations h.index after := by
      rw [allocations, List.countP_append]
      rfl
    rw [counted, ← List.append_cons] at wraps
    have rejected : pool.generationAt h.index ≠ some h.generation := by
      intro accepted
      obtain ⟨live, positive, many⟩ := wraps.mp accepted
      have bound := delayed.inUse live
      have atLeast := Nat.mul_le_mul_right (limit + 1)
        (Nat.le_of_dvd positive many)
      omega
    constructor
    · rw [← Bool.not_eq_true, isLive_iff]
      exact fun live => rejected live.2.2
    · exact fun slot got => rejected (get_ok_iff.mp ⟨slot, got⟩)
  case outside =>
    intro outside
    have none : pool.slots[h.index]? = none := by
      refine List.getElem?_eq_none ?_
      rw [tracks.size]
      rcases outside with rfl | beyond
      · rw [Handle.index_null]
        exact tracks.size ▸ split.bounded
      · exact beyond
    constructor
    · rw [← Bool.not_eq_true, isLive_iff, generationAt, none]
      simp
    · rw [Pool.get, none]

/--
A slot is freed while another one is in use, and comes back at its 128th
allocation, which the quarantine of one slot puts off to behind the 255th free.
-/
def wrapped :
    Checked (OrderHandle × OrderHandle × List (Event OrderTag) × OrderHandle ×
      Pool Order) := do
  let start : Pool Order ← make 3 1
  let (kept, pool) ← start.allocate
  let (h, pool) ← pool.allocate
  let pool ← pool.free h
  let (events, pool) ← churn 255 pool []
  let (again, pool) ← pool.allocate
  pure (kept, h, events, again, pool)

theorem pool_detectsStaleHandles_wrapped :
    ∃ (start pool : Pool Order) (kept h again : OrderHandle)
      (events : List (Event OrderTag)),
      make 3 1 = .ok start ∧
        Reaches start pool
          (.allocated again :: (events ++
            [.freed h, .allocated h, .allocated kept])) ∧
        frees events = 128 * 1 + 127 ∧
        allocations h.index (.allocated again :: events) = 128 ∧
        pool.isLive h = true ∧
        DetectsStale (3 : UInt32).toNat 1 pool
          (.allocated again :: (events ++
            [.freed h, .allocated h, .allocated kept])) h := by
  have value : wrapped.map (fun (_, h, events, again, pool) =>
      (frees events, allocations h.index (.allocated again :: events),
        pool.isLive h)) = .ok (255, 128, true) := by
    decide +kernel
  cases ran : wrapped with
  | error failure =>
      rw [ran] at value
      cases value
  | ok result =>
      rw [ran] at value
      obtain ⟨start, made, ran⟩ := bind_eq_ok_iff.mp ran
      obtain ⟨⟨kept, one⟩, keptIssued, ran⟩ := bind_eq_ok_iff.mp ran
      obtain ⟨⟨h, two⟩, issued, ran⟩ := bind_eq_ok_iff.mp ran
      obtain ⟨next, freed, ran⟩ := bind_eq_ok_iff.mp ran
      obtain ⟨⟨events, later⟩, came, ran⟩ := bind_eq_ok_iff.mp ran
      obtain ⟨⟨again, pool⟩, issuedAgain, equal⟩ := bind_eq_ok_iff.mp ran
      cases equal
      simp only [Except.map, Except.ok.injEq, Prod.mk.injEq] at value
      have held : Reaches start next
          [.freed h, .allocated h, .allocated kept] :=
        .free (.allocate (.allocate .start keptIssued) issued)
          List.mem_cons_self freed
      have reached :=
        (Reaches.churn [] held came).allocate issuedAgain
      exact ⟨start, pool, kept, h, again, events, made, reached, value.1,
        value.2.1, value.2.2, pool_detectsStaleHandles made reached h⟩

end Runs

end ItchExchange.Book.Pool
