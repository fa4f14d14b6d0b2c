import ItchExchange.Book.Differential
import Mathlib.Data.List.Perm.Basic

/-!
# The random test of the reference book

`book_matches_the_naive_model_under_random_operations` of `test_map_book.cpp`:
calls which are drawn from a generator go to the reference book and to the
oracle, and the two are compared.  The driver keeps the references which rest
and asks the oracle for their quantities, and so none of its calls is refused,
whatever the generator draws.
-/

namespace ItchExchange.Book.Differential

open ItchExchange.Core Simulation

/-! ## The generator -/

/-- `Rng` of `harness.hpp`. -/
structure Rng where
  s : UInt64
deriving DecidableEq, Repr

namespace Rng

def next (rng : Rng) : UInt64 × Rng :=
  let s := rng.s + 0x9e3779b97f4a7c15
  let z := (s ^^^ (s >>> 30)) * 0xbf58476d1ce4e5b9
  let z := (z ^^^ (z >>> 27)) * 0x94d049bb133111eb
  (z ^^^ (z >>> 31), ⟨s⟩)

/-- The product is one of 128 bits, of which the upper half is taken. -/
def range (rng : Rng) (lo hi : UInt64) : UInt64 × Rng :=
  let span := hi - lo + 1
  let (z, rng) := rng.next
  (lo + UInt64.ofNat (z.toNat * span.toNat / 2 ^ 64), rng)

def chance (rng : Rng) (percent : UInt64) : Bool × Rng :=
  let (value, rng) := rng.range 0 99
  (decide (value < percent), rng)

/-- What is drawn lies in the range, also where the span of it wraps. -/
theorem range_mem (rng : Rng) {lo hi : UInt64} (ordered : lo ≤ hi) :
    lo ≤ (rng.range lo hi).1 ∧ (rng.range lo hi).1 ≤ hi := by
  unfold range
  generalize rng.next = drawn
  obtain ⟨z, later⟩ := drawn
  dsimp only
  have small := z.toNat_lt
  have high := hi.toNat_lt
  rw [UInt64.le_iff_toNat_le] at ordered
  have span : (hi - lo + 1).toNat ≤ hi.toNat - lo.toNat + 1 := by
    rw [UInt64.toNat_add, UInt64.toNat_sub_of_le _ _
      (UInt64.le_iff_toNat_le.mpr ordered)]
    exact Nat.mod_le _ _
  have upper : z.toNat * (hi - lo + 1).toNat / 2 ^ 64 ≤
      hi.toNat - lo.toNat := by
    rw [← Nat.lt_succ_iff, Nat.div_lt_iff_lt_mul (by decide)]
    calc z.toNat * (hi - lo + 1).toNat
        ≤ z.toNat * (hi.toNat - lo.toNat + 1) := Nat.mul_le_mul_left _ span
      _ < 2 ^ 64 * (hi.toNat - lo.toNat + 1) :=
          Nat.mul_lt_mul_of_pos_right small (Nat.succ_pos _)
      _ = (hi.toNat - lo.toNat + 1) * 2 ^ 64 := Nat.mul_comm _ _
  have fits : z.toNat * (hi - lo + 1).toNat / 2 ^ 64 < 2 ^ 64 :=
    upper.trans_lt ((Nat.sub_le _ _).trans_lt high)
  rw [UInt64.le_iff_toNat_le, UInt64.le_iff_toNat_le, UInt64.toNat_add,
    UInt64.toNat_ofNat_of_lt' fits, Nat.mod_eq_of_lt (by omega)]
  omega

/-- An index into what is not empty. -/
theorem range_index (rng : Rng) {length : Nat} (positive : 0 < length)
    (small : length < 2 ^ 64) :
    (rng.range 0 (UInt64.ofNat length - 1)).1.toNat < length := by
  have drawn := (@range_mem rng 0 (UInt64.ofNat length - 1)
    UInt64.zero_le).2
  have same : (UInt64.ofNat length).toNat = length :=
    UInt64.toNat_ofNat_of_lt' small
  have one : (1 : UInt64).toNat = 1 := rfl
  rw [UInt64.le_iff_toNat_le, UInt64.toNat_sub_of_le _ _
    (UInt64.le_iff_toNat_le.mpr (by omega)), same, one] at drawn
  omega

/-- A quantity out of a range of 32 bits which begins at one. -/
theorem range_qty (rng : Rng) {hi : UInt64} (positive : 1 ≤ hi)
    (small : hi.toNat < 2 ^ 32) :
    (rng.range 1 hi).1.toUInt32 ≠ 0 ∧
      (rng.range 1 hi).1.toUInt32.toNat ≤ hi.toNat := by
  obtain ⟨low, high⟩ := rng.range_mem positive
  rw [UInt64.le_iff_toNat_le] at low high
  have one : (1 : UInt64).toNat = 1 := rfl
  have same : (rng.range 1 hi).1.toUInt32.toNat =
      (rng.range 1 hi).1.toNat := by
    rw [UInt64.toNat_toUInt32]
    exact Nat.mod_eq_of_lt (high.trans_lt small)
  refine ⟨fun zero => ?_, same.trans_le high⟩
  rw [zero] at same
  have none : (0 : UInt32).toNat = 0 := rfl
  omega

end Rng

/-! ## The driver -/

def kBase : Price := 1000000

def kTick : Price := 100

/-- Buys below the base and sells above it. -/
def priceFor (rng : Rng) (side : Side) : Price × Rng :=
  let (ticks, rng) := rng.range 1 20
  (match side with
    | .buy => kBase - ticks.toUInt32 * kTick
    | .sell => kBase + ticks.toUInt32 * kTick, rng)

structure Trial where
  rng : Rng
  fast : MapBook := {}
  slow : NaiveBook := {}
  live : List OrderRef := []
  nextRef : OrderRef := 1

namespace Trial

/-- One call on both books. -/
def call (trial : Trial) (operation : Operation) : Tested Trial := do
  let fast ← tested (OrderBook.apply trial.fast operation)
  let slow ← tested (trial.slow.apply operation)
  pure { trial with fast, slow }

/-- The branch which adds an order. -/
def bring (trial : Trial) (rng : Rng) : Tested Trial := do
  let (heads, rng) := rng.chance 50
  let side : Side := if heads then .buy else .sell
  let (price, rng) := priceFor rng side
  let (qty, rng) := rng.range 1 1000
  let ref := trial.nextRef
  let trial ← trial.call (.add ref side price qty.toUInt32 0)
  pure { trial with rng, live := trial.live ++ [ref], nextRef := ref + 1 }

/-- The branches which execute and which cancel. -/
def reduce (trial : Trial) (rng : Rng) (i : Nat) (held : Qty)
    (operation : Qty → Operation) : Tested Trial := do
  let (drawn, rng) := rng.range 1 held.toUInt64
  let shares := drawn.toUInt32
  let trial ← trial.call (operation shares)
  pure
    { trial with
      rng
      live := if shares = held then trial.live.eraseIdx i else trial.live }

def withdraw (trial : Trial) (rng : Rng) (i : Nat) (ref : OrderRef) :
    Tested Trial := do
  let trial ← trial.call (.remove ref)
  pure { trial with rng, live := trial.live.eraseIdx i }

def exchange (trial : Trial) (rng : Rng) (i : Nat) (ref : OrderRef) :
    Tested Trial := do
  let side ← tested (trial.slow.sideOf ref)
  let (price, rng) := priceFor rng side
  let (qty, rng) := rng.range 1 1000
  let nref := trial.nextRef
  let trial ← trial.call (.replace ref nref price qty.toUInt32)
  pure
    { trial with rng, live := trial.live.set i nref, nextRef := nref + 1 }

/-- The branches about an order which rests. -/
def touch (trial : Trial) (roll : UInt64) (rng : Rng) : Tested Trial := do
  let (drawn, rng) := rng.range 0 (UInt64.ofNat trial.live.length - 1)
  let i := drawn.toNat
  match trial.live[i]? with
  | none => .error (.failed .undefined)
  | some ref =>
      let held ← tested (trial.slow.qtyOf ref)
      if roll < 65 then trial.reduce rng i held (.execute ref)
      else if roll < 80 then trial.reduce rng i held (.cancel ref)
      else if roll < 92 then trial.withdraw rng i ref
      else trial.exchange rng i ref

def step (trial : Trial) : Tested Trial :=
  let (roll, rng) := trial.rng.range 0 99
  if roll < 45 ∨ trial.live = [] then trial.bring rng
  else trial.touch roll rng

/-- The comparison, often early and then periodically. -/
def compareAt (trial : Trial) (step : Nat) : Tested Unit :=
  if step < 200 ∨ step % 97 = 0 then compare trial.fast trial.slow
  else .ok ()

/-- The loop, from its turn `step` on, and the comparison behind it. -/
def loop (trial : Trial) (step : Nat) : (turns : Nat) → Tested Trial
  | 0 => do
      compare trial.fast trial.slow
      pure trial
  | turns + 1 => do
      let trial ← trial.step
      trial.compareAt step
      loop trial (step + 1) turns

end Trial

/-- `ITCH_CHECK_GT`, which is not fatal: what it finds is only recorded. -/
def checkGt (first second : Nat) : Bool := decide (first > second)

/--
The test, over its seed and the number of its turns.  It passes when it returns
with its last check recorded as true.
-/
def randomTest (seed : UInt64) (turns : Nat) : Tested (Trial × Bool) := do
  let trial ← Trial.loop { rng := ⟨seed⟩ } 0 turns
  pure (trial, checkGt trial.fast.orderCount 0)

/-! ## The prices and the references of the driver -/

namespace Trial

variable {live : List OrderRef} {arrivals next : ArrivalBook}
  {order : Resting} {i : Nat}

/-- The side of the base on which an order is quoted. -/
def Aside (price : Price) : Side → Prop
  | .buy => price < kBase
  | .sell => kBase < price

def Quoted (arrivals : ArrivalBook) : Prop :=
  ∀ order ∈ arrivals.orders, Aside order.price order.side

theorem priceFor_aside (rng : Rng) (side : Side) :
    Aside (priceFor rng side).1 side := by
  obtain ⟨low, high⟩ := @Rng.range_mem rng 1 20 (by decide)
  unfold priceFor
  generalize rng.range 1 20 = drawn at low high ⊢
  obtain ⟨ticks, later⟩ := drawn
  dsimp only at low high ⊢
  rw [UInt64.le_iff_toNat_le] at low high
  have one : (1 : UInt64).toNat = 1 := rfl
  have twenty : (20 : UInt64).toNat = 20 := rfl
  have same : ticks.toUInt32.toNat = ticks.toNat := by
    rw [UInt64.toNat_toUInt32]
    exact Nat.mod_eq_of_lt (by omega)
  have away : (ticks.toUInt32 * kTick).toNat = ticks.toNat * 100 := by
    rw [UInt32.toNat_mul, same]
    exact Nat.mod_eq_of_lt (by
      change ticks.toNat * 100 < 2 ^ 32
      omega)
  have base : kBase.toNat = 1000000 := rfl
  cases side with
  | buy =>
      change kBase - ticks.toUInt32 * kTick < kBase
      rw [UInt32.lt_iff_toNat_lt, UInt32.toNat_sub_of_le _ _
        (UInt32.le_iff_toNat_le.mpr (by omega))]
      omega
  | sell =>
      change kBase < kBase + ticks.toUInt32 * kTick
      rw [UInt32.lt_iff_toNat_lt, UInt32.toNat_add,
        Nat.mod_eq_of_lt (by omega)]
      omega

theorem Quoted.add (quoted : Quoted arrivals)
    (fresh : arrivals.find? order.ref = none) (positive : order.qty ≠ 0)
    (aside : Aside order.price order.side) :
    Quoted (arrivals.add order fresh positive) := by
  intro other member
  rcases List.mem_append.mp member with old | new
  · exact quoted other old
  · rw [List.mem_singleton.mp new]
    exact aside

theorem Quoted.reduce (quoted : Quoted arrivals) (ref : OrderRef)
    (shares : Qty) : Quoted (arrivals.reduce ref shares) := by
  intro result member
  obtain ⟨before, beforeMember, equal⟩ := mem_reduceIn.mp member
  obtain ⟨-, side, price, -⟩ := Resting.lessAt_eq_some equal
  rw [side, price]
  exact quoted before beforeMember

/-- Two prices which rest on the two sides do not cross. -/
theorem Quoted.uncrossed (quoted : Quoted arrivals) {bid offer : Price}
    (bids : bid ∈ arrivals.prices .buy)
    (offers : offer ∈ arrivals.prices .sell) : bid < offer := by
  obtain ⟨buying, buyingRests, buys, rfl⟩ := ArrivalBook.mem_prices.mp bids
  obtain ⟨selling, sellingRests, sells, rfl⟩ :=
    ArrivalBook.mem_prices.mp offers
  have below := quoted buying buyingRests
  have above := quoted selling sellingRests
  rw [buys] at below
  rw [sells] at above
  exact UInt32.lt_trans below above

/-- The references which rest, each of them once. -/
structure Tracks (live : List OrderRef) (arrivals : ArrivalBook) : Prop where
  distinct : live.Nodup
  members : ∀ ref, ref ∈ live ↔ (arrivals.find? ref).isSome = true

theorem Tracks.add (tracks : Tracks live arrivals) (order : Resting)
    (fresh : arrivals.find? order.ref = none) (positive : order.qty ≠ 0) :
    Tracks (live ++ [order.ref]) (arrivals.add order fresh positive) := by
  have absent : order.ref ∉ live := fun member => by
    rw [tracks.members, fresh] at member
    cases member
  constructor
  · exact (List.perm_append_singleton order.ref live).nodup_iff.mpr
      (List.nodup_cons.mpr ⟨absent, tracks.distinct⟩)
  · intro ref
    rw [ArrivalBook.find?_add, List.mem_append, List.mem_singleton,
      tracks.members]
    by_cases same : ref = order.ref
    · simp [same]
    · simp [same]

/-- An order which keeps some shares keeps its place. -/
theorem Tracks.reduce_remaining (tracks : Tracks live arrivals)
    (member : order ∈ arrivals.orders) {shares : Qty}
    (remaining : order.qty ≠ shares) :
    Tracks live (arrivals.reduce order.ref shares) := by
  refine ⟨tracks.distinct, fun ref => ?_⟩
  by_cases same : ref = order.ref
  · have found := ArrivalBook.find?_eq_some_iff.mpr ⟨member, rfl⟩
    rw [same, tracks.members, found, ArrivalBook.find?_reduce_self member,
      Resting.less, if_neg remaining]
    exact ⟨fun _ => rfl, fun _ => rfl⟩
  · rw [ArrivalBook.find?_reduce_of_ne same, tracks.members]

theorem Tracks.reduce_exhausted (tracks : Tracks live arrivals)
    (member : order ∈ arrivals.orders)
    (there : live[i]? = some order.ref) :
    Tracks (live.eraseIdx i) (arrivals.reduce order.ref order.qty) := by
  obtain ⟨inside, here⟩ := List.getElem?_eq_some_iff.mp there
  have erased : live.eraseIdx i = live.erase order.ref := by
    rw [← here, tracks.distinct.erase_getElem]
  rw [erased]
  refine ⟨tracks.distinct.erase _, fun ref => ?_⟩
  rw [tracks.distinct.mem_erase_iff, tracks.members]
  by_cases same : ref = order.ref
  · rw [same, ArrivalBook.find?_reduce_self member, Resting.less, if_pos rfl]
    simp
  · rw [ArrivalBook.find?_reduce_of_ne same]
    simp [same]

/-- Behind the assignment to the place of the order which goes. -/
theorem Tracks.set (gone : Tracks (live.eraseIdx i) arrivals)
    (inside : i < live.length)
    (fresh : arrivals.find? order.ref = none) (positive : order.qty ≠ 0) :
    Tracks (live.set i order.ref) (arrivals.add order fresh positive) := by
  have permuted := (List.set_perm_cons_eraseIdx inside order.ref).trans
    (List.perm_append_singleton order.ref (live.eraseIdx i)).symm
  have added := gone.add order fresh positive
  exact ⟨permuted.nodup_iff.mpr added.distinct, fun ref =>
    permuted.mem_iff.trans (added.members ref)⟩

/-- The driver has as many references as there are orders. -/
theorem Tracks.length_eq (tracks : Tracks live arrivals) :
    live.length = arrivals.orders.length := by
  have permuted : live.Perm (arrivals.orders.map Resting.ref) := by
    refine (List.perm_ext_iff_of_nodup tracks.distinct
      arrivals.distinct).mpr fun ref => ?_
    rw [tracks.members, Option.isSome_iff_exists, List.mem_map]
    simp only [ArrivalBook.find?_eq_some_iff]
  rw [permuted.length_eq, List.length_map]

/-! ## What every turn keeps -/

variable {trial : Trial} {turns : Nat}

/-- The books stand for one list, of which the driver has the references. -/
structure Sound (trial : Trial) (arrivals : ArrivalBook) (turns : Nat) :
    Prop where
  fast : MapBook.Represents trial.fast arrivals
  slow : trial.slow = NaiveBook.ofArrivals arrivals
  tracks : Tracks trial.live arrivals
  quoted : Quoted arrivals
  below : ∀ ref ∈ trial.live, ref.toNat < trial.nextRef.toNat
  numbered : trial.nextRef.toNat ≤ turns + 1
  few : arrivals.orders.length ≤ turns
  short : trial.live.length ≤ turns

theorem returned_bind {α β : Type} (value : α) (next : α → Tested β) :
    (Except.ok value >>= next) = next value :=
  rfl

theorem Sound.call (sound : Sound trial arrivals turns)
    {operation : Operation}
    (accepted : arrivals.perform? operation = some next) :
    ∃ fast, trial.call operation =
        .ok { trial with fast, slow := NaiveBook.ofArrivals next } ∧
      MapBook.Represents fast next := by
  obtain ⟨fast, applied, represents⟩ := sound.fast.apply accepted
  refine ⟨fast, ?_, represents⟩
  rw [Trial.call, applied, sound.slow, NaiveBook.apply_ofArrivals accepted]
  rfl

theorem Sound.fresh (sound : Sound trial arrivals turns) :
    arrivals.find? trial.nextRef = none := by
  cases found : arrivals.find? trial.nextRef with
  | none => rfl
  | some order =>
      have live := (sound.tracks.members trial.nextRef).mpr (by rw [found]; rfl)
      exact absurd (sound.below _ live) (lt_irrefl _)

theorem Sound.nextRef_add (sound : Sound trial arrivals turns)
    (fits : turns + 2 < 2 ^ 64) :
    (trial.nextRef + 1).toNat = trial.nextRef.toNat + 1 := by
  have numbered := sound.numbered
  rw [UInt64.toNat_add]
  exact Nat.mod_eq_of_lt (by
    change trial.nextRef.toNat + 1 < 2 ^ 64
    omega)

section Turn

variable {operation : Operation} {left : List OrderRef} {fast : MapBook}

/-- Behind a call which brings no order. -/
theorem Sound.without (sound : Sound trial arrivals turns)
    (accepted : arrivals.perform? operation = some next)
    (represents : MapBook.Represents fast next) (tracks : Tracks left next)
    (quoted : Quoted next)
    (kept : left.Sublist trial.live) (rng : Rng) :
    Sound
      { trial with
        rng, fast
        slow := NaiveBook.ofArrivals next
        live := left } next (turns + 1) where
  fast := represents
  slow := rfl
  tracks := tracks
  quoted := quoted
  below := fun ref member => sound.below ref (kept.subset member)
  numbered := sound.numbered.trans (Nat.le_succ _)
  few := (ArrivalBook.length_perform?_le accepted).trans
    (Nat.succ_le_succ sound.few)
  short := (kept.length_le.trans sound.short).trans (Nat.le_succ _)

/-- Behind a call which brings an order under the next reference. -/
theorem Sound.brought (sound : Sound trial arrivals turns)
    (fits : turns + 2 < 2 ^ 64)
    (accepted : arrivals.perform? operation = some next)
    (represents : MapBook.Represents fast next) (tracks : Tracks left next)
    (quoted : Quoted next)
    (kept : ∀ ref ∈ left, ref = trial.nextRef ∨ ref ∈ trial.live)
    (length : left.length ≤ trial.live.length + 1) (rng : Rng) :
    Sound
      { trial with
        rng, fast
        slow := NaiveBook.ofArrivals next
        live := left
        nextRef := trial.nextRef + 1 } next (turns + 1) where
  fast := represents
  slow := rfl
  tracks := tracks
  quoted := quoted
  below := fun ref member => by
    rw [sound.nextRef_add fits]
    rcases kept ref member with rfl | old
    · exact Nat.lt_succ_self _
    · exact (sound.below ref old).trans (Nat.lt_succ_self _)
  numbered := by
    rw [sound.nextRef_add fits]
    exact Nat.succ_le_succ sound.numbered
  few := (ArrivalBook.length_perform?_le accepted).trans
    (Nat.succ_le_succ sound.few)
  short := length.trans (Nat.succ_le_succ sound.short)

theorem Sound.bring (sound : Sound trial arrivals turns)
    (fits : turns + 2 < 2 ^ 64) (rng : Rng) :
    ∃ later next, trial.bring rng = .ok later ∧
      Sound later next (turns + 1) := by
  unfold Trial.bring
  generalize rng.chance 50 = coin
  obtain ⟨heads, rng⟩ := coin
  dsimp only
  generalize (if heads = true then Side.buy else Side.sell) = side
  have aside := priceFor_aside rng side
  generalize priceFor rng side = priced at aside ⊢
  obtain ⟨price, rng⟩ := priced
  dsimp only at aside ⊢
  have positive := (@Rng.range_qty rng 1000 (by decide) (by decide)).1
  generalize rng.range 1 1000 = quantity at positive ⊢
  obtain ⟨drawn, rng⟩ := quantity
  dsimp only at positive ⊢
  let incoming : Resting := ⟨trial.nextRef, side, price, drawn.toUInt32, 0⟩
  have accepted : arrivals.perform?
      (.add trial.nextRef side price drawn.toUInt32 0) =
        some (arrivals.add incoming sound.fresh positive) := by
    rw [ArrivalBook.perform?, ArrivalBook.insert?, dif_pos positive,
      dif_pos sound.fresh]
  have tracks : Tracks (trial.live ++ [trial.nextRef])
      (arrivals.add incoming sound.fresh positive) :=
    sound.tracks.add incoming sound.fresh positive
  obtain ⟨fast, called, represents⟩ := sound.call accepted
  rw [called]
  refine ⟨_, _, rfl,
    sound.brought fits accepted represents tracks
      (sound.quoted.add sound.fresh positive aside) (fun ref member => ?_)
      (List.length_append.trans_le (Nat.le_refl _)) rng⟩
  rw [List.mem_append, List.mem_singleton] at member
  exact member.symm

/-- No more is taken than the order holds, and so none of it is refused. -/
theorem Sound.reduce (sound : Sound trial arrivals turns)
    (member : order ∈ arrivals.orders)
    (there : trial.live[i]? = some order.ref) {operation : Qty → Operation}
    (takes : ∀ shares, arrivals.perform? (operation shares) =
      arrivals.take? order.ref shares) (rng : Rng) :
    ∃ later next, trial.reduce rng i order.qty operation = .ok later ∧
      Sound later next (turns + 1) := by
  have held : 1 ≤ order.qty.toUInt64 := by
    rw [UInt64.le_iff_toNat_le, UInt32.toNat_toUInt64]
    exact Nat.one_le_iff_ne_zero.mpr fun none =>
      arrivals.positive order member (UInt32.toNat_inj.mp none)
  have bounded := (rng.range_qty held order.qty.toNat_lt).2
  unfold Trial.reduce
  generalize rng.range 1 order.qty.toUInt64 = quantity at bounded ⊢
  obtain ⟨drawn, rng⟩ := quantity
  dsimp only at bounded ⊢
  have found : arrivals.find? order.ref = some order :=
    ArrivalBook.find?_eq_some_iff.mpr ⟨member, rfl⟩
  have accepted : arrivals.perform? (operation drawn.toUInt32) =
      some (arrivals.reduce order.ref drawn.toUInt32) := by
    rw [takes, ArrivalBook.take?, found]
    exact if_pos (UInt32.le_iff_toNat_le.mpr bounded)
  obtain ⟨fast, called, represents⟩ := sound.call accepted
  rw [called]
  refine ⟨_, _, rfl, sound.without accepted represents ?_
    (sound.quoted.reduce _ _) ?_ rng⟩
  · split_ifs with whole
    · rw [whole]
      exact sound.tracks.reduce_exhausted member there
    · exact sound.tracks.reduce_remaining member (Ne.symm whole)
  · split_ifs
    · exact List.eraseIdx_sublist _ _
    · exact List.Sublist.refl _

theorem Sound.withdraw (sound : Sound trial arrivals turns)
    (member : order ∈ arrivals.orders)
    (there : trial.live[i]? = some order.ref) (rng : Rng) :
    ∃ later next, trial.withdraw rng i order.ref = .ok later ∧
      Sound later next (turns + 1) := by
  have found : arrivals.find? order.ref = some order :=
    ArrivalBook.find?_eq_some_iff.mpr ⟨member, rfl⟩
  have accepted : arrivals.perform? (.remove order.ref) =
      some (arrivals.reduce order.ref order.qty) := by
    rw [ArrivalBook.perform?, ArrivalBook.remove?, found]
  obtain ⟨fast, called, represents⟩ := sound.call accepted
  rw [Trial.withdraw, called]
  exact ⟨_, _, rfl, sound.without accepted represents
    (sound.tracks.reduce_exhausted member there) (sound.quoted.reduce _ _)
    (List.eraseIdx_sublist _ _) rng⟩

theorem Sound.exchange (sound : Sound trial arrivals turns)
    (fits : turns + 2 < 2 ^ 64) (member : order ∈ arrivals.orders)
    (there : trial.live[i]? = some order.ref) (rng : Rng) :
    ∃ later next, trial.exchange rng i order.ref = .ok later ∧
      Sound later next (turns + 1) := by
  have side : tested (trial.slow.sideOf order.ref) = .ok order.side := by
    rw [sound.slow, NaiveBook.sideOf_ofArrivals member]
    rfl
  rw [Trial.exchange, side, returned_bind]
  have aside := priceFor_aside rng order.side
  generalize priceFor rng order.side = priced at aside ⊢
  obtain ⟨price, rng⟩ := priced
  dsimp only at aside ⊢
  have positive := (@Rng.range_qty rng 1000 (by decide) (by decide)).1
  generalize rng.range 1 1000 = quantity at positive ⊢
  obtain ⟨drawn, rng⟩ := quantity
  dsimp only at positive ⊢
  let incoming : Resting :=
    ⟨trial.nextRef, order.side, price, drawn.toUInt32, order.owner⟩
  have found : arrivals.find? order.ref = some order :=
    ArrivalBook.find?_eq_some_iff.mpr ⟨member, rfl⟩
  have new : trial.nextRef ≠ order.ref := fun same => by
    have fresh := sound.fresh
    rw [same, found] at fresh
    cases fresh
  have fresh : (arrivals.reduce order.ref order.qty).find? incoming.ref =
      none :=
    (ArrivalBook.find?_reduce_of_ne new).trans sound.fresh
  have accepted : arrivals.perform?
      (.replace order.ref trial.nextRef price drawn.toUInt32) =
        some ((arrivals.reduce order.ref order.qty).add incoming fresh
          positive) := by
    rw [ArrivalBook.perform?, ArrivalBook.replace?, found]
    dsimp only
    rw [ArrivalBook.insert?, dif_pos positive, dif_pos fresh]
  obtain ⟨inside, -⟩ := List.getElem?_eq_some_iff.mp there
  have gone := sound.tracks.reduce_exhausted member there
  obtain ⟨fast, called, represents⟩ := sound.call accepted
  rw [called]
  refine ⟨_, _, rfl, sound.brought fits accepted represents
    (gone.set inside fresh positive)
    ((sound.quoted.reduce _ _).add fresh positive aside)
    (fun ref setMember => ?_)
    (List.length_set.trans_le (Nat.le_succ _)) rng⟩
  exact (List.mem_or_eq_of_mem_set setMember).symm

theorem Sound.touch (sound : Sound trial arrivals turns)
    (fits : turns + 2 < 2 ^ 64) (occupied : trial.live ≠ [])
    (roll : UInt64) (rng : Rng) :
    ∃ later next, trial.touch roll rng = .ok later ∧
      Sound later next (turns + 1) := by
  have short := sound.short
  have inside := rng.range_index (List.length_pos_iff.mpr occupied)
    (show trial.live.length < 2 ^ 64 by omega)
  unfold Trial.touch
  generalize rng.range 0 (UInt64.ofNat trial.live.length - 1) = drawn
    at inside ⊢
  obtain ⟨index, rng⟩ := drawn
  dsimp only at inside ⊢
  have there := List.getElem?_eq_getElem inside
  have rests := (sound.tracks.members _).mp (List.getElem_mem inside)
  obtain ⟨order, found⟩ := Option.isSome_iff_exists.mp rests
  obtain ⟨member, same⟩ := ArrivalBook.find?_eq_some_iff.mp found
  rw [← same] at there
  have held : tested (trial.slow.qtyOf order.ref) = .ok order.qty := by
    rw [sound.slow, NaiveBook.qtyOf_ofArrivals member]
    rfl
  rw [there]
  dsimp only
  rw [held, returned_bind]
  split_ifs
  · exact sound.reduce member there (fun _ => rfl) rng
  · exact sound.reduce member there (fun _ => rfl) rng
  · exact sound.withdraw member there rng
  · exact sound.exchange fits member there rng

/-- A turn succeeds, whatever is drawn for it. -/
theorem Sound.step (sound : Sound trial arrivals turns)
    (fits : turns + 2 < 2 ^ 64) :
    ∃ later next, trial.step = .ok later ∧ Sound later next (turns + 1) := by
  unfold Trial.step
  generalize trial.rng.range 0 99 = drawn
  obtain ⟨roll, rng⟩ := drawn
  dsimp only
  split_ifs with brings
  · exact sound.bring fits rng
  · exact sound.touch fits (fun empty => brings (.inr empty)) roll rng

theorem Sound.compare (sound : Sound trial arrivals turns)
    (small : turns < 2 ^ 32) : compare trial.fast trial.slow = .ok () :=
  sound.slow ▸
    compare_of_represents sound.fast (sound.few.trans_lt small)

theorem Sound.compareAt (sound : Sound trial arrivals turns)
    (small : turns < 2 ^ 32) (step : Nat) :
    trial.compareAt step = .ok () := by
  unfold Trial.compareAt
  split_ifs
  · exact sound.compare small
  · rfl

theorem Sound.loop (sound : Sound trial arrivals turns) (step : Nat)
    {left : Nat} (small : turns + left < 2 ^ 32) :
    ∃ later next, trial.loop step left = .ok later ∧
      Sound later next (turns + left) := by
  induction left generalizing trial arrivals turns step with
  | zero =>
      refine ⟨trial, arrivals, ?_, sound⟩
      rw [Trial.loop, sound.compare small]
      rfl
  | succ left induction =>
      have fits : turns + 2 < 2 ^ 64 := by omega
      obtain ⟨middle, next, stepped, after⟩ := sound.step fits
      have compared := after.compareAt (by omega) step
      rw [Trial.loop, stepped, returned_bind, compared, returned_bind]
      have rest := induction after (step + 1) (by omega)
      rwa [Nat.add_assoc, Nat.add_comm 1] at rest

end Turn

end Trial

/--
From every seed the random test comes to its last check: neither book refuses a
call, every comparison on the way succeeds, the references which the driver
keeps are those which rest, and the book stays uncrossed.  The check then holds
where the driver is left with a reference.
-/
theorem randomTest_outcome (seed : UInt64) {turns : Nat}
    (few : turns < 2 ^ 32) :
    ∃ trial checked, randomTest seed turns = .ok (trial, checked) ∧
      (checked = true ↔ trial.live ≠ []) ∧
      compare trial.fast trial.slow = .ok () ∧
      trial.live.Nodup ∧
      (∀ ref, ref ∈ trial.live ↔ trial.slow.contains ref = true) ∧
      (trial.fast.isEmpty .buy = false → trial.fast.isEmpty .sell = false →
        trial.fast.best .buy < trial.fast.best .sell) := by
  have begun : Trial.Sound { rng := ⟨seed⟩ } ArrivalBook.empty 0 :=
    { fast := MapBook.represents_empty
      slow := rfl
      tracks := ⟨List.nodup_nil, fun _ => by simp [ArrivalBook.empty,
        ArrivalBook.find?]⟩
      quoted := fun _ member => absurd member List.not_mem_nil
      below := fun _ member => absurd member List.not_mem_nil
      numbered := Nat.le_refl _
      few := Nat.le_refl _
      short := Nat.le_refl _ }
  have small : 0 + turns < 2 ^ 32 := (Nat.zero_add turns).trans_lt few
  obtain ⟨trial, arrivals, ran, sound⟩ := begun.loop 0 small
  have isEmpty : ∀ side, trial.fast.isEmpty side = arrivals.isEmpty side :=
    sound.fast.answers.isEmpty
  have best : ∀ side, trial.fast.best side = arrivals.best side :=
    sound.fast.answers.best
  have count : trial.fast.orderCount = arrivals.orders.length :=
    sound.fast.answers.orderCount
  refine ⟨trial, checkGt trial.fast.orderCount 0, ?_, ?_, sound.compare small,
    sound.tracks.distinct, fun ref => ?_, fun bids offers => ?_⟩
  · rw [randomTest, ran]
    rfl
  · rw [checkGt, decide_eq_true_eq, count, ← sound.tracks.length_eq]
    exact List.length_pos_iff
  · rw [sound.slow, NaiveBook.contains_ofArrivals]
    exact sound.tracks.members ref
  · rw [isEmpty] at bids offers
    rw [best, best]
    exact sound.quoted.uncrossed (ArrivalBook.best_mem_prices bids)
      (ArrivalBook.best_mem_prices offers)

/-- The seed and the turns of the test. -/
theorem randomTest_outcome_asWritten :
    ∃ trial checked, randomTest 0x5eed0010 20000 = .ok (trial, checked) ∧
      (checked = true ↔ trial.live ≠ []) ∧
      compare trial.fast trial.slow = .ok () ∧
      trial.live.Nodup ∧
      (∀ ref, ref ∈ trial.live ↔ trial.slow.contains ref = true) ∧
      (trial.fast.isEmpty .buy = false → trial.fast.isEmpty .sell = false →
        trial.fast.best .buy < trial.fast.best .sell) :=
  randomTest_outcome 0x5eed0010 (by decide)

/-- Without a turn no order rests. -/
example : (randomTest 0x5eed0010 0).map Prod.snd = .ok false := by
  decide +kernel

example : (randomTest 0x5eed0010 2).map Prod.snd = .ok true := by
  decide +kernel

end ItchExchange.Book.Differential
