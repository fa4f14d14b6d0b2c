import ItchExchange.Apps.ItchStats
import ItchExchange.Replay.ReplayLog

/-!
# The histogram tool

`itch_histogram.cpp`: an observer collects where new orders land from the inside
of the book, how large the book grows and how far the inside travels.  What it
ends with is a function of the log of the replay.
-/

namespace ItchExchange.Apps.ItchHistogram

open ItchExchange.Core ItchExchange.Book ItchExchange.Wire
open ItchExchange.Replay Tally

/-- Raw units in a cent. -/
def kPennyUnits : Price := 100

/-- Distances are tracked up to here, in pennies. -/
def kMaxTracked : Nat := 1 <<< 16

structure Collector where
  adds : UInt64 := 0
  measured : UInt64 := 0
  improving : UInt64 := 0
  noInside : UInt64 := 0
  beyond : UInt64 := 0
  subPenny : UInt64 := 0
  maxDistance : Nat := 0
  peakLevels : UInt64 := 0
  peakOrders : UInt64 := 0
  peakQty : UInt64 := 0
  levelSum : UInt64 := 0
  orderSum : UInt64 := 0
  samples : UInt64 := 0
  crossed : UInt64 := 0
  minPrice : Price := 0
  maxPrice : Price := 0
  minBid : Price := 0
  maxBid : Price := 0
  /-- An array of `kMaxTracked` counters. -/
  distance : Nat → UInt64 := fun _ => 0

/--
The distance of a price from the inside, in pennies.  It is positive further
from the inside, and it is rounded towards zero.
-/
def ticksFrom (side : Side) (best price : Price) : Int :=
  let raw : Int :=
    match side with
    | .buy => (best.toNat : Int) - price.toNat
    | .sell => (price.toNat : Int) - best.toNat
  raw.tdiv kPennyUnits.toNat

namespace Collector

/-- The part of `before_add` in front of the question for the inside. -/
def count (c : Collector) (price : Price) (qty : Qty) : Collector :=
  { c with
    adds := c.adds + 1
    peakQty := max c.peakQty qty.toUInt64
    subPenny :=
      if price % kPennyUnits ≠ 0 then c.subPenny + 1 else c.subPenny
    minPrice := if c.minPrice = 0 then price else min c.minPrice price
    maxPrice := max c.maxPrice price }

/-- The part of `before_add` behind the distance. -/
def measure (c : Collector) (ticks : Int) : Collector :=
  let mag := ticks.natAbs
  { c with
    measured := c.measured + 1
    improving := if ticks < 0 then c.improving + 1 else c.improving
    maxDistance := max c.maxDistance mag
    distance :=
      if mag < kMaxTracked then ItchStats.bump c.distance mag else c.distance
    beyond := if mag < kMaxTracked then c.beyond else c.beyond + 1 }

variable {B : Type} [OrderBook B]

def beforeAdd (c : Collector) (book : B) (side : Side) (price : Price)
    (qty : Qty) : Collector :=
  let c := c.count price qty
  if OrderBook.isEmpty book side = true then
    { c with noInside := c.noInside + 1 }
  else c.measure (ticksFrom side (OrderBook.best book side) price)

def afterApply (c : Collector) (book : B) : Collector :=
  let levels := ReplayObserver.levelTotal book
  let orders := UInt64.ofNat (OrderBook.orderCount book)
  let b := OrderBook.best book .buy
  { c with
    peakLevels := max c.peakLevels levels
    peakOrders := max c.peakOrders orders
    levelSum := c.levelSum + levels
    orderSum := c.orderSum + orders
    samples := c.samples + 1
    minBid :=
      if OrderBook.isEmpty book .buy = true then c.minBid
      else if c.minBid = 0 then b
      else min c.minBid b
    maxBid :=
      if OrderBook.isEmpty book .buy = true then c.maxBid
      else max c.maxBid b
    crossed :=
      if OrderBook.crossed book = true then c.crossed + 1 else c.crossed }

instance (B : Type) [OrderBook B] : Observer Collector B where
  beforeAdd := beforeAdd
  noteReduction := fun c _ _ => .ok c
  afterApply := fun c book _ => .ok (c.afterApply book)

/-- The loop of `quantile`, in front of an index with so many behind it. -/
def quantileFrom (c : Collector) (target acc : UInt64) (i : Nat) :
    Nat → Nat
  | 0 => kMaxTracked
  | left + 1 =>
      let acc := acc + c.distance i
      if acc ≥ target then i else c.quantileFrom target acc (i + 1) left

/-- `quantile`, from the number of adds which are to be covered. -/
def quantile (c : Collector) (target : UInt64) : Nat :=
  c.quantileFrom target 0 0 kMaxTracked

def within (c : Collector) (ticks : Nat) : UInt64 :=
  (List.range (min (ticks + 1) kMaxTracked)).foldl
    (fun acc i => acc + c.distance i) 0

end Collector

/-- A builder which has seen nothing, with a fresh collector. -/
def measuring (B : Type) (book : B) (symbol : List UInt8) :
    BookBuilder B Collector where
  book
  symbol
  observer := {}

/-- What `main` returns at the end of the feed. -/
def exitCode {B : Type} (builder : BookBuilder B Collector) : Nat :=
  if builder.resolved = false then 1
  else if builder.observer.measured = 0 then 1
  else 0

/-! ## What the collector says of a log -/

section Log

variable {B : Type} [OrderBook B]

/-- The order which an entry of the log brings in. -/
def order (entry : Applied B) : Option (Side × Price × Qty) :=
  entry.update.brings? entry.before

/-- Where it lands, if its side had an inside. -/
def landing (entry : Applied B) : Option Int :=
  (order entry).bind fun (side, price, _) =>
    if OrderBook.isEmpty entry.before side = true then none
    else some (ticksFrom side (OrderBook.best entry.before side) price)

/-- The best bid, if there is one. -/
def bid (book : B) : Option Price :=
  if OrderBook.isEmpty book .buy = true then none
  else some (OrderBook.best book .buy)

/-- The least value since the last zero, which the minima take for none. -/
def leastSinceZero (prices : List Price) : Price :=
  (prices.rtakeWhile fun price => decide (price ≠ 0)).min?.getD 0

/-- What a collector ends with, up to the width of its counters. -/
structure Describes (entries : List (Applied B)) (c : Collector) : Prop where
  adds : c.adds = UInt64.ofNat (entries.filterMap order).length
  noInside : c.adds = c.noInside + c.measured
  measured : c.measured = UInt64.ofNat (entries.filterMap landing).length
  improving : c.improving = UInt64.ofNat
    ((entries.filterMap landing).countP fun ticks => decide (ticks < 0))
  distance : ∀ mag, c.distance mag =
    if mag < kMaxTracked then UInt64.ofNat
      ((entries.filterMap landing).countP fun ticks =>
        decide (ticks.natAbs = mag))
    else 0
  beyond : c.beyond = UInt64.ofNat
    ((entries.filterMap landing).countP fun ticks =>
      decide (¬ ticks.natAbs < kMaxTracked))
  maxDistance : c.maxDistance =
    ((entries.filterMap landing).map Int.natAbs).max?.getD 0
  subPenny : c.subPenny = UInt64.ofNat
    ((entries.filterMap order).countP fun (_, price, _) =>
      decide (price % kPennyUnits ≠ 0))
  peakQty : c.peakQty =
    ((entries.filterMap order).map fun (_, _, qty) =>
      qty.toUInt64).max?.getD 0
  minPrice : c.minPrice =
    leastSinceZero ((entries.filterMap order).map fun (_, price, _) => price)
  maxPrice : c.maxPrice =
    ((entries.filterMap order).map fun (_, price, _) => price).max?.getD 0
  samples : c.samples = UInt64.ofNat entries.length
  peakLevels : c.peakLevels =
    (entries.map fun entry =>
      ReplayObserver.levelTotal entry.behind).max?.getD 0
  peakOrders : c.peakOrders =
    (entries.map fun entry =>
      UInt64.ofNat (OrderBook.orderCount entry.behind)).max?.getD 0
  levelSum : c.levelSum = UInt64.ofNat
    (entries.map fun entry =>
      (ReplayObserver.levelTotal entry.behind).toNat).sum
  orderSum : c.orderSum = UInt64.ofNat
    (entries.map fun entry => OrderBook.orderCount entry.behind).sum
  crossed : c.crossed = UInt64.ofNat
    (entries.countP fun entry =>
      decide (OrderBook.crossed entry.behind = true))
  minBid : c.minBid =
    leastSinceZero (entries.filterMap fun entry => bid entry.behind)
  maxBid : c.maxBid =
    (entries.filterMap fun entry => bid entry.behind).max?.getD 0

/-! ## One entry -/

/-- Both hooks around an update. -/
def collect (c : Collector) (entry : Applied B) : Collector :=
  Tracker.collect (fun c book _ => c.afterApply book) c entry

section Folds

variable {α : Type} (field : Collector → α) (c : Collector)

/-- A field of what comes in. -/
theorem foldl_order (combine : α → Side × Price × Qty → α)
    (counts : ∀ c side price qty,
      field (Collector.count c price qty) =
        combine (field c) (side, price, qty))
    (first : ∀ c : Collector,
      field { c with noInside := c.noInside + 1 } = field c)
    (measures : ∀ c ticks, field (Collector.measure c ticks) = field c)
    (kept : ∀ c (book : B), field (Collector.afterApply c book) = field c)
    (entries : List (Applied B)) :
    field (entries.foldl collect c) =
      (entries.filterMap order).foldl combine (field c) := by
  refine foldl_told field order combine Kept.trivial (fun {c} _ entry => ?_)
    entries
  rw [collect, Tracker.collect, kept, order]
  cases entry.update.brings? entry.before with
  | none => rfl
  | some brought =>
      obtain ⟨side, price, qty⟩ := brought
      change field (Collector.beforeAdd c entry.before side price qty) = _
      rw [Collector.beforeAdd, Option.elim_some, ← counts]
      split_ifs
      · exact first _
      · exact measures _ _

/-- A field of where it lands. -/
theorem foldl_landing (combine : α → Int → α)
    (counts : ∀ c price qty, field (Collector.count c price qty) = field c)
    (first : ∀ c : Collector,
      field { c with noInside := c.noInside + 1 } = field c)
    (measures : ∀ c ticks,
      field (Collector.measure c ticks) = combine (field c) ticks)
    (kept : ∀ c (book : B), field (Collector.afterApply c book) = field c)
    (entries : List (Applied B)) :
    field (entries.foldl collect c) =
      (entries.filterMap landing).foldl combine (field c) := by
  refine foldl_told field landing combine Kept.trivial
    (fun {c} _ entry => ?_) entries
  rw [collect, Tracker.collect, kept, landing, order]
  cases entry.update.brings? entry.before with
  | none => rfl
  | some brought =>
      obtain ⟨side, price, qty⟩ := brought
      change field (Collector.beforeAdd c entry.before side price qty) = _
      rw [Collector.beforeAdd, Option.bind_some]
      dsimp only
      split_ifs
      · exact (first _).trans (counts _ _ _)
      · rw [measures, counts]
        rfl

/-- A field of the book behind. -/
theorem foldl_behind (combine : α → B → α)
    (counts : ∀ c price qty, field (Collector.count c price qty) = field c)
    (first : ∀ c : Collector,
      field { c with noInside := c.noInside + 1 } = field c)
    (measures : ∀ c ticks, field (Collector.measure c ticks) = field c)
    (takes : ∀ c (book : B),
      field (Collector.afterApply c book) = combine (field c) book)
    (entries : List (Applied B)) :
    field (entries.foldl collect c) =
      entries.foldl (fun value entry => combine value entry.behind)
        (field c) := by
  refine (List.foldl_hom field fun c entry => ?_).symm
  rw [collect, Tracker.collect, takes]
  cases entry.update.brings? entry.before with
  | none => rfl
  | some brought =>
      obtain ⟨side, price, qty⟩ := brought
      have same : field (Collector.beforeAdd c entry.before side price qty) =
          field c := by
        rw [Collector.beforeAdd]
        split_ifs
        · exact (first _).trans (counts _ _ _)
        · exact (measures _ _).trans (counts _ _ _)
      exact congrArg (fun value => combine value entry.behind) same.symm

/-- A field of the best bid behind. -/
theorem foldl_bid (combine : α → Price → α)
    (counts : ∀ c price qty, field (Collector.count c price qty) = field c)
    (first : ∀ c : Collector,
      field { c with noInside := c.noInside + 1 } = field c)
    (measures : ∀ c ticks, field (Collector.measure c ticks) = field c)
    (takes : ∀ c (book : B), field (Collector.afterApply c book) =
      if OrderBook.isEmpty book .buy = true then field c
      else combine (field c) (OrderBook.best book .buy))
    (entries : List (Applied B)) :
    field (entries.foldl collect c) =
      (entries.filterMap fun entry => bid entry.behind).foldl combine
        (field c) := by
  have always : Kept
      (fun value (entry : Applied B) =>
        (bid entry.behind).elim value (combine value))
      (fun _ => True) (field c) := Kept.trivial
  refine (foldl_behind field c
    (fun value book => (bid book).elim value (combine value)) counts first
    measures (fun c book => ?_) entries).trans
      (foldl_told id (fun entry : Applied B => bid entry.behind) combine
        always (fun _ _ => rfl) entries)
  rw [takes, bid]
  split_ifs <;> rfl

end Folds

/-! ## A whole log -/

theorem foldl_maximum (values : List UInt64) :
    values.foldl max 0 = values.max?.getD 0 :=
  foldl_max (fun _ => if_pos UInt64.zero_le) values

theorem foldl_price_maximum (values : List Price) :
    values.foldl max 0 = values.max?.getD 0 :=
  foldl_max (fun _ => if_pos UInt32.zero_le) values

theorem foldl_leastSinceZero (values : List Price) :
    values.foldl (minUnless 0) 0 = leastSinceZero values :=
  foldl_minUnless (fun x => by
    change (if x ≤ 0 then x else 0) = 0
    split_ifs with zero
    · exact UInt32.le_zero_iff.mp zero
    · rfl) values

/-- A collector which was folded over a log. -/
theorem describes_foldl (entries : List (Applied B)) :
    Describes entries (entries.foldl collect {}) := by
  constructor
  case adds =>
    rw [← foldl_length]
    exact foldl_order Collector.adds {} _ (fun _ _ _ _ => rfl)
      (fun _ => rfl) (fun _ _ => rfl) (fun _ _ => rfl) entries
  case measured =>
    rw [← foldl_length]
    exact foldl_landing Collector.measured {} _ (fun _ _ _ => rfl)
      (fun _ => rfl) (fun _ _ => rfl) (fun _ _ => rfl) entries
  case improving =>
    rw [← foldl_countP]
    exact foldl_landing Collector.improving {} _ (fun _ _ _ => rfl)
      (fun _ => rfl) (fun _ _ => rfl) (fun _ _ => rfl) entries
  case beyond =>
    rw [← foldl_countP]
    refine foldl_landing Collector.beyond {} _ (fun _ _ _ => rfl)
      (fun _ => rfl) (fun _ _ => ?_) (fun _ _ => rfl) entries
    rw [ite_not]
    rfl
  case maxDistance =>
    rw [← foldl_max (fun _ => Nat.zero_max _), List.foldl_map]
    exact foldl_landing Collector.maxDistance {} _ (fun _ _ _ => rfl)
      (fun _ => rfl) (fun _ _ => rfl) (fun _ _ => rfl) entries
  case subPenny =>
    rw [← foldl_countP]
    exact foldl_order Collector.subPenny {} _ (fun _ _ _ _ => rfl)
      (fun _ => rfl) (fun _ _ => rfl) (fun _ _ => rfl) entries
  case peakQty =>
    rw [← foldl_maximum, List.foldl_map]
    exact foldl_order Collector.peakQty {} _ (fun _ _ _ _ => rfl)
      (fun _ => rfl) (fun _ _ => rfl) (fun _ _ => rfl) entries
  case minPrice =>
    rw [← foldl_leastSinceZero, List.foldl_map]
    exact foldl_order Collector.minPrice {} _ (fun _ _ _ _ => rfl)
      (fun _ => rfl) (fun _ _ => rfl) (fun _ _ => rfl) entries
  case maxPrice =>
    rw [← foldl_price_maximum, List.foldl_map]
    exact foldl_order Collector.maxPrice {} _ (fun _ _ _ _ => rfl)
      (fun _ => rfl) (fun _ _ => rfl) (fun _ _ => rfl) entries
  case distance =>
    intro mag
    by_cases tracked : mag < kMaxTracked
    · rw [if_pos tracked, ← foldl_countP]
      refine foldl_landing (fun c => c.distance mag) {} _ (fun _ _ _ => rfl)
        (fun _ => rfl) (fun c ticks => ?_) (fun _ _ => rfl) entries
      change (if ticks.natAbs < kMaxTracked then
        ItchStats.bump c.distance ticks.natAbs else c.distance) mag = _
      by_cases same : ticks.natAbs = mag
      · rw [if_pos (same ▸ tracked), ItchStats.bump_apply]
      · split_ifs
        · rw [ItchStats.bump_apply, if_neg same]
        · rfl
    · rw [if_neg tracked]
      refine (foldl_landing (fun c => c.distance mag) {}
        (fun count _ => count) (fun _ _ _ => rfl)
        (fun _ => rfl) (fun c ticks => ?_) (fun _ _ => rfl) entries).trans
          (List.foldl_fixed _)
      change (if ticks.natAbs < kMaxTracked then
        ItchStats.bump c.distance ticks.natAbs else c.distance) mag = _
      split_ifs with inside
      · rw [ItchStats.bump_apply, if_neg (by omega)]
      · rfl
  case noInside =>
    have kept : Kept (collect (B := B))
        (fun c => c.adds = c.noInside + c.measured) {} := by
      refine ⟨rfl, fun {c} held entry => ?_⟩
      rw [collect, Tracker.collect]
      cases entry.update.brings? entry.before with
      | none => exact held
      | some brought =>
          obtain ⟨side, price, qty⟩ := brought
          change (Collector.beforeAdd c entry.before side price qty).adds =
            (Collector.beforeAdd c entry.before side price qty).noInside +
              (Collector.beforeAdd c entry.before side price qty).measured
          rw [Collector.beforeAdd]
          split_ifs
          · change c.adds + 1 = c.noInside + 1 + c.measured
            rw [held]
            ac_rfl
          · change c.adds + 1 = c.noInside + (c.measured + 1)
            rw [held]
            ac_rfl
    exact kept.ends entries
  case samples =>
    rw [← foldl_length]
    exact foldl_behind Collector.samples {} (fun samples _ => samples + 1)
      (fun _ _ _ => rfl) (fun _ => rfl) (fun _ _ => rfl) (fun _ _ => rfl)
      entries
  case peakLevels =>
    rw [← foldl_maximum, List.foldl_map]
    exact foldl_behind Collector.peakLevels {}
      (fun peak book => max peak (ReplayObserver.levelTotal book))
      (fun _ _ _ => rfl) (fun _ => rfl) (fun _ _ => rfl) (fun _ _ => rfl)
      entries
  case peakOrders =>
    rw [← foldl_maximum, List.foldl_map]
    exact foldl_behind Collector.peakOrders {}
      (fun peak book => max peak (UInt64.ofNat (OrderBook.orderCount book)))
      (fun _ _ _ => rfl) (fun _ => rfl) (fun _ _ => rfl) (fun _ _ => rfl)
      entries
  case levelSum =>
    rw [← foldl_sum, List.foldl_map]
    simp only [UInt64.ofNat_toNat]
    exact foldl_behind Collector.levelSum {}
      (fun sum book => sum + ReplayObserver.levelTotal book)
      (fun _ _ _ => rfl) (fun _ => rfl) (fun _ _ => rfl) (fun _ _ => rfl)
      entries
  case orderSum =>
    rw [← foldl_sum, List.foldl_map]
    exact foldl_behind Collector.orderSum {}
      (fun sum book => sum + UInt64.ofNat (OrderBook.orderCount book))
      (fun _ _ _ => rfl) (fun _ => rfl) (fun _ _ => rfl) (fun _ _ => rfl)
      entries
  case crossed =>
    rw [← foldl_countP]
    exact foldl_behind Collector.crossed {}
      (fun count book =>
        if OrderBook.crossed book = true then count + 1 else count)
      (fun _ _ _ => rfl) (fun _ => rfl) (fun _ _ => rfl) (fun _ _ => rfl)
      entries
  case minBid =>
    rw [← foldl_leastSinceZero]
    exact foldl_bid Collector.minBid {} (minUnless 0) (fun _ _ _ => rfl)
      (fun _ => rfl) (fun _ _ => rfl) (fun _ _ => rfl) entries
  case maxBid =>
    rw [← foldl_price_maximum]
    exact foldl_bid Collector.maxBid {} max (fun _ _ _ => rfl)
      (fun _ => rfl) (fun _ _ => rfl) (fun _ _ => rfl) entries

/-! ## The answers -/

section Answers

variable {entries : List (Applied B)} {c : Collector}
  (describes : Describes entries c) (few : entries.length < 2 ^ 64)

/-- The orders which land no further than some number of pennies. -/
def landedWithin (entries : List (Applied B)) (ticks : Nat) : Nat :=
  (entries.filterMap landing).countP fun landed =>
    decide (landed.natAbs < ticks + 1)

include describes

/-- The running total of the distances, in front of an index. -/
theorem Describes.foldl_range {bound : Nat} (tracked : bound ≤ kMaxTracked) :
    (List.range bound).foldl (fun acc i => acc + c.distance i) 0 =
      UInt64.ofNat ((entries.filterMap landing).countP fun landed =>
        decide (landed.natAbs < bound)) := by
  induction bound with
  | zero => simp
  | succ bound induction =>
      rw [List.range_succ, List.foldl_append, induction (by omega),
        List.foldl_cons, List.foldl_nil, describes.distance,
        if_pos (by omega), ← UInt64.ofNat_add, ← countP_lt_succ]

theorem Describes.within_eq {ticks : Nat} (tracked : ticks < kMaxTracked) :
    c.within ticks = UInt64.ofNat (landedWithin entries ticks) := by
  rw [Collector.within, Nat.min_eq_left tracked]
  exact describes.foldl_range tracked

include few

omit describes in
theorem landings_lt {counted : Int → Bool} :
    (entries.filterMap landing).countP counted < 2 ^ 64 :=
  (List.countP_le_length.trans (List.length_filterMap_le _ _)).trans_lt few

omit [OrderBook B] describes few in
theorem Collector.quantileFrom_le (c : Collector) (target acc : UInt64)
    {i left : Nat} (whole : i + left = kMaxTracked) :
    c.quantileFrom target acc i left ≤ kMaxTracked := by
  induction left generalizing i acc with
  | zero => exact le_rfl
  | succ left induction =>
      rw [quantileFrom]
      split_ifs
      · omega
      · exact induction _ (by omega)

omit [OrderBook B] describes few in
theorem Collector.le_quantileFrom (c : Collector) (target acc : UInt64)
    {i left : Nat} (whole : i + left = kMaxTracked) :
    i ≤ c.quantileFrom target acc i left := by
  induction left generalizing i acc with
  | zero => exact whole.le
  | succ left induction =>
      rw [quantileFrom]
      split_ifs
      · exact le_rfl
      · exact (Nat.le_succ i).trans (induction _ (by omega))

/-- The loop stops at the first distance within which enough orders landed. -/
theorem Describes.quantileFrom_le_iff {target : UInt64} {i left ticks : Nat}
    (whole : i + left = kMaxTracked) (tracked : ticks < kMaxTracked)
    (ahead : i ≤ ticks) :
    c.quantileFrom target
        (UInt64.ofNat ((entries.filterMap landing).countP fun landed =>
          decide (landed.natAbs < i))) i left ≤ ticks ↔
      target.toNat ≤ landedWithin entries ticks := by
  induction left generalizing i with
  | zero => omega
  | succ left induction =>
      have here := (describes.distance i).trans (if_pos (by omega))
      rw [Collector.quantileFrom, here, ← UInt64.ofNat_add, ← countP_lt_succ]
      have covered : UInt64.ofNat ((entries.filterMap landing).countP
            fun landed => decide (landed.natAbs < i + 1)) ≥ target ↔
          target.toNat ≤ landedWithin entries i := by
        rw [ge_iff_le, UInt64.le_iff_toNat_le, UInt64.toNat_ofNat',
          Nat.mod_eq_of_lt (landings_lt few)]
        rfl
      split_ifs with enough
      · refine iff_of_true ahead ((covered.mp enough).trans ?_)
        refine List.countP_mono_left fun landed _ near => ?_
        rw [decide_eq_true_eq] at near ⊢
        omega
      · rcases ahead.eq_or_lt with rfl | further
        · refine iff_of_false ?_ (mt covered.mpr enough)
          have := c.le_quantileFrom target (UInt64.ofNat
            ((entries.filterMap landing).countP fun landed =>
              decide (landed.natAbs < i + 1)))
            (show (i + 1) + left = kMaxTracked by omega)
          omega
        · exact induction (by omega) further

/-- Quantiles and windows are inverse to each other. -/
theorem Describes.quantile_le_iff {target : UInt64} {ticks : Nat}
    (tracked : ticks < kMaxTracked) :
    c.quantile target ≤ ticks ↔
      target.toNat ≤ landedWithin entries ticks := by
  have start : (entries.filterMap landing).countP
      (fun landed => decide (landed.natAbs < 0)) = 0 := by
    simp
  rw [← describes.quantileFrom_le_iff few (Nat.zero_add kMaxTracked) tracked
    (Nat.zero_le ticks), start]
  rfl

theorem Describes.toNat_measured :
    c.measured.toNat = (entries.filterMap landing).length := by
  rw [describes.measured, UInt64.toNat_ofNat', Nat.mod_eq_of_lt
    ((List.length_filterMap_le _ _).trans_lt few)]

/-- The last quantile is the greatest distance, as far as it is tracked. -/
theorem Describes.quantile_measured :
    c.quantile c.measured = min c.maxDistance kMaxTracked := by
  refine eq_of_forall_ge_iff fun ticks => ?_
  by_cases tracked : ticks < kMaxTracked
  · have near : c.maxDistance ≤ ticks ↔
        ∀ landed ∈ entries.filterMap landing, landed.natAbs < ticks + 1 := by
      rw [describes.maxDistance, max?_le_iff, List.forall_mem_map]
      simp only [Nat.lt_succ_iff]
    rw [describes.quantile_le_iff few tracked, describes.toNat_measured few,
      landedWithin, min_le_iff, or_iff_left (by omega), near,
      List.countP_le_length.ge_iff_eq, List.countP_eq_length]
    simp only [decide_eq_true_eq]
  · exact iff_of_true
      ((c.quantileFrom_le _ _ (Nat.zero_add _)).trans (by omega))
      ((min_le_right _ _).trans (by omega))

end Answers

/-! ## A whole feed -/

/--
How the quantiles and windows answer for the orders of a log.  A quantile is
asked for by the number of adds which it is to cover.
-/
structure AnswersFor (entries : List (Applied B)) (c : Collector) : Prop where
  within : ∀ ticks < kMaxTracked,
    (c.within ticks).toNat = landedWithin entries ticks
  quantile : ∀ target, ∀ ticks < kMaxTracked,
    c.quantile target ≤ ticks ↔ target.toNat ≤ landedWithin entries ticks
  tracked : ∀ target, c.quantile target ≤ kMaxTracked
  greatest : c.quantile c.measured = min c.maxDistance kMaxTracked

theorem collector_eq_foldl {tracker last : Tracker B Collector}
    {bodies : List (List UInt8)} (ran : tracker.steps bodies = .ok last) :
    last.observer = (tracker.log bodies).foldl collect tracker.observer :=
  Tracker.observer_eq_foldl
    (fun (c : Collector) (book : B) _ => c.afterApply book)
    (fun _ _ _ => rfl) (fun _ _ _ => rfl) ran

/-- A run of the tool, with the log of its replay. -/
theorem collector_log (book : B) (symbol : List UInt8) {file : List UInt8}
    {final : BookBuilder B Collector}
    (ran : driveMapped file (measuring B book symbol) = .ok final) :
    ∃ bodies rest, Splits file bodies rest ∧
      (measuring B book symbol).dispatchAll bodies = .ok final ∧
        IsLogOf symbol bodies book final.book
          ((measuring B book symbol).tracker.log bodies) ∧
        Describes ((measuring B book symbol).tracker.log bodies)
          final.observer := by
  obtain ⟨bodies, rest, splits⟩ := exists_splits file
  rw [driveMapped_eq_dispatchAll splits] at ran
  have steps := BookBuilder.steps_of_dispatchAll _ ran
  have observed : final.observer =
      ((measuring B book symbol).tracker.log bodies).foldl collect {} :=
    collector_eq_foldl steps
  refine ⟨bodies, rest, splits, ran, Tracker.isLogOf_log rfl steps, ?_⟩
  rw [observed]
  exact describes_foldl _

omit [OrderBook B] in
theorem exitCode_eq_zero_iff {builder : BookBuilder B Collector} :
    exitCode builder = 0 ↔
      builder.resolved = true ∧ builder.observer.measured ≠ 0 := by
  unfold exitCode
  split_ifs with unresolved none <;> simp_all

/--
What the tool measures of a file is a function of the log of its replay: of the
orders which the relevant messages bring in, of where each of them lands in the
book in front of it, and of the book behind each message.
-/
theorem collector_describesLog (book : B) (symbol : List UInt8)
    {file : List UInt8} {final : BookBuilder B Collector}
    (ran : driveMapped file (measuring B book symbol) = .ok final) :
    ∃ bodies rest entries, Splits file bodies rest ∧
      IsLogOf symbol bodies book final.book entries ∧
        final.stats.applied = final.observer.samples ∧
        Describes entries final.observer := by
  obtain ⟨bodies, rest, splits, dispatched, isLog, describes⟩ :=
    collector_log book symbol ran
  refine ⟨bodies, rest, _, splits, isLog, ?_, describes⟩
  have applied := (BookBuilder.dispatchAll_counts dispatched).2.1
  have traffic : (measuring B book symbol).traffic bodies =
      (relevant symbol bodies).tail.length := rfl
  rw [applied, describes.samples, traffic, isLog.length]
  exact UInt64.zero_add _

end Log

/-- A directory message, and two bids, the second of which improves. -/
def improvedBid : List UInt8 :=
  framed
    ['R'.toUInt8 :: List.replicate 38 0,
      'A'.toUInt8 :: List.replicate 17 0 ++
        [1, 'B'.toUInt8, 0, 0, 0, 5] ++ List.replicate 8 0 ++ [0, 3, 208, 144],
      'A'.toUInt8 :: List.replicate 17 0 ++
        [2, 'B'.toUInt8, 0, 0, 0, 7] ++ List.replicate 8 0 ++ [0, 3, 210, 32]]

/-- It lands four pennies in front of the inside, at the fifth counter. -/
theorem driveMapped_improvedBid :
    ∃ final, driveMapped improvedBid (measuring MapBook {} []) = .ok final ∧
      final.observer.improving = 1 ∧ final.observer.distance 4 = 1 := by
  have value : (driveMapped improvedBid (measuring MapBook {} [])).map
      (fun final => (final.observer.improving, final.observer.distance 4)) =
        .ok (1, 1) := by
    decide +kernel
  cases ran : driveMapped improvedBid (measuring MapBook {} []) with
  | error failure =>
      rw [ran] at value
      cases value
  | ok final =>
      rw [ran] at value
      exact ⟨final, rfl, Prod.mk.inj (Except.ok.inj value)⟩

theorem collector_describesLog_improvedBid :
    ∃ (final : BookBuilder MapBook Collector) (bodies : List (List UInt8))
      (rest : List UInt8) (entries : List (Applied MapBook)),
      final.observer.improving = 1 ∧ Splits improvedBid bodies rest ∧
        IsLogOf [] bodies ({} : MapBook) final.book entries ∧
        final.stats.applied = final.observer.samples ∧
        Describes entries final.observer := by
  obtain ⟨final, ran, improving, -⟩ := driveMapped_improvedBid
  obtain ⟨bodies, rest, entries, described⟩ :=
    collector_describesLog ({} : MapBook) [] ran
  exact ⟨final, bodies, rest, entries, improving, described⟩

section Log

variable {B : Type} [OrderBook B]

/--
The windows and quantiles answer for the orders which landed: a quantile is the
least tracked distance within which the wanted number of them are, and that of
all of them is the greatest distance, or the end of the tracked ones where the
greatest lies beyond it.  The tool succeeds where some order found its side of
the book occupied.
-/
theorem collector_answers (book : B) (symbol : List UInt8)
    {file : List UInt8} (small : file.length < 2 ^ 64)
    {final : BookBuilder B Collector}
    (ran : driveMapped file (measuring B book symbol) = .ok final) :
    ∃ bodies rest entries, Splits file bodies rest ∧
      IsLogOf symbol bodies book final.book entries ∧
        AnswersFor entries final.observer ∧
        (exitCode final = 0 ↔ entries.filterMap landing ≠ []) := by
  obtain ⟨bodies, rest, splits, dispatched, isLog, describes⟩ :=
    collector_log book symbol ran
  have few : ((measuring B book symbol).tracker.log bodies).length <
      2 ^ 64 := by
    have logged := isLog.length
    rw [List.length_tail] at logged
    have relevant := length_relevant_le symbol bodies
    have framed := length_le_framed bodies
    have whole := congrArg List.length splits.whole
    rw [List.length_append] at whole
    omega
  refine ⟨bodies, rest, _, splits, isLog, ⟨?_, ?_, ?_, ?_⟩, ?_⟩
  · intro ticks tracked
    rw [describes.within_eq tracked, UInt64.toNat_ofNat']
    exact Nat.mod_eq_of_lt (landings_lt few)
  · exact fun target ticks tracked => describes.quantile_le_iff few tracked
  · exact fun target => Collector.quantileFrom_le _ _ _ (Nat.zero_add _)
  · exact describes.quantile_measured few
  · rw [exitCode_eq_zero_iff, ne_eq, ← UInt64.toNat_inj,
      describes.toNat_measured few, UInt64.toNat_zero, List.length_eq_zero_iff]
    refine and_iff_right_of_imp fun landed => ?_
    refine Tracker.resolved_of_log
      (BookBuilder.steps_of_dispatchAll _ dispatched) fun empty => landed ?_
    rw [empty]
    rfl

end Log

theorem collector_answers_improvedBid :
    ∃ (final : BookBuilder MapBook Collector) (bodies : List (List UInt8))
      (rest : List UInt8) (entries : List (Applied MapBook)),
      final.observer.distance 4 = 1 ∧ Splits improvedBid bodies rest ∧
        IsLogOf [] bodies ({} : MapBook) final.book entries ∧
        AnswersFor entries final.observer ∧
        (exitCode final = 0 ↔ entries.filterMap landing ≠ []) := by
  obtain ⟨final, ran, -, fourth⟩ := driveMapped_improvedBid
  obtain ⟨bodies, rest, entries, answered⟩ :=
    collector_answers ({} : MapBook) [] (by decide) ran
  exact ⟨final, bodies, rest, entries, fourth, answered⟩

end ItchExchange.Apps.ItchHistogram
