import ItchExchange.Book.BookTypes
import ItchExchange.Book.LevelMapRuns
import ItchExchange.Library.BitWords

/-!
# The price ladder

`PriceLadder` of `price_ladder.hpp`: a window of slots which slides over the
prices, and an ordered map of the prices which are outside of it.  A tick of the
window is a whole cent, and its occupied slots are the ones of 64 words.

`base_` and the ticks are integers here: a price has fewer than 2^26 ticks, so
their 64 bit arithmetic does not overflow.  Prices are cut to 32 bits where the
source casts them.  A slot outside the array is undefined behaviour.  The
counters of hits, rebases and displaced levels, which no function reads, are
left out.
-/

namespace ItchExchange.Book

open ItchExchange.Core ItchExchange.Library
open Std (ExtTreeMap)

namespace PriceLadder

/-- The number of slots. -/
def kWindowTicks : Nat := 4096

/-- The words of the bitset, which has a bit for each slot. -/
def kWords : Nat := kWindowTicks / 64

/-- The inside may not come nearer than this to an end of the window. -/
def kRebaseMargin : Int := 512

/-- The units of a price in a cent. -/
def kTickUnits : Price := 100

end PriceLadder

/--
The window with its first tick and its bitset, and the map of the other prices.
-/
structure PriceLadder where
  side : Side
  base : Int := 0
  slots : List LevelHandle :=
    List.replicate PriceLadder.kWindowTicks Handle.null
  words : List (BitVec 64) := List.replicate PriceLadder.kWords 0#64
  overflow : PresentLevels := ∅
  levels : UInt32 := 0

namespace PriceLadder

/-! ## Ticks and slots -/

/-- The whole cents of a price. -/
def tickOf (p : Price) : Int := (p / kTickUnits).toNat

/-- A price of whole cents whose tick is in the window from `base` on. -/
def InWindowFrom (base : Int) (p : Price) : Prop :=
  p % kTickUnits = 0 ∧ base ≤ tickOf p ∧ tickOf p < base + kWindowTicks

instance (base : Int) (p : Price) : Decidable (InWindowFrom base p) :=
  inferInstanceAs (Decidable (_ ∧ _ ∧ _))

/-- The window has a slot for this price. -/
def InWindow (ladder : PriceLadder) (p : Price) : Prop :=
  InWindowFrom ladder.base p

instance (ladder : PriceLadder) (p : Price) : Decidable (ladder.InWindow p) :=
  inferInstanceAs (Decidable (InWindowFrom ladder.base p))

/-- The slot of a price which the window covers. -/
def slotOf (ladder : PriceLadder) (p : Price) : Nat :=
  (UInt32.ofInt (tickOf p - ladder.base)).toNat

/-- The price whose level is in a slot. -/
def priceOfSlot (ladder : PriceLadder) (s : Nat) : Price :=
  UInt32.ofInt ((ladder.base + s) * kTickUnits.toNat)

def bitSet (ladder : PriceLadder) (s : Nat) : Bool :=
  BitWords.test ladder.words s

/-- `slots_[s]`. -/
def slot (ladder : PriceLadder) (s : Nat) : Checked LevelHandle :=
  match ladder.slots[s]? with
  | none => .error .undefined
  | some h => .ok h

/-! ## Lookup -/

/-- The handle at a price, or the null one. -/
def find (ladder : PriceLadder) (p : Price) : Checked LevelHandle :=
  if ladder.InWindow p then
    if ladder.bitSet (ladder.slotOf p) then ladder.slot (ladder.slotOf p)
    else .ok Handle.null
  else .ok (ladder.overflow[p]?.getD Handle.null)

/-! ## Scans of the window -/

/-- The turns of a scan are enough for all 64 bits of a word. -/
def scanned {α : Type} : Option α → Checked α
  | none => .error .divergence
  | some visited => .ok visited

/-- The occupied slots, as the loops over `words_` visit them upwards. -/
def occupied (ladder : PriceLadder) : Checked (List Nat) :=
  scanned (BitWords.scanUpFrom? 0 ladder.words)

/-- The occupied slot nearest to the inside, where there is one. -/
def bestInWindow (ladder : PriceLadder) : Price :=
  match ladder.side with
  | .buy =>
      match BitWords.highestFrom? 0 ladder.words with
      | some s => ladder.priceOfSlot s
      | none => kNoPrice
  | .sell =>
      match BitWords.lowestFrom? 0 ladder.words with
      | some s => ladder.priceOfSlot s
      | none => kNoPrice

/-- The prices of the occupied slots from the inside outwards. -/
def collectWindow (ladder : PriceLadder) : Checked (List Price) := do
  let visited ←
    match ladder.side with
    | .buy => scanned (BitWords.scanDownFrom? 0 ladder.words)
    | .sell => ladder.occupied
  pure (visited.map ladder.priceOfSlot)

/-! ## Best -/

def isEmpty (ladder : PriceLadder) : Bool := decide (ladder.levels = 0)

def better (ladder : PriceLadder) (a b : Price) : Price :=
  match ladder.side with
  | .buy => if a > b then a else b
  | .sell => if a < b then a else b

/-- The better one of the best of the window and the best of the map. -/
def best (ladder : PriceLadder) : Checked Price := do
  assertMsg (ladder.isEmpty = false) "best() on an empty side"
  let fromWindow := ladder.bestInWindow
  match (outwards ladder.side ladder.overflow.toList).head? with
  | none => do
      assertMsg (fromWindow ≠ kNoPrice) "from_window != kNoPrice"
      pure fromWindow
  | some (fromOverflow, _) =>
      if fromWindow = kNoPrice then pure fromOverflow
      else pure (ladder.better fromWindow fromOverflow)

/-! ## Moving the window -/

/-- `slots_[s] = h` and `set_bit(s)`. -/
def store (ladder : PriceLadder) (s : Nat) (h : LevelHandle) : PriceLadder :=
  { ladder with
    slots := ladder.slots.set s h
    words := BitWords.set ladder.words s }

/-- A level goes where its price belongs, in the window or in the map. -/
def put (ladder : PriceLadder) (p : Price) (h : LevelHandle) : PriceLadder :=
  if ladder.InWindow p then ladder.store (ladder.slotOf p) h
  else { ladder with overflow := ladder.overflow.insertIfNew p h }

/-- A level of the map goes into the window, where the window covers it. -/
def pull (ladder : PriceLadder) (p : Price) (h : LevelHandle) : PriceLadder :=
  if ladder.InWindow p then
    { ladder.store (ladder.slotOf p) h with
      overflow := ladder.overflow.erase p }
  else ladder

/-- The entries of the map from `lower_bound(lo_price)` to below `hi_price`. -/
def affected (ladder : PriceLadder) : List (Price × LevelHandle) :=
  let loPrice : Price := UInt32.ofInt (ladder.base * kTickUnits.toNat)
  let hiPrice : Price :=
    UInt32.ofInt ((ladder.base + kWindowTicks) * kTickUnits.toNat)
  (ladder.overflow.toList.dropWhile fun entry => entry.1 < loPrice).takeWhile
    fun entry => entry.1 < hiPrice

/--
Move the window around a tick: its levels are lifted and put where the new base
has them, and then the map is searched for prices which it covers now.
-/
def rebase (ladder : PriceLadder) (anchor : Int) : Checked PriceLadder := do
  let newBase := anchor - (kWindowTicks : Int) / 2
  if newBase = ladder.base then pure ladder
  else do
    let visited ← ladder.occupied
    let scratch ← visited.mapM fun s => do
      let h ← ladder.slot s
      pure (ladder.priceOfSlot s, h)
    let lifted := { ladder with
      slots := visited.foldl (fun slots s => slots.set s Handle.null)
        ladder.slots
      words := List.replicate kWords 0#64
      base := newBase }
    let returned :=
      scratch.foldl (fun ladder level => ladder.put level.1 level.2) lifted
    pure (returned.affected.foldl
      (fun ladder level => ladder.pull level.1 level.2) returned)

/-- Move the window when the inside is near one of its ends, or outside. -/
def maybeRebase (ladder : PriceLadder) : Checked PriceLadder :=
  if ladder.isEmpty then pure ladder
  else do
    let best ← ladder.best
    let t := tickOf best
    let lo := ladder.base + kRebaseMargin
    let hi := ladder.base + kWindowTicks - kRebaseMargin
    if lo ≤ t ∧ t < hi then pure ladder else ladder.rebase t

/-! ## Mutation -/

/-- The level is put in first, and the window moves afterwards. -/
def insert (ladder : PriceLadder) (p : Price) (h : LevelHandle) :
    Checked PriceLadder := do
  assertMsg (h ≠ Handle.null) "cannot insert a null level handle"
  let found ← ladder.find p
  assertMsg (found = Handle.null) "a level already exists at this price"
  let ladder := ladder.put p h
  maybeRebase { ladder with levels := ladder.levels + 1 }

/-- An erasure does not move the window. -/
def erase (ladder : PriceLadder) (p : Price) : Checked PriceLadder := do
  let ladder ←
    if ladder.InWindow p then do
      assertMsg (ladder.bitSet (ladder.slotOf p) = true)
        "erasing a level that is not there"
      pure { ladder with
        slots := ladder.slots.set (ladder.slotOf p) Handle.null
        words := BitWords.clear ladder.words (ladder.slotOf p) }
    else do
      assertMsg (p ∈ ladder.overflow) "erasing a level that is not there"
      pure { ladder with overflow := ladder.overflow.erase p }
  assertMsg (0 < ladder.levels) "levels_ > 0"
  pure { ladder with levels := ladder.levels - 1 }

/-! ## Levels from the inside outwards -/

def inWindowCount (ladder : PriceLadder) : Nat := BitWords.count ladder.words

def overflowCount (ladder : PriceLadder) : Nat := ladder.overflow.size

/-- A merge of two ordered walks; the window waits where the map is ahead. -/
def forEachLevel (ladder : PriceLadder) :
    Checked (List (Price × LevelHandle)) := do
  let win ← ladder.collectWindow
  let visits ← win.mapM fun p => do
    let h ← ladder.slot (ladder.slotOf p)
    pure (p, h)
  pure (List.merge visits (outwards ladder.side ladder.overflow.toList)
    fun first second => decide (Closer ladder.side first.1 second.1))

/-! ## The self-check -/

/--
The parts add up to the count, no handle is null, and the map has no price of
the window.
-/
def validate (ladder : PriceLadder) : Checked Unit := do
  assertMsg
    (ladder.inWindowCount + ladder.overflowCount = ladder.levels.toNat)
    "ladder level count disagrees with its contents"
  let visited ← ladder.occupied
  visited.forM fun s => do
    let h ← ladder.slot s
    assertMsg (h ≠ Handle.null) "occupied slot holds a null handle"
  ladder.overflow.toList.forM fun level => do
    assertMsg (level.2 ≠ Handle.null) "overflow holds a null handle"
    assertMsg (¬ ladder.InWindow level.1)
      "a price inside the window is in the overflow map"

instance : LevelMap PriceLadder where
  make := fun side => { side }
  find := find
  insert := insert
  erase := erase
  isEmpty := isEmpty
  best := best
  forEachLevel := forEachLevel

instance : ValidatedLevelMap PriceLadder where
  validate := validate

end PriceLadder

end ItchExchange.Book
