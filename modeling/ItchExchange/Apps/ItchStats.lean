import ItchExchange.Apps.ItchReplay
import ItchExchange.Library.Tally

/-!
# The statistics tool

`itch_stats.cpp`: messages are counted by their type and by their symbol, out of
a mapped file or through the buffered reader.  The arrays of counters are
functions from their indices, and a span is the list of its bytes.
-/

namespace ItchExchange.Apps.ItchStats

open ItchExchange.Core ItchExchange.Wire Tally

/-- Messages that mutate a book. -/
def movesBook (t : UInt8) : Bool :=
  decide (t ∈ ['A'.toUInt8, 'F'.toUInt8, 'E'.toUInt8, 'C'.toUInt8,
    'X'.toUInt8, 'D'.toUInt8, 'U'.toUInt8])

structure SymbolTable where
  name : UInt16 → List UInt8 := fun _ => []
  bookMessages : UInt16 → UInt64 := fun _ => 0
  allMessages : UInt16 → UInt64 := fun _ => 0
  enabled : Bool := false

structure Stats where
  byType : UInt8 → UInt64 := fun _ => 0
  symbols : SymbolTable := {}
  messages : UInt64 := 0
  payloadBytes : UInt64 := 0
  framedBytes : UInt64 := 0
  firstTimestamp : Timestamp := 0
  lastTimestamp : Timestamp := 0
  sawTimestamp : Bool := false

/-- `++counters[key]`. -/
def bump {α : Type} [DecidableEq α] (counters : α → UInt64) (key : α) :
    α → UInt64 :=
  Function.update counters key (counters key + 1)

/-- The part of `observe` behind `symbols.enabled`. -/
def SymbolTable.observe (symbols : SymbolTable) (f : List UInt8) :
    SymbolTable :=
  let type := loadBe8 f 0
  let locate := loadBe16 f 1
  if symbols.enabled = true then
    let symbols :=
      { symbols with allMessages := bump symbols.allMessages locate }
    if movesBook type = true then
      { symbols with bookMessages := bump symbols.bookMessages locate }
    else if type = 'R'.toUInt8 then
      let v : StockDirectoryView := ⟨f⟩
      { symbols with
        name := Function.update symbols.name locate (trimAlpha v.stock) }
    else symbols
  else symbols

def Stats.observe (s : Stats) (f : List UInt8) : Stats :=
  let ts := loadBe48 f 5
  { byType := bump s.byType (loadBe8 f 0)
    symbols := s.symbols.observe f
    messages := s.messages + 1
    payloadBytes := s.payloadBytes + UInt64.ofNat f.length
    framedBytes :=
      s.framedBytes + UInt64.ofNat (f.length + kLengthPrefixSize)
    firstTimestamp :=
      if s.sawTimestamp = false then ts else s.firstTimestamp
    lastTimestamp := ts
    sawTimestamp := true }

/-- Why and where a run stopped. -/
structure Outcome where
  status : FrameStatus := .endOfInput
  error : FrameError := .none
  offset : UInt64 := 0
  trailing : Nat := 0
deriving DecidableEq, Repr

/-- The body of both loops. -/
def observed (s : Stats) (f : List UInt8) : Checked Stats := .ok (s.observe f)

def Outcome.ofCursor (st : FrameStatus) (cur : FrameCursor) : Outcome where
  status := st
  error := cur.error
  offset := UInt64.ofNat cur.offset
  trailing := cur.rest.length

def Outcome.ofReader {σ : Type} (st : FrameStatus) (reader : FrameReader σ) :
    Outcome where
  status := st
  error := reader.error
  offset := reader.bytesConsumed
  trailing := reader.trailingBytes

def runMapped (file : List UInt8) (s : Stats) : Checked (Outcome × Stats) :=
  (forEachFrame { buf := file } observed s).map fun (st, cur, s) =>
    (.ofCursor st cur, s)

def runStreamed {σ : Type} [ByteSource σ] (turns : Nat)
    (reader : FrameReader σ) (s : Stats) : Checked (Outcome × Stats) :=
  (forEachFrameStreamed turns reader observed s).map fun (st, reader, s) =>
    (.ofReader st reader, s)

/-- What `main` returns, when no exception was thrown. -/
def exitCode (out : Outcome) : Nat :=
  if out.status = .malformed then 1 else 0

/-- Statistics before the first message, with or without `--by-symbol`. -/
def fresh (bySymbol : Bool) : Stats where
  symbols := { enabled := bySymbol }

/-! ## What the statistics say of a feed -/

/-- A stock directory message of the locate names its symbol. -/
def namedBy (locate : UInt16) (f : List UInt8) : Option (List UInt8) :=
  if loadBe8 f 0 = 'R'.toUInt8 ∧ loadBe16 f 1 = locate then
    some (trimAlpha (StockDirectoryView.stock ⟨f⟩))
  else none

/-- Messages about the book of a locate. -/
def MovesBookOf (locate : UInt16) (f : List UInt8) : Prop :=
  movesBook (loadBe8 f 0) = true ∧ loadBe16 f 1 = locate

instance (locate : UInt16) : DecidablePred (MovesBookOf locate) :=
  fun _ => inferInstanceAs (Decidable (_ ∧ _))

/-- The statistics are those of these messages, up to the width of a counter. -/
structure Describes (bySymbol : Bool) (bodies : List (List UInt8))
    (s : Stats) : Prop where
  byType : ∀ t, s.byType t =
    UInt64.ofNat (bodies.countP fun f => decide (loadBe8 f 0 = t))
  messages : s.messages = UInt64.ofNat bodies.length
  payloadBytes : s.payloadBytes = UInt64.ofNat bodies.flatten.length
  framedBytes : s.framedBytes = UInt64.ofNat (framed bodies).length
  firstTimestamp :
    s.firstTimestamp = (bodies.head?.map fun f => loadBe48 f 5).getD 0
  lastTimestamp :
    s.lastTimestamp = (bodies.getLast?.map fun f => loadBe48 f 5).getD 0
  enabled : s.symbols.enabled = bySymbol
  allMessages : bySymbol = true → ∀ locate, s.symbols.allMessages locate =
    UInt64.ofNat (bodies.countP fun f => decide (loadBe16 f 1 = locate))
  bookMessages : bySymbol = true → ∀ locate, s.symbols.bookMessages locate =
    UInt64.ofNat (bodies.countP fun f => decide (MovesBookOf locate f))
  name : bySymbol = true → ∀ locate, s.symbols.name locate =
    (bodies.filterMap (namedBy locate)).getLast?.getD []

theorem bump_apply {α : Type} [DecidableEq α] (counters : α → UInt64)
    (key other : α) :
    bump counters key other =
      if key = other then counters other + 1 else counters other := by
  rw [bump, Function.update_apply]
  by_cases same : other = key
  · rw [if_pos same, if_pos same.symm, same]
  · rw [if_neg same, if_neg (Ne.symm same)]

/-! ## One message -/

section Observe

variable (symbols : SymbolTable) (f : List UInt8) (locate : UInt16)

theorem SymbolTable.enabled_observe :
    (symbols.observe f).enabled = symbols.enabled := by
  unfold SymbolTable.observe
  dsimp only
  split_ifs <;> rfl

variable (enabled : symbols.enabled = true)

include enabled

theorem SymbolTable.allMessages_observe :
    (symbols.observe f).allMessages locate =
      if loadBe16 f 1 = locate then symbols.allMessages locate + 1
      else symbols.allMessages locate := by
  rw [← bump_apply]
  unfold SymbolTable.observe
  rw [if_pos enabled]
  dsimp only
  split_ifs <;> rfl

theorem SymbolTable.bookMessages_observe :
    (symbols.observe f).bookMessages locate =
      if MovesBookOf locate f then symbols.bookMessages locate + 1
      else symbols.bookMessages locate := by
  unfold SymbolTable.observe
  rw [if_pos enabled]
  dsimp only
  by_cases moves : movesBook (loadBe8 f 0) = true
  · rw [if_pos moves]
    dsimp only
    rw [bump_apply]
    simp only [MovesBookOf, moves, true_and]
  · rw [if_neg moves]
    have other : ¬ MovesBookOf locate f := fun both => moves both.1
    rw [if_neg other]
    split_ifs <;> rfl

theorem SymbolTable.name_observe :
    (symbols.observe f).name locate =
      (namedBy locate f).getD (symbols.name locate) := by
  unfold SymbolTable.observe namedBy
  rw [if_pos enabled]
  dsimp only
  by_cases directory : loadBe8 f 0 = 'R'.toUInt8
  · rw [if_neg (by rw [directory]; decide), if_pos directory]
    dsimp only
    rw [Function.update_apply]
    by_cases same : loadBe16 f 1 = locate
    · rw [if_pos same.symm, if_pos ⟨directory, same⟩]
      rfl
    · rw [if_neg (Ne.symm same), if_neg fun both => same both.2]
      rfl
  · have other : ¬ (loadBe8 f 0 = 'R'.toUInt8 ∧ loadBe16 f 1 = locate) :=
      fun both => directory both.1
    rw [if_neg directory, if_neg other]
    split_ifs <;> rfl

end Observe

/-! ## A whole feed -/

/-- Statistics of a list of messages. -/
theorem describes_foldl (bySymbol : Bool) (bodies : List (List UInt8)) :
    Describes bySymbol bodies
      (bodies.foldl Stats.observe (fresh bySymbol)) := by
  have always : Kept Stats.observe (fun _ => True) (fresh bySymbol) :=
    Kept.trivial
  have symbols : Kept Stats.observe
      (fun s => s.symbols.enabled = bySymbol) (fresh bySymbol) :=
    ⟨rfl, fun held f => (SymbolTable.enabled_observe _ f).trans held⟩
  constructor
  case byType =>
    intro t
    exact (foldl_count (fun s : Stats => s.byType t)
      (fun f => loadBe8 f 0 = t) always (fun _ f => bump_apply _ _ _)
      bodies).trans (UInt64.zero_add _)
  case messages =>
    rw [foldl_add Stats.messages (fun _ => 1) always (fun _ _ => rfl)]
    simp [fresh]
  case payloadBytes =>
    rw [foldl_add Stats.payloadBytes List.length always (fun _ _ => rfl),
      List.length_flatten]
    exact UInt64.zero_add _
  case framedBytes =>
    rw [foldl_add Stats.framedBytes (fun f => f.length + kLengthPrefixSize)
      always (fun _ _ => rfl), length_framed]
    exact UInt64.zero_add _
  case firstTimestamp =>
    cases bodies with
    | nil => rfl
    | cons first rest =>
        have seen : Kept Stats.observe
            (fun s => s.sawTimestamp = true ∧
              s.firstTimestamp = loadBe48 first 5)
            ((fresh bySymbol).observe first) := by
          refine ⟨⟨rfl, rfl⟩, fun held f => ⟨rfl, ?_⟩⟩
          rw [Stats.observe, if_neg (by simp [held.1])]
          exact held.2
        exact (seen.ends rest).2
  case lastTimestamp =>
    rcases bodies.eq_nil_or_concat with rfl | ⟨earlier, last, rfl⟩
    · rfl
    · rw [List.concat_eq_append, List.foldl_append, List.getLast?_concat]
      rfl
  case enabled => exact symbols.ends bodies
  case allMessages =>
    rintro rfl locate
    exact (foldl_count (fun s : Stats => s.symbols.allMessages locate)
      (fun f => loadBe16 f 1 = locate) symbols
      (fun held f => SymbolTable.allMessages_observe _ f locate held)
      bodies).trans (UInt64.zero_add _)
  case bookMessages =>
    rintro rfl locate
    exact (foldl_count (fun s : Stats => s.symbols.bookMessages locate)
      (MovesBookOf locate) symbols
      (fun held f => SymbolTable.bookMessages_observe _ f locate held)
      bodies).trans (UInt64.zero_add _)
  case name =>
    rintro rfl locate
    exact foldl_last (fun s : Stats => s.symbols.name locate)
      (namedBy locate) symbols
      (fun held f => SymbolTable.name_observe _ f locate held) bodies

theorem foldlM_observed (bodies : List (List UInt8)) (s : Stats) :
    bodies.foldlM observed s = .ok (bodies.foldl Stats.observe s) :=
  List.foldlM_pure

/-- What a run over a whole input ends with. -/
structure Accounts (bySymbol : Bool) (bodies : List (List UInt8))
    (rest : List UInt8) (out : Outcome) (s : Stats) : Prop where
  describes : Describes bySymbol bodies s
  stopped : front rest = .stop out.status out.error
  offset : out.offset = s.framedBytes
  trailing : out.trailing = rest.length

/--
The statistics of a mapped file are those of the frames in front of what the
reading stopped at, and with what is left they account for every byte of it.
-/
theorem runMapped_accountsFor (file : List UInt8) (bySymbol : Bool) :
    ∃ bodies rest out s, Splits file bodies rest ∧
      runMapped file (fresh bySymbol) = .ok (out, s) ∧
        Accounts bySymbol bodies rest out s ∧
        (framed bodies).length + out.trailing = file.length := by
  obtain ⟨bodies, rest, splits⟩ := exists_splits file
  cases stopped : front rest with
  | frame body tail => exact absurd stopped (splits.ends body tail)
  | stop status error =>
      have describes := describes_foldl bySymbol bodies
      have left : (cursorBehind file bodies error).rest = rest := by
        rw [FrameCursor.rest, cursorBehind, splits.whole]
        exact List.drop_left
      refine ⟨bodies, rest, .ofCursor status (cursorBehind file bodies error),
        _, splits, ?_, ⟨describes, stopped, describes.framedBytes.symm,
          congrArg List.length left⟩, ?_⟩
      · rw [runMapped, splits.forEachFrame stopped, foldlM_observed]
        rfl
      · rw [Outcome.ofCursor, left, splits.whole, List.length_append]

/--
A stream in any chunks gives the statistics of the mapped file, the same status
and error and the same offset.  The bytes which are left are the same as well,
other than at a malformed frame, where the reader counts its whole buffer.
-/
theorem runStreamed_eq_runMapped {σ : Type} [ByteSource σ]
    {remaining : σ → List UInt8} (delivers : ByteSource.Delivers remaining)
    (source : σ) (bySymbol : Bool) {bodies : List (List UInt8)}
    {rest : List UInt8} (splits : Splits (remaining source) bodies rest)
    {turns : Nat} (enough : bodies.length < turns) :
    ∃ reader streamed mapped s,
      FrameReader.make source kDefaultCapacity = .ok reader ∧
        runStreamed turns reader (fresh bySymbol) = .ok (streamed, s) ∧
        runMapped (remaining source) (fresh bySymbol) = .ok (mapped, s) ∧
        streamed.status = mapped.status ∧ streamed.error = mapped.error ∧
        streamed.offset = mapped.offset ∧
        exitCode streamed = exitCode mapped ∧
        (mapped.status ≠ .malformed →
          streamed.trailing = mapped.trailing) := by
  obtain ⟨reader, status, last, made, behind, loop⟩ :=
    splits.forEachFrameStreamed delivers source kMinBufferSize_le_default
  have fits := not_overflows_default rest
  have stopped := behind.alike fits
  have left : (cursorBehind (remaining source) bodies last.error).rest =
      rest := by
    rw [FrameCursor.rest, cursorBehind, splits.whole]
    exact List.drop_left
  refine ⟨reader, .ofReader status last,
    .ofCursor status (cursorBehind (remaining source) bodies last.error),
    bodies.foldl Stats.observe (fresh bySymbol), made, ?streams, ?maps, rfl,
    rfl, behind.consumed, rfl, fun notMalformed => ?left⟩
  case streams =>
    rw [runStreamed, loop turns enough, foldlM_observed]
    rfl
  case maps =>
    rw [runMapped, splits.forEachFrame stopped, foldlM_observed]
    rfl
  case left =>
    exact (behind.trailing fits notMalformed).trans
      (congrArg List.length left).symm

theorem runStreamed_eq_runMapped_cutFeed :
    ∃ reader streamed mapped s,
      FrameReader.make cutFeed kDefaultCapacity = .ok reader ∧
        runStreamed 4 reader (fresh true) = .ok (streamed, s) ∧
        runMapped cutFeed.data (fresh true) = .ok (mapped, s) ∧
        streamed.status = mapped.status ∧ streamed.error = mapped.error ∧
        streamed.offset = mapped.offset ∧
        exitCode streamed = exitCode mapped ∧
        (mapped.status ≠ .malformed →
          streamed.trailing = mapped.trailing) :=
  runStreamed_eq_runMapped memorySource_delivers cutFeed true splits_cutFeed
    (by decide)

end ItchExchange.Apps.ItchStats
