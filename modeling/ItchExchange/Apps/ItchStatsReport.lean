import ItchExchange.Apps.ItchStats

/-!
# What the statistics tool reports

`report_text` of `itch_stats.cpp`: a row for every type which was seen, the
known types which were not, and the busiest symbols.  The counts of the rows add
up to the number of messages, no type is forgotten, and what is listed of a
symbol is what a replay of the symbol applies to its book.
-/

namespace ItchExchange.Apps.ItchStats

open ItchExchange.Core ItchExchange.Wire Tally
open ItchExchange.Book ItchExchange.Replay

/-- The values of `t` in the loops over all types. -/
def allBytes : List UInt8 := (List.range 256).map UInt8.ofNat

/-- `std::greater` on pairs, made reflexive. -/
def atLeast (first second : UInt64 × UInt8) : Bool :=
  decide (second.1 < first.1 ∨ second.1 = first.1 ∧ second.2 ≤ first.2)

/-- The rows of the report: a count and its type, the largest first. -/
def rows (s : Stats) : List (UInt64 × UInt8) :=
  ((allBytes.filter fun t => decide (s.byType t ≠ 0)).map fun t =>
    (s.byType t, t)).mergeSort atLeast

def isKnownType (t : UInt8) : Bool := decide (messageLength t ≠ 0)

/-- Types defined by the spec that never appeared. -/
def missing (s : Stats) : List UInt8 :=
  allBytes.filter fun t => isKnownType t && decide (s.byType t = 0)

/-! ## Rows -/

theorem mem_allBytes (t : UInt8) : t ∈ allBytes := by
  refine List.mem_map.mpr ⟨t.toNat, List.mem_range.mpr t.toNat_lt, ?_⟩
  exact UInt8.ofNat_toNat

theorem nodup_allBytes : allBytes.Nodup := by
  refine List.Nodup.map_on (fun first inFirst second inSecond equal => ?_)
    List.nodup_range
  have same := congrArg UInt8.toNat equal
  rwa [UInt8.toNat_ofNat_of_lt' (List.mem_range.mp inFirst),
    UInt8.toNat_ofNat_of_lt' (List.mem_range.mp inSecond)] at same

/-- Every message has one type. -/
theorem sum_countP_type {types : List UInt8} (distinct : types.Nodup)
    (bodies : List (List UInt8)) :
    (types.map fun t =>
      bodies.countP fun f => decide (loadBe8 f 0 = t)).sum =
        bodies.countP fun f => decide (loadBe8 f 0 ∈ types) := by
  induction bodies with
  | nil =>
      refine List.sum_eq_zero fun count member => ?_
      obtain ⟨t, -, rfl⟩ := List.mem_map.mp member
      rfl
  | cons body rest induction =>
      have one : (types.map fun t =>
          if loadBe8 body 0 = t then 1 else 0).sum =
            if loadBe8 body 0 ∈ types then 1 else 0 := by
        rw [sum_map_ite, ← distinct.count, List.count]
        refine List.countP_congr fun t _ => ?_
        rw [decide_eq_true_eq, beq_iff_eq]
        exact eq_comm
      simp only [List.countP_cons, List.sum_map_add, decide_eq_true_eq]
      rw [induction, one]

theorem countP_mem_allBytes (bodies : List (List UInt8)) :
    bodies.countP (fun f => decide (loadBe8 f 0 ∈ allBytes)) =
      bodies.length :=
  List.countP_eq_length.mpr fun _ _ => decide_eq_true (mem_allBytes _)

theorem sum_filter_nonzero (counts : UInt8 → UInt64) (types : List UInt8) :
    ((types.filter fun t => decide (counts t ≠ 0)).map counts).sum =
      (types.map counts).sum := by
  induction types with
  | nil => rfl
  | cons t rest induction =>
      by_cases none : counts t = 0
      · rw [List.filter_cons_of_neg (by simpa using none), induction,
          List.map_cons, List.sum_cons, none, UInt64.zero_add]
      · rw [List.filter_cons_of_pos (by simpa using none), List.map_cons,
          List.sum_cons, induction, List.map_cons, List.sum_cons]

theorem sum_map_ofNat (counts : UInt8 → Nat) (types : List UInt8) :
    (types.map fun t => UInt64.ofNat (counts t)).sum =
      UInt64.ofNat (types.map counts).sum := by
  induction types with
  | nil => rfl
  | cons t rest induction =>
      rw [List.map_cons, List.sum_cons, induction, List.map_cons,
        List.sum_cons, UInt64.ofNat_add]

theorem atLeast_trans (first second third : UInt64 × UInt8)
    (before : atLeast first second = true)
    (behind : atLeast second third = true) : atLeast first third = true := by
  simp only [atLeast, decide_eq_true_eq, UInt64.lt_iff_toNat_lt,
    UInt8.le_iff_toNat_le, ← UInt64.toNat_inj] at *
  omega

theorem atLeast_total (first second : UInt64 × UInt8) :
    (atLeast first second || atLeast second first) = true := by
  simp only [atLeast, Bool.or_eq_true, decide_eq_true_eq,
    UInt64.lt_iff_toNat_lt, UInt8.le_iff_toNat_le, ← UInt64.toNat_inj]
  omega

theorem mem_rows {s : Stats} {row : UInt64 × UInt8} :
    row ∈ rows s ↔ row.1 = s.byType row.2 ∧ row.1 ≠ 0 := by
  rw [rows, List.mem_mergeSort, List.mem_map]
  constructor
  · rintro ⟨t, member, rfl⟩
    exact ⟨rfl, of_decide_eq_true (List.mem_filter.mp member).2⟩
  · rintro ⟨same, some⟩
    refine ⟨row.2, List.mem_filter.mpr ⟨mem_allBytes _, ?_⟩, ?_⟩
    · rw [← same]
      exact decide_eq_true some
    · rw [← same]

theorem mem_missing {s : Stats} {t : UInt8} :
    t ∈ missing s ↔ messageLength t ≠ 0 ∧ s.byType t = 0 := by
  simp only [missing, List.mem_filter, mem_allBytes, true_and, isKnownType,
    Bool.and_eq_true, decide_eq_true_eq]

/-- What the report says of a list of messages. -/
structure Reports (bodies : List (List UInt8)) (s : Stats) : Prop where
  /-- The rows are the types which occur, with their numbers. -/
  rows : ∀ count t, (count, t) ∈ rows s ↔
    count.toNat = bodies.countP (fun f => decide (loadBe8 f 0 = t)) ∧
      count ≠ 0
  sorted : (ItchStats.rows s).Pairwise fun first second =>
    second.1 ≤ first.1
  total : ((ItchStats.rows s).map Prod.fst).sum = s.messages
  /-- A known type has a row or is missing, and no other type has a row. -/
  known : ∀ t, messageLength t ≠ 0 ↔
    (∃ count, (count, t) ∈ ItchStats.rows s) ∨ t ∈ missing s
  apart : ∀ count t, (count, t) ∈ ItchStats.rows s → t ∉ missing s

theorem reports_of_describes {bySymbol : Bool} {bodies : List (List UInt8)}
    {s : Stats} (describes : Describes bySymbol bodies s)
    (messages : ∀ body ∈ bodies, Message body)
    (few : bodies.length < 2 ^ 64) : Reports bodies s := by
  have counts : ∀ t, (s.byType t).toNat =
      bodies.countP fun f => decide (loadBe8 f 0 = t) := by
    intro t
    rw [describes.byType t, UInt64.toNat_ofNat']
    have most := List.countP_le_length
      (p := fun f => decide (loadBe8 f 0 = t)) (l := bodies)
    exact Nat.mod_eq_of_lt (Nat.lt_of_le_of_lt most few)
  constructor
  case rows =>
    intro count t
    rw [mem_rows]
    dsimp only
    rw [← counts, UInt64.toNat_inj]
  case sorted =>
    refine (List.pairwise_mergeSort atLeast_trans atLeast_total _).imp ?_
    intro first second ahead
    simp only [atLeast, decide_eq_true_eq, UInt64.lt_iff_toNat_lt,
      ← UInt64.toNat_inj] at ahead
    rw [UInt64.le_iff_toNat_le]
    omega
  case total =>
    have perm := (List.mergeSort_perm ((allBytes.filter fun t =>
      decide (s.byType t ≠ 0)).map fun t => (s.byType t, t)) atLeast).map
        Prod.fst
    rw [ItchStats.rows, perm.sum_eq, List.map_map, describes.messages,
      ← countP_mem_allBytes bodies, ← sum_countP_type nodup_allBytes,
      ← sum_map_ofNat]
    refine (sum_filter_nonzero s.byType allBytes).trans ?_
    exact congrArg List.sum (List.map_congr_left fun t _ =>
      describes.byType t)
  case known =>
    intro t
    rw [mem_missing]
    by_cases none : s.byType t = 0
    · have noRow : ¬ ∃ count, (count, t) ∈ ItchStats.rows s := by
        rintro ⟨count, member⟩
        obtain ⟨same, some⟩ := mem_rows.mp member
        exact some (same.trans none)
      simp [none, noRow]
    · have seen : ∃ body ∈ bodies, loadBe8 body 0 = t := by
        have positive : 0 < bodies.countP
            fun f => decide (loadBe8 f 0 = t) := by
          rw [← counts]
          exact Nat.pos_of_ne_zero fun zero => none (UInt64.toNat_inj.mp zero)
        simpa using List.countP_pos_iff.mp positive
      obtain ⟨body, member, rfl⟩ := seen
      have known := (messages body member).known
      exact iff_of_true known
        (Or.inl ⟨_, mem_rows.mpr ⟨rfl, none⟩⟩)
  case apart =>
    intro count t member isMissing
    obtain ⟨same, some⟩ := mem_rows.mp member
    exact some (same.trans (mem_missing.mp isMissing).2)

/-! ## The busiest symbols -/

/-- `std::greater` on triples, made reflexive. -/
def atLeastAsBusy (first second : UInt64 × UInt64 × UInt16) : Bool :=
  decide (second.1 < first.1 ∨ second.1 = first.1 ∧
    (second.2.1 < first.2.1 ∨ second.2.1 = first.2.1 ∧
      second.2.2 ≤ first.2.2))

/-- The values of `i` in the loop over all locates. -/
def allLocates : List UInt16 := (List.range 65536).map UInt16.ofNat

/-- Symbols with book activity, the busiest first. -/
def activeSymbols (s : Stats) : List (UInt64 × UInt64 × UInt16) :=
  ((allLocates.filter fun i => decide (s.symbols.bookMessages i ≠ 0)).map
    fun i => (s.symbols.bookMessages i, s.symbols.allMessages i, i)).mergeSort
      atLeastAsBusy

/-- The symbols which `--by-symbol` lists. -/
def listedSymbols (s : Stats) (top : Nat) : List (UInt64 × UInt64 × UInt16) :=
  (activeSymbols s).take (min (activeSymbols s).length top)

theorem atLeastAsBusy_trans (first second third : UInt64 × UInt64 × UInt16)
    (before : atLeastAsBusy first second = true)
    (behind : atLeastAsBusy second third = true) :
    atLeastAsBusy first third = true := by
  simp only [atLeastAsBusy, decide_eq_true_eq, UInt64.lt_iff_toNat_lt,
    UInt16.le_iff_toNat_le, ← UInt64.toNat_inj] at *
  omega

theorem atLeastAsBusy_total (first second : UInt64 × UInt64 × UInt16) :
    (atLeastAsBusy first second || atLeastAsBusy second first) = true := by
  simp only [atLeastAsBusy, Bool.or_eq_true, decide_eq_true_eq,
    UInt64.lt_iff_toNat_lt, UInt16.le_iff_toNat_le, ← UInt64.toNat_inj]
  omega

theorem mem_activeSymbols {s : Stats} {row : UInt64 × UInt64 × UInt16} :
    row ∈ activeSymbols s ↔ row.1 = s.symbols.bookMessages row.2.2 ∧
      row.2.1 = s.symbols.allMessages row.2.2 ∧ row.1 ≠ 0 := by
  rw [activeSymbols, List.mem_mergeSort, List.mem_map]
  constructor
  · rintro ⟨i, member, rfl⟩
    exact ⟨rfl, rfl, of_decide_eq_true (List.mem_filter.mp member).2⟩
  · obtain ⟨book, all, i⟩ := row
    rintro ⟨isBook, isAll, some⟩
    dsimp only at isBook isAll some
    subst isBook isAll
    refine ⟨i, List.mem_filter.mpr ⟨?_, decide_eq_true some⟩, rfl⟩
    exact List.mem_map.mpr
      ⟨i.toNat, List.mem_range.mpr i.toNat_lt, UInt16.ofNat_toNat⟩

/-- The list is a true one, and no symbol outside of it is busier. -/
structure ListsBusiest (bodies : List (List UInt8)) (s : Stats)
    (top : Nat) : Prop where
  counts : ∀ row ∈ listedSymbols s top,
    row.1.toNat = bodies.countP (fun f => decide (MovesBookOf row.2.2 f)) ∧
      row.2.1.toNat =
        bodies.countP fun f => decide (loadBe16 f 1 = row.2.2)
  sorted : (listedSymbols s top).Pairwise fun first second =>
    second.1 ≤ first.1
  busiest : ∀ locate,
    (∀ row ∈ listedSymbols s top, row.2.2 ≠ locate) →
      top ≤ (listedSymbols s top).length ∧
        (∀ row ∈ listedSymbols s top,
          bodies.countP (fun f => decide (MovesBookOf locate f)) ≤
            row.1.toNat) ∨
        bodies.countP (fun f => decide (MovesBookOf locate f)) = 0

/--
The list of `--by-symbol` shows the busiest symbols of the feed: a locate which
is not in it either has no message about its book, or the list has as many rows
as were asked for, each with at least as many messages.
-/
theorem listsBusiest_of_describes {bodies : List (List UInt8)} {s : Stats}
    (describes : Describes true bodies s) (few : bodies.length < 2 ^ 64)
    (top : Nat) : ListsBusiest bodies s top := by
  have small : ∀ counted : List UInt8 → Prop, ∀ [DecidablePred counted],
      (UInt64.ofNat (bodies.countP fun f => decide (counted f))).toNat =
        bodies.countP fun f => decide (counted f) := by
    intro counted _
    rw [UInt64.toNat_ofNat']
    exact Nat.mod_eq_of_lt
      (Nat.lt_of_le_of_lt List.countP_le_length few)
  have moves := fun locate => (congrArg UInt64.toNat
    (describes.bookMessages rfl locate)).trans (small (MovesBookOf locate))
  have all := fun locate => (congrArg UInt64.toNat
    (describes.allMessages rfl locate)).trans
      (small fun f => loadBe16 f 1 = locate)
  have order : (activeSymbols s).Pairwise fun first second =>
      second.1 ≤ first.1 := by
    refine (List.pairwise_mergeSort atLeastAsBusy_trans atLeastAsBusy_total
      _).imp ?_
    intro first second ahead
    simp only [atLeastAsBusy, decide_eq_true_eq, UInt64.lt_iff_toNat_lt,
      ← UInt64.toNat_inj] at ahead
    rw [UInt64.le_iff_toNat_le]
    omega
  constructor
  case counts =>
    intro row member
    obtain ⟨book, every, -⟩ :=
      mem_activeSymbols.mp (List.mem_of_mem_take member)
    rw [book, every]
    exact ⟨moves _, all _⟩
  case sorted => exact order.sublist (List.take_sublist _ _)
  case busiest =>
    intro locate unlisted
    by_cases none : s.symbols.bookMessages locate = 0
    · right
      rw [← moves, none]
      rfl
    left
    have active : (s.symbols.bookMessages locate,
        s.symbols.allMessages locate, locate) ∈ activeSymbols s :=
      mem_activeSymbols.mpr ⟨rfl, rfl, none⟩
    rw [← List.take_append_drop (min (activeSymbols s).length top)
      (activeSymbols s)] at active order
    have dropped := (List.mem_append.mp active).resolve_left
      fun member => unlisted _ member rfl
    constructor
    · have some := List.length_pos_of_mem dropped
      rw [List.length_drop] at some
      rw [listedSymbols, List.length_take]
      omega
    · intro row member
      have ahead := (List.pairwise_append.mp order).2.2 row member _ dropped
      rw [← moves]
      exact UInt64.le_iff_toNat_le.mp ahead

/--
The report of a file accounts for all of its messages: the counts of the rows
are those of the types and add up to the number of messages, every known type
has a row or is listed as not seen, and `--by-symbol` lists the busiest symbols.
-/
theorem report_accountsForAll {file : List UInt8}
    (few : file.length < 2 ^ 64) {bySymbol : Bool} {out : Outcome} {s : Stats}
    (ran : runMapped file (fresh bySymbol) = .ok (out, s)) :
    ∃ bodies rest, Splits file bodies rest ∧ Reports bodies s ∧
      (bySymbol = true → ∀ top, ListsBusiest bodies s top) := by
  obtain ⟨bodies, rest, out', s', splits, ran', accounts, -⟩ :=
    runMapped_accountsFor file bySymbol
  obtain ⟨rfl, rfl⟩ := Prod.mk.inj (Except.ok.inj (ran'.symm.trans ran))
  have fewer : bodies.length < 2 ^ 64 := by
    have prefixes := length_le_framed bodies
    rw [splits.whole, List.length_append] at few
    omega
  refine ⟨bodies, rest, splits, reports_of_describes accounts.describes
    splits.messages fewer, ?_⟩
  rintro rfl top
  exact listsBusiest_of_describes accounts.describes fewer top

theorem report_accountsForAll_cutFeed :
    ∃ out s bodies rest, runMapped cutFeed.data (fresh true) = .ok (out, s) ∧
      Splits cutFeed.data bodies rest ∧ Reports bodies s ∧
      (true = true → ∀ top, ListsBusiest bodies s top) := by
  obtain ⟨-, -, out, s, -, ran, -⟩ := runMapped_accountsFor cutFeed.data true
  obtain ⟨bodies, rest, told⟩ := report_accountsForAll (by decide) ran
  exact ⟨out, s, bodies, rest, ran, told⟩

/-! ## What a replay makes of the same feed -/

/-- Both tools call the same messages book traffic. -/
theorem movesBookOf_iff {locate : UInt16} {f : List UInt8} :
    MovesBookOf locate f ↔ IsTrafficOf locate f := by
  refine and_congr_left fun _ => ?_
  rw [movesBook, decide_eq_true_eq]
  constructor
  · intro listed
    have isCode : loadBe8 f 0 ∈ bookTypes.map MsgType.code := listed
    obtain ⟨type, member, code⟩ := List.mem_map.mp isCode
    exact ⟨type, member, code ▸ type.ofByte?_code⟩
  · rintro ⟨type, member, found⟩
    rw [← MsgType.code_of_ofByte? found]
    exact List.mem_map_of_mem (f := MsgType.code) member

section Replays

variable {B O : Type} [OrderBook B] [Observer O B]
  {bodies : List (List UInt8)}

theorem steps_locate {tracker last : Tracker B O}
    (resolved : tracker.resolved = true)
    (ran : tracker.steps bodies = .ok last) :
    last.locate = tracker.locate := by
  induction bodies generalizing tracker with
  | nil =>
      cases ran
      rfl
  | cons body rest induction =>
      obtain ⟨next, stepped, ranRest⟩ := bind_eq_ok_iff.mp ran
      obtain ⟨stillResolved, same⟩ := Tracker.step_resolved resolved stepped
      exact (induction stillResolved ranRest).trans same

/-- A replay which resolves its symbol does so at the first directory message. -/
theorem steps_resolves {tracker last : Tracker B O}
    (unresolved : tracker.resolved = false)
    (ran : tracker.steps bodies = .ok last)
    (resolved : last.resolved = true) :
    ∃ before directory after, bodies = before ++ directory :: after ∧
      (∀ body ∈ before, ¬ IsDirectoryOf tracker.symbol body) ∧
      IsDirectoryOf tracker.symbol directory ∧
      last.locate = StockDirectoryView.stockLocate ⟨directory⟩ := by
  induction bodies with
  | nil =>
      cases ran
      exact absurd (unresolved.symm.trans resolved) Bool.false_ne_true
  | cons body rest induction =>
      obtain ⟨next, stepped, ranRest⟩ := bind_eq_ok_iff.mp ran
      by_cases directory : IsDirectoryOf tracker.symbol body
      · rw [Tracker.step_directory unresolved directory] at stepped
        cases stepped
        have same := steps_locate rfl ranRest
        exact ⟨[], body, rest, rfl, fun _ member => absurd member
          List.not_mem_nil, directory, same⟩
      · rw [Tracker.step_unresolved unresolved directory] at stepped
        cases stepped
        obtain ⟨before, found, after, rfl, none, isDirectory, locate⟩ :=
          induction ranRest
        refine ⟨body :: before, found, after, rfl, ?_, isDirectory, locate⟩
        exact List.forall_mem_cons.mpr ⟨directory, none⟩

theorem relevant_split {symbol : List UInt8} {before after : List (List UInt8)}
    {directory : List UInt8}
    (none : ∀ body ∈ before, ¬ IsDirectoryOf symbol body)
    (isDirectory : IsDirectoryOf symbol directory) :
    relevant symbol (before ++ directory :: after) =
      directory :: after.filter fun later => decide
        (IsTrafficOf (StockDirectoryView.stockLocate ⟨directory⟩) later) := by
  induction before with
  | nil => exact if_pos isDirectory
  | cons body rest induction =>
      obtain ⟨here, later⟩ := List.forall_mem_cons.mp none
      rw [List.cons_append, relevant, if_neg here, induction later]

theorem handled_iff {f : List UInt8} :
    Handled f ↔ loadBe8 f 0 ∈ handledTypes.map MsgType.code := by
  rw [List.mem_map]
  constructor
  · rintro ⟨type, listed, found⟩
    exact ⟨type, listed, MsgType.code_of_ofByte? found⟩
  · rintro ⟨type, listed, code⟩
    exact ⟨type, listed, code ▸ type.ofByte?_code⟩

/--
Where a replay of a file resolves its symbol, the statistics of the same file
list for its locate the messages which the replay applied to the book, and those
which came before the symbol was resolved.  The messages which the replay counts
are those of the types which it handles.
-/
theorem stats_listWhatIsApplied (book : B) (symbol : List UInt8) (observer : O)
    {file : List UInt8} {final : BookBuilder B O}
    (replayed : driveMapped file
      ({ book, symbol, observer } : BookBuilder B O) = .ok final)
    (resolved : final.resolved = true) {out : Outcome} {s : Stats}
    (ran : runMapped file (fresh true) = .ok (out, s)) :
    ∃ before directory after rest,
      Splits file (before ++ directory :: after) rest ∧
      (∀ body ∈ before, ¬ IsDirectoryOf symbol body) ∧
      IsDirectoryOf symbol directory ∧
      s.symbols.bookMessages final.locate =
        UInt64.ofNat (before.countP fun f =>
          decide (MovesBookOf final.locate f)) + final.stats.applied ∧
      final.stats.messages =
        (handledTypes.map fun type => s.byType type.code).sum := by
  obtain ⟨bodies, rest, out', s', splits, ran', accounts, -⟩ :=
    runMapped_accountsFor file true
  obtain ⟨rfl, rfl⟩ := Prod.mk.inj (Except.ok.inj (ran'.symm.trans ran))
  have describes := accounts.describes
  rw [driveMapped_eq_dispatchAll splits] at replayed
  obtain ⟨messages, applied, -⟩ := BookBuilder.dispatchAll_counts replayed
  obtain ⟨before, directory, after, rfl, none, isDirectory, locate⟩ :=
    steps_resolves rfl (BookBuilder.steps_of_dispatchAll _ replayed) resolved
  have notYet : ∀ body ∈ before, ¬ IsDirectoryOf symbol body := none
  have first : IsDirectoryOf symbol directory := isDirectory
  have isLocate : final.locate =
      StockDirectoryView.stockLocate ⟨directory⟩ := locate
  refine ⟨before, directory, after, rest, splits, notYet, first, ?_, ?_⟩
  · have notTraffic : ¬ MovesBookOf final.locate directory := by
      rw [movesBookOf_iff]
      rintro ⟨⟨type, listed, found⟩, -⟩
      rw [first.1, Option.some.injEq] at found
      subst found
      exact absurd listed (by decide)
    have traffic : BookBuilder.traffic
        ({ book, symbol, observer } : BookBuilder B O)
        (before ++ directory :: after) =
          after.countP fun f => decide (MovesBookOf final.locate f) := by
      rw [BookBuilder.traffic, if_neg Bool.false_ne_true,
        relevant_split notYet first, List.tail_cons,
        ← List.countP_eq_length_filter, isLocate]
      simp only [movesBookOf_iff]
    rw [describes.bookMessages rfl, applied, traffic, List.countP_append,
      List.countP_cons_of_neg (by simpa using notTraffic), UInt64.ofNat_add]
    exact congrArg _ (UInt64.zero_add _).symm
  · have counted : (handledTypes.map fun type => s'.byType type.code).sum =
        UInt64.ofNat ((before ++ directory :: after).countP fun f =>
          decide (loadBe8 f 0 ∈ handledTypes.map MsgType.code)) := by
      rw [← sum_countP_type (by decide), ← sum_map_ofNat, List.map_map]
      exact congrArg List.sum (List.map_congr_left fun type _ =>
        describes.byType _)
    rw [messages, counted]
    simp only [handled_iff]
    exact UInt64.zero_add _

end Replays

theorem stats_listWhatIsApplied_cutFeed :
    ∃ (final : BookBuilder MapBook NullObserver) (out : Outcome) (s : Stats)
      (before after : List (List UInt8)) (directory rest : List UInt8),
      driveMapped cutFeed.data ({ book := {}, symbol := [], observer := {} } :
        BookBuilder MapBook NullObserver) = .ok final ∧
      runMapped cutFeed.data (fresh true) = .ok (out, s) ∧
      Splits cutFeed.data (before ++ directory :: after) rest ∧
      (∀ body ∈ before, ¬ IsDirectoryOf [] body) ∧
      IsDirectoryOf [] directory ∧
      s.symbols.bookMessages final.locate =
        UInt64.ofNat (before.countP fun f =>
          decide (MovesBookOf final.locate f)) + final.stats.applied ∧
      final.stats.messages =
        (handledTypes.map fun type => s.byType type.code).sum := by
  have value : (driveMapped cutFeed.data
      ({ book := {}, symbol := [], observer := {} } :
        BookBuilder MapBook NullObserver)).map (fun final => final.resolved) =
      .ok true := by
    decide +kernel
  obtain ⟨-, -, out, s, -, ran, -⟩ := runMapped_accountsFor cutFeed.data true
  cases replayed : driveMapped cutFeed.data
      ({ book := {}, symbol := [], observer := {} } :
        BookBuilder MapBook NullObserver) with
  | error failure =>
      rw [replayed] at value
      cases value
  | ok final =>
      rw [replayed] at value
      obtain ⟨before, directory, after, rest, listed⟩ :=
        stats_listWhatIsApplied ({} : MapBook) [] ({} : NullObserver) replayed
          (Except.ok.inj value) ran
      exact ⟨final, out, s, before, after, directory, rest, rfl, ran, listed⟩

end ItchExchange.Apps.ItchStats
