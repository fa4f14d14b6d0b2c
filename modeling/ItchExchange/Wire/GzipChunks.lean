import ItchExchange.Wire.Inflate
import ItchExchange.Wire.ReaderRefinement

/-!
# What a gzip source delivers, whatever the chunks and the read sizes

`Reads` follows a caller which reads until a read returns zero.  While output
is still to come, `Feeds` says what was consumed, what was delivered and what is
unread, and every turn of the loop of `read` keeps it.

A read which begins with the input used up asks the inflater for nothing more.
When a read before has filled its destination, the inflater may hold back
output, or an error, and that is lost: `Stranded` is this state, and a run
delivers everything exactly when none of its reads begins there.
-/

namespace ItchExchange.Wire.GzipSource

open ByteString StreamDecoding

variable {σ Z : Type} [ByteSource σ] [Inflater Z]

/-! ## Runs of reads -/

/-- The read returns, once its loop may take enough turns. -/
def Returns (source : GzipSource σ Z) (dst : List UInt8)
    (result : ReadResult σ Z) : Prop :=
  ∃ turns, read turns source dst = .ok result

/-- The read throws, once its loop may take enough turns. -/
def Throws (source : GzipSource σ Z) (dst : List UInt8) : Prop :=
  ∃ turns what, read turns source dst = .error (.thrown what)

/-- So many reads returned bytes, these ones in all, and led to this state. -/
inductive Reads (buffers : Nat → List UInt8) (start : GzipSource σ Z) :
    Nat → List UInt8 → GzipSource σ Z → Prop where
  | start : Reads buffers start 0 [] start
  | next {reads : Nat} {bytes : List UInt8} {source : GzipSource σ Z}
      {result : ReadResult σ Z}
      (earlier : Reads buffers start reads bytes source)
      (returned : Returns source (buffers reads) result)
      (some : result.produced ≠ 0) :
      Reads buffers start (reads + 1) (bytes ++ result.delivered)
        result.source

/-- What comes of reading until a read returns zero. -/
inductive Outcome where
  | delivered (bytes : List UInt8)
  | thrown
deriving DecidableEq, Repr

/-- The read after so many others is the last one. -/
inductive StopsAt (buffers : Nat → List UInt8) (start : GzipSource σ Z)
    (reads : Nat) : Outcome → Prop where
  | zero {bytes : List UInt8} {source : GzipSource σ Z}
      {result : ReadResult σ Z}
      (reached : Reads buffers start reads bytes source)
      (returned : Returns source (buffers reads) result)
      (none : result.produced = 0) :
      StopsAt buffers start reads (.delivered bytes)
  | thrown {bytes : List UInt8} {source : GzipSource σ Z}
      (reached : Reads buffers start reads bytes source)
      (throws : Throws source (buffers reads)) :
      StopsAt buffers start reads .thrown

/-- Reading until a read returns zero has this outcome. -/
def Ends (buffers : Nat → List UInt8) (start : GzipSource σ Z)
    (outcome : Outcome) : Prop :=
  ∃ reads, StopsAt buffers start reads outcome

/-- The run from these reads on, for at most so many more of them. -/
def drain (turns : Nat) (buffers : Nat → List UInt8) :
    Nat → Nat → List UInt8 → GzipSource σ Z →
      Except ReadFailure (List UInt8)
  | 0, _, _, _ => .error .divergence
  | more + 1, reads, bytes, source => do
      let result ← read turns source (buffers reads)
      if result.produced = 0 then pure bytes
      else
        drain turns buffers more (reads + 1) (bytes ++ result.delivered)
          result.source

theorem Reads.ends_of_drain {buffers : Nat → List UInt8}
    {start source : GzipSource σ Z} {reads : Nat}
    {bytes total : List UInt8}
    (run : Reads buffers start reads bytes source) (turns more : Nat)
    (drained : drain turns buffers more reads bytes source = .ok total) :
    Ends buffers start (.delivered total) := by
  induction more generalizing reads bytes source with
  | zero => cases drained
  | succ more induction =>
      rw [drain] at drained
      cases returned : read turns source (buffers reads) with
      | error failure =>
          rw [returned] at drained
          cases drained
      | ok result =>
          rw [returned] at drained
          simp only [bind, Except.bind, pure, Except.pure] at drained
          split_ifs at drained with none
          · cases drained
            exact ⟨reads, .zero run ⟨turns, returned⟩ none⟩
          · exact induction (run.next ⟨turns, returned⟩ none) drained

/-! ## Runs are determined -/

section Determined

variable {source start : GzipSource σ Z} {dst bytes bytes' : List UInt8}
  {buffers : Nat → List UInt8} {reads : Nat}

theorem fill_more {turns : Nat} {filling : Filling σ Z}
    {outcome : Except ReadFailure (Filling σ Z)}
    (filled : fill turns filling = outcome)
    (ended : outcome ≠ .error .divergence) (more : Nat) :
    fill (turns + more) filling = outcome := by
  induction turns generalizing filling with
  | zero =>
      rw [fill] at filled
      split_ifs at filled with full
      · subst filled
        cases more <;> exact if_pos full
      · exact absurd filled.symm ended
  | succ turns induction =>
      rw [Nat.succ_add]
      rw [fill] at filled ⊢
      split_ifs at filled ⊢ with full
      · exact filled
      · cases turned : turn filling with
        | error failure =>
            rw [turned] at filled
            exact filled
        | ok result =>
            obtain ⟨again, later⟩ := result
            rw [turned] at filled
            cases again with
            | false => exact filled
            | true => exact induction filled

theorem read_more {turns : Nat}
    {outcome : Except ReadFailure (ReadResult σ Z)}
    (returned : read turns source dst = outcome)
    (ended : outcome ≠ .error .divergence) (more : Nat) :
    read (turns + more) source dst = outcome := by
  unfold read at returned ⊢
  split_ifs at returned ⊢ with idle
  · exact returned
  · have same : fill (turns + more) (opened source dst) =
        fill turns (opened source dst) := by
      refine fill_more rfl (fun diverged => ended ?_) more
      rw [diverged] at returned
      exact returned.symm
    rw [same]
    exact returned

/-- Two reads from one state come to the same. -/
theorem read_unique {turns turns' : Nat}
    {outcome outcome' : Except ReadFailure (ReadResult σ Z)}
    (first : read turns source dst = outcome)
    (second : read turns' source dst = outcome')
    (ended : outcome ≠ .error .divergence)
    (ended' : outcome' ≠ .error .divergence) : outcome = outcome' := by
  have whole := read_more first ended turns'
  rw [Nat.add_comm, read_more second ended' turns] at whole
  exact whole.symm

theorem Returns.unique {result result' : ReadResult σ Z}
    (first : Returns source dst result)
    (second : Returns source dst result') : result = result' := by
  obtain ⟨turns, first⟩ := first
  obtain ⟨turns', second⟩ := second
  exact Except.ok.inj
    (read_unique first second (fun equal => nomatch equal)
      fun equal => nomatch equal)

theorem Returns.not_throws {result : ReadResult σ Z}
    (returned : Returns source dst result) : ¬ Throws source dst := by
  rintro ⟨turns', what, thrown⟩
  obtain ⟨turns, returned⟩ := returned
  exact nomatch read_unique returned thrown (fun equal => nomatch equal)
    fun equal => nomatch equal

theorem Reads.unique {source' : GzipSource σ Z}
    (first : Reads buffers start reads bytes source)
    (second : Reads buffers start reads bytes' source') :
    bytes = bytes' ∧ source = source' := by
  induction first generalizing bytes' source' with
  | start =>
      cases second
      exact ⟨rfl, rfl⟩
  | next earlier returned some induction =>
      cases second with
      | next earlier' returned' some' =>
          obtain ⟨rfl, rfl⟩ := induction earlier'
          obtain rfl := returned.unique returned'
          exact ⟨rfl, rfl⟩

/-- Behind the last read there is none which returns bytes. -/
theorem StopsAt.not_beyond {outcome : Outcome} {later : Nat}
    (stops : StopsAt buffers start reads outcome)
    (beyond : Reads buffers start later bytes source) : later ≤ reads := by
  induction beyond with
  | start => exact Nat.zero_le reads
  | next earlier returned some induction =>
      refine Nat.lt_of_le_of_ne induction fun last => ?_
      subst last
      cases stops with
      | zero reached returned' none =>
          obtain ⟨-, rfl⟩ := earlier.unique reached
          exact some (returned.unique returned' ▸ none)
      | thrown reached throws =>
          obtain ⟨-, rfl⟩ := earlier.unique reached
          exact returned.not_throws throws

theorem StopsAt.reached {outcome : Outcome}
    (stops : StopsAt buffers start reads outcome) :
    ∃ bytes source, Reads buffers start reads bytes source := by
  cases stops with
  | zero reached returned none => exact ⟨_, _, reached⟩
  | thrown reached throws => exact ⟨_, _, reached⟩

/-- A run of reads has one outcome at most. -/
theorem Ends.unique {outcome outcome' : Outcome}
    (first : Ends buffers start outcome)
    (second : Ends buffers start outcome') : outcome = outcome' := by
  obtain ⟨reads, first⟩ := first
  obtain ⟨reads', second⟩ := second
  obtain ⟨_, _, reached⟩ := first.reached
  obtain ⟨_, _, reached'⟩ := second.reached
  obtain rfl : reads = reads' :=
    Nat.le_antisymm (second.not_beyond reached) (first.not_beyond reached')
  cases first with
  | zero reached returned none =>
      cases second with
      | zero reached' returned' none' =>
          rw [(reached.unique reached').1]
      | thrown reached' throws =>
          obtain ⟨-, rfl⟩ := reached.unique reached'
          exact absurd throws returned.not_throws
  | thrown reached throws =>
      cases second with
      | zero reached' returned none =>
          obtain ⟨-, rfl⟩ := reached.unique reached'
          exact absurd throws returned.not_throws
      | thrown reached' throws' => rfl

end Determined

/-! ## What the loop keeps -/

section Feeds

variable {decoding : Decoding UInt8 UInt8}
  {after : Z → List UInt8 → List UInt8 → Prop}
  {remaining : σ → List UInt8} {data fed given : List UInt8}

/-- The input which is neither consumed nor lost. -/
def unread (remaining : σ → List UInt8) (source : GzipSource σ Z) :
    List UInt8 :=
  source.input ++ remaining source.inner

/-- A source which is not finished consumed and delivered just these bytes. -/
structure Feeds (after : Z → List UInt8 → List UInt8 → Prop)
    (remaining : σ → List UInt8) (data fed given : List UInt8)
    (source : GzipSource σ Z) : Prop where
  history : after source.zs fed given
  whole : fed ++ unread remaining source = data
  unfinished : source.finished = false
  forgives : source.allowTruncated = true

/-- The loop wrote these bytes behind those it had written. -/
structure Wrote (filling : Filling σ Z) (out : List UInt8)
    (later : Filling σ Z) : Prop where
  written : later.written = filling.written ++ out
  room : later.availOut.toNat + out.length = filling.availOut.toNat

omit [ByteSource σ] [Inflater Z] in
theorem Wrote.trans {filling middle later : Filling σ Z}
    {out more : List UInt8} (first : Wrote filling out middle)
    (second : Wrote middle more later) :
    Wrote filling (out ++ more) later := by
  have room := first.room
  have room' := second.room
  constructor
  · rw [second.written, first.written, List.append_assoc]
  · rw [List.length_append]
    omega

omit [ByteSource σ] [Inflater Z] in
theorem Wrote.nil {filling later : Filling σ Z}
    (written : later.written = filling.written)
    (room : later.availOut = filling.availOut) :
    Wrote filling [] later where
  written := by rw [written, List.append_nil]
  room := by rw [room]; rfl

/-- Bytes which fit the room are taken off it. -/
theorem room_left {availOut : UInt32} {count : Nat}
    (fits : count ≤ availOut.toNat) :
    (availOut - UInt32.ofNat count).toNat + count = availOut.toNat := by
  have bound := availOut.toNat_lt
  have cut : (UInt32.ofNat count).toNat = count :=
    UInt32.toNat_ofNat_of_lt' (by simp only [UInt32.size]; omega)
  rw [UInt32.toNat_sub_of_le _ _ (UInt32.le_iff_toNat_le.mpr (by omega)),
    cut]
  omega

omit [Inflater Z] in
/-- What the start of a turn does to a source. -/
theorem Feeds.replenish (delivers : ByteSource.Delivers remaining)
    {source : GzipSource σ Z}
    (feeds : Feeds after remaining data fed given source) :
    (unread remaining source = [] ∧
      ∃ later, GzipSource.replenish source = .ok (false, later) ∧
        later.finished = true) ∨
      ∃ later, GzipSource.replenish source = .ok (true, later) ∧
        later.input ≠ [] ∧ Feeds after remaining data fed given later ∧
        unread remaining later = unread remaining source := by
  obtain ⟨history, whole, unfinished, forgives⟩ := feeds
  unfold GzipSource.replenish
  by_cases usedUp : source.input = []
  · have next := delivers.next source.inner kInputChunk
    have ends := delivers.finished source.inner kInputChunk
    rw [if_pos usedUp]
    generalize ByteSource.read source.inner kInputChunk = reading at next ends
    obtain ⟨got, inner⟩ := reading
    dsimp only at next ends ⊢
    by_cases none : got = []
    · left
      refine ⟨?_, { source with inner, finished := true }, ?_, rfl⟩
      · rw [unread, usedUp, (ends none).resolve_left (by decide)]
        rfl
      · rw [if_pos (by rw [none]; rfl), if_neg (by simp [forgives])]
    · right
      have same : got ++ remaining inner = unread remaining source := by
        rw [unread, usedUp, next]
        rfl
      refine ⟨{ source with inner, input := got }, ?_, none,
        ⟨history, ?_, unfinished, forgives⟩, same⟩
      · rw [if_neg (by simpa using none)]
      · exact (congrArg (fed ++ ·) same).trans whole
  · right
    rw [if_neg usedUp]
    exact ⟨source, rfl, usedUp, ⟨history, whole, unfinished, forgives⟩, rfl⟩

/-- A measure of what the loop has still to do. -/
def work (remaining : σ → List UInt8) (filling : Filling σ Z) : Nat :=
  (unread remaining filling.source).length + filling.availOut.toNat

/-- What a turn comes to, of those which find input to consume. -/
inductive TurnEffect (decoding : Decoding UInt8 UInt8)
    (after : Z → List UInt8 → List UInt8 → Prop)
    (remaining : σ → List UInt8) (data given : List UInt8)
    (filling : Filling σ Z) :
    Except ReadFailure (Bool × Filling σ Z) → Prop where
  | thrown {what : String}
      (corrupt : decoding.standing (decoding.reach data) = .corrupt) :
      TurnEffect decoding after remaining data given filling
        (.error (.thrown what))
  | ended {later : Filling σ Z} {out : List UInt8}
      (finished : later.source.finished = true)
      (wrote : Wrote filling out later)
      (all : given ++ out = decoding.produce (decoding.reach data))
      (ends : decoding.standing (decoding.reach data) = .ended) :
      TurnEffect decoding after remaining data given filling
        (.ok (false, later))
  | again {later : Filling σ Z} {fed out : List UInt8}
      (feeds :
        Feeds after remaining data fed (given ++ out) later.source)
      (wrote : Wrote filling out later)
      (caughtUp : later.availOut = 0 ∨
        given ++ out = decoding.produce fed ∧
          decoding.standing fed = .more)
      (less : work remaining later < work remaining filling) :
      TurnEffect decoding after remaining data given filling
        (.ok (true, later))

omit [ByteSource σ] in
theorem Feeds.inflateInto (zlib : Zlib decoding after)
    {filling : Filling σ Z}
    (feeds : Feeds after remaining data fed given filling.source)
    (input : filling.source.input ≠ [])
    (room : filling.availOut ≠ 0) :
    TurnEffect decoding after remaining data given filling
      (GzipSource.inflateInto filling) := by
  obtain ⟨history, whole, unfinished, forgives⟩ := feeds
  have someRoom : 0 < filling.availOut.toNat :=
    Nat.pos_of_ne_zero fun zero => room (UInt32.toNat_inj.mp zero)
  have answered := zlib.answers history filling.source.input
    filling.availOut.toNat
  have liveLater := zlib.live answered.later
  unfold GzipSource.inflateInto
  generalize Inflater.inflate filling.source.zs filling.source.input
    filling.availOut.toNat = call at answered liveLater
  have left := room_left answered.fits
  -- What is consumed goes from the unread part to the consumed one.
  have split : fed ++ filling.source.input.take call.used ++
      (filling.source.input.drop call.used ++
        remaining filling.source.inner) = data := by
    rw [← whole, unread, List.append_assoc, ← List.append_assoc
      (List.take _ _), List.take_append_drop]
  have reaches : decoding.standing
      (fed ++ filling.source.input.take call.used) ≠ .more →
        decoding.reach data =
          fed ++ filling.source.input.take call.used := by
    intro stopped
    rw [← split]
    exact liveLater.reach_stopped stopped
  dsimp only
  cases code : call.rc with
  | ok =>
      have ok := answered.ok code
      refine .again ⟨answered.later, split, unfinished, forgives⟩
        ⟨rfl, left⟩ ?_ ?_
      · refine ok.imp (fun full => ?_) fun rest => rest.2
        exact UInt32.toNat_inj.mp
          (Nat.add_right_cancel (left.trans (full ▸ (Nat.zero_add _).symm)))
      · have consumed := answered.consumes
        have someInput := List.length_pos_iff.mpr input
        simp only [work, unread, List.length_append, List.length_drop]
        rcases ok with full | ⟨all, -⟩ <;> omega
  | streamEnd =>
      obtain ⟨all, ends⟩ := answered.streamEnd code
      have reached := reaches (by simp [ends])
      exact .ended rfl ⟨rfl, left⟩ (reached ▸ all) (reached ▸ ends)
  | bufError =>
      obtain ⟨nothing, -, stuck⟩ := answered.bufError code
      have corrupt := (if_neg input).mp (stuck someRoom)
      rw [nothing, List.take_zero, List.append_nil] at reaches
      have reached := reaches (by simp [corrupt])
      rw [nothing, List.drop_zero, if_pos input]
      exact .thrown (reached ▸ corrupt)
  | failed msg =>
      have corrupt := answered.failed msg code
      have reached := reaches (by simp [corrupt])
      exact .thrown (reached ▸ corrupt)

omit [ByteSource σ] [Inflater Z] in
/-- The effect is the same on a filling which differs in its chunk only. -/
theorem TurnEffect.of_chunk {filling ready : Filling σ Z}
    {outcome : Except ReadFailure (Bool × Filling σ Z)}
    (effect : TurnEffect decoding after remaining data given ready outcome)
    (written : ready.written = filling.written)
    (room : ready.availOut = filling.availOut)
    (same : unread remaining ready.source =
      unread remaining filling.source) :
    TurnEffect decoding after remaining data given filling outcome := by
  have start : Wrote filling [] ready := .nil written room
  cases effect with
  | thrown corrupt => exact .thrown corrupt
  | ended finished wrote all ends =>
      exact .ended finished (start.trans wrote) all ends
  | again feeds wrote caughtUp less =>
      refine .again feeds (start.trans wrote) caughtUp ?_
      rwa [work, work, ← same, ← room]

/-- A turn finds no more input, or it gets on. -/
theorem Feeds.turn (zlib : Zlib decoding after)
    (delivers : ByteSource.Delivers remaining) {filling : Filling σ Z}
    (feeds : Feeds after remaining data fed given filling.source)
    (room : filling.availOut ≠ 0) :
    (unread remaining filling.source = [] ∧
      ∃ later, GzipSource.turn filling =
          .ok (false, { filling with source := later }) ∧
        later.finished = true) ∨
      TurnEffect decoding after remaining data given filling
        (GzipSource.turn filling) := by
  unfold GzipSource.turn
  rcases feeds.replenish delivers with
    ⟨none, later, replenished, finished⟩ |
    ⟨later, replenished, input, ready, same⟩
  · rw [replenished]
    exact Or.inl ⟨none, later, rfl, finished⟩
  · rw [replenished]
    right
    have filled : Feeds after remaining data fed given
        ({ filling with source := later } : Filling σ Z).source := ready
    exact (filled.inflateInto zlib input room).of_chunk rfl rfl same

/-- What the whole loop comes to. -/
inductive FillEffect (decoding : Decoding UInt8 UInt8)
    (after : Z → List UInt8 → List UInt8 → Prop)
    (remaining : σ → List UInt8) (data given : List UInt8)
    (filling : Filling σ Z) :
    Except ReadFailure (Filling σ Z) → Prop where
  | thrown {what : String}
      (corrupt : decoding.standing (decoding.reach data) = .corrupt) :
      FillEffect decoding after remaining data given filling
        (.error (.thrown what))
  | full {later : Filling σ Z} {fed out : List UInt8}
      (feeds :
        Feeds after remaining data fed (given ++ out) later.source)
      (wrote : Wrote filling out later)
      (full : later.availOut = 0) :
      FillEffect decoding after remaining data given filling (.ok later)
  | done {later : Filling σ Z} {out : List UInt8}
      (finished : later.source.finished = true)
      (wrote : Wrote filling out later)
      (all : given ++ out = decoding.produce (decoding.reach data))
      (sound : decoding.standing (decoding.reach data) ≠ .corrupt) :
      FillEffect decoding after remaining data given filling (.ok later)

omit [ByteSource σ] [Inflater Z] in
theorem FillEffect.behind {filling middle : Filling σ Z}
    {out : List UInt8} {outcome : Except ReadFailure (Filling σ Z)}
    (wrote : Wrote filling out middle)
    (effect :
      FillEffect decoding after remaining data (given ++ out) middle
        outcome) :
    FillEffect decoding after remaining data given filling outcome := by
  cases effect with
  | thrown corrupt => exact .thrown corrupt
  | full feeds wrote' full =>
      rw [List.append_assoc] at feeds
      exact .full feeds (wrote.trans wrote') full
  | done finished wrote' all sound =>
      rw [List.append_assoc] at all
      exact .done finished (wrote.trans wrote') all sound

/--
The loop ends.  It loses nothing unless it begins with no input left while
output or an error is held back.
-/
theorem Feeds.fill (zlib : Zlib decoding after)
    (delivers : ByteSource.Delivers remaining) {filling : Filling σ Z}
    (feeds : Feeds after remaining data fed given filling.source)
    (sound : filling.availOut = 0 ∨
      (unread remaining filling.source = [] →
        given = decoding.produce fed ∧ decoding.standing fed ≠ .corrupt)) :
    ∃ turns, FillEffect decoding after remaining data given filling
      (GzipSource.fill turns filling) := by
  induction measure : work remaining filling
    using Nat.strong_induction_on generalizing filling fed given with
  | h measure induction =>
  by_cases full : filling.availOut = 0
  · refine ⟨0, ?_⟩
    rw [GzipSource.fill, if_pos full]
    rw [← List.append_nil given] at feeds
    exact .full feeds (.nil rfl rfl) full
  have live := zlib.live feeds.history
  have whole := feeds.whole
  rcases feeds.turn zlib delivers full with
    ⟨none, later, turned, finished⟩ | effect
  · obtain ⟨all, good⟩ := sound.resolve_left full none
    rw [none, List.append_nil] at whole
    subst whole
    refine ⟨1, ?_⟩
    rw [GzipSource.fill, if_neg full, turned]
    refine .done finished (.nil rfl rfl) ?_ ?_
    · rw [List.append_nil, live.reach_self, all]
    · rwa [live.reach_self]
  · generalize turned : GzipSource.turn filling = outcome at effect
    cases effect with
    | thrown corrupt =>
        refine ⟨1, ?_⟩
        rw [GzipSource.fill, if_neg full, turned]
        exact .thrown corrupt
    | ended finished wrote all ends =>
        refine ⟨1, ?_⟩
        rw [GzipSource.fill, if_neg full, turned]
        exact .done finished wrote all (by simp [ends])
    | again later wrote caughtUp less =>
        obtain ⟨turns, effect⟩ := induction _ (measure ▸ less) later
          (caughtUp.imp id fun ⟨all, goesOn⟩ _ => ⟨all, by simp [goesOn]⟩)
          rfl
        refine ⟨turns + 1, ?_⟩
        rw [GzipSource.fill, if_neg full, turned]
        exact effect.behind wrote

/-! ## One read -/

/-- A destination which a read can fill. -/
def Sized (dst : List UInt8) : Prop :=
  0 < dst.length ∧ dst.length < 2 ^ 32

variable {source : GzipSource σ Z} {dst : List UInt8}

omit [ByteSource σ] [Inflater Z] in
theorem toNat_opened (sized : Sized dst) :
    (opened source dst).availOut.toNat = dst.length :=
  UInt32.toNat_ofNat_of_lt' sized.2

omit [ByteSource σ] [Inflater Z] in
theorem opened_ne_zero (sized : Sized dst) :
    (opened source dst).availOut ≠ 0 := by
  intro none
  have size : (opened source dst).availOut.toNat = dst.length :=
    toNat_opened sized
  rw [none] at size
  exact Nat.ne_of_lt sized.1 size

/-- A read whose loop ends delivers what the loop wrote. -/
theorem returns_of_fill (sized : Sized dst)
    (unfinished : source.finished = false) {turns : Nat}
    {later : Filling σ Z} {out : List UInt8}
    (filled : GzipSource.fill turns (opened source dst) = .ok later)
    (wrote : Wrote (opened source dst) out later) :
    ∃ result : ReadResult σ Z, Returns source dst result ∧
      result.produced = out.length ∧ result.delivered = out ∧
      result.source =
        { later.source with
          outTotal :=
            later.source.outTotal + UInt64.ofNat out.length } := by
  have room := wrote.room
  rw [toNat_opened sized] at room
  have count : dst.length - later.availOut.toNat = out.length := by
    omega
  have written : later.written = out := wrote.written
  refine
    ⟨{ produced := out.length
       dst := overwrite 0 out dst
       source :=
        { later.source with
          outTotal :=
            later.source.outTotal + UInt64.ofNat out.length } },
      ⟨turns, ?_⟩, rfl, ?_, rfl⟩
  · rw [GzipSource.read, if_neg (by simp [unfinished, sized.1.ne']), filled]
    simp only [bind, Except.bind, pure, Except.pure, count, written]
  · have fits : 0 + out.length ≤ dst.length := by omega
    have front := take_overwrite fits
    rw [Nat.zero_add, List.take_zero, List.nil_append] at front
    exact front

omit [ByteSource σ] [Inflater Z] in
theorem Feeds.counted
    (feeds : Feeds after remaining data fed given source)
    (outTotal : UInt64) :
    Feeds after remaining data fed given { source with outTotal } :=
  ⟨feeds.history, feeds.whole, feeds.unfinished, feeds.forgives⟩

/-- What a read comes to. -/
inductive ReadEffect (decoding : Decoding UInt8 UInt8)
    (after : Z → List UInt8 → List UInt8 → Prop)
    (remaining : σ → List UInt8) (data given : List UInt8)
    (source : GzipSource σ Z) (dst : List UInt8) : Prop where
  | throws (throws : Throws source dst)
      (corrupt : decoding.standing (decoding.reach data) = .corrupt)
  | full {result : ReadResult σ Z} {fed : List UInt8}
      (returned : Returns source dst result)
      (counts : result.produced = result.delivered.length)
      (some : result.produced ≠ 0)
      (feeds : Feeds after remaining data fed
        (given ++ result.delivered) result.source)
  | done {result : ReadResult σ Z} (returned : Returns source dst result)
      (counts : result.produced = result.delivered.length)
      (finished : result.source.finished = true)
      (all : given ++ result.delivered =
        decoding.produce (decoding.reach data))
      (sound : decoding.standing (decoding.reach data) ≠ .corrupt)

/-- A read which loses nothing throws, or fills its destination, or is done. -/
theorem Feeds.read (zlib : Zlib decoding after)
    (delivers : ByteSource.Delivers remaining) (sized : Sized dst)
    (feeds : Feeds after remaining data fed given source)
    (sound : unread remaining source = [] →
      given = decoding.produce fed ∧ decoding.standing fed ≠ .corrupt) :
    ReadEffect decoding after remaining data given source dst := by
  have start : Feeds after remaining data fed given
      (opened source dst).source := feeds
  obtain ⟨turns, effect⟩ := start.fill zlib delivers (Or.inr sound)
  generalize filled : GzipSource.fill turns (opened source dst) = outcome
    at effect
  cases effect with
  | @thrown what corrupt =>
      refine .throws ⟨turns, what, ?_⟩ corrupt
      rw [GzipSource.read,
        if_neg (by simp [feeds.unfinished, sized.1.ne']), filled]
      rfl
  | full later wrote full =>
      obtain ⟨result, returned, counts, rfl, source⟩ :=
        returns_of_fill sized feeds.unfinished filled wrote
      have room := wrote.room
      rw [toNat_opened sized, full, UInt32.toNat_zero, Nat.zero_add]
        at room
      exact .full returned counts
        (by rw [counts, room]; exact sized.1.ne')
        (source ▸ later.counted _)
  | done finished wrote all good =>
      obtain ⟨result, returned, counts, rfl, source⟩ :=
        returns_of_fill sized feeds.unfinished filled wrote
      exact .done returned counts (source ▸ finished) all good

/-- A read which begins with no input left is the last one. -/
theorem Feeds.read_usedUp (delivers : ByteSource.Delivers remaining)
    (sized : Sized dst)
    (feeds : Feeds after remaining data fed given source)
    (usedUp : unread remaining source = []) :
    ∃ result, Returns source dst result ∧ result.produced = 0 ∧
      result.source.finished = true := by
  have start : Feeds after remaining data fed given
      (opened source dst).source := feeds
  have turned : ∃ later, GzipSource.turn (opened source dst) =
      .ok (false, { opened source dst with source := later }) ∧
        later.finished = true := by
    rcases start.replenish delivers with
      ⟨-, later, replenished, finished⟩ | ⟨later, -, input, -, same⟩
    · exact ⟨later, by rw [GzipSource.turn, replenished]; rfl, finished⟩
    · have none : later.input ++ remaining later.inner = [] :=
        same.trans usedUp
      exact absurd (List.append_eq_nil_iff.mp none).1 input
  obtain ⟨later, turned, finished⟩ := turned
  have filled : GzipSource.fill 1 (opened source dst) =
      .ok { opened source dst with source := later } := by
    rw [GzipSource.fill, if_neg (opened_ne_zero sized), turned]
    rfl
  obtain ⟨result, returned, counts, -, same⟩ :=
    returns_of_fill sized feeds.unfinished filled (.nil rfl rfl)
  exact ⟨result, returned, counts, same ▸ finished⟩

end Feeds

end ItchExchange.Wire.GzipSource
