import ItchExchange.Wire.FrameGrammar
import ItchExchange.Wire.Source

/-!
# The buffered reader refines the cursor

`Buffered` ties the buffer, the cursor and the counters of a reader to the part
of the input which is still unread.  One call of `next` does to the unread part
what a cursor over all of it would do, with one exception: when the prefix
promises more than the buffer holds, the reader stops at a full buffer.
-/

namespace ItchExchange.Wire

open ItchExchange.Core ByteString

/--
The source hands out a given rest: at most as many bytes as it is asked for, and
none only at the end or when it is asked for none.
-/
structure ByteSource.Delivers {σ : Type} [ByteSource σ]
    (remaining : σ → List UInt8) : Prop where
  next : ∀ source n,
    remaining source =
      (ByteSource.read source n).1 ++ remaining (ByteSource.read source n).2
  bounded : ∀ (source : σ) n, (ByteSource.read source n).1.length ≤ n
  finished : ∀ source n, (ByteSource.read source n).1 = [] →
    n = 0 ∨ remaining source = []

/-- A source in memory hands out the data behind its position. -/
theorem memorySource_delivers :
    ByteSource.Delivers fun source : MemorySource =>
      source.data.drop source.pos := by
  constructor
  case next =>
    intro source n
    simp only [ByteSource.read, MemorySource.read, slice, ← List.drop_drop]
    exact (List.take_append_drop _ _).symm
  case bounded =>
    intro source n
    simp only [ByteSource.read, MemorySource.read, length_slice]
    split_ifs <;> omega
  case finished =>
    intro source n none
    have length := congrArg List.length none
    simp only [ByteSource.read, MemorySource.read, length_slice,
      List.length_nil] at length
    rw [List.drop_eq_nil_iff]
    split_ifs at length <;> omega

/-! ## The buffer -/

section Reader

variable {σ : Type}

/-- What a reader holds when `total` bytes are consumed and `unread` follow. -/
structure Buffered (remaining : σ → List UInt8) (reader : FrameReader σ)
    (total : Nat) (unread : List UInt8) : Prop where
  capacity : kMinBufferSize ≤ reader.buf.length
  filled : reader.filled ≤ reader.buf.length
  view : reader.cursor.buf = reader.buf.take reader.filled
  inside : reader.cursor.pos ≤ reader.filled
  counted : reader.bytesConsumed = UInt64.ofNat total
  unread : reader.cursor.rest ++ remaining reader.source = unread

variable {remaining : σ → List UInt8} {reader : FrameReader σ}
  {total : Nat} {unread : List UInt8}

theorem Buffered.length_rest (buffered : Buffered remaining reader total
    unread) :
    reader.cursor.rest.length = reader.filled - reader.cursor.pos := by
  have filled := buffered.filled
  rw [FrameCursor.rest, List.length_drop, buffered.view, List.length_take]
  omega

/-- The tail which a refill keeps is the cursor's rest. -/
theorem Buffered.slice_eq_rest (buffered : Buffered remaining reader total
    unread) :
    slice reader.cursor.pos (reader.filled - reader.cursor.pos)
        reader.buf = reader.cursor.rest := by
  rw [slice, FrameCursor.rest, buffered.view, List.drop_take]

/-- What `refill` does to a reader. -/
structure Refilled (remaining : σ → List UInt8) (reader : FrameReader σ)
    (total : Nat) (unread : List UInt8) (more : Bool)
    (later : FrameReader σ) : Prop where
  buffered : Buffered remaining later total unread
  size : later.buf.length = reader.buf.length
  frames : later.frames = reader.frames
  grows : more = true →
    reader.cursor.rest.length < later.cursor.rest.length
  same : more = false → later.cursor.rest = reader.cursor.rest
  ends : more = false →
    remaining later.source = [] ∨
      later.cursor.rest.length = later.buf.length

/-- Moving the tail to the front keeps it, and the size of the buffer. -/
theorem Buffered.compacted (buffered : Buffered remaining reader total
    unread) :
    let offset := reader.cursor.offset
    let keep := reader.filled - offset
    let buf :=
      if keep ≠ 0 ∧ offset ≠ 0 then
        overwrite 0 (slice offset keep reader.buf) reader.buf
      else reader.buf
    buf.length = reader.buf.length ∧ buf.take keep = reader.cursor.rest := by
  have tail := buffered.slice_eq_rest
  have length := buffered.length_rest
  have filled := buffered.filled
  dsimp only [FrameCursor.offset]
  by_cases moves : reader.filled - reader.cursor.pos ≠ 0 ∧
      reader.cursor.pos ≠ 0
  · rw [if_pos moves, tail]
    have fits : 0 + reader.cursor.rest.length ≤ reader.buf.length := by
      omega
    have front := take_overwrite fits
    rw [Nat.zero_add, List.take_zero, List.nil_append, length] at front
    exact ⟨length_overwrite fits, front⟩
  · rw [if_neg moves]
    refine ⟨rfl, ?_⟩
    by_cases nothing : reader.filled - reader.cursor.pos = 0
    · rw [nothing, List.take_zero]
      exact (List.eq_nil_of_length_eq_zero (length.trans nothing)).symm
    · have atFront : reader.cursor.pos = 0 := by
        by_contra other
        exact moves ⟨nothing, other⟩
      rw [FrameCursor.rest, atFront, buffered.view]
      rfl

/-! ## What a call does -/

/--
More bytes are left than the buffer holds, and the prefix promises more than
the buffer holds as well.
-/
def Overflows (capacity : Nat) (unread : List UInt8) : Prop :=
  capacity < unread.length ∧
    capacity < kLengthPrefixSize + prefixLength unread

instance (capacity : Nat) (unread : List UInt8) :
    Decidable (Overflows capacity unread) := by
  unfold Overflows
  infer_instance

/-- What a call of `next` does to a reader. -/
inductive NextEffect (remaining : σ → List UInt8) (reader : FrameReader σ)
    (total : Nat) (unread : List UInt8) :
    FrameStatus × Option (List UInt8) × FrameReader σ → Prop where
  | frame {body tail : List UInt8} {later : FrameReader σ}
      (found : front unread = .frame body tail)
      (buffered : Buffered remaining later
        (total + (kLengthPrefixSize + body.length)) tail)
      (size : later.buf.length = reader.buf.length)
      (frames : later.frames = reader.frames + 1) :
      NextEffect remaining reader total unread (.ok, some body, later)
  | stop {status : FrameStatus} {later : FrameReader σ}
      (none : ∀ body tail, front unread ≠ .frame body tail)
      (notOk : status ≠ .ok)
      (buffered : Buffered remaining later total unread)
      (size : later.buf.length = reader.buf.length)
      (frames : later.frames = reader.frames)
      (overflows : Overflows reader.buf.length unread →
        status = .needMore ∧ later.error = .truncatedBody ∧
          remaining later.source ≠ [])
      (fits : ¬ Overflows reader.buf.length unread →
        front unread = .stop status later.error ∧
          (status = .needMore → remaining later.source = [])) :
      NextEffect remaining reader total unread (status, Option.none, later)

/-- The effect depends on the size of the buffer and on the frames before. -/
theorem NextEffect.of_same {earlier : FrameReader σ}
    {outcome : FrameStatus × Option (List UInt8) × FrameReader σ}
    (effect : NextEffect remaining reader total unread outcome)
    (size : reader.buf.length = earlier.buf.length)
    (frames : reader.frames = earlier.frames) :
    NextEffect remaining earlier total unread outcome := by
  cases effect with
  | frame found buffered same counted =>
      exact .frame found buffered (same.trans size)
        (counted.trans (congrArg (· + 1) frames))
  | stop none notOk buffered same counted overflows fits =>
      rw [size] at overflows fits
      exact .stop none notOk buffered (same.trans size)
        (counted.trans frames) overflows fits

/-- The error of the cursor is no part of what is buffered. -/
theorem Buffered.withError (buffered : Buffered remaining reader total unread)
    (error : FrameError) :
    Buffered remaining
      { reader with cursor := { reader.cursor with error } } total unread :=
  { capacity := buffered.capacity
    filled := buffered.filled
    view := buffered.view
    inside := buffered.inside
    counted := buffered.counted
    unread := buffered.unread }

/-- A frame in front of the cursor is consumed. -/
theorem Buffered.consume (buffered : Buffered remaining reader total unread)
    {body rest : List UInt8}
    (found : front reader.cursor.rest = .frame body rest) :
    Buffered remaining
      { reader with
        cursor :=
          { reader.cursor with
            pos := reader.cursor.pos + (kLengthPrefixSize + body.length)
            error := .none }
        frames := reader.frames + 1 }
      (total + (kLengthPrefixSize + body.length))
      (rest ++ remaining reader.source) := by
  obtain ⟨-, whole⟩ := front_eq_frame_iff.mp found
  have length := buffered.length_rest
  have inside := buffered.inside
  rw [whole, List.length_append, length_frameOf] at length
  constructor
  case capacity => exact buffered.capacity
  case filled => exact buffered.filled
  case view => exact buffered.view
  case inside =>
    dsimp only
    unfold kLengthPrefixSize at length ⊢
    omega
  case counted =>
    have counted := buffered.counted
    simp only [FrameReader.bytesConsumed, FrameCursor.offset] at counted ⊢
    rw [UInt64.ofNat_add, ← UInt64.add_assoc, counted, ← UInt64.ofNat_add]
  case unread =>
    have behind : FrameCursor.rest
        { reader.cursor with
          pos := reader.cursor.pos + (kLengthPrefixSize + body.length)
          error := .none } = rest := by
      rw [FrameCursor.rest, ← List.drop_drop, ← FrameCursor.rest, whole]
      exact List.drop_left' length_frameOf
    rw [behind]

/-- What the window decides, the whole input decides alike. -/
theorem Buffered.not_overflows
    (buffered : Buffered remaining reader total unread)
    (decided : Decided reader.cursor.rest) :
    ¬ Overflows reader.buf.length unread := by
  rintro ⟨-, promised⟩
  have length := buffered.length_rest
  have filled := buffered.filled
  obtain ⟨long, complete⟩ := decided
  rw [← buffered.unread, prefixLength_append long _] at promised
  omega

/-- A decided window stops a reader only where the input is malformed. -/
theorem front_malformed {bytes : List UInt8} (decided : Decided bytes)
    {status : FrameStatus} {error : FrameError}
    (stopped : front bytes = .stop status error) : status = .malformed := by
  rw [front_of_decided decided] at stopped
  split_ifs at stopped <;> cases stopped <;> rfl

/-- An undecided window wants more bytes. -/
theorem front_wanting {bytes : List UInt8} (undecided : ¬ Decided bytes) :
    ∃ status error, front bytes = .stop status error ∧ status ≠ .ok ∧
      status ≠ .malformed := by
  rcases front_of_undecided undecided with
    ⟨found, -⟩ | ⟨found, -⟩ | ⟨found, -⟩ <;>
    exact ⟨_, _, found, by decide, by decide⟩

theorem stopped_ne_ok {bytes : List UInt8} {status : FrameStatus}
    {error : FrameError} (stopped : front bytes = .stop status error) :
    status ≠ .ok := by
  by_cases decided : Decided bytes
  · rw [front_malformed decided stopped]
    decide
  · obtain ⟨_, _, found, notOk, -⟩ := front_wanting decided
    rw [found, Front.stop.injEq] at stopped
    exact stopped.1 ▸ notOk

/-- When no more bytes come, the reader stops as its window does. -/
theorem Buffered.stop (buffered : Buffered remaining reader total unread)
    (undecided : ¬ Decided reader.cursor.rest)
    (ends : remaining reader.source = [] ∨
      reader.cursor.rest.length = reader.buf.length) :
    ∃ status error, front reader.cursor.rest = .stop status error ∧
      NextEffect remaining reader total unread
        (status, none,
          { reader with cursor := { reader.cursor with error } }) := by
  have length := buffered.length_rest
  have filled := buffered.filled
  have whole := buffered.unread
  by_cases finished : remaining reader.source = []
  · rw [finished, List.append_nil] at whole
    have fits : ¬ Overflows reader.buf.length unread := by
      rintro ⟨long, -⟩
      rw [← whole] at long
      omega
    rcases front_of_undecided undecided with
      ⟨found, -⟩ | ⟨found, -⟩ | ⟨found, -⟩ <;>
    · refine ⟨_, _, found, .stop ?_ (by decide) (buffered.withError _) rfl
        rfl (fun overflows => absurd overflows fits)
        fun _ => ⟨?_, fun _ => finished⟩⟩
      · intro body tail frame
        rw [← whole, found] at frame
        cases frame
      · rw [← whole, found]
        rfl
  · have full := ends.resolve_left finished
    have capacity := buffered.capacity
    unfold kMinBufferSize kLengthPrefixSize at capacity
    rcases front_of_undecided undecided with
      ⟨found, nothing⟩ | ⟨found, one⟩ | ⟨found, long, short⟩
    · rw [nothing, List.length_nil] at full
      omega
    · unfold kMaxMessageLength at capacity
      omega
    · have overflows : Overflows reader.buf.length unread := by
        constructor
        · have more := List.length_pos_iff.mpr finished
          rw [← whole, List.length_append]
          omega
        · rw [← whole, prefixLength_append long _]
          omega
      refine ⟨_, _, found, .stop ?_ (by decide) (buffered.withError _) rfl
        rfl (fun _ => ⟨rfl, rfl, finished⟩)
        fun fits => absurd overflows fits⟩
      intro body tail frame
      obtain ⟨message, equal⟩ := front_eq_frame_iff.mp frame
      have promised := overflows.2
      have bound := message.length_le
      rw [equal, prefixLength_frameOf message _] at promised
      unfold kLengthPrefixSize at promised
      omega

/-! ## One call -/

variable [ByteSource σ]

theorem Buffered.refill (delivers : ByteSource.Delivers remaining)
    (buffered : Buffered remaining reader total unread) :
    Refilled remaining reader total unread reader.refill.1
      reader.refill.2 := by
  obtain ⟨size, kept⟩ := buffered.compacted
  have length : reader.cursor.rest.length =
      reader.filled - reader.cursor.offset := buffered.length_rest
  have filled := buffered.filled
  have counted := buffered.counted
  have whole := buffered.unread
  unfold FrameReader.refill
  dsimp only at size kept ⊢
  generalize (if reader.filled - reader.cursor.offset ≠ 0 ∧
    reader.cursor.offset ≠ 0 then
      overwrite 0 (slice reader.cursor.offset
        (reader.filled - reader.cursor.offset) reader.buf) reader.buf
    else reader.buf) = buf at size kept ⊢
  have keepFits : reader.filled - reader.cursor.offset ≤
      reader.buf.length := by
    omega
  generalize reader.filled - reader.cursor.offset = keep
    at kept length keepFits ⊢
  have delivered := delivers.next reader.source (reader.buf.length - keep)
  have bounded := delivers.bounded reader.source (reader.buf.length - keep)
  have finished :=
    delivers.finished reader.source (reader.buf.length - keep)
  generalize ByteSource.read reader.source (reader.buf.length - keep) =
    reading at delivered bounded finished ⊢
  obtain ⟨got, source⟩ := reading
  dsimp only at delivered bounded finished ⊢
  have fits : keep + got.length ≤ buf.length := by
    omega
  have view : (overwrite keep got buf).take (keep + got.length) =
      reader.cursor.rest ++ got := by
    rw [take_overwrite fits, kept]
  have rest : (reader.cursor.reset ((overwrite keep got buf).take
      (keep + got.length))).rest = reader.cursor.rest ++ got := by
    rw [view]
    rfl
  constructor
  case buffered =>
    constructor
    case capacity =>
      rw [length_overwrite fits, size]
      exact buffered.capacity
    case filled => rwa [length_overwrite fits]
    case view => rfl
    case inside => exact Nat.zero_le _
    case counted =>
      rw [← counted]
      exact UInt64.add_zero _
    case unread =>
      rw [rest, List.append_assoc, ← delivered, whole]
  case size => rw [length_overwrite fits, size]
  case frames => rfl
  case grows =>
    intro more
    rw [rest, List.length_append]
    have some := of_decide_eq_true more
    omega
  case same =>
    intro none
    have nothing : got = [] := by simpa using none
    rw [rest, nothing, List.append_nil]
  case ends =>
    intro none
    have nothing : got = [] := by simpa using none
    rcases finished nothing with full | done
    · right
      rw [rest, length_overwrite fits, nothing, List.append_nil, length,
        size]
      omega
    · left
      rwa [nothing, List.nil_append, done, eq_comm] at delivered

/--
Within enough turns `next` does to the unread part what its front says.  The
induction is on the turns: a turn which does not return has made the window
longer, and the window stays within the buffer.
-/
theorem nextWithin_effect (delivers : ByteSource.Delivers remaining)
    (turns : Nat) (buffered : Buffered remaining reader total unread)
    (enough : reader.buf.length < turns + reader.cursor.rest.length) :
    ∃ outcome, reader.nextWithin turns = .ok outcome ∧
      NextEffect remaining reader total unread outcome := by
  induction turns generalizing reader with
  | zero =>
      have length := buffered.length_rest
      have filled := buffered.filled
      omega
  | succ turns induction =>
      by_cases decided : Decided reader.cursor.rest
      · have fits := buffered.not_overflows decided
        have same := front_append decided (remaining reader.source)
        rw [buffered.unread] at same
        cases found : front reader.cursor.rest with
        | frame body rest =>
            rw [found] at same
            refine ⟨_, ?_, .frame same (buffered.consume found) rfl rfl⟩
            rw [FrameReader.nextWithin, FrameCursor.next_eq, found]
            rfl
        | stop status error =>
            obtain rfl := front_malformed decided found
            rw [found] at same
            have noFrame : ∀ body tail,
                front unread ≠ .frame body tail := by
              intro body tail frame
              rw [same] at frame
              cases frame
            have stopped : NextEffect remaining reader total unread
                (.malformed, none, { reader with
                  cursor := { reader.cursor with error } }) :=
              .stop noFrame (by decide) (buffered.withError error) rfl rfl
                (fun overflows => absurd overflows fits)
                fun _ => ⟨same, fun needMore => by cases needMore⟩
            refine ⟨_, ?_, stopped⟩
            rw [FrameReader.nextWithin, FrameCursor.next_eq, found]
            rfl
      · obtain ⟨status, error, found, notOk, notMalformed⟩ :=
          front_wanting decided
        have refilled := (buffered.withError error).refill delivers
        rw [FrameReader.nextWithin, FrameCursor.next_eq, found]
        simp only [if_neg notOk, if_neg notMalformed]
        generalize FrameReader.refill
          { reader with cursor := { reader.cursor with error } } =
            filling at refilled ⊢
        obtain ⟨more, later⟩ := filling
        obtain ⟨buffered', size, frames, grows, same, ends⟩ := refilled
        dsimp only at buffered' size frames grows same ends ⊢
        cases more with
        | true =>
            have longer := grows rfl
            have enough' : later.buf.length <
                turns + later.cursor.rest.length := by
              change reader.cursor.rest.length < _ at longer
              omega
            obtain ⟨outcome, returns, effect⟩ :=
              induction buffered' enough'
            exact ⟨outcome, returns, effect.of_same size frames⟩
        | false =>
            have stillUndecided : ¬ Decided later.cursor.rest := by
              rw [same rfl]
              exact decided
            obtain ⟨status, error, found, effect⟩ :=
              buffered'.stop stillUndecided (ends rfl)
            have notOk : status ≠ .ok := by
              cases effect with
              | stop none notOk => exact notOk
            rw [FrameCursor.next_eq, found]
            simp only [Bool.false_eq_true, if_false, if_neg notOk]
            exact ⟨_, rfl, effect.of_same size frames⟩

/-! ## All calls -/

theorem Buffered.next (delivers : ByteSource.Delivers remaining)
    (buffered : Buffered remaining reader total unread) :
    ∃ outcome, reader.next = .ok outcome ∧
      NextEffect remaining reader total unread outcome :=
  nextWithin_effect delivers _ buffered (by omega)

omit [ByteSource σ] in
/-- A new reader has consumed nothing and holds nothing. -/
theorem make_buffered (remaining : σ → List UInt8) (source : σ)
    {capacity : Nat}
    (large : kMinBufferSize ≤ capacity) :
    ∃ reader, FrameReader.make source capacity = .ok reader ∧
      reader.source = source ∧
      Buffered remaining reader 0 (remaining reader.source) ∧
      reader.buf.length = capacity ∧ reader.frames = 0 := by
  refine ⟨{ source, buf := List.replicate capacity 0 }, ?_, rfl, ?_,
    List.length_replicate, rfl⟩
  · rw [FrameReader.make, assertMsg, if_pos (by simpa using large)]
    rfl
  · constructor
    case capacity => simpa using large
    case filled => exact Nat.zero_le _
    case view => rfl
    case inside => exact Nat.zero_le _
    case counted => rfl
    case unread => rfl

/-- What a reader holds after the first calls. -/
structure Reached (remaining : σ → List UInt8) (capacity : Nat)
    (bodies : List (List UInt8)) (rest : List UInt8) (calls : Nat)
    (before : FrameReader σ) : Prop where
  buffered : Buffered remaining before (framed (bodies.take calls)).length
    (framed (bodies.drop calls) ++ rest)
  size : before.buf.length = capacity
  frames : before.frames = UInt64.ofNat (min calls bodies.length)

variable {capacity calls : Nat} {bodies : List (List UInt8)}
  {rest : List UInt8} {before : FrameReader σ}

/-- Before the last frame is read, a call reads the next one. -/
theorem Reached.next_frame (delivers : ByteSource.Delivers remaining)
    (messages : ∀ body ∈ bodies, Message body)
    (reached : Reached remaining capacity bodies rest calls before)
    (within : calls < bodies.length) :
    ∃ later, before.next = .ok (.ok, some bodies[calls], later) ∧
      Reached remaining capacity bodies rest (calls + 1) later := by
  have buffered := reached.buffered
  rw [List.drop_eq_getElem_cons within, framed_cons,
    List.append_assoc] at buffered
  have found := front_eq_frame_iff.mpr
    ⟨messages _ (List.getElem_mem within),
      Eq.refl (frameOf bodies[calls] ++
        (framed (bodies.drop (calls + 1)) ++ rest))⟩
  obtain ⟨outcome, returns, effect⟩ := buffered.next delivers
  cases effect with
  | stop none => exact absurd found (none _ _)
  | @frame body tail later front buffered size frames =>
      rw [found, Front.frame.injEq] at front
      obtain ⟨rfl, rfl⟩ := front
      refine ⟨later, returns, ?_, size.trans reached.size, ?_⟩
      · rw [← List.take_append_getElem within, framed_append, framed_cons,
          framed_nil, List.append_nil, List.length_append, length_frameOf]
        exact buffered
      · rw [frames, reached.frames, Nat.min_eq_left within.le,
          Nat.min_eq_left (Nat.succ_le_of_lt within), Nat.succ_eq_add_one,
          UInt64.ofNat_add]
        rfl

/-- Behind the last frame, a call stops and consumes nothing. -/
theorem Reached.next_stop (delivers : ByteSource.Delivers remaining)
    (ends : ∀ body tail, front rest ≠ .frame body tail)
    (reached : Reached remaining capacity bodies rest calls before)
    (beyond : bodies.length ≤ calls) :
    ∃ status later, before.next = .ok (status, none, later) ∧
      status ≠ .ok ∧
      Reached remaining capacity bodies rest (calls + 1) later ∧
      (Overflows capacity rest → status = .needMore ∧
        later.error = .truncatedBody ∧ remaining later.source ≠ []) ∧
      (¬ Overflows capacity rest →
        front rest = .stop status later.error ∧
          (status = .needMore → remaining later.source = [])) := by
  have buffered := reached.buffered
  have left : framed (bodies.drop calls) ++ rest = rest := by
    rw [List.drop_of_length_le beyond, framed_nil, List.nil_append]
  rw [left] at buffered
  obtain ⟨outcome, returns, effect⟩ := buffered.next delivers
  cases effect with
  | frame found => exact absurd found (ends _ _)
  | @stop status later none notOk buffered size frames overflows fits =>
      rw [reached.size] at overflows fits
      refine ⟨status, later, returns, notOk, ?_, overflows, fits⟩
      refine ⟨?_, size.trans reached.size, ?_⟩
      · rw [List.drop_of_length_le (beyond.trans (Nat.le_succ _)),
          framed_nil, List.nil_append,
          List.take_of_length_le (beyond.trans (Nat.le_succ _)),
          ← List.take_of_length_le beyond]
        exact buffered
      · rw [frames, reached.frames, Nat.min_eq_right beyond,
          Nat.min_eq_right (beyond.trans (Nat.le_succ _))]

/-- A reader gets through any number of calls. -/
theorem Splits.reached (delivers : ByteSource.Delivers remaining)
    (splits : Splits (remaining reader.source) bodies rest)
    (new : Buffered remaining reader 0 (remaining reader.source))
    (size : reader.buf.length = capacity) (frames : reader.frames = 0)
    (calls : Nat) :
    ∃ before, reader.after calls = .ok before ∧
      Reached remaining capacity bodies rest calls before := by
  induction calls with
  | zero =>
      refine ⟨reader, rfl, ?_, size, by simpa using frames⟩
      rw [splits.whole] at new
      simpa using new
  | succ calls induction =>
      obtain ⟨before, after, reached⟩ := induction
      have step : ∃ outcome, before.next = .ok outcome ∧
          Reached remaining capacity bodies rest (calls + 1)
            outcome.2.2 := by
        by_cases within : calls < bodies.length
        · obtain ⟨later, returns, reached⟩ :=
            reached.next_frame delivers splits.messages within
          exact ⟨_, returns, reached⟩
        · obtain ⟨status, later, returns, -, reached, -⟩ :=
            reached.next_stop delivers splits.ends (Nat.not_lt.mp within)
          exact ⟨_, returns, reached⟩
      obtain ⟨⟨status, out, later⟩, returns, reached⟩ := step
      refine ⟨later, ?_, reached⟩
      rw [FrameReader.after, after, ok_bind, returns, ok_bind]
      rfl

/--
What a call does after so many calls of `next`, of a reader over an input with
these frames: the buffer holds the input from `bytesConsumed` on, and the call
returns the next frame, or none behind the last one.
-/
structure ReadsAt (remaining : σ → List UInt8) (input : List UInt8)
    (bodies : List (List UInt8)) (calls : Nat) (before : FrameReader σ) :
    Prop where
  frames : before.frames = UInt64.ofNat (min calls bodies.length)
  consumed : before.bytesConsumed =
    UInt64.ofNat (framed (bodies.take calls)).length
  unread : before.cursor.rest ++ remaining before.source =
    input.drop (framed (bodies.take calls)).length
  returns : ∃ status out later, before.next = .ok (status, out, later) ∧
    (∀ within : calls < bodies.length,
      status = .ok ∧ out = some bodies[calls]) ∧
    (bodies.length ≤ calls → status ≠ .ok ∧ out = none)

/-- A reader reads the frames which a cursor finds in the whole input. -/
def LosesNothing (remaining : σ → List UInt8) (source : σ)
    (capacity : Nat) : Prop :=
  ∃ bodies status error reader,
    Scans (remaining source) bodies status error ∧ status ≠ .ok ∧
      FrameReader.make source capacity = .ok reader ∧
      ∀ calls, ∃ before, reader.after calls = .ok before ∧
        ReadsAt remaining (remaining source) bodies calls before

/--
The buffered reader loses and duplicates no byte, whatever the chunks are in
which the source hands out the input.
-/
theorem frameReader_losesNothing (delivers : ByteSource.Delivers remaining)
    (source : σ) (large : kMinBufferSize ≤ capacity) :
    LosesNothing remaining source capacity := by
  obtain ⟨bodies, rest, splits⟩ := exists_splits (remaining source)
  obtain ⟨reader, made, rfl, new, size, frames⟩ :=
    make_buffered remaining source large
  cases stopped : front rest with
  | frame body tail => exact absurd stopped (splits.ends body tail)
  | stop status error =>
      refine ⟨bodies, status, error, reader, splits.scans stopped,
        stopped_ne_ok stopped, made, ?_⟩
      intro calls
      obtain ⟨before, after, reached⟩ :=
        splits.reached delivers new size frames calls
      refine ⟨before, after, reached.frames, reached.buffered.counted,
        reached.buffered.unread.trans (splits.drop calls).symm, ?_⟩
      by_cases within : calls < bodies.length
      · obtain ⟨later, returns, -⟩ :=
          reached.next_frame delivers splits.messages within
        exact ⟨_, _, later, returns, fun _ => ⟨rfl, rfl⟩,
          fun beyond => absurd within (Nat.not_lt.mpr beyond)⟩
      · obtain ⟨status, later, returns, notOk, -⟩ :=
          reached.next_stop delivers splits.ends (Nat.not_lt.mp within)
        exact ⟨_, _, later, returns, fun inside => absurd inside within,
          fun _ => ⟨notOk, rfl⟩⟩

/-- A source in memory, byte by byte, into the smallest buffer. -/
theorem frameReader_losesNothing_byteByByte :
    LosesNothing (fun source : MemorySource => source.data.drop source.pos)
      { data := [0, 19, 68] ++ List.replicate 18 7 ++ [0, 1, 64, 0]
        chunk := 1 }
      kMinBufferSize :=
  frameReader_losesNothing memorySource_delivers _ le_rfl

/-! ## Why a reader stops -/

/-- The first status which is not `ok`, and the error behind it. -/
def FirstStop (returns : Nat → FrameStatus → FrameError → Prop)
    (status : FrameStatus) (error : FrameError) : Prop :=
  status ≠ .ok ∧ ∃ calls, returns calls status error ∧
    ∀ earlier < calls, ∃ error, returns earlier .ok error

/-- What a cursor returns after so many calls. -/
def FrameCursor.Returns (cursor : FrameCursor) (calls : Nat)
    (status : FrameStatus) (error : FrameError) : Prop :=
  (cursor.after calls).next.1 = status ∧
    (cursor.after calls).next.2.2.error = error

/-- What a reader returns after so many calls. -/
def FrameReader.Returns (reader : FrameReader σ) (calls : Nat)
    (status : FrameStatus) (error : FrameError) : Prop :=
  ∃ before out later, reader.after calls = .ok before ∧
    before.next = .ok (status, out, later) ∧ later.error = error

/--
A reader wants more bytes only when the source has none, and stops for the
reason for which a cursor over the whole input stops.
-/
def StopsAlike (remaining : σ → List UInt8) (source : σ)
    (capacity : Nat) : Prop :=
  ∃ reader, FrameReader.make source capacity = .ok reader ∧
    (∀ calls before out later, reader.after calls = .ok before →
      before.next = .ok (.needMore, out, later) →
        remaining later.source = []) ∧
    ∀ status error,
      FirstStop reader.Returns status error ↔
        FirstStop ({ buf := remaining source } : FrameCursor).Returns
          status error

/-- There is one first stop at most. -/
theorem FirstStop.unique
    {returns : Nat → FrameStatus → FrameError → Prop}
    (determined : ∀ calls status error status' error',
      returns calls status error → returns calls status' error' →
        status = status' ∧ error = error')
    {status status' : FrameStatus} {error error' : FrameError}
    (first : FirstStop returns status error)
    (second : FirstStop returns status' error') :
    status = status' ∧ error = error' := by
  obtain ⟨notOk, calls, here, before⟩ := first
  obtain ⟨notOk', calls', here', before'⟩ := second
  rcases Nat.lt_trichotomy calls calls' with less | rfl | more
  · obtain ⟨_, ok⟩ := before' calls less
    exact absurd (determined _ _ _ _ _ here ok).1 notOk
  · exact determined _ _ _ _ _ here here'
  · obtain ⟨_, ok⟩ := before calls' more
    exact absurd (determined _ _ _ _ _ here' ok).1 notOk'

omit [ByteSource σ] in
theorem FrameCursor.firstStop_iff {bytes : List UInt8}
    (splits : Splits bytes bodies rest) {status : FrameStatus}
    {error : FrameError} (stopped : front rest = .stop status error)
    (status' : FrameStatus) (error' : FrameError) :
    FirstStop ({ buf := bytes } : FrameCursor).Returns status' error' ↔
      status' = status ∧ error' = error := by
  have scans := splits.scans stopped
  have here : FirstStop ({ buf := bytes } : FrameCursor).Returns
      status error := by
    obtain ⟨last, -, reason, -⟩ := scans.stops bodies.length le_rfl
    exact ⟨stopped_ne_ok stopped, bodies.length, ⟨last, reason⟩,
      fun earlier within => ⟨_, (scans.frames earlier within).1, rfl⟩⟩
  constructor
  · intro other
    refine FirstStop.unique ?_ other here
    rintro calls _ _ _ _ ⟨rfl, rfl⟩ ⟨rfl, rfl⟩
    exact ⟨rfl, rfl⟩
  · rintro ⟨rfl, rfl⟩
    exact here

/-- What a reader returns is determined. -/
theorem FrameReader.returns_unique (calls : Nat)
    (status : FrameStatus) (error : FrameError) (status' : FrameStatus)
    (error' : FrameError) (first : reader.Returns calls status error)
    (second : reader.Returns calls status' error') :
    status = status' ∧ error = error' := by
  obtain ⟨before, _, _, after, next, rfl⟩ := first
  obtain ⟨before', _, _, after', next', rfl⟩ := second
  obtain rfl := Except.ok.inj (after.symm.trans after')
  cases Except.ok.inj (next.symm.trans next')
  exact ⟨rfl, rfl⟩

/-- The first stop of a reader comes behind the last frame. -/
theorem Splits.reader_firstStop (delivers : ByteSource.Delivers remaining)
    (splits : Splits (remaining reader.source) bodies rest)
    (reaches : ∀ calls, ∃ before, reader.after calls = .ok before ∧
      Reached remaining capacity bodies rest calls before)
    {status : FrameStatus} {error : FrameError}
    (stops : reader.Returns bodies.length status error)
    (notOk : status ≠ .ok) : FirstStop reader.Returns status error := by
  refine ⟨notOk, bodies.length, stops, ?_⟩
  intro earlier within
  obtain ⟨before, after, reached⟩ := reaches earlier
  obtain ⟨later, returns, -⟩ :=
    reached.next_frame delivers splits.messages within
  exact ⟨later.error, before, _, later, after, returns, rfl⟩

/--
A reader stops for the same reason exactly when what is left behind the last
frame does not overflow its buffer.
-/
theorem frameReader_stopsAlike_iff
    (delivers : ByteSource.Delivers remaining) (source : σ)
    (large : kMinBufferSize ≤ capacity)
    (splits : Splits (remaining source) bodies rest) :
    StopsAlike remaining source capacity ↔ ¬ Overflows capacity rest := by
  obtain ⟨reader, made, rfl, new, size, frames⟩ :=
    make_buffered remaining source large
  have reaches := splits.reached delivers new size frames
  constructor
  · rintro ⟨reader', made', drained, -⟩ overflows
    obtain rfl := Except.ok.inj (made.symm.trans made')
    obtain ⟨before, after, reached⟩ := reaches bodies.length
    obtain ⟨status, later, returns, -, -, early, -⟩ :=
      reached.next_stop delivers splits.ends le_rfl
    obtain ⟨rfl, -, more⟩ := early overflows
    exact more (drained bodies.length before _ later after returns)
  · intro fits
    refine ⟨reader, made, ?_, ?_⟩
    · intro calls before out later after returns
      obtain ⟨before', after', reached⟩ := reaches calls
      obtain rfl := Except.ok.inj (after.symm.trans after')
      by_cases within : calls < bodies.length
      · obtain ⟨later', returns', -⟩ :=
          reached.next_frame delivers splits.messages within
        cases Except.ok.inj (returns.symm.trans returns')
      · obtain ⟨status, later', returns', -, -, -, exact⟩ :=
          reached.next_stop delivers splits.ends (Nat.not_lt.mp within)
        cases Except.ok.inj (returns.symm.trans returns')
        exact (exact fits).2 rfl
    · intro status error
      obtain ⟨before, after, reached⟩ := reaches bodies.length
      obtain ⟨status', later, returns, notOk, -, -, exact⟩ :=
        reached.next_stop delivers splits.ends le_rfl
      have here := splits.reader_firstStop delivers reaches
        ⟨before, _, later, after, returns, rfl⟩ notOk
      rw [FrameCursor.firstStop_iff splits (exact fits).1]
      constructor
      · intro first
        exact first.unique FrameReader.returns_unique here
      · rintro ⟨rfl, rfl⟩
        exact here

/-- A prefix which promises one byte more than the smallest buffer holds. -/
def longPrefix : MemorySource where
  data := [0, 51] ++ List.replicate 51 0

/--
Over that input the cursor reports a malformed frame.  A reader with the
smallest buffer wants more bytes, while the source still has one.
-/
theorem frameReader_takesCorruptForTruncated :
    FirstStop ({ buf := longPrefix.data } : FrameCursor).Returns
        .malformed .unknownType ∧
      ¬ StopsAlike
        (fun source : MemorySource => source.data.drop source.pos)
        longPrefix kMinBufferSize := by
  constructor
  · exact ⟨by decide, 0, ⟨rfl, rfl⟩, fun earlier none => by cases none⟩
  · rintro ⟨reader, made, drained, -⟩
    cases made
    have nothing := drained 0 _ none _ rfl rfl
    exact absurd nothing (by decide)

theorem splits_longPrefix :
    Splits (longPrefix.data.drop longPrefix.pos) [] longPrefix.data where
  whole := rfl
  messages := by simp
  ends := fun _ _ found => by cases found

/-- One more byte of buffer is enough there. -/
theorem frameReader_stopsAlike_oneByteMore :
    StopsAlike (fun source : MemorySource => source.data.drop source.pos)
      longPrefix (kMinBufferSize + 1) :=
  (frameReader_stopsAlike_iff memorySource_delivers longPrefix (by decide)
    splits_longPrefix).mpr (by decide)

end Reader

end ItchExchange.Wire
