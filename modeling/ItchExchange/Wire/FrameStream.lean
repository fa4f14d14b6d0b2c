import ItchExchange.Library.Pump
import ItchExchange.Wire.ReaderRefinement

/-!
# Loops over the frames of an input

Every tool reads its input in a loop `while (next(f) == Ok) handle(f)`, over the
zero-copy cursor or over the buffered reader.  Both hand out the same frames, so
no handler can tell them apart, and what the loop does is a fold over the frames
of the input.
-/

namespace ItchExchange.Wire

open ItchExchange.Core ByteString Pump

/-- What one call of `next` says to the loop. -/
def pulledFrame {σ : Type} :
    FrameStatus × Option (List UInt8) × σ →
      Pulled (List UInt8) FrameStatus σ
  | (.ok, some body, later) => .item body later
  | (status, _, later) => .stop status later

theorem pulledFrame_stop {σ : Type} {status : FrameStatus} (later : σ)
    (notOk : status ≠ .ok) :
    pulledFrame (status, none, later) = .stop status later := by
  cases status with
  | ok => exact absurd rfl notOk
  | endOfInput => rfl
  | needMore => rfl
  | malformed => rfl

def FrameCursor.pull (cursor : FrameCursor) :
    Checked (Pulled (List UInt8) FrameStatus FrameCursor) :=
  .ok (pulledFrame cursor.next)

def FrameReader.pull {σ : Type} [ByteSource σ] (reader : FrameReader σ) :
    Checked (Pulled (List UInt8) FrameStatus (FrameReader σ)) := do
  let outcome ← reader.next
  pure (pulledFrame outcome)

/-- The first byte of a message is a known type. -/
theorem Message.known {body : List UInt8} (message : Message body) :
    messageLength (loadBe8 body 0) ≠ 0 := by
  have some := message.length_pos
  obtain ⟨type, head, length⟩ := message
  cases body with
  | nil => cases head
  | cons first tail =>
      cases head
      rw [loadBe8_eq some]
      exact length ▸ some.ne'

/-! ## The loops -/

section Loops

variable {τ : Type}

/-- The loop over a cursor; every turn but the last consumes a byte. -/
def forEachFrame (cursor : FrameCursor)
    (handle : τ → List UInt8 → Checked τ) (target : τ) :
    Checked (FrameStatus × FrameCursor × τ) :=
  pumpWithin .divergence FrameCursor.pull handle (cursor.rest.length + 1)
    cursor target

/-- The loop over a reader, for at most the given number of turns. -/
def forEachFrameStreamed {σ : Type} [ByteSource σ] (turns : Nat)
    (reader : FrameReader σ) (handle : τ → List UInt8 → Checked τ)
    (target : τ) : Checked (FrameStatus × FrameReader σ × τ) :=
  pumpWithin .divergence FrameReader.pull handle turns reader target

end Loops

/-! ## What the cursor hands out -/

section Cursor

variable {bytes rest : List UInt8} {bodies : List (List UInt8)}
  {status : FrameStatus} {error : FrameError}

/-- The cursor behind the last frame. -/
def cursorBehind (bytes : List UInt8) (bodies : List (List UInt8))
    (error : FrameError) : FrameCursor where
  buf := bytes
  pos := (framed bodies).length
  error

theorem Splits.cursor_yields (splits : Splits bytes bodies rest)
    (stopped : front rest = .stop status error) :
    Yields FrameCursor.pull ({ buf := bytes } : FrameCursor) bodies status
      (cursorBehind bytes bodies error) := by
  have scans := splits.scans stopped
  have hands : ∀ index cursor (within : index < bodies.length),
      cursor = ({ buf := bytes } : FrameCursor).after index →
        ∃ later, cursor.pull = .ok (.item bodies[index] later) ∧
          later = ({ buf := bytes } : FrameCursor).after (index + 1) := by
    rintro index _ within rfl
    obtain ⟨ok, body⟩ := scans.frames index within
    refine ⟨_, ?_, rfl⟩
    rw [FrameCursor.pull, FrameCursor.after]
    generalize (FrameCursor.after { buf := bytes } index).next = outcome
      at ok body ⊢
    obtain ⟨status, out, later⟩ := outcome
    cases ok
    cases body
    rfl
  have stops : ∀ cursor,
      cursor = ({ buf := bytes } : FrameCursor).after bodies.length →
        ∃ reason last, cursor.pull = .ok (.stop reason last) ∧
          reason = status ∧ last = cursorBehind bytes bodies error := by
    rintro _ rfl
    refine ⟨status, _, ?_, rfl, rfl⟩
    rw [FrameCursor.pull, splits.next_beyond stopped le_rfl,
      pulledFrame_stop _ (stopped_ne_ok stopped)]
    rfl
  obtain ⟨_, _, yields, rfl, rfl⟩ :=
    yields_of_forall _ _ hands stops rfl
  exact yields

theorem length_framed (bodies : List (List UInt8)) :
    (framed bodies).length =
      (bodies.map fun body => body.length + kLengthPrefixSize).sum := by
  induction bodies with
  | nil => rfl
  | cons body rest induction =>
      rw [framed_cons, List.length_append, length_frameOf, induction,
        List.map_cons, List.sum_cons, Nat.add_comm body.length]

/-- A frame holds at least its prefix. -/
theorem length_le_framed (bodies : List (List UInt8)) :
    bodies.length ≤ (framed bodies).length := by
  induction bodies with
  | nil => exact Nat.zero_le _
  | cons body rest induction =>
      rw [framed_cons, List.length_append, List.length_cons, length_frameOf]
      unfold kLengthPrefixSize
      omega

/-- The loop over a cursor is a fold over the frames of the input. -/
theorem Splits.forEachFrame {τ : Type} (splits : Splits bytes bodies rest)
    (stopped : front rest = .stop status error)
    (handle : τ → List UInt8 → Checked τ) (target : τ) :
    Wire.forEachFrame { buf := bytes } handle target =
      (bodies.foldlM handle target).map fun target =>
        (status, cursorBehind bytes bodies error, target) := by
  refine (splits.cursor_yields stopped).pump ?_ target
  have few := length_le_framed bodies
  have length : (FrameCursor.rest { buf := bytes }).length = bytes.length := by
    rw [FrameCursor.rest, List.drop_zero]
  rw [length, splits.whole, List.length_append]
  omega

end Cursor

/-! ## What the reader hands out -/

section Reader

variable {σ : Type} [ByteSource σ]

theorem refill_pos (reader : FrameReader σ) : reader.refill.2.cursor.pos = 0 :=
  rfl

/-- A reader which wants more bytes has moved what it holds to the front. -/
theorem nextWithin_pos (turns : Nat) {reader later : FrameReader σ}
    {status : FrameStatus} {out : Option (List UInt8)}
    (returns : reader.nextWithin turns = .ok (status, out, later))
    (notOk : status ≠ .ok) (notMalformed : status ≠ .malformed) :
    later.cursor.pos = 0 := by
  induction turns generalizing reader with
  | zero => cases returns
  | succ turns induction =>
      rw [FrameReader.nextWithin] at returns
      generalize reader.cursor.next = first at returns
      obtain ⟨st, out', cursor⟩ := first
      dsimp only at returns
      by_cases ok : st = .ok
      · rw [if_pos ok] at returns
        cases returns
        exact absurd ok notOk
      by_cases malformed : st = .malformed
      · rw [if_neg ok, if_pos malformed] at returns
        cases returns
        exact absurd malformed notMalformed
      rw [if_neg ok, if_neg malformed] at returns
      have compacted := refill_pos { reader with cursor }
      generalize FrameReader.refill { reader with cursor } = filling
        at returns compacted
      obtain ⟨more, filled⟩ := filling
      dsimp only at returns compacted
      cases more with
      | true => exact induction returns
      | false =>
          rw [if_neg Bool.false_ne_true, FrameCursor.next_eq] at returns
          cases found : front filled.cursor.rest with
          | frame body rest =>
              rw [found] at returns
              cases returns
              exact absurd rfl notOk
          | stop status' error =>
              rw [found] at returns
              dsimp only at returns
              split_ifs at returns <;> cases returns <;> exact compacted

variable {remaining : σ → List UInt8} {capacity : Nat} {rest : List UInt8}
  {bodies : List (List UInt8)} {reader : FrameReader σ}

/-- Where a reader stops behind the last frame, and what it says there. -/
structure StoppedBehind (remaining : σ → List UInt8) (capacity : Nat)
    (bodies : List (List UInt8)) (rest : List UInt8) (status : FrameStatus)
    (last : FrameReader σ) : Prop where
  notOk : status ≠ .ok
  frames : last.frames = UInt64.ofNat bodies.length
  consumed : last.bytesConsumed = UInt64.ofNat (framed bodies).length
  alike : ¬ Overflows capacity rest → front rest = .stop status last.error
  trailing : ¬ Overflows capacity rest → status ≠ .malformed →
    last.trailingBytes = rest.length
  overflows : Overflows capacity rest →
    status = .needMore ∧ last.error = .truncatedBody ∧
      remaining last.source ≠ []

theorem Reached.stops (delivers : ByteSource.Delivers remaining)
    (ends : ∀ body tail, front rest ≠ .frame body tail)
    (reached : Reached remaining capacity bodies rest bodies.length reader) :
    ∃ status last, reader.pull = .ok (.stop status last) ∧
      StoppedBehind remaining capacity bodies rest status last := by
  obtain ⟨status, last, returns, notOk, after, overflows, fits⟩ :=
    reached.next_stop delivers ends le_rfl
  have more : bodies.length ≤ bodies.length + 1 := Nat.le_succ _
  have consumed := after.buffered.counted
  rw [List.take_of_length_le more] at consumed
  have unread := after.buffered.unread
  rw [List.drop_of_length_le more, framed_nil, List.nil_append] at unread
  refine ⟨status, last, ?_, notOk, ?_, consumed, fun short => (fits short).1,
    ?_, overflows⟩
  · rw [FrameReader.pull, returns, ok_bind, pulledFrame_stop last notOk]
    rfl
  · rw [after.frames, Nat.min_eq_right more]
  · intro short notMalformed
    obtain ⟨found, drained⟩ := fits short
    have atFront := nextWithin_pos _ returns notOk notMalformed
    have none : remaining last.source = [] := by
      by_cases needMore : status = .needMore
      · exact drained needMore
      · have empty : rest = [] := by
          by_cases decided : Decided rest
          · exact absurd (front_malformed decided found) notMalformed
          · rcases front_of_undecided decided with
              ⟨-, empty⟩ | ⟨other, -⟩ | ⟨other, -⟩
            · exact empty
            · rw [found, Front.stop.injEq] at other
              exact absurd other.1 needMore
            · rw [found, Front.stop.injEq] at other
              exact absurd other.1 needMore
        exact (List.append_eq_nil_iff.mp (unread.trans empty)).2
    have length := after.buffered.length_rest
    rw [none, List.append_nil] at unread
    rw [unread, atFront] at length
    exact length.symm

/-- A reader hands out the frames of its input, and stops behind them. -/
theorem Splits.reader_yields (delivers : ByteSource.Delivers remaining)
    (source : σ) (large : kMinBufferSize ≤ capacity)
    (splits : Splits (remaining source) bodies rest) :
    ∃ reader status last, FrameReader.make source capacity = .ok reader ∧
      Yields FrameReader.pull reader bodies status last ∧
      StoppedBehind remaining capacity bodies rest status last := by
  obtain ⟨reader, made, rfl, new, size, frames⟩ :=
    make_buffered remaining source large
  have begins : Reached remaining capacity bodies rest 0 reader := by
    refine ⟨?_, size, by simpa using frames⟩
    rw [splits.whole] at new
    simpa using new
  have hands : ∀ index reader (within : index < bodies.length),
      Reached remaining capacity bodies rest index reader →
        ∃ later, reader.pull = .ok (.item bodies[index] later) ∧
          Reached remaining capacity bodies rest (index + 1) later := by
    intro index reader within reached
    obtain ⟨later, returns, next⟩ :=
      reached.next_frame delivers splits.messages within
    exact ⟨later, by rw [FrameReader.pull, returns]; rfl, next⟩
  obtain ⟨status, last, yields, stopped⟩ :=
    yields_of_forall _ _ hands
      (fun reader reached => reached.stops delivers splits.ends) begins
  exact ⟨reader, status, last, made, yields, stopped⟩

/-- The loop over a reader is the same fold, given enough turns. -/
theorem Splits.forEachFrameStreamed {τ : Type}
    (delivers : ByteSource.Delivers remaining) (source : σ)
    (large : kMinBufferSize ≤ capacity)
    (splits : Splits (remaining source) bodies rest) :
    ∃ reader status last, FrameReader.make source capacity = .ok reader ∧
      StoppedBehind remaining capacity bodies rest status last ∧
      ∀ turns > bodies.length, ∀ (handle : τ → List UInt8 → Checked τ) target,
        Wire.forEachFrameStreamed turns reader handle target =
          (bodies.foldlM handle target).map fun target =>
            (status, last, target) := by
  obtain ⟨reader, status, last, made, yields, stopped⟩ :=
    splits.reader_yields delivers source large
  exact ⟨reader, status, last, made, stopped,
    fun turns enough handle target => yields.pump enough target⟩

end Reader

/-! ## The default buffer -/

/-- The size of a buffer for which no other size is asked. -/
def kDefaultCapacity : Nat := 1 <<< 20

theorem kMinBufferSize_le_default : kMinBufferSize ≤ kDefaultCapacity := by
  decide

/-- A prefix promises less than the default buffer holds. -/
theorem not_overflows_default (unread : List UInt8) :
    ¬ Overflows kDefaultCapacity unread := by
  rintro ⟨-, promised⟩
  have bound := bigValue_lt (unread.take kLengthPrefixSize)
  have few : (unread.take kLengthPrefixSize).length ≤ 2 :=
    List.length_take_le kLengthPrefixSize unread
  have most : 256 ^ (unread.take kLengthPrefixSize).length ≤ 256 ^ 2 :=
    Nat.pow_le_pow_right (by decide) few
  have size : kDefaultCapacity = 1048576 := rfl
  rw [prefixLength, size] at promised
  unfold kLengthPrefixSize at *
  omega

end ItchExchange.Wire
