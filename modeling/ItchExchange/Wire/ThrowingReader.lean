import ItchExchange.Wire.FrameStream
import ItchExchange.Wire.GzipSource

/-!
# The buffered reader over a source which may throw

A `read` of a decompressing source may end with an exception, which leaves every
loop above it.  Where none of the reads of a loop throws, the loop is the one
over the byte source which stands behind the reads.
-/

namespace ItchExchange.Wire

open ItchExchange.Core ByteString Pump

namespace FrameReader

section Throwing

variable {σ : Type} (read : σ → Nat → Except ReadFailure (List UInt8 × σ))

end Throwing

/-! ## Reads which do not throw -/

/-- The same reader, over what the source of another one stands for. -/
def map {σ τ : Type} (view : τ → σ) (reader : FrameReader τ) :
    FrameReader σ where
  source := view reader.source
  buf := reader.buf
  cursor := reader.cursor
  filled := reader.filled
  frames := reader.frames
  consumed := reader.consumed

/-- Moving the tail to the front keeps the size of the buffer. -/
theorem length_compacted {buf : List UInt8} {keep : Nat}
    (kept : keep ≤ buf.length) (offset : Nat) :
    (if keep ≠ 0 ∧ offset ≠ 0 then overwrite 0 (slice offset keep buf) buf
      else buf).length = buf.length := by
  split_ifs
  · refine length_overwrite ?_
    rw [Nat.zero_add, length_slice]
    omega
  · rfl

/-- The buffer holds what is in it, and is no larger than this. -/
structure Bounded {σ : Type} (limit : Nat) (reader : FrameReader σ) : Prop where
  filled : reader.filled ≤ reader.buf.length
  limited : reader.buf.length ≤ limit

section Map

variable {σ τ : Type} [ByteSource τ]
  {read : σ → Nat → Except ReadFailure (List UInt8 × σ)} {view : τ → σ}
  {limit : Nat} {reader : FrameReader τ}

theorem Bounded.refill (delivers : ∀ (source : τ) n,
      (ByteSource.read source n).1.length ≤ n)
    (bounded : Bounded limit reader) : Bounded limit reader.refill.2 := by
  obtain ⟨filled, limited⟩ := bounded
  unfold FrameReader.refill
  dsimp only
  generalize keeps : reader.filled - reader.cursor.offset = keep
  have kept : keep ≤ reader.buf.length := keeps ▸ (Nat.sub_le _ _).trans filled
  have moved := length_compacted kept reader.cursor.offset
  have got := delivers reader.source (reader.buf.length - keep)
  generalize ByteSource.read reader.source (reader.buf.length - keep) = reading
    at got
  generalize (if keep ≠ 0 ∧ reader.cursor.offset ≠ 0 then
    overwrite 0 (slice reader.cursor.offset keep reader.buf) reader.buf
    else reader.buf) = buf at moved
  have size : (overwrite keep reading.1 buf).length = buf.length :=
    length_overwrite (by omega)
  refine ⟨?_, (size.trans moved).trans_le limited⟩
  rw [size, moved]
  dsimp only
  omega

variable (agrees : ∀ source n, n ≤ limit →
  read (view source) n = .ok ((ByteSource.read source n).1,
    view (ByteSource.read source n).2))

include agrees

end Map

end FrameReader

/-! ## The loop -/

section Endless

variable {σ : Type} {read : σ → Nat → Except ReadFailure (List UInt8 × σ)}
  {limit : Nat} {reader : FrameReader σ}

/-- A reader whose buffer holds whatever a length prefix can promise. -/
structure Window (limit : Nat) (reader : FrameReader σ) : Prop where
  view : reader.cursor.buf = reader.buf.take reader.filled
  inside : reader.cursor.pos ≤ reader.filled
  filled : reader.filled ≤ reader.buf.length
  large : kLengthPrefixSize + 2 ^ 16 ≤ reader.buf.length
  small : reader.buf.length ≤ limit

theorem Window.length_rest (window : Window limit reader) :
    reader.cursor.rest.length = reader.filled - reader.cursor.pos := by
  have filled := window.filled
  rw [FrameCursor.rest, List.length_drop, window.view, List.length_take]
  omega

theorem prefixLength_lt (bytes : List UInt8) :
    prefixLength bytes < 2 ^ 16 := by
  have bound := bigValue_lt (bytes.take kLengthPrefixSize)
  have few : (bytes.take kLengthPrefixSize).length ≤ 2 :=
    List.length_take_le kLengthPrefixSize bytes
  exact bound.trans_le ((Nat.pow_le_pow_right (by decide) few).trans
    (by decide))

/-- The bytes in the window which are not consumed. -/
def FrameReader.held (reader : FrameReader σ) : Nat :=
  reader.filled - reader.cursor.pos

/-- What a cursor wants more of is less than the buffer holds. -/
theorem Window.room (window : Window limit reader)
    (undecided : ¬ Decided reader.cursor.rest) :
    reader.held < reader.buf.length := by
  have large := window.large
  have promised := prefixLength_lt reader.cursor.rest
  have length := window.length_rest
  rw [Decided, not_and_or] at undecided
  unfold FrameReader.held
  unfold kLengthPrefixSize at *
  omega

end Endless

end ItchExchange.Wire
