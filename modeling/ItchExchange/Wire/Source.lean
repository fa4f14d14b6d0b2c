import ItchExchange.Wire.Framing

/-!
# Byte sources and the buffered reader

`FrameReader` of `source.hpp`, over any byte source.  A `read` returns the bytes
which it wrote to the destination and the source afterwards.  The cursor of a
reader is a view of the filled part of its buffer, taken whenever the cursor is
reset.  The loop of `next` is counted by the number of turns it may take.
-/

namespace ItchExchange.Wire

open ItchExchange.Core ByteString

/-- Fills the destination with up to so many bytes. -/
class ByteSource (σ : Type) where
  read : σ → Nat → List UInt8 × σ

/-- Hands out bytes from memory. -/
structure MemorySource where
  data : List UInt8
  chunk : Nat := 0
  pos : Nat := 0

def MemorySource.read (source : MemorySource) (n : Nat) :
    List UInt8 × MemorySource :=
  let n := if source.chunk ≠ 0 ∧ n > source.chunk then source.chunk else n
  let left := source.data.length - source.pos
  let take := if n < left then n else left
  (slice source.pos take source.data,
    { source with pos := source.pos + take })

instance : ByteSource MemorySource where
  read := MemorySource.read

structure FrameReader (σ : Type) where
  source : σ
  buf : List UInt8
  cursor : FrameCursor := {}
  filled : Nat := 0
  frames : UInt64 := 0
  consumed : UInt64 := 0

namespace FrameReader

variable {σ : Type} [ByteSource σ]

/-- The constructor. -/
def make (source : σ) (capacity : Nat) : Checked (FrameReader σ) := do
  assertMsg (capacity ≥ kMinBufferSize)
    "frame buffer must hold at least one whole message"
  pure { source, buf := List.replicate capacity 0 }

/--
Moves the unconsumed tail to the front, then reads into the space behind it.
False when the source produced nothing.
-/
def refill (reader : FrameReader σ) : Bool × FrameReader σ :=
  let offset := reader.cursor.offset
  let keep := reader.filled - offset
  let buf :=
    if keep ≠ 0 ∧ offset ≠ 0 then
      overwrite 0 (slice offset keep reader.buf) reader.buf
    else reader.buf
  let (got, source) :=
    ByteSource.read reader.source (reader.buf.length - keep)
  let buf := overwrite keep got buf
  let filled := keep + got.length
  (decide (got.length ≠ 0),
    { reader with
      source
      buf
      cursor := reader.cursor.reset (buf.take filled)
      filled
      consumed := reader.consumed + UInt64.ofNat offset })

/-- The loop of `next`, for at most the given number of turns. -/
def nextWithin : Nat → FrameReader σ →
    Checked (FrameStatus × Option (List UInt8) × FrameReader σ)
  | 0, _ => .error .divergence
  | turns + 1, reader =>
      let (st, out, cursor) := reader.cursor.next
      let reader := { reader with cursor }
      if st = .ok then
        .ok (st, out, { reader with frames := reader.frames + 1 })
      else if st = .malformed then .ok (st, out, reader)
      else
        let (more, reader) := reader.refill
        if more = true then nextWithin turns reader
        else
          let (fin, out, cursor) := reader.cursor.next
          let reader := { reader with cursor }
          if fin = .ok then
            .ok (fin, out, { reader with frames := reader.frames + 1 })
          else .ok (fin, out, reader)

/-- Every turn but the last adds a byte to the buffer. -/
def next (reader : FrameReader σ) :
    Checked (FrameStatus × Option (List UInt8) × FrameReader σ) :=
  reader.nextWithin (reader.buf.length + 1)

def error (reader : FrameReader σ) : FrameError := reader.cursor.error

def bytesConsumed (reader : FrameReader σ) : UInt64 :=
  reader.consumed + UInt64.ofNat reader.cursor.offset

/-- Bytes left over when the input ended mid-message. -/
def trailingBytes (reader : FrameReader σ) : Nat := reader.filled

/-- The reader after so many calls of `next`. -/
def after (reader : FrameReader σ) : Nat → Checked (FrameReader σ)
  | 0 => .ok reader
  | calls + 1 => do
      let before ← reader.after calls
      let (_, _, later) ← before.next
      pure later

end FrameReader

end ItchExchange.Wire
