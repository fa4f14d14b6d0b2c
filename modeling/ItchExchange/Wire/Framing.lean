import ItchExchange.Wire.Endian
import ItchExchange.Wire.Messages

/-!
# The frame cursor

`FrameCursor` of `framing.hpp`.  `next` returns the status, the frame it
produced if there is one, and the cursor afterwards.  `front` is what a cursor
sees, as a function of the bytes which it has not consumed alone.
-/

namespace ItchExchange.Wire

open ByteString

inductive FrameStatus where
  | ok
  | endOfInput
  | needMore
  | malformed
deriving DecidableEq, Repr

inductive FrameError where
  | none
  | truncatedLengthPrefix
  | truncatedBody
  | zeroLength
  | unknownType
  | lengthMismatch
deriving DecidableEq, Repr

/-- Size of the length prefix that precedes each message. -/
def kLengthPrefixSize : Nat := 2

/-- The smallest buffer which holds every framed message. -/
def kMinBufferSize : Nat := kLengthPrefixSize + kMaxMessageLength

structure FrameCursor where
  buf : List UInt8 := []
  pos : Nat := 0
  error : FrameError := .none
deriving DecidableEq, Repr

namespace FrameCursor

def next (cursor : FrameCursor) :
    FrameStatus × Option (List UInt8) × FrameCursor :=
  let avail := cursor.buf.length - cursor.pos
  if avail = 0 then
    (.endOfInput, none, { cursor with error := .none })
  else if avail < kLengthPrefixSize then
    (.needMore, none, { cursor with error := .truncatedLengthPrefix })
  else
    let len := (loadBe16 cursor.buf cursor.pos).toNat
    if len = 0 then
      (.malformed, none, { cursor with error := .zeroLength })
    else if avail - kLengthPrefixSize < len then
      (.needMore, none, { cursor with error := .truncatedBody })
    else
      let body := cursor.pos + kLengthPrefixSize
      let declared := messageLength (loadBe8 cursor.buf body)
      if declared = 0 then
        (.malformed, none, { cursor with error := .unknownType })
      else if declared ≠ len then
        (.malformed, none, { cursor with error := .lengthMismatch })
      else
        (.ok, some (slice body len cursor.buf),
          { cursor with
            pos := cursor.pos + (kLengthPrefixSize + len)
            error := .none })

/-- Bytes consumed as complete frames, including their length prefixes. -/
def offset (cursor : FrameCursor) : Nat := cursor.pos

/-- The unconsumed tail. -/
def rest (cursor : FrameCursor) : List UInt8 :=
  cursor.buf.drop cursor.pos

def reset (_ : FrameCursor) (buf : List UInt8) : FrameCursor where
  buf

end FrameCursor

/-! ## The grammar -/

/-- A message of a known type with its declared length. -/
def Message (body : List UInt8) : Prop :=
  ∃ type ∈ body.head?, messageLength type = body.length

/-- The message behind its length. -/
def frameOf (body : List UInt8) : List UInt8 :=
  bigBytes kLengthPrefixSize body.length ++ body

/-- The number in the first two bytes. -/
def prefixLength (bytes : List UInt8) : Nat :=
  bigValue (bytes.take kLengthPrefixSize)

/-- What a cursor finds in front of it. -/
inductive Front where
  | frame (body rest : List UInt8)
  | stop (status : FrameStatus) (error : FrameError)
deriving DecidableEq, Repr

def front (bytes : List UInt8) : Front :=
  if bytes.length = 0 then .stop .endOfInput .none
  else if bytes.length < kLengthPrefixSize then
    .stop .needMore .truncatedLengthPrefix
  else
    let len := prefixLength bytes
    let body := slice kLengthPrefixSize len bytes
    let declared := messageLength (body.headD 0)
    if len = 0 then .stop .malformed .zeroLength
    else if bytes.length - kLengthPrefixSize < len then
      .stop .needMore .truncatedBody
    else if declared = 0 then .stop .malformed .unknownType
    else if declared ≠ len then .stop .malformed .lengthMismatch
    else .frame body (bytes.drop (kLengthPrefixSize + len))

theorem headD_take {α : Type} {elements : List α} {count : Nat}
    {default : α} (some : count ≠ 0) :
    (elements.take count).headD default = elements.headD default := by
  cases count with
  | zero => exact absurd rfl some
  | succ count => cases elements <;> rfl

/-- A cursor does what the front of its rest says. -/
theorem FrameCursor.next_eq (cursor : FrameCursor) :
    cursor.next =
      match front cursor.rest with
      | .frame body _ =>
          (.ok, some body,
            { cursor with
              pos := cursor.pos + (kLengthPrefixSize + body.length)
              error := .none })
      | .stop status error => (status, none, { cursor with error }) := by
  have avail : cursor.rest.length = cursor.buf.length - cursor.pos :=
    List.length_drop
  unfold front FrameCursor.next
  rw [avail]
  by_cases none : cursor.buf.length - cursor.pos = 0
  · simp [none]
  by_cases one : cursor.buf.length - cursor.pos < kLengthPrefixSize
  · simp [none, one]
  have two : cursor.pos + 2 ≤ cursor.buf.length := by
    unfold kLengthPrefixSize at one
    omega
  have length : (loadBe16 cursor.buf cursor.pos).toNat =
      prefixLength cursor.rest := toNat_loadBe16 two
  simp only [none, one, if_false, length]
  by_cases zero : prefixLength cursor.rest = 0
  · simp [zero]
  by_cases short : cursor.buf.length - cursor.pos - kLengthPrefixSize <
      prefixLength cursor.rest
  · simp [zero, short]
  have body :
      slice (cursor.pos + kLengthPrefixSize) (prefixLength cursor.rest)
          cursor.buf =
        slice kLengthPrefixSize (prefixLength cursor.rest)
          cursor.rest := by
    simp only [slice, FrameCursor.rest, List.drop_drop]
  have type : loadBe8 cursor.buf (cursor.pos + kLengthPrefixSize) =
      (slice kLengthPrefixSize (prefixLength cursor.rest)
        cursor.rest).headD 0 := by
    unfold kLengthPrefixSize at short ⊢
    rw [loadBe8_eq (by omega), ← kLengthPrefixSize, ← body, slice,
      headD_take zero]
  have bodyLength :
      (slice kLengthPrefixSize (prefixLength cursor.rest)
        cursor.rest).length = prefixLength cursor.rest := by
    rw [length_slice, avail]
    omega
  simp only [zero, short, if_false, body, type]
  split_ifs <;> simp [bodyLength]

end ItchExchange.Wire
