import ItchExchange.Wire.Source

/-!
# Streaming gzip input

`GzipSource` of `gzip_source.hpp`, over any byte source and over any inflater:
zlib is not part of the source.  The bytes of the input chunk which `inflate`
has still to consume, `next_in` and `avail_in`, are the list `input`.  The loop
of `read` is counted by the number of turns it may take.
-/

namespace ItchExchange.Wire

open ByteString

/-- The codes of zlib; `failed` stands for all others, with `zs->msg`. -/
inductive InflateCode where
  | ok
  | streamEnd
  | bufError
  | failed (msg : Option String)
deriving DecidableEq, Repr

/-- A call of `inflate`: its code, the bytes it used up and those it wrote. -/
structure Inflated (Z : Type) where
  rc : InflateCode
  used : Nat
  out : List UInt8
  zs : Z

/-- `inflateInit2` and `inflate` without a flush, on the state of a stream. -/
class Inflater (Z : Type) where
  inflateInit2 : Nat → Option Z
  inflate : Z → List UInt8 → Nat → Inflated Z

/-- Why a `read` does not return. -/
inductive ReadFailure where
  /-- A `std::runtime_error`, with its text. -/
  | thrown (what : String)
  /-- A loop of the source which never ends. -/
  | divergence
deriving DecidableEq, Repr

structure GzipSource (σ Z : Type) where
  inner : σ
  zs : Z
  input : List UInt8 := []
  allowTruncated : Bool := true
  finished : Bool := false
  outTotal : UInt64 := 0

namespace GzipSource

def kInputChunk : Nat := 1 <<< 18

variable {σ Z : Type} [ByteSource σ] [Inflater Z]

/-- The constructor; 15 window bits plus 32 to detect zlib or gzip framing. -/
def make (inner : σ) (allowTruncated : Bool) :
    Except ReadFailure (GzipSource σ Z) :=
  match Inflater.inflateInit2 (15 + 32) with
  | none => .error (.thrown "inflateInit2 failed")
  | some zs => .ok { inner, zs, allowTruncated }

/-- The variables of the loop of `read`; `written` is in front of `next_out`. -/
structure Filling (σ Z : Type) where
  source : GzipSource σ Z
  availOut : UInt32
  written : List UInt8 := []

/--
The start of a turn: another chunk of input when the last one is used up.  False
when the inner source has no more, which `allow_truncated` forgives.
-/
def replenish (source : GzipSource σ Z) :
    Except ReadFailure (Bool × GzipSource σ Z) :=
  if source.input = [] then
    let (got, inner) := ByteSource.read source.inner kInputChunk
    if got.length = 0 then
      if source.allowTruncated = false then
        .error (.thrown "gzip stream ended mid-member")
      else .ok (false, { source with inner, finished := true })
    else .ok (true, { source with inner, input := got })
  else .ok (true, source)

/-- The call of `inflate`, and what follows from its code. -/
def inflateInto (filling : Filling σ Z) :
    Except ReadFailure (Bool × Filling σ Z) :=
  let call := Inflater.inflate filling.source.zs filling.source.input
    filling.availOut.toNat
  let source :=
    { filling.source with
      zs := call.zs
      input := filling.source.input.drop call.used }
  let filling : Filling σ Z :=
    { source
      availOut := filling.availOut - UInt32.ofNat call.out.length
      written := filling.written ++ call.out }
  match call.rc with
  | .streamEnd =>
      .ok (false,
        { filling with source := { source with finished := true } })
  | .bufError =>
      if source.input ≠ [] then
        .error (.thrown "inflate made no progress on available input")
      else .ok (true, filling)
  | .failed msg =>
      .error (.thrown ("inflate failed: " ++ msg.getD "unknown"))
  | .ok => .ok (true, filling)

/-- The body of the loop; false when it breaks out of the loop. -/
def turn (filling : Filling σ Z) :
    Except ReadFailure (Bool × Filling σ Z) := do
  let (more, source) ← replenish filling.source
  if more = true then inflateInto { filling with source }
  else pure (false, { filling with source })

/-- The loop of `read`, for at most the given number of turns. -/
def fill : Nat → Filling σ Z → Except ReadFailure (Filling σ Z)
  | 0, filling =>
      if filling.availOut = 0 then .ok filling else .error .divergence
  | turns + 1, filling =>
      if filling.availOut = 0 then .ok filling
      else do
        let (again, filling) ← turn filling
        if again = true then fill turns filling else pure filling

/-- What `read` returns, the destination and the source afterwards. -/
structure ReadResult (σ Z : Type) where
  produced : Nat
  dst : List UInt8
  source : GzipSource σ Z

/-- The bytes which a caller takes out of the destination. -/
def ReadResult.delivered (result : ReadResult σ Z) : List UInt8 :=
  result.dst.take result.produced

/-- The loop's variables at its start; `n` is cut down to a `uInt`. -/
def opened (source : GzipSource σ Z) (dst : List UInt8) : Filling σ Z where
  source
  availOut := UInt32.ofNat dst.length

/-- `read` into a destination; its size is the `n` of the source. -/
def read (turns : Nat) (source : GzipSource σ Z) (dst : List UInt8) :
    Except ReadFailure (ReadResult σ Z) :=
  if source.finished = true ∨ dst.length = 0 then
    .ok { produced := 0, dst, source }
  else do
    let filling ← fill turns (opened source dst)
    let produced := dst.length - filling.availOut.toNat
    pure
      { produced
        dst := overwrite 0 filling.written dst
        source :=
          { filling.source with
            outTotal :=
              filling.source.outTotal + UInt64.ofNat produced } }

end GzipSource

end ItchExchange.Wire
