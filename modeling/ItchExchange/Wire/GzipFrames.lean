import ItchExchange.Wire.GzipDelivery
import ItchExchange.Wire.ThrowingReader

/-!
# Frames out of a gzip stream

`FrameReader<GzipSource<...>>`: the buffered reader over the decompressor.  A
caller of the decompressor who is never stranded sees a byte source which hands
out the decompressed bytes, so the loops over its frames are those over the
decompressed input.
-/

namespace ItchExchange.Wire.GzipSource

open ItchExchange.Core ByteString StreamDecoding

variable {σ Z : Type} [ByteSource σ] [Inflater Z]

variable {decoding : Decoding UInt8 UInt8}
  {after : Z → List UInt8 → List UInt8 → Prop}
  {remaining : σ → List UInt8} {data : List UInt8}
  {start : GzipSource σ Z}

section Reads

variable {source : GzipSource σ Z} {fed given : List UInt8}

/-! ## Enough turns for a read -/

/-- All that is delivered of an input, once it is used up. -/
def decoded (decoding : Decoding UInt8 UInt8) (data : List UInt8) :
    List UInt8 :=
  decoding.produce (decoding.reach data)

/-- No read of any caller begins in a stranded state. -/
def NeverStrands (remaining : σ → List UInt8) (start : GzipSource σ Z) :
    Prop :=
  ∀ buffers : Nat → List UInt8, (∀ reads, Sized (buffers reads)) →
    NeverStranded remaining buffers start

/-- Reads into destinations which are the same so far. -/
theorem Reads.congr {buffers buffers' : Nat → List UInt8} {reads : Nat}
    (run : Reads buffers start reads given source)
    (same : ∀ earlier < reads, buffers earlier = buffers' earlier) :
    Reads buffers' start reads given source := by
  induction run with
  | start => exact .start
  | @next reads _ _ _ _ returned some induction =>
      rw [same reads (Nat.lt_succ_self reads)] at returned
      exact (induction fun earlier before =>
        same earlier (Nat.lt_succ_of_lt before)).next returned some

/-- A read which is not stranded loses nothing. -/
theorem Feeds.ready (zlib : Zlib decoding after)
    (never : NeverStrands remaining start) {buffers : Nat → List UInt8}
    {reads : Nat} (sizes : ∀ reads, Sized (buffers reads))
    (run : Reads buffers start reads given source)
    (feeds : Feeds after remaining data fed given source)
    (usedUp : unread remaining source = []) :
    given = decoding.produce fed ∧ decoding.standing fed ≠ .corrupt := by
  obtain ⟨input, exhausted⟩ := List.append_eq_nil_iff.mp usedUp
  have quiet : ¬ HoldsBack source.zs := fun holdsBack =>
    never buffers sizes reads given source run
      ⟨feeds.unfinished, input, exhausted, holdsBack⟩
  rwa [zlib.holdsBack_iff feeds.history, not_or, not_not] at quiet

/-- A source in the middle of a run which delivered these bytes. -/
inductive Midway (decoding : Decoding UInt8 UInt8)
    (after : Z → List UInt8 → List UInt8 → Prop)
    (remaining : σ → List UInt8) (data : List UInt8)
    (start : GzipSource σ Z) : GzipSource σ Z → List UInt8 → Prop where
  | feeding {buffers : Nat → List UInt8} {reads : Nat}
      {source : GzipSource σ Z} {fed given : List UInt8}
      (sizes : ∀ reads, Sized (buffers reads))
      (run : Reads buffers start reads given source)
      (feeds : Feeds after remaining data fed given source) :
      Midway decoding after remaining data start source given
  | finished {source : GzipSource σ Z} (finished : source.finished = true) :
      Midway decoding after remaining data start source
        (decoded decoding data)

omit [ByteSource σ] in
theorem Feeds.isPrefix (zlib : Zlib decoding after)
    (feeds : Feeds after remaining data fed given source) :
    given <+: decoded decoding data := by
  have live := zlib.live feeds.history
  have prefixed := (zlib.delivers feeds.history).trans
    (live.produce_prefix (unread remaining source))
  rwa [feeds.whole] at prefixed

theorem Midway.isPrefix (zlib : Zlib decoding after)
    (midway : Midway decoding after remaining data start source given) :
    given <+: decoded decoding data := by
  cases midway with
  | feeding _ _ feeds => exact feeds.isPrefix zlib
  | finished => exact List.prefix_refl _

end Reads

/-! ## What such a caller sees -/

/-- A source in the middle of such a run, with what it delivered. -/
structure Tapped (decoding : Decoding UInt8 UInt8)
    (after : Z → List UInt8 → List UInt8 → Prop)
    (remaining : σ → List UInt8) (data : List UInt8)
    (start : GzipSource σ Z) where
  source : GzipSource σ Z
  given : List UInt8
  midway : Midway decoding after remaining data start source given

namespace Tapped

/-- What is still to come. -/
def left (tapped : Tapped decoding after remaining data start) :
    List UInt8 :=
  (decoded decoding data).drop tapped.given.length

variable {limit turns : Nat} (zlib : Zlib decoding after)
  (delivers : ByteSource.Delivers remaining)
  (never : NeverStrands remaining start)
  (sound : decoding.standing (decoding.reach data) ≠ .corrupt)
  (small : limit < 2 ^ 32) (enough : data.length + limit < turns)

include zlib delivers never sound small enough

end Tapped

/-! ## A stream which is stored byte for byte -/

section Stored

variable (standing : List UInt8 → Standing)

/-- The format which stores the bytes as they are. -/
def stored : Decoding UInt8 UInt8 where
  produce := id
  standing := standing
  grows := List.prefix_append

variable {standing}

/-- All that was consumed is delivered, and the inner source is slow. -/
structure KeepsUp
    (source : GzipSource MemorySource (Buffering (stored standing))) :
    Prop where
  even : source.zs.given = source.zs.fed
  goesOn : standing source.zs.fed = .more
  slow : source.inner.chunk = 1
  usedUp : source.input = []

theorem KeepsUp.replenish
    {source later : GzipSource MemorySource (Buffering (stored standing))}
    {more : Bool} (keepsUp : KeepsUp source)
    (replenished : GzipSource.replenish source = .ok (more, later)) :
    later.finished = true ∧ more = false ∨
      more = true ∧ later.zs = source.zs ∧ later.inner.chunk = 1 ∧
        ∃ byte, later.input = [byte] := by
  unfold GzipSource.replenish at replenished
  rw [if_pos keepsUp.usedUp] at replenished
  have slow : (ByteSource.read source.inner kInputChunk).1.length ≤ 1 := by
    simp only [ByteSource.read, MemorySource.read, length_slice,
      keepsUp.slow]
    split_ifs <;> omega
  have chunk : (ByteSource.read source.inner kInputChunk).2.chunk = 1 :=
    keepsUp.slow
  generalize ByteSource.read source.inner kInputChunk = reading
    at replenished slow chunk
  obtain ⟨got, inner⟩ := reading
  dsimp only at replenished slow chunk
  split_ifs at replenished with none strict
  · cases replenished
    exact Or.inl ⟨rfl, rfl⟩
  · cases replenished
    obtain ⟨byte, rfl⟩ := List.length_eq_one_iff.mp
      (Nat.le_antisymm slow (Nat.pos_of_ne_zero none))
    exact Or.inr ⟨rfl, rfl, chunk, byte, rfl⟩

/-- A byte which is consumed is delivered at once. -/
theorem stored_inflate {fed : List UInt8} (goesOn : standing fed = .more)
    (byte : UInt8) {room : Nat} (positive : 0 < room) :
    Inflater.inflate ({ fed, given := fed } : Buffering (stored standing))
        [byte] room =
      { rc := Buffering.code (stored standing) (fed ++ [byte])
          (fed ++ [byte]) true
        used := 1
        out := [byte]
        zs := { fed := fed ++ [byte], given := fed ++ [byte] } } := by
  have reaches : (stored standing).reachFrom fed [byte] = fed ++ [byte] :=
    if_pos goesOn
  have taken : [byte].take room = [byte] := List.take_of_length_le positive
  have call := Buffering.inflate_eq reaches
    (show (stored standing).produce (fed ++ [byte]) = fed ++ [byte] from rfl)
    room
  rw [taken] at call
  exact call

section Code

variable {fed : List UInt8}

theorem code_stored_more (stands : standing fed = .more) :
    Buffering.code (stored standing) fed fed true = .ok := by
  simp [Buffering.code, stored, stands]

theorem code_stored_ended (stands : standing fed = .ended) :
    Buffering.code (stored standing) fed fed true = .streamEnd := by
  simp [Buffering.code, stored, stands]

theorem code_stored_corrupt (stands : standing fed = .corrupt) :
    Buffering.code (stored standing) fed fed true = .failed Option.none := by
  simp [Buffering.code, stored, stands]

end Code

theorem KeepsUp.turn
    {filling later :
      Filling MemorySource (Buffering (stored standing))} {again : Bool}
    (keepsUp : KeepsUp filling.source) (room : filling.availOut ≠ 0)
    (turned : GzipSource.turn filling = .ok (again, later)) :
    again = false ∧ later.source.finished = true ∨
      again = true ∧ KeepsUp later.source := by
  obtain ⟨⟨more, source⟩, replenished, turned⟩ :=
    Simulation.bind_eq_ok.mp turned
  rcases keepsUp.replenish replenished with
    ⟨finished, rfl⟩ | ⟨rfl, same, slow, byte, input⟩
  · cases turned
    exact Or.inl ⟨rfl, finished⟩
  obtain ⟨inner, zs, _, allows, finished, total⟩ := source
  dsimp only at same slow input
  subst same input
  change inflateInto _ = _ at turned
  have positive : 0 < filling.availOut.toNat :=
    Nat.pos_of_ne_zero fun zero => room (UInt32.toNat_inj.mp zero)
  have even := keepsUp.even
  have goesOn := keepsUp.goesOn
  generalize filling.source.zs = state at turned even goesOn
  obtain ⟨fed, given⟩ := state
  dsimp only at even goesOn
  subst even
  unfold inflateInto at turned
  dsimp only at turned
  rw [stored_inflate goesOn byte positive] at turned
  dsimp only at turned
  cases stands : standing (given ++ [byte]) with
  | more =>
      rw [code_stored_more stands] at turned
      cases turned
      exact Or.inr ⟨rfl, rfl, stands, slow, rfl⟩
  | ended =>
      rw [code_stored_ended stands] at turned
      cases turned
      exact Or.inl ⟨rfl, rfl⟩
  | corrupt =>
      rw [code_stored_corrupt stands] at turned
      cases turned

theorem KeepsUp.fill {turns : Nat}
    {filling later : Filling MemorySource (Buffering (stored standing))}
    (keepsUp : KeepsUp filling.source)
    (filled : GzipSource.fill turns filling = .ok later) :
    later.source.finished = true ∨ KeepsUp later.source := by
  induction turns generalizing filling with
  | zero =>
      rw [GzipSource.fill] at filled
      split_ifs at filled
      cases filled
      exact Or.inr keepsUp
  | succ turns induction =>
      rw [GzipSource.fill] at filled
      split_ifs at filled with full
      · cases filled
        exact Or.inr keepsUp
      obtain ⟨⟨again, next⟩, turned, filled⟩ :=
        Simulation.bind_eq_ok.mp filled
      rcases keepsUp.turn full turned with ⟨rfl, finished⟩ | ⟨rfl, kept⟩
      · cases filled
        exact Or.inl finished
      · exact induction kept filled

/-- Between two reads the source is finished, or nothing is held back. -/
theorem KeepsUp.reads {start source :
      GzipSource MemorySource (Buffering (stored standing))}
    (keepsUp : KeepsUp start) {buffers : Nat → List UInt8} {reads : Nat}
    {given : List UInt8} (run : Reads buffers start reads given source) :
    source.finished = true ∨ KeepsUp source := by
  induction run with
  | start => exact Or.inr keepsUp
  | @next reads _ source result _ returned some induction =>
      obtain ⟨turns, returned⟩ := returned
      unfold GzipSource.read at returned
      split_ifs at returned with idle
      · cases returned
        exact absurd rfl some
      obtain ⟨filling, filled, equal⟩ := Simulation.bind_eq_ok.mp returned
      cases equal
      rcases induction with finished | kept
      · exact absurd (Or.inl finished) idle
      · exact (KeepsUp.fill kept filled).imp id fun later =>
          ⟨later.even, later.goesOn, later.slow, later.usedUp⟩

end Stored

/-! ## The loop -/

end ItchExchange.Wire.GzipSource
