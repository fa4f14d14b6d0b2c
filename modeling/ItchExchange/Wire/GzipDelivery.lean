import ItchExchange.Wire.GzipChunks

/-!
# When a gzip source delivers everything

Two callers who read the same compressed bytes, out of any chunks and into
destinations of any sizes, get the same bytes or an exception each, unless one
of them begins a read in a state which is `Stranded`.
-/

namespace ItchExchange.Wire.GzipSource

open ByteString StreamDecoding

section Runs

variable {σ Z : Type} [ByteSource σ] [Inflater Z]
  {decoding : Decoding UInt8 UInt8}
  {after : Z → List UInt8 → List UInt8 → Prop}
  {remaining : σ → List UInt8} {data : List UInt8}
  {start source : GzipSource σ Z} {buffers : Nat → List UInt8}

/-- Everything which can be made of the input, or an exception. -/
def outcomeOf (decoding : Decoding UInt8 UInt8) (data : List UInt8) :
    Outcome :=
  if decoding.standing (decoding.reach data) = .corrupt then .thrown
  else .delivered (decoding.produce (decoding.reach data))

/-- No input is left, and the inflater still holds something back. -/
structure Stranded (remaining : σ → List UInt8) (source : GzipSource σ Z) :
    Prop where
  unfinished : source.finished = false
  usedUp : source.input = []
  exhausted : remaining source.inner = []
  holdsBack : HoldsBack source.zs

/-- No read of the run begins in a stranded state. -/
def NeverStranded (remaining : σ → List UInt8)
    (buffers : Nat → List UInt8) (start : GzipSource σ Z) : Prop :=
  ∀ reads bytes source, Reads buffers start reads bytes source →
    ¬ Stranded remaining source

omit [ByteSource σ] in
theorem make_feeds (zlib : Zlib decoding after) {inner : σ}
    (made : make inner true = .ok source) :
    Feeds after remaining (remaining inner) [] [] source := by
  unfold make at made
  cases started : Inflater.inflateInit2 (Z := Z) (15 + 32) with
  | none =>
      rw [started] at made
      cases made
  | some zs =>
      rw [started] at made
      cases made
      exact ⟨zlib.starts _ zs started, rfl, rfl, rfl⟩

theorem returns_finished (finished : source.finished = true)
    (dst : List UInt8) :
    Returns source dst { produced := 0, dst, source } :=
  ⟨0, if_pos (Or.inl finished)⟩

/-- Between two reads the source is finished, or nothing is lost so far. -/
theorem Reads.reached (zlib : Zlib decoding after)
    (delivers : ByteSource.Delivers remaining)
    (begins : Feeds after remaining data [] [] start)
    (sizes : ∀ reads, Sized (buffers reads)) {reads : Nat}
    {bytes : List UInt8}
    (run : Reads buffers start reads bytes source) :
    source.finished = true ∨
      ∃ fed, Feeds after remaining data fed bytes source := by
  induction run with
  | start => exact Or.inr ⟨[], begins⟩
  | @next reads bytes source result earlier returned some induction =>
      rcases induction with finished | ⟨fed, feeds⟩
      · have none := returned.unique (returns_finished finished _)
        exact absurd (congrArg ReadResult.produced none) some
      by_cases usedUp : unread remaining source = []
      · obtain ⟨last, returned', none, -⟩ :=
          feeds.read_usedUp delivers (sizes reads) usedUp
        exact absurd (returned.unique returned' ▸ none) some
      cases feeds.read zlib delivers (sizes reads)
          (fun left => absurd left usedUp) with
      | throws throws => exact absurd throws returned.not_throws
      | full returned' counts some' later =>
          obtain rfl := returned.unique returned'
          exact Or.inr ⟨_, later⟩
      | done returned' counts finished =>
          obtain rfl := returned.unique returned'
          exact Or.inl finished

/-- A read returns zero only once the source is finished. -/
theorem Reads.finishes (zlib : Zlib decoding after)
    (delivers : ByteSource.Delivers remaining)
    (begins : Feeds after remaining data [] [] start)
    (sizes : ∀ reads, Sized (buffers reads)) {reads : Nat}
    {bytes : List UInt8} {result : ReadResult σ Z}
    (run : Reads buffers start reads bytes source)
    (returned : Returns source (buffers reads) result)
    (none : result.produced = 0) : result.source.finished = true := by
  rcases run.reached zlib delivers begins sizes with
    finished | ⟨fed, feeds⟩
  · rw [returned.unique (returns_finished finished _)]
    exact finished
  by_cases usedUp : unread remaining source = []
  · obtain ⟨last, returned', -, finished⟩ :=
      feeds.read_usedUp delivers (sizes reads) usedUp
    exact returned.unique returned' ▸ finished
  cases feeds.read zlib delivers (sizes reads)
      (fun left => absurd left usedUp) with
  | throws throws => exact absurd throws returned.not_throws
  | full returned' counts some later =>
      exact absurd (returned.unique returned' ▸ none) some
  | done returned' counts finished =>
      exact returned.unique returned' ▸ finished

/-- A run which is never stranded ends with all there is. -/
theorem Feeds.ends (zlib : Zlib decoding after)
    (delivers : ByteSource.Delivers remaining)
    (sizes : ∀ reads, Sized (buffers reads))
    (never : NeverStranded remaining buffers start) {reads : Nat}
    {fed bytes : List UInt8}
    (run : Reads buffers start reads bytes source)
    (feeds : Feeds after remaining data fed bytes source) :
    Ends buffers start (outcomeOf decoding data) := by
  induction left :
      (decoding.produce (decoding.reach data)).length - bytes.length
    using Nat.strong_induction_on generalizing reads fed bytes source with
  | h left induction =>
  have sound : unread remaining source = [] →
      bytes = decoding.produce fed ∧ decoding.standing fed ≠ .corrupt := by
    intro none
    obtain ⟨usedUp, exhausted⟩ := List.append_eq_nil_iff.mp none
    have quiet : ¬ HoldsBack source.zs := fun holdsBack =>
      never reads bytes source run
        ⟨feeds.unfinished, usedUp, exhausted, holdsBack⟩
    rw [zlib.holdsBack_iff feeds.history, not_or, not_not] at quiet
    exact quiet
  cases feeds.read zlib delivers (sizes reads) sound with
  | throws throws corrupt =>
      rw [outcomeOf, if_pos corrupt]
      exact ⟨reads, .thrown run throws⟩
  | @full result fed' returned counts some later =>
      refine induction _ ?_ (run.next returned some) later rfl
      have live := zlib.live later.history
      have within := (zlib.delivers later.history).trans
        (live.produce_prefix (unread remaining result.source))
      rw [later.whole] at within
      have bound := within.length_le
      rw [List.length_append] at bound ⊢
      omega
  | @done result returned counts finished all good =>
      rw [outcomeOf, if_neg good, ← all]
      by_cases none : result.produced = 0
      · have nothing : result.delivered = [] :=
          List.eq_nil_of_length_eq_zero (counts.symm.trans none)
        rw [nothing, List.append_nil]
        exact ⟨reads, .zero run returned none⟩
      · exact ⟨reads + 1,
          .zero (run.next returned none) (returns_finished finished _) rfl⟩

/-- A run which is stranded once does not end with all there is. -/
theorem Stranded.not_ends (zlib : Zlib decoding after)
    (delivers : ByteSource.Delivers remaining)
    (begins : Feeds after remaining data [] [] start)
    (sizes : ∀ reads, Sized (buffers reads)) {reads : Nat}
    {bytes : List UInt8}
    (run : Reads buffers start reads bytes source)
    (stranded : Stranded remaining source) :
    ¬ Ends buffers start (outcomeOf decoding data) := by
  intro ends
  have unfinished := stranded.unfinished
  obtain ⟨fed, feeds⟩ :=
    (run.reached zlib delivers begins sizes).resolve_left
      (by simp [unfinished])
  have none : unread remaining source = [] := by
    rw [unread, stranded.usedUp, stranded.exhausted]
    rfl
  obtain ⟨last, returned, zero, -⟩ :=
    feeds.read_usedUp delivers (sizes reads) none
  have same := ends.unique ⟨reads, .zero run returned zero⟩
  have whole := feeds.whole
  rw [none, List.append_nil] at whole
  subst whole
  rw [outcomeOf, (zlib.live feeds.history).reach_self] at same
  split_ifs at same with corrupt
  obtain rfl := Outcome.delivered.inj same
  exact ((zlib.holdsBack_iff feeds.history).mp stranded.holdsBack).elim
    (fun other => other rfl) corrupt

/-! ## Errors of the inflater -/

/-- The loop of a read enters its body with these variables. -/
inductive Enters (source : GzipSource σ Z) (dst : List UInt8) :
    Filling σ Z → Prop where
  | first (unfinished : source.finished = false)
      (room : (opened source dst).availOut ≠ 0) :
      Enters source dst (opened source dst)
  | again {filling later : Filling σ Z}
      (earlier : Enters source dst filling)
      (turned : turn filling = .ok (true, later))
      (room : later.availOut ≠ 0) :
      Enters source dst later

/-- An error, other than that of a call which leaves no input. -/
def Fails (call : Inflated Z) (input : List UInt8) : Prop :=
  (∃ msg, call.rc = .failed msg) ∨
    call.rc = .bufError ∧ input.drop call.used ≠ []

variable {dst : List UInt8} {filling : Filling σ Z}

theorem Enters.room (enters : Enters source dst filling) :
    filling.availOut ≠ 0 := by
  cases enters with
  | first unfinished room => exact room
  | again earlier turned room => exact room

/-- A read whose loop is entered has something to do. -/
theorem Enters.begins (enters : Enters source dst filling) :
    ¬ (source.finished = true ∨ dst.length = 0) := by
  induction enters with
  | first unfinished room =>
      rintro (finished | none)
      · rw [unfinished] at finished
        cases finished
      · exact room (by rw [opened, none]; rfl)
  | again earlier turned room induction => exact induction

theorem Enters.fill (enters : Enters source dst filling) :
    ∃ turns, ∀ more, GzipSource.fill (turns + more) (opened source dst) =
      GzipSource.fill more filling := by
  induction enters with
  | first unfinished room => exact ⟨0, fun more => by rw [Nat.zero_add]⟩
  | again earlier turned room induction =>
      obtain ⟨turns, onWay⟩ := induction
      refine ⟨turns + 1, fun more => ?_⟩
      rw [Nat.add_assoc, Nat.add_comm 1 more, onWay, GzipSource.fill,
        if_neg earlier.room, turned]
      rfl

/-- An error of the inflater ends the read, whatever the inflater is. -/
theorem Enters.throws (enters : Enters source dst filling)
    {ready : GzipSource σ Z}
    (replenished : replenish filling.source = .ok (true, ready))
    (fails : Fails
      (Inflater.inflate ready.zs ready.input filling.availOut.toNat)
      ready.input) : Throws source dst := by
  have turned : ∃ what, turn filling = .error (.thrown what) := by
    unfold turn
    rw [replenished]
    change ∃ what, inflateInto { filling with source := ready } = _
    unfold inflateInto
    dsimp only
    rcases fails with ⟨msg, code⟩ | ⟨code, unread⟩
    · rw [code]
      exact ⟨_, rfl⟩
    · rw [code]
      exact ⟨_, if_pos unread⟩
  obtain ⟨what, turned⟩ := turned
  obtain ⟨turns, onWay⟩ := enters.fill
  refine ⟨turns + 1, what, ?_⟩
  rw [read, if_neg enters.begins, onWay, GzipSource.fill, if_neg enters.room,
    turned]
  rfl

/-! ## Everything, or an exception -/

/--
Reading until a read returns zero delivers everything which the inflater can
make of the input, or throws because the input is corrupt.  Zero means that the
source is finished, and an error of the inflater throws.
-/
structure DeliversWhole (decoding : Decoding UInt8 UInt8)
    (data : List UInt8) (buffers : Nat → List UInt8)
    (start : GzipSource σ Z) : Prop where
  ends : Ends buffers start (outcomeOf decoding data)
  finishes : ∀ {reads bytes source result},
    Reads buffers start reads bytes source →
      Returns source (buffers reads) result → result.produced = 0 →
        result.source.finished = true
  throws : ∀ {reads bytes source filling ready},
    Reads buffers start reads bytes source →
      Enters source (buffers reads) filling →
        replenish filling.source = .ok (true, ready) →
          Fails
            (Inflater.inflate ready.zs ready.input
              filling.availOut.toNat) ready.input →
            Throws source (buffers reads)

/-- Only the outcome of a run can fail. -/
theorem deliversWhole_of_ends (zlib : Zlib decoding after)
    (delivers : ByteSource.Delivers remaining)
    (begins : Feeds after remaining data [] [] start)
    (sizes : ∀ reads, Sized (buffers reads))
    (ends : Ends buffers start (outcomeOf decoding data)) :
    DeliversWhole decoding data buffers start where
  ends := ends
  finishes := fun run returned none =>
    run.finishes zlib delivers begins sizes returned none
  throws := fun _ enters replenished fails =>
    enters.throws replenished fails

/-- A run delivers the whole exactly when it is never stranded. -/
theorem deliversWhole_iff (zlib : Zlib decoding after)
    (delivers : ByteSource.Delivers remaining)
    (begins : Feeds after remaining data [] [] start)
    (sizes : ∀ reads, Sized (buffers reads)) :
    DeliversWhole decoding data buffers start ↔
      NeverStranded remaining buffers start := by
  constructor
  · intro whole reads bytes source run stranded
    exact stranded.not_ends zlib delivers begins sizes run whole.ends
  · intro never
    exact deliversWhole_of_ends zlib delivers begins sizes
      (begins.ends zlib delivers sizes never .start)

/-- A read of a multiple of `2 ^ 32` bytes reports them all, and writes none. -/
theorem returns_unwritten (unfinished : source.finished = false)
    (nonempty : 0 < dst.length) (wraps : dst.length % 2 ^ 32 = 0) :
    ∃ result, Returns source dst result ∧ result.produced = dst.length ∧
      result.dst = dst := by
  have none : (opened source dst).availOut = 0 :=
    UInt32.toNat_inj.mp wraps
  have filled : GzipSource.fill 0 (opened source dst) =
      .ok (opened source dst) := if_pos none
  refine
    ⟨{ produced := dst.length
       dst
       source :=
        { source with
          outTotal := source.outTotal + UInt64.ofNat dst.length } },
      ⟨0, ?_⟩, rfl, rfl⟩
  rw [read, if_neg (by simp [unfinished, nonempty.ne']), filled]
  simp only [bind, Except.bind, pure, Except.pure, none]
  rfl

end Runs

/--
Two callers read the same compressed bytes, out of any two sources and into any
two sequences of destinations, none of them empty and all below `2 ^ 32` bytes.
Both get everything which can be made of the input, or an exception because it
is corrupt, exactly when neither begins a read in a stranded state.
-/
theorem gzipSource_deliversWhole_iff {σ τ Z : Type} [ByteSource σ]
    [ByteSource τ] [Inflater Z] {decoding : Decoding UInt8 UInt8}
    {after : Z → List UInt8 → List UInt8 → Prop}
    (zlib : Zlib decoding after) {remaining : σ → List UInt8}
    {remaining' : τ → List UInt8}
    (delivers : ByteSource.Delivers remaining)
    (delivers' : ByteSource.Delivers remaining') {inner : σ} {inner' : τ}
    {data : List UInt8} (holds : remaining inner = data)
    (holds' : remaining' inner' = data) {source : GzipSource σ Z}
    {source' : GzipSource τ Z} (made : make inner true = .ok source)
    (made' : make inner' true = .ok source')
    (buffers buffers' : Nat → List UInt8)
    (sizes : ∀ reads, Sized (buffers reads))
    (sizes' : ∀ reads, Sized (buffers' reads)) :
    DeliversWhole decoding data buffers source ∧
        DeliversWhole decoding data buffers' source' ↔
      NeverStranded remaining buffers source ∧
        NeverStranded remaining' buffers' source' := by
  have begins : Feeds after remaining data [] [] source :=
    holds ▸ make_feeds zlib made
  have begins' : Feeds after remaining' data [] [] source' :=
    holds' ▸ make_feeds zlib made'
  rw [deliversWhole_iff zlib delivers begins sizes,
    deliversWhole_iff zlib delivers' begins' sizes']

/-- The first bytes of the zlib stream of ten letters. -/
def tenLetters : List UInt8 := [0x78, 0x9c, 0x4b, 0x4c, 0x84]

/-- What zlib makes of a part of that stream: the first two letters. -/
def lettersDecoding : Decoding UInt8 UInt8 where
  produce := fun fed =>
    if tenLetters <+: fed then [97, 97]
    else if tenLetters.take 4 <+: fed then [97]
    else []
  standing := fun _ => .more
  grows := by
    intro fed more
    have longer : ∀ {first : List UInt8}, first <+: fed →
        first <+: fed ++ more :=
      fun isPrefix => isPrefix.trans (List.prefix_append fed more)
    by_cases whole : tenLetters <+: fed
    · rw [if_pos whole, if_pos (longer whole)]
    rw [if_neg whole]
    by_cases most : tenLetters.take 4 <+: fed
    · rw [if_pos most, if_pos (longer most)]
      split_ifs <;> decide
    · rw [if_neg most]
      exact List.nil_prefix

/-- A gzip source over those bytes, in chunks of this size or at once. -/
def lettersSource (chunk : Nat) :
    GzipSource MemorySource (Buffering lettersDecoding) where
  inner := { data := tenLetters, chunk }
  zs := {}

/-- One read size loses a letter which another one delivers. -/
theorem gzipSource_losesLetter :
    Zlib lettersDecoding (@Buffering.After lettersDecoding) ∧
      Ends (fun _ => [0]) (lettersSource 0) (.delivered [97]) ∧
      Ends (fun _ => [0, 0]) (lettersSource 0) (.delivered [97, 97]) ∧
      ¬ (DeliversWhole lettersDecoding tenLetters (fun _ => [0])
          (lettersSource 0) ∧
        DeliversWhole lettersDecoding tenLetters (fun _ => [0, 0])
          (lettersSource 0)) := by
  have one : Ends (fun _ => [0]) (lettersSource 0) (.delivered [97]) :=
    Reads.start.ends_of_drain 9 9 (by decide)
  have both : Ends (fun _ => [0, 0]) (lettersSource 0)
      (.delivered [97, 97]) :=
    Reads.start.ends_of_drain 9 9 (by decide)
  refine ⟨Buffering.zlib, one, both, fun alike => ?_⟩
  exact absurd (one.unique alike.1.ends) (by decide)

/-- With the bytes one by one, the same two read sizes lose nothing. -/
theorem gzipSource_deliversWhole_byteByByte :
    Ends (fun _ => [0]) (lettersSource 1) (.delivered [97, 97]) ∧
      Ends (fun _ => [0, 0]) (lettersSource 0) (.delivered [97, 97]) ∧
      NeverStranded (fun source : MemorySource => source.data.drop source.pos)
        (fun _ => [0]) (lettersSource 1) ∧
      NeverStranded (fun source : MemorySource => source.data.drop source.pos)
        (fun _ => [0, 0]) (lettersSource 0) := by
  have ends : Ends (fun _ => [0]) (lettersSource 1) (.delivered [97, 97]) :=
    Reads.start.ends_of_drain 9 9 (by decide)
  have ends' : Ends (fun _ => [0, 0]) (lettersSource 0)
      (.delivered [97, 97]) :=
    Reads.start.ends_of_drain 9 9 (by decide)
  have made : make ({ data := tenLetters, chunk := 1 } : MemorySource) true =
      .ok (lettersSource 1) := rfl
  have made' : make ({ data := tenLetters } : MemorySource) true =
      .ok (lettersSource 0) := rfl
  have holds : tenLetters.drop 0 = tenLetters := rfl
  have size : Sized [0] := ⟨by decide, by decide⟩
  have size' : Sized [0, 0] := ⟨by decide, by decide⟩
  refine ⟨ends, ends', ?_⟩
  refine (gzipSource_deliversWhole_iff Buffering.zlib memorySource_delivers
    memorySource_delivers holds holds made made' _ _ (fun _ => size)
    fun _ => size').mp ⟨?_, ?_⟩
  · exact deliversWhole_of_ends Buffering.zlib memorySource_delivers
      (make_feeds Buffering.zlib made) (fun _ => size) ends
  · exact deliversWhole_of_ends Buffering.zlib memorySource_delivers
      (make_feeds Buffering.zlib made') (fun _ => size') ends'

end ItchExchange.Wire.GzipSource
