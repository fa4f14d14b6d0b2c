import ItchExchange.Wire.Framing

/-!
# The cursor accepts exactly the grammar

`front_eq_frame_iff` says that a frame is found exactly where a message stands
behind its length, and `front_append` that a decision does not change when more
bytes follow.  A byte string therefore splits in one way into frames and a rest
which starts with none, and this is what repeated calls of `next` produce.
-/

namespace ItchExchange.Wire

open ByteString

/-! ## Messages and frames -/

section Frame

variable {body bytes rest more : List UInt8}

theorem Message.length_le (message : Message body) :
    body.length ≤ kMaxMessageLength := by
  obtain ⟨type, -, length⟩ := message
  rw [← length]
  exact messageLength_le type

theorem Message.length_pos (message : Message body) : 0 < body.length := by
  obtain ⟨type, head, -⟩ := message
  cases body with
  | nil => cases head
  | cons first tail => exact Nat.succ_pos _

theorem message_iff_headD :
    Message body ↔
      body ≠ [] ∧ messageLength (body.headD 0) = body.length := by
  unfold Message
  cases body with
  | nil => simp
  | cons head tail => simp

@[simp]
theorem length_frameOf :
    (frameOf body).length = kLengthPrefixSize + body.length := by
  simp [frameOf]

theorem prefixLength_append (long : kLengthPrefixSize ≤ bytes.length)
    (more : List UInt8) :
    prefixLength (bytes ++ more) = prefixLength bytes := by
  rw [prefixLength, List.take_append_of_le_length long, prefixLength]

theorem prefixLength_frameOf (message : Message body) (rest : List UInt8) :
    prefixLength (frameOf body ++ rest) = body.length := by
  have bound := message.length_le
  have taken : (frameOf body ++ rest).take kLengthPrefixSize =
      bigBytes kLengthPrefixSize body.length := by
    rw [frameOf, List.append_assoc]
    exact List.take_left' (length_bigBytes _ _)
  rw [prefixLength, taken, bigValue_bigBytes_of_lt]
  unfold kLengthPrefixSize
  unfold kMaxMessageLength at bound
  omega

/-- The prefix and as many bytes as it promises are there. -/
def Decided (bytes : List UInt8) : Prop :=
  kLengthPrefixSize ≤ bytes.length ∧
    prefixLength bytes ≤ bytes.length - kLengthPrefixSize

instance (bytes : List UInt8) : Decidable (Decided bytes) := by
  unfold Decided
  infer_instance

/-- The length which the type byte behind the prefix declares. -/
def declaredLength (bytes : List UInt8) : Nat :=
  messageLength ((bytes.drop kLengthPrefixSize).headD 0)

theorem front_of_decided (decided : Decided bytes) :
    front bytes =
      if prefixLength bytes = 0 then .stop .malformed .zeroLength
      else if declaredLength bytes = 0 then .stop .malformed .unknownType
      else if declaredLength bytes ≠ prefixLength bytes then
        .stop .malformed .lengthMismatch
      else
        .frame (slice kLengthPrefixSize (prefixLength bytes) bytes)
          (bytes.drop (kLengthPrefixSize + prefixLength bytes)) := by
  obtain ⟨long, complete⟩ := decided
  have nonempty : bytes.length ≠ 0 := by
    unfold kLengthPrefixSize at long
    omega
  unfold front
  rw [if_neg nonempty, if_neg (Nat.not_lt.mpr long)]
  dsimp only
  by_cases zero : prefixLength bytes = 0
  · rw [if_pos zero, if_pos zero]
  · rw [if_neg zero, if_neg zero, if_neg (Nat.not_lt.mpr complete), slice,
      headD_take zero]
    rfl

/-- Before it is decided, a cursor wants more bytes. -/
theorem front_of_undecided (undecided : ¬ Decided bytes) :
    front bytes = .stop .endOfInput .none ∧ bytes = [] ∨
      front bytes = .stop .needMore .truncatedLengthPrefix ∧
        bytes.length = 1 ∨
      front bytes = .stop .needMore .truncatedBody ∧
        kLengthPrefixSize ≤ bytes.length ∧
        bytes.length - kLengthPrefixSize < prefixLength bytes := by
  unfold front
  by_cases none : bytes.length = 0
  · rw [if_pos none]
    exact Or.inl ⟨rfl, List.eq_nil_of_length_eq_zero none⟩
  rw [if_neg none]
  by_cases one : bytes.length < kLengthPrefixSize
  · rw [if_pos one]
    unfold kLengthPrefixSize at one
    exact Or.inr (Or.inl ⟨rfl, by omega⟩)
  rw [if_neg one]
  have long := Nat.not_lt.mp one
  have short : bytes.length - kLengthPrefixSize < prefixLength bytes := by
    by_contra complete
    exact undecided ⟨long, Nat.not_lt.mp complete⟩
  have positive : prefixLength bytes ≠ 0 := by omega
  simp only [if_neg positive, if_pos short]
  exact Or.inr (Or.inr ⟨trivial, long, short⟩)

/-- More bytes do not change a decision. -/
theorem front_append (decided : Decided bytes) (more : List UInt8) :
    front (bytes ++ more) =
      match front bytes with
      | .frame body rest => .frame body (rest ++ more)
      | .stop status error => .stop status error := by
  have sameLength := prefixLength_append decided.1 more
  have decidedAppend : Decided (bytes ++ more) := by
    refine ⟨decided.1.trans ?_, ?_⟩
    · simp
    · rw [sameLength, List.length_append]
      have complete := decided.2
      omega
  have body : slice kLengthPrefixSize (prefixLength bytes)
        (bytes ++ more) =
      slice kLengthPrefixSize (prefixLength bytes) bytes := by
    rw [slice, slice, List.drop_append_of_le_length decided.1,
      List.take_append_of_le_length]
    rw [List.length_drop]
    exact decided.2
  have behind :
      (bytes ++ more).drop (kLengthPrefixSize + prefixLength bytes) =
        bytes.drop (kLengthPrefixSize + prefixLength bytes) ++ more := by
    obtain ⟨long, complete⟩ := decided
    exact List.drop_append_of_le_length (by omega)
  rw [front_of_decided decidedAppend, front_of_decided decided, sameLength,
    body, behind]
  by_cases zero : prefixLength bytes = 0
  · rw [if_pos zero, if_pos zero]
  have declared : declaredLength (bytes ++ more) = declaredLength bytes := by
    have complete := decided.2
    rw [declaredLength, declaredLength,
      List.drop_append_of_le_length decided.1]
    cases body : bytes.drop kLengthPrefixSize with
    | nil =>
        rw [List.drop_eq_nil_iff] at body
        omega
    | cons head tail => rfl
  rw [if_neg zero, if_neg zero, declared]
  split_ifs <;> rfl

theorem decided_frameOf (message : Message body) :
    Decided (frameOf body) := by
  have length := prefixLength_frameOf message []
  rw [List.append_nil] at length
  refine ⟨by simp, ?_⟩
  rw [length, length_frameOf]
  omega

/-- A frame is found exactly where a message stands behind its length. -/
theorem front_eq_frame_iff :
    front bytes = .frame body rest ↔
      Message body ∧ bytes = frameOf body ++ rest := by
  constructor
  · intro found
    have decided : Decided bytes := by
      by_contra undecided
      rcases front_of_undecided undecided with
        ⟨stopped, -⟩ | ⟨stopped, -⟩ | ⟨stopped, -⟩ <;>
        rw [found] at stopped <;> cases stopped
    have bodyLength :
        (slice kLengthPrefixSize (prefixLength bytes) bytes).length =
          prefixLength bytes := by
      rw [length_slice]
      exact Nat.min_eq_left decided.2
    rw [front_of_decided decided] at found
    split_ifs at found with zero unknown mismatch
    rw [Front.frame.injEq] at found
    obtain ⟨rfl, rfl⟩ := found
    refine ⟨message_iff_headD.mpr ⟨?_, ?_⟩, ?_⟩
    · rw [← List.length_pos_iff, bodyLength]
      exact Nat.pos_of_ne_zero zero
    · rw [bodyLength, slice, headD_take zero]
      exact not_not.mp mismatch
    · have prefixBytes := bigBytes_bigValue (bytes.take kLengthPrefixSize)
      rw [List.length_take, Nat.min_eq_left decided.1] at prefixBytes
      rw [frameOf, bodyLength, prefixLength, prefixBytes, ← prefixLength,
        slice, ← List.drop_drop, List.append_assoc,
        List.take_append_drop, List.take_append_drop]
  · rintro ⟨message, rfl⟩
    have length := prefixLength_frameOf message []
    have decided := decided_frameOf message
    have whole : slice kLengthPrefixSize body.length (frameOf body) =
        body := by
      rw [slice, frameOf, List.drop_left' (length_bigBytes _ _),
        List.take_length]
    obtain ⟨nonempty, declared⟩ := message_iff_headD.mp message
    rw [List.append_nil] at length
    have positive : body.length ≠ 0 :=
      Nat.ne_of_gt (List.length_pos_iff.mpr nonempty)
    have declaredHere : declaredLength (frameOf body) = body.length := by
      rw [declaredLength, frameOf, List.drop_left' (length_bigBytes _ _),
        declared]
    have alone : front (frameOf body) = .frame body [] := by
      rw [front_of_decided decided, length, declaredHere, if_neg positive,
        if_neg positive, if_neg (not_not.mpr rfl), whole, Front.frame.injEq]
      exact ⟨rfl, List.drop_of_length_le length_frameOf.le⟩
    rw [front_append decided, alone]
    rfl

/--
A frame as the format defines it: a length of two bytes, more than zero, and as
many bytes behind it, the first of which is a type of that length.
-/
structure WellFormed (frame : List UInt8) : Prop where
  long : kLengthPrefixSize < frame.length
  length : prefixLength frame = frame.length - kLengthPrefixSize
  declared :
    messageLength ((frame.drop kLengthPrefixSize).headD 0) =
      prefixLength frame

theorem wellFormed_iff :
    WellFormed bytes ↔ ∃ body, Message body ∧ bytes = frameOf body := by
  constructor
  · rintro ⟨long, length, declared⟩
    have prefixBytes := bigBytes_bigValue (bytes.take kLengthPrefixSize)
    rw [List.length_take, Nat.min_eq_left long.le, ← prefixLength,
      length] at prefixBytes
    refine ⟨bytes.drop kLengthPrefixSize,
      message_iff_headD.mpr ⟨?_, ?_⟩, ?_⟩
    · rw [← List.length_pos_iff, List.length_drop]
      exact Nat.sub_pos_of_lt long
    · rw [declared, length, List.length_drop]
    · rw [frameOf, List.length_drop, prefixBytes, List.take_append_drop]
  · rintro ⟨body, message, rfl⟩
    have positive := message.length_pos
    have length := prefixLength_frameOf message []
    rw [List.append_nil] at length
    have behind : (frameOf body).drop kLengthPrefixSize = body :=
      List.drop_left' (length_bigBytes _ _)
    constructor
    case long =>
      rw [length_frameOf]
      omega
    case length =>
      rw [length, length_frameOf]
      omega
    case declared =>
      rw [behind, length]
      exact (message_iff_headD.mp message).2

end Frame

/-! ## Splitting a byte string into frames -/

/-- The bodies behind their lengths, one after another. -/
def framed (bodies : List (List UInt8)) : List UInt8 :=
  (bodies.map frameOf).flatten

@[simp]
theorem framed_nil : framed [] = [] := rfl

@[simp]
theorem framed_cons (body : List UInt8) (bodies : List (List UInt8)) :
    framed (body :: bodies) = frameOf body ++ framed bodies := by
  simp [framed]

@[simp]
theorem framed_append (first second : List (List UInt8)) :
    framed (first ++ second) = framed first ++ framed second := by
  simp [framed]

/-- The byte string is these frames and a rest which starts with none. -/
structure Splits (bytes : List UInt8) (bodies : List (List UInt8))
    (rest : List UInt8) : Prop where
  whole : bytes = framed bodies ++ rest
  messages : ∀ body ∈ bodies, Message body
  ends : ∀ body tail, front rest ≠ .frame body tail

theorem exists_splits (bytes : List UInt8) :
    ∃ bodies rest, Splits bytes bodies rest := by
  induction size : bytes.length using Nat.strong_induction_on
    generalizing bytes with
  | _ bound induction =>
      cases found : front bytes with
      | stop status error =>
          refine ⟨[], bytes, rfl, by simp, ?_⟩
          intro body tail frame
          rw [found] at frame
          cases frame
      | frame body tail =>
          obtain ⟨message, rfl⟩ := front_eq_frame_iff.mp found
          have shorter : tail.length < bound := by
            rw [← size, List.length_append, length_frameOf]
            have positive := message.length_pos
            omega
          obtain ⟨bodies, rest, whole, messages, ends⟩ :=
            induction tail.length shorter tail rfl
          refine ⟨body :: bodies, rest, ?_,
            List.forall_mem_cons.mpr ⟨message, messages⟩, ends⟩
          rw [whole, framed_cons, List.append_assoc]

/-- No sequence of well-formed frames in front of the string is longer. -/
theorem Splits.longest {bytes rest : List UInt8}
    {bodies : List (List UInt8)} (splits : Splits bytes bodies rest)
    {frames : List (List UInt8)}
    (wellFormed : ∀ frame ∈ frames, WellFormed frame)
    (ahead : frames.flatten <+: bytes) :
    frames <+: bodies.map frameOf := by
  induction frames generalizing bytes bodies with
  | nil => exact List.nil_prefix
  | cons frame frames induction =>
      obtain ⟨wellFormedHead, wellFormedTail⟩ :=
        List.forall_mem_cons.mp wellFormed
      obtain ⟨body, message, rfl⟩ := wellFormed_iff.mp wellFormedHead
      obtain ⟨more, equal⟩ := ahead
      rw [List.flatten_cons, List.append_assoc] at equal
      have found : front bytes = .frame body (frames.flatten ++ more) :=
        front_eq_frame_iff.mpr ⟨message, equal.symm⟩
      obtain ⟨whole, messages, ends⟩ := splits
      cases bodies with
      | nil =>
          rw [framed_nil, List.nil_append] at whole
          rw [whole] at found
          exact absurd found (ends _ _)
      | cons first bodies =>
          obtain ⟨firstMessage, laterMessages⟩ :=
            List.forall_mem_cons.mp messages
          rw [framed_cons, List.append_assoc] at whole
          have foundFirst : front bytes = .frame first
              (framed bodies ++ rest) :=
            front_eq_frame_iff.mpr ⟨firstMessage, whole⟩
          rw [found, Front.frame.injEq] at foundFirst
          obtain ⟨rfl, tails⟩ := foundFirst
          rw [List.map_cons, List.cons_prefix_cons]
          exact ⟨rfl, induction ⟨tails, laterMessages, ends⟩
            wellFormedTail (List.prefix_append _ _)⟩

/-- What is left behind the first frames. -/
theorem Splits.drop {bytes rest : List UInt8} {bodies : List (List UInt8)}
    (splits : Splits bytes bodies rest) (count : Nat) :
    bytes.drop (framed (bodies.take count)).length =
      framed (bodies.drop count) ++ rest := by
  have split : framed bodies =
      framed (bodies.take count) ++ framed (bodies.drop count) := by
    rw [← framed_append, List.take_append_drop]
  rw [splits.whole, split, List.append_assoc, List.drop_left]

/-! ## Repeated calls -/

namespace FrameCursor

/-- The cursor after so many calls of `next`. -/
def after (cursor : FrameCursor) : Nat → FrameCursor
  | 0 => cursor
  | calls + 1 => (cursor.after calls).next.2.2

/-- What is left to a cursor in front of the next frame. -/
theorem rest_of_splits {bytes rest : List UInt8}
    {bodies : List (List UInt8)} (splits : Splits bytes bodies rest)
    {calls : Nat} (within : calls < bodies.length) :
    FrameCursor.rest
        { buf := bytes, pos := (framed (bodies.take calls)).length } =
      frameOf bodies[calls] ++
        (framed (bodies.drop (calls + 1)) ++ rest) := by
  rw [FrameCursor.rest, splits.drop, List.drop_eq_getElem_cons within,
    framed_cons, List.append_assoc]

/-- A cursor at the end of the first frames produces the next one. -/
theorem after_splits {bytes rest : List UInt8}
    {bodies : List (List UInt8)} (splits : Splits bytes bodies rest)
    {calls : Nat} (within : calls ≤ bodies.length) :
    ({ buf := bytes } : FrameCursor).after calls =
      { buf := bytes, pos := (framed (bodies.take calls)).length } := by
  induction calls with
  | zero => simp [after]
  | succ calls induction =>
      have inside : calls < bodies.length := within
      rw [after, induction inside.le, next_eq]
      have found := front_eq_frame_iff.mpr
        ⟨splits.messages _ (List.getElem_mem inside),
          rest_of_splits splits inside⟩
      rw [found]
      simp only [FrameCursor.mk.injEq, true_and, and_true]
      rw [← List.take_append_getElem inside, framed_append, framed_cons,
        framed_nil, List.append_nil, List.length_append, length_frameOf]

end FrameCursor

/-! ## Why a cursor stops -/

/-- The prefix promises more bytes than follow it. -/
def Incomplete (rest : List UInt8) : Prop :=
  kLengthPrefixSize ≤ rest.length ∧ 0 < prefixLength rest ∧
    rest.length - kLengthPrefixSize < prefixLength rest

/-- All the bytes are there which the prefix promises. -/
def Complete (rest : List UInt8) : Prop :=
  kLengthPrefixSize ≤ rest.length ∧ 0 < prefixLength rest ∧
    prefixLength rest ≤ rest.length - kLengthPrefixSize

/-- The status and the error which describe a rest without a frame. -/
structure StopsWith (rest : List UInt8) (status : FrameStatus)
    (error : FrameError) : Prop where
  endOfInput : status = .endOfInput ↔ rest = []
  needMore : status = .needMore ↔ rest.length = 1 ∨ Incomplete rest
  malformed : status = .malformed ↔
    ¬ (rest = [] ∨ rest.length = 1 ∨ Incomplete rest)
  noError : error = .none ↔ rest = []
  truncatedLengthPrefix :
    error = .truncatedLengthPrefix ↔ rest.length = 1
  truncatedBody : error = .truncatedBody ↔ Incomplete rest
  zeroLength : error = .zeroLength ↔
    kLengthPrefixSize ≤ rest.length ∧ prefixLength rest = 0
  unknownType : error = .unknownType ↔
    Complete rest ∧ declaredLength rest = 0
  lengthMismatch : error = .lengthMismatch ↔
    Complete rest ∧ declaredLength rest ≠ 0 ∧
      declaredLength rest ≠ prefixLength rest

/-- A rest in front of which no frame stands is described as it is. -/
theorem stopsWith_of_front {rest : List UInt8} {status : FrameStatus}
    {error : FrameError} (stopped : front rest = .stop status error) :
    StopsWith rest status error := by
  by_cases decided : Decided rest
  · obtain ⟨long, complete⟩ := decided
    have nonempty : rest ≠ [] := by
      rintro rfl
      exact absurd long (by decide)
    have notOne : rest.length ≠ 1 := by
      unfold kLengthPrefixSize at long
      omega
    have notIncomplete : ¬ Incomplete rest := fun incomplete =>
      Nat.not_lt.mpr complete incomplete.2.2
    rw [front_of_decided ⟨long, complete⟩] at stopped
    by_cases zero : prefixLength rest = 0
    · rw [if_pos zero, Front.stop.injEq] at stopped
      obtain ⟨rfl, rfl⟩ := stopped
      constructor <;>
        simp [nonempty, notOne, notIncomplete, zero, long, Complete]
    · have isComplete : Complete rest :=
        ⟨long, Nat.pos_of_ne_zero zero, complete⟩
      rw [if_neg zero] at stopped
      by_cases unknown : declaredLength rest = 0
      · rw [if_pos unknown, Front.stop.injEq] at stopped
        obtain ⟨rfl, rfl⟩ := stopped
        constructor <;>
          simp [nonempty, notOne, notIncomplete, zero, isComplete, unknown]
      · rw [if_neg unknown] at stopped
        split_ifs at stopped with mismatch
        rw [Front.stop.injEq] at stopped
        obtain ⟨rfl, rfl⟩ := stopped
        constructor <;>
          simp [nonempty, notOne, notIncomplete, zero, isComplete, unknown,
            mismatch]
  · have notComplete : ¬ Complete rest := fun complete =>
      decided ⟨complete.1, complete.2.2⟩
    have notZero : ¬ (kLengthPrefixSize ≤ rest.length ∧
        prefixLength rest = 0) := fun ⟨long, zero⟩ =>
      decided ⟨long, zero ▸ Nat.zero_le _⟩
    rcases front_of_undecided decided with
      ⟨found, rfl⟩ | ⟨found, one⟩ | ⟨found, long, short⟩
    · rw [found, Front.stop.injEq] at stopped
      obtain ⟨rfl, rfl⟩ := stopped
      have notIncomplete : ¬ Incomplete [] := fun incomplete =>
        absurd incomplete.1 (by decide)
      constructor <;> simp [notComplete, notIncomplete, kLengthPrefixSize]
    · rw [found, Front.stop.injEq] at stopped
      obtain ⟨rfl, rfl⟩ := stopped
      have nonempty : rest ≠ [] := by
        rintro rfl
        cases one
      have notIncomplete : ¬ Incomplete rest := fun incomplete => by
        have long := incomplete.1
        unfold kLengthPrefixSize at long
        omega
      constructor <;> simp [nonempty, one, notComplete, notIncomplete,
        kLengthPrefixSize]
    · rw [found, Front.stop.injEq] at stopped
      obtain ⟨rfl, rfl⟩ := stopped
      have incomplete : Incomplete rest := ⟨long, by omega, short⟩
      have notOne : rest.length ≠ 1 := by
        unfold kLengthPrefixSize at long
        omega
      have nonempty : rest ≠ [] := by
        rintro rfl
        exact absurd long (by decide)
      constructor <;>
        simp only [nonempty, notOne, notComplete, incomplete, notZero,
          reduceCtorEq, or_true, not_true_eq_false, false_and]

/-! ## The whole scan -/

namespace FrameCursor

theorem after_add (cursor : FrameCursor) (first second : Nat) :
    cursor.after (first + second) = (cursor.after first).after second := by
  induction second with
  | zero => rfl
  | succ second induction =>
      rw [← Nat.add_assoc, after, induction]
      rfl

/-- A cursor which stops repeats itself and consumes nothing. -/
theorem next_after_stop {cursor : FrameCursor} {status : FrameStatus}
    {error : FrameError} (stopped : front cursor.rest = .stop status error)
    (calls : Nat) :
    (cursor.after calls).next = (status, none, { cursor with error }) := by
  have once : ∀ last, ({ cursor with error := last } : FrameCursor).next =
      (status, none, { cursor with error }) := by
    intro last
    rw [next_eq]
    have same : FrameCursor.rest { cursor with error := last } =
        cursor.rest := rfl
    rw [same, stopped]
  induction calls with
  | zero => exact once cursor.error
  | succ calls induction =>
      rw [after, induction]
      exact once error

end FrameCursor

/-- The scan of a byte string which splits in this way. -/
structure Scans (bytes : List UInt8) (bodies : List (List UInt8))
    (status : FrameStatus) (error : FrameError) : Prop where
  frames : ∀ (calls : Nat) (within : calls < bodies.length),
    (({ buf := bytes } : FrameCursor).after calls).next.1 = .ok ∧
      (({ buf := bytes } : FrameCursor).after calls).next.2.1 =
        some bodies[calls]
  offset : ∀ calls ≤ bodies.length,
    (({ buf := bytes } : FrameCursor).after calls).offset =
      (framed (bodies.take calls)).length
  stops : ∀ calls ≥ bodies.length,
    (({ buf := bytes } : FrameCursor).after calls).next.1 = status ∧
      (({ buf := bytes } : FrameCursor).after calls).next.2.1 = none ∧
      (({ buf := bytes } : FrameCursor).after calls).next.2.2.error =
        error ∧
      (({ buf := bytes } : FrameCursor).after calls).next.2.2.offset =
        (framed bodies).length

/-- A byte string has one scan. -/
theorem Scans.unique {bytes : List UInt8} {bodies others : List (List UInt8)}
    {status otherStatus : FrameStatus} {error otherError : FrameError}
    (scans : Scans bytes bodies status error)
    (other : Scans bytes others otherStatus otherError) :
    bodies = others ∧ status = otherStatus ∧ error = otherError := by
  have apart : ∀ {first second : List (List UInt8)}
      {firstStatus secondStatus : FrameStatus}
      {firstError secondError : FrameError},
      Scans bytes first firstStatus firstError →
        Scans bytes second secondStatus secondError →
          ¬ first.length < second.length := by
    intro first second _ _ _ _ stops goesOn shorter
    have none := (stops.stops first.length le_rfl).2.1
    rw [(goesOn.frames first.length shorter).2] at none
    cases none
  have length : bodies.length = others.length :=
    le_antisymm (not_lt.mp (apart other scans)) (not_lt.mp (apart scans other))
  have same : bodies = others := by
    refine List.ext_getElem length fun calls inside otherInside => ?_
    have frame := (scans.frames calls inside).2
    rw [(other.frames calls otherInside).2] at frame
    exact (Option.some.inj frame).symm
  obtain ⟨stops, -, failed, -⟩ := scans.stops bodies.length le_rfl
  obtain ⟨otherStops, -, otherFailed, -⟩ :=
    other.stops bodies.length length.ge
  exact ⟨same, stops.symm.trans otherStops, failed.symm.trans otherFailed⟩

/-- Behind its frames a cursor stops for good, with the rest before it. -/
theorem Splits.next_beyond {bytes rest : List UInt8}
    {bodies : List (List UInt8)} (splits : Splits bytes bodies rest)
    {status : FrameStatus} {error : FrameError}
    (stopped : front rest = .stop status error) {calls : Nat}
    (beyond : bodies.length ≤ calls) :
    (({ buf := bytes } : FrameCursor).after calls).next =
      (status, none,
        { buf := bytes, pos := (framed bodies).length, error }) := by
  obtain ⟨more, rfl⟩ := Nat.exists_eq_add_of_le beyond
  have here := FrameCursor.after_splits splits le_rfl
  rw [List.take_length] at here
  have tail : FrameCursor.rest
      { buf := bytes, pos := (framed bodies).length } = rest := by
    rw [FrameCursor.rest, splits.whole]
    exact List.drop_left
  rw [FrameCursor.after_add, here,
    FrameCursor.next_after_stop (by rw [tail, stopped])]

theorem Splits.scans {bytes rest : List UInt8} {bodies : List (List UInt8)}
    (splits : Splits bytes bodies rest) {status : FrameStatus}
    {error : FrameError} (stopped : front rest = .stop status error) :
    Scans bytes bodies status error := by
  have reached (calls : Nat) (within : calls ≤ bodies.length) :=
    FrameCursor.after_splits splits within
  constructor
  case frames =>
    intro calls within
    have found := front_eq_frame_iff.mpr
      ⟨splits.messages _ (List.getElem_mem within),
        FrameCursor.rest_of_splits splits within⟩
    rw [reached calls within.le, FrameCursor.next_eq, found]
    exact ⟨rfl, rfl⟩
  case offset =>
    intro calls within
    rw [reached calls within]
    rfl
  case stops =>
    intro calls beyond
    rw [splits.next_beyond stopped beyond]
    exact ⟨rfl, rfl, rfl, rfl⟩

/--
The cursor accepts exactly the grammar.  Over any buffer it produces the longest
sequence of well-formed frames in front of it, and then stops for the reason
which the rest gives; over framed messages it produces the messages.
-/
theorem frameCursor_acceptsGrammar :
    (∀ buffer : List UInt8, ∃ bodies rest status error,
      buffer = framed bodies ++ rest ∧
        (∀ body ∈ bodies, WellFormed (frameOf body)) ∧
        (∀ frames : List (List UInt8),
          (∀ frame ∈ frames, WellFormed frame) →
            frames.flatten <+: buffer → frames <+: bodies.map frameOf) ∧
        StopsWith rest status error ∧
        Scans buffer bodies status error) ∧
      ∀ messages : List (List UInt8), (∀ body ∈ messages, Message body) →
        Scans (framed messages) messages .endOfInput .none := by
  constructor
  · intro buffer
    obtain ⟨bodies, rest, splits⟩ := exists_splits buffer
    cases stopped : front rest with
    | frame body tail => exact absurd stopped (splits.ends body tail)
    | stop status error =>
        exact ⟨bodies, rest, status, error, splits.whole,
          fun body member =>
            wellFormed_iff.mpr ⟨body, splits.messages body member, rfl⟩,
          fun frames wellFormed ahead => splits.longest wellFormed ahead,
          stopsWith_of_front stopped, splits.scans stopped⟩
  · intro messages known
    have splits : Splits (framed messages) messages [] :=
      { whole := (List.append_nil _).symm
        messages := known
        ends := fun body tail found => by cases found }
    exact splits.scans rfl

/-- A delete message, and the start of a message of an unknown type. -/
example :
    let bytes := [0, 19, 68] ++ List.replicate 18 7 ++ [0, 1, 64, 0]
    (({ buf := bytes } : FrameCursor).after 1).next =
      (.malformed, none,
        { buf := bytes, pos := 21, error := .unknownType }) := by
  decide

end ItchExchange.Wire
