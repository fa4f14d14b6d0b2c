import ItchExchange.Wire.FrameGrammar

/-!
# A stream which is cut short

The scan of the first bytes of a buffer returns the frames which end among them,
and every decision it makes is one of the scan of the whole buffer: a front which
is decided stays the same when more bytes follow.
-/

namespace ItchExchange.Wire

open ByteString

section Cut

variable {bytes rest : List UInt8} {bodies : List (List UInt8)}

theorem length_framed_take_mono (bodies : List (List UInt8))
    {first second : Nat} (ordered : first ≤ second) :
    (framed (bodies.take first)).length ≤
      (framed (bodies.take second)).length := by
  rw [← List.take_append_drop first (bodies.take second), List.take_take,
    Nat.min_eq_left ordered, framed_append, List.length_append]
  exact Nat.le_add_right _ _

/-- How many of the first frames end within the cut. -/
def framesWithin (bodies : List (List UInt8)) (n : Nat) : Nat :=
  Nat.findGreatest
    (fun count => (framed (bodies.take count)).length ≤ n) bodies.length

theorem framesWithin_le (bodies : List (List UInt8)) (n : Nat) :
    framesWithin bodies n ≤ bodies.length :=
  Nat.findGreatest_le bodies.length

theorem length_framesWithin (bodies : List (List UInt8)) (n : Nat) :
    (framed (bodies.take (framesWithin bodies n))).length ≤ n :=
  Nat.findGreatest_spec
    (P := fun count => (framed (bodies.take count)).length ≤ n)
    (Nat.zero_le _) (Nat.zero_le _)

theorem le_framesWithin_iff {n count : Nat}
    (within : count ≤ bodies.length) :
    count ≤ framesWithin bodies n ↔
      (framed (bodies.take count)).length ≤ n := by
  constructor
  · intro below
    exact (length_framed_take_mono bodies below).trans
      (length_framesWithin bodies n)
  · exact fun ends => Nat.le_findGreatest within ends

/-- What the cut leaves behind the frames which end within it. -/
def cutRest (bytes : List UInt8) (bodies : List (List UInt8)) (n : Nat) :
    List UInt8 :=
  (bytes.take n).drop (framed (bodies.take (framesWithin bodies n))).length

theorem Splits.cutRest_append (splits : Splits bytes bodies rest) {n : Nat}
    (inside : n ≤ bytes.length) :
    cutRest bytes bodies n ++ bytes.drop n =
      framed (bodies.drop (framesWithin bodies n)) ++ rest := by
  have ends := length_framesWithin bodies n
  rw [← splits.drop (framesWithin bodies n), cutRest,
    ← List.drop_append_of_le_length (by
      rw [List.length_take]
      omega), List.take_append_drop]

/-- The next frame does not end within the cut. -/
theorem length_cutRest (bytes : List UInt8) {n : Nat}
    (more : framesWithin bodies n < bodies.length) :
    (cutRest bytes bodies n).length <
      (frameOf bodies[framesWithin bodies n]).length := by
  have beyond : ¬ (framed (bodies.take (framesWithin bodies n + 1))).length ≤
      n := fun ends =>
    Nat.not_succ_le_self _ ((le_framesWithin_iff more).mpr ends)
  have ends := length_framesWithin bodies n
  rw [← List.take_append_getElem more, framed_append, framed_cons, framed_nil,
    List.append_nil, List.length_append] at beyond
  rw [cutRest, List.length_drop, List.length_take]
  omega

theorem Splits.cut (splits : Splits bytes bodies rest) {n : Nat}
    (inside : n ≤ bytes.length) :
    Splits (bytes.take n) (bodies.take (framesWithin bodies n))
      (cutRest bytes bodies n) := by
  have ends := length_framesWithin bodies n
  constructor
  case whole =>
    have ahead : framed (bodies.take (framesWithin bodies n)) =
        (bytes.take n).take
          (framed (bodies.take (framesWithin bodies n))).length := by
      have split : framed bodies =
          framed (bodies.take (framesWithin bodies n)) ++
            framed (bodies.drop (framesWithin bodies n)) := by
        rw [← framed_append, List.take_append_drop]
      rw [List.take_take, Nat.min_eq_left ends, splits.whole, split,
        List.append_assoc, List.take_left]
    exact (List.take_append_drop _ _).symm.trans
      (congrArg (· ++ _) ahead.symm)
  case messages =>
    exact fun body member =>
      splits.messages body (List.mem_of_mem_take member)
  case ends =>
    intro body tail found
    obtain ⟨message, shape⟩ := front_eq_frame_iff.mp found
    have whole := splits.cutRest_append inside
    rw [shape, List.append_assoc] at whole
    have foundWhole := front_eq_frame_iff.mpr ⟨message, whole.symm⟩
    rcases Nat.lt_or_eq_of_le (framesWithin_le bodies n) with more | all
    · have next := front_eq_frame_iff.mpr
        ⟨splits.messages _ (List.getElem_mem more),
          FrameCursor.rest_of_splits splits more⟩
      have short := length_cutRest bytes more
      rw [FrameCursor.rest, splits.drop, foundWhole, Front.frame.injEq]
        at next
      rw [shape, List.length_append, next.1] at short
      omega
    · rw [all, List.drop_length, framed_nil, List.nil_append] at foundWhole
      exact splits.ends _ _ foundWhole

end Cut

/-- The scan of a buffer, and that of its first bytes. -/
structure CutsShort (buffer : List UInt8) (n : Nat)
    (bodies : List (List UInt8)) (status : FrameStatus) (error : FrameError)
    (kept : Nat) (cutStatus : FrameStatus) (cutError : FrameError) :
    Prop where
  /-- The cut scan returns the frames which end at or before the cut. -/
  frames : ∀ count ≤ bodies.length,
    count ≤ kept ↔ (framed (bodies.take count)).length ≤ n
  within : kept ≤ bodies.length
  malformed : cutStatus = .malformed →
    status = .malformed ∧ error = cutError ∧ kept = bodies.length
  boundary : status = .endOfInput →
    (∃ count ≤ bodies.length, (framed (bodies.take count)).length = n) →
      cutStatus = .endOfInput
  /-- A cut inside a frame leaves a part of it. -/
  inside : status = .endOfInput →
    (∀ count ≤ bodies.length, (framed (bodies.take count)).length ≠ n) →
      cutStatus = .needMore ∧
        ∃ body ∈ bodies[kept]?, ∃ got < (frameOf body).length, 0 < got ∧
          n = (framed (bodies.take kept)).length + got ∧
            ∀ calls ≥ kept,
              (({ buf := buffer.take n } : FrameCursor).after
                  calls).next.2.2.rest =
                (frameOf body).take got

section Stops

variable {bytes rest : List UInt8} {bodies : List (List UInt8)} {n : Nat}

/-- A cut which finds a malformed frame has left all of it. -/
theorem Splits.malformed_cut (splits : Splits bytes bodies rest)
    (inside : n ≤ bytes.length) {error : FrameError}
    (stopped : front (cutRest bytes bodies n) = .stop .malformed error) :
    front rest = .stop .malformed error ∧
      framesWithin bodies n = bodies.length := by
  have decided : Decided (cutRest bytes bodies n) := by
    by_contra undecided
    rcases front_of_undecided undecided with
      ⟨other, -⟩ | ⟨other, -⟩ | ⟨other, -⟩ <;>
      rw [stopped] at other <;> cases other
  have whole := front_append decided (bytes.drop n)
  rw [stopped, splits.cutRest_append inside] at whole
  rcases Nat.lt_or_eq_of_le (framesWithin_le bodies n) with more | all
  · have next := front_eq_frame_iff.mpr
      ⟨splits.messages _ (List.getElem_mem more),
        FrameCursor.rest_of_splits splits more⟩
    rw [FrameCursor.rest, splits.drop, whole] at next
    cases next
  · rw [all, List.drop_length, framed_nil, List.nil_append] at whole
    exact ⟨whole, all⟩

/-- Where frames alone were cut, the cut leaves nothing or a part of one. -/
theorem Splits.cutRest_of_framed (splits : Splits bytes bodies [])
    (inside : n ≤ bytes.length) :
    cutRest bytes bodies n = [] ∧
        (framed (bodies.take (framesWithin bodies n))).length = n ∨
      ∃ body ∈ bodies[framesWithin bodies n]?,
        ∃ got < (frameOf body).length, 0 < got ∧
          n = (framed (bodies.take (framesWithin bodies n))).length + got ∧
            cutRest bytes bodies n = (frameOf body).take got := by
  have ends := length_framesWithin bodies n
  have whole := splits.cutRest_append inside
  have length : (cutRest bytes bodies n).length =
      n - (framed (bodies.take (framesWithin bodies n))).length := by
    rw [cutRest, List.length_drop, List.length_take,
      Nat.min_eq_left inside]
  rw [List.append_nil] at whole
  rcases Nat.lt_or_eq_of_le (framesWithin_le bodies n) with more | all
  · by_cases boundary :
        (framed (bodies.take (framesWithin bodies n))).length = n
    · exact Or.inl ⟨List.eq_nil_of_length_eq_zero (by omega), boundary⟩
    · have short := length_cutRest bytes more
      refine Or.inr ⟨_, List.getElem?_eq_getElem more, _, short, by omega,
        by omega, ?_⟩
      rw [List.drop_eq_getElem_cons more, framed_cons] at whole
      have ahead := congrArg
        (List.take (cutRest bytes bodies n).length) whole
      rwa [List.take_left, List.take_append_of_le_length short.le] at ahead
  · rw [all, List.drop_length, framed_nil, List.append_eq_nil_iff] at whole
    have nothing := congrArg List.length whole.1
    rw [length, List.length_nil] at nothing
    exact Or.inl ⟨whole.1, by omega⟩

end Stops

/--
Cutting a stream short never changes what was decoded before.  For every buffer
and every cut, the scan of the first bytes returns the frames of the whole scan
which end within them, stops at a malformed frame only where the whole scan does,
and tells a cut between frames from one inside a frame.
-/
theorem frameCursor_cutShort (buffer : List UInt8) {n : Nat}
    (inside : n ≤ buffer.length) :
    ∃ bodies status error kept cutStatus cutError,
      Scans buffer bodies status error ∧
        Scans (buffer.take n) (bodies.take kept) cutStatus cutError ∧
        CutsShort buffer n bodies status error kept cutStatus cutError := by
  obtain ⟨bodies, rest, splits⟩ := exists_splits buffer
  have cut := splits.cut inside
  cases stopped : front rest with
  | frame body tail => exact absurd stopped (splits.ends body tail)
  | stop status error =>
      cases cutStopped : front (cutRest buffer bodies n) with
      | frame body tail => exact absurd cutStopped (cut.ends body tail)
      | stop cutStatus cutError =>
          refine ⟨bodies, status, error, framesWithin bodies n, cutStatus,
            cutError, splits.scans stopped, cut.scans cutStopped, ?_⟩
          have reasons := stopsWith_of_front stopped
          have cutReasons := stopsWith_of_front cutStopped
          constructor
          case frames => exact fun count within => le_framesWithin_iff within
          case within => exact framesWithin_le bodies n
          case malformed =>
            rintro rfl
            obtain ⟨same, all⟩ := splits.malformed_cut inside cutStopped
            rw [stopped, Front.stop.injEq] at same
            exact ⟨same.1, same.2, all⟩
          case boundary =>
            rintro rfl ⟨count, within, ends⟩
            obtain rfl := reasons.endOfInput.mp rfl
            rcases splits.cutRest_of_framed inside with
              ⟨nothing, -⟩ | ⟨_, _, got, _, positive, cutAt, -⟩
            · exact cutReasons.endOfInput.mpr nothing
            · have below := (le_framesWithin_iff within).mpr ends.le
              have before := length_framed_take_mono bodies below
              omega
          case inside =>
            rintro rfl notBoundary
            obtain rfl := reasons.endOfInput.mp rfl
            rcases splits.cutRest_of_framed inside with
              ⟨-, ends⟩ | ⟨body, found, got, short, positive, cutAt, left⟩
            · exact absurd ends (notBoundary _ (framesWithin_le bodies n))
            · have some : cutRest buffer bodies n ≠ [] := by
                rw [← List.length_pos_iff, left, List.length_take,
                  Nat.min_eq_left short.le]
                exact positive
              have notMalformed : cutStatus ≠ .malformed := by
                rintro rfl
                obtain ⟨same, -⟩ := splits.malformed_cut inside cutStopped
                cases same
              have wants := not_not.mp (mt cutReasons.malformed.mpr notMalformed)
              refine ⟨cutReasons.needMore.mpr (wants.resolve_left some), body,
                found, got, short, positive, cutAt, fun calls beyond => ?_⟩
              rw [cut.next_beyond cutStopped ((List.length_take_le _ _).trans
                beyond), ← left]
              rfl

/-- Two delete messages. -/
def twoDeletes : List (List UInt8) :=
  [68 :: List.replicate 18 7, 68 :: List.replicate 18 9]

theorem splits_twoDeletes : Splits (framed twoDeletes) twoDeletes [] where
  whole := (List.append_nil _).symm
  messages := by
    simp only [twoDeletes, List.forall_mem_cons]
    exact ⟨⟨_, rfl, by decide⟩, ⟨_, rfl, by decide⟩,
      fun _ member => absurd member List.not_mem_nil⟩
  ends := fun _ _ found => by cases found

/-- A cut at the tenth byte of the second frame. -/
theorem frameCursor_cutShort_twoDeletes :
    31 ≤ (framed twoDeletes).length ∧
      ∃ error cutError,
        Scans (framed twoDeletes) twoDeletes .endOfInput error ∧
          Scans ((framed twoDeletes).take 31) (twoDeletes.take 1) .needMore
            cutError ∧
          CutsShort (framed twoDeletes) 31 twoDeletes .endOfInput error 1
            .needMore cutError ∧
          ∀ calls ≥ 1,
            (({ buf := (framed twoDeletes).take 31 } : FrameCursor).after
                calls).next.2.2.rest = [0, 19, 68, 9, 9, 9, 9, 9, 9, 9] := by
  obtain ⟨bodies, status, error, kept, cutStatus, cutError, scans, cutScans,
    cuts⟩ := frameCursor_cutShort (framed twoDeletes)
      (show 31 ≤ (framed twoDeletes).length by decide)
  obtain ⟨rfl, rfl, -⟩ := scans.unique (splits_twoDeletes.scans rfl)
  have one := (cuts.frames 1 (by decide)).mpr (by decide)
  have two := mt (cuts.frames 2 (by decide)).mp (by decide)
  obtain rfl : kept = 1 := by omega
  obtain ⟨rfl, body, found, got, -, -, cutAt, left⟩ :=
    cuts.inside rfl (by decide)
  have ten : got = 10 := by
    change 31 = 21 + got at cutAt
    omega
  subst ten
  cases found
  exact ⟨by decide, error, cutError, scans, cutScans, cuts, left⟩

end ItchExchange.Wire
