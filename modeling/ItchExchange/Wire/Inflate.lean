import ItchExchange.Library.StreamDecoding
import ItchExchange.Wire.GzipSource

/-!
# What zlib documents of `inflate`

The stream format is a `Decoding`: what can be delivered depends only on what
was consumed, and so does whether the stream goes on, has ended or is corrupt.
`Zlib` is the contract of `inflate` over that format.  A call may use up all of
its input and leave output for a later call with more room; `HoldsBack` says
that it did.

`Buffering` is an inflater which meets the contract over any format.
-/

namespace ItchExchange.Wire

open StreamDecoding

section Contract

variable {Z : Type} [Inflater Z] (decoding : Decoding UInt8 UInt8)
  (after : Z → List UInt8 → List UInt8 → Prop)

/-- What a call answers, once `fed` was consumed and `given` delivered. -/
structure Answered (fed given input : List UInt8) (room : Nat)
    (call : Inflated Z) : Prop where
  consumes : call.used ≤ input.length
  fits : call.out.length ≤ room
  later :
    after call.zs (fed ++ input.take call.used) (given ++ call.out)
  ok : call.rc = .ok →
    call.out.length = room ∨
      call.used = input.length ∧
        given ++ call.out =
          decoding.produce (fed ++ input.take call.used) ∧
        decoding.standing (fed ++ input.take call.used) = .more
  streamEnd : call.rc = .streamEnd →
    given ++ call.out = decoding.produce (fed ++ input.take call.used) ∧
      decoding.standing (fed ++ input.take call.used) = .ended
  bufError : call.rc = .bufError →
    call.used = 0 ∧ call.out = [] ∧
      (0 < room →
        if input = [] then
          given = decoding.produce fed ∧ decoding.standing fed = .more
        else decoding.standing fed = .corrupt)
  failed : ∀ msg, call.rc = .failed msg →
    decoding.standing (fed ++ input.take call.used) = .corrupt

/-- The contract; `after` relates a state to what was consumed and delivered. -/
structure Zlib : Prop where
  starts : ∀ windowBits zs,
    Inflater.inflateInit2 windowBits = some zs → after zs [] []
  live : ∀ {zs fed given}, after zs fed given → decoding.Live fed
  delivers : ∀ {zs fed given}, after zs fed given →
    given <+: decoding.produce fed
  answers : ∀ {zs fed given}, after zs fed given → ∀ input room,
    Answered decoding after fed given input room
      (Inflater.inflate zs input room)

/-- With room but no further input, there would be output or an error. -/
def HoldsBack (zs : Z) : Prop :=
  ∃ room, (Inflater.inflate zs [] room).out ≠ [] ∨
    ∃ msg, (Inflater.inflate zs [] room).rc = .failed msg

variable {decoding after} {zs : Z} {fed given : List UInt8}

/-- What is held back is output, or the news that the input is corrupt. -/
theorem Zlib.holdsBack_iff (zlib : Zlib decoding after)
    (history : after zs fed given) :
    HoldsBack zs ↔
      given ≠ decoding.produce fed ∨ decoding.standing fed = .corrupt := by
  constructor
  · rintro ⟨room, pending⟩
    have answered := zlib.answers history [] room
    have delivered := zlib.delivers answered.later
    have failed := answered.failed
    simp only [List.take_nil, List.append_nil] at delivered failed
    rcases pending with some | ⟨msg, code⟩
    · refine Or.inl fun same => some ?_
      have short := delivered.length_le
      rw [List.length_append, ← same] at short
      exact List.eq_nil_of_length_eq_zero (by omega)
    · exact Or.inr (failed msg code)
  · intro behind
    by_contra nothing
    have answered := zlib.answers history [] 1
    have silent : (Inflater.inflate zs [] 1).out = [] := by
      by_contra some
      exact nothing ⟨1, Or.inl some⟩
    have ok := answered.ok
    have ended := answered.streamEnd
    simp only [silent, List.take_nil, List.append_nil, List.length_nil]
      at ok ended
    cases code : (Inflater.inflate zs [] 1).rc with
    | ok =>
        obtain ⟨-, same, goesOn⟩ := (ok code).resolve_left (by decide)
        exact behind.elim (· same) (by simp [goesOn])
    | streamEnd =>
        obtain ⟨same, ends⟩ := ended code
        exact behind.elim (· same) (by simp [ends])
    | bufError =>
        obtain ⟨-, -, stuck⟩ := answered.bufError code
        obtain ⟨same, goesOn⟩ := (if_pos rfl).mp (stuck Nat.one_pos)
        exact behind.elim (· same) (by simp [goesOn])
    | failed msg => exact nothing ⟨1, Or.inr ⟨msg, code⟩⟩

end Contract

/-! ## An inflater which meets the contract -/

/-- The state of an inflater which remembers the whole stream. -/
structure Buffering (decoding : Decoding UInt8 UInt8) where
  fed : List UInt8 := []
  given : List UInt8 := []
deriving DecidableEq

namespace Buffering

variable {decoding : Decoding UInt8 UInt8}

/-- The code of a call: the end and an error come behind all the output. -/
def code (decoding : Decoding UInt8 UInt8) (fed given : List UInt8)
    (progress : Bool) : InflateCode :=
  if given = decoding.produce fed ∧ decoding.standing fed = .ended then
    .streamEnd
  else if given = decoding.produce fed ∧
      decoding.standing fed = .corrupt then .failed none
  else if progress = false then .bufError
  else .ok

/-- With all the output delivered, the end and an error are reported. -/
theorem goesOn_of_unreported {fed given : List UInt8}
    (ends : ¬ (given = decoding.produce fed ∧
      decoding.standing fed = .ended))
    (spoilt : ¬ (given = decoding.produce fed ∧
      decoding.standing fed = .corrupt))
    (all : given = decoding.produce fed) :
    decoding.standing fed = .more := by
  cases stands : decoding.standing fed with
  | more => rfl
  | ended => exact absurd ⟨all, stands⟩ ends
  | corrupt => exact absurd ⟨all, stands⟩ spoilt

/-- Consumes what it can, and delivers what there is room for. -/
def inflate (zs : Buffering decoding) (input : List UInt8) (room : Nat) :
    Inflated (Buffering decoding) :=
  let fed := decoding.reachFrom zs.fed input
  let used := fed.length - zs.fed.length
  let out := ((decoding.produce fed).drop zs.given.length).take room
  let given := zs.given ++ out
  { rc := code decoding fed given (decide (used ≠ 0 ∨ out ≠ []))
    used
    out
    zs := { fed, given } }

instance : Inflater (Buffering decoding) where
  inflateInit2 := fun _ => some {}
  inflate := inflate

/-- The state remembers what was consumed and what was delivered. -/
structure After (zs : Buffering decoding) (fed given : List UInt8) :
    Prop where
  state : zs = { fed, given }
  live : decoding.Live fed
  delivers : given <+: decoding.produce fed

/-- A call consumes `part` of the input and delivers `pending` as it can. -/
theorem inflate_eq {fed given part pending input : List UInt8}
    (reaches : decoding.reachFrom fed input = fed ++ part)
    (produces : decoding.produce (fed ++ part) = given ++ pending)
    (room : Nat) :
    inflate ({ fed, given } : Buffering decoding) input room =
      { rc := code decoding (fed ++ part) (given ++ pending.take room)
          (decide (part.length ≠ 0 ∨ pending.take room ≠ []))
        used := part.length
        out := pending.take room
        zs :=
          { fed := fed ++ part
            given := given ++ pending.take room } } := by
  simp only [inflate, reaches, produces, List.length_append,
    Nat.add_sub_cancel_left, List.drop_left]

theorem answered {zs : Buffering decoding} {fed given : List UInt8}
    (history : After zs fed given) (input : List UInt8) (room : Nat) :
    Answered decoding After fed given input room
      (inflate zs input room) := by
  obtain ⟨rfl, live, delivers⟩ := history
  obtain ⟨part, reaches⟩ :=
    Decoding.prefix_reachFrom decoding fed input
  have isPart : part <+: input := by
    have whole := Decoding.reachFrom_prefix decoding fed input
    rwa [← reaches, List.prefix_append_right_inj] at whole
  have taken : input.take part.length = part :=
    (List.prefix_iff_eq_take.mp isPart).symm
  obtain ⟨pending, produces⟩ :=
    delivers.trans (decoding.grows fed part)
  rw [inflate_eq reaches.symm produces.symm]
  have liveAfter : decoding.Live (fed ++ part) :=
    reaches ▸ Decoding.live_reachFrom live
  have consumed :
      decoding.standing (fed ++ part) = .more → part = input := by
    intro goesOn
    rw [reaches] at goesOn
    exact List.append_cancel_left
      (reaches.trans (Decoding.reachFrom_more goesOn))
  -- Output which finds no room fills all the room there is.
  have delivered : (pending.take room).length = room ∨
      given ++ pending.take room = decoding.produce (fed ++ part) := by
    rcases Nat.le_total room pending.length with full | short
    · exact Or.inl (by rw [List.length_take, Nat.min_eq_left full])
    · exact Or.inr (by rw [List.take_of_length_le short, produces])
  constructor
  case consumes => exact isPart.length_le
  case fits => exact List.length_take_le room pending
  case later =>
    dsimp only
    rw [taken]
    refine ⟨rfl, liveAfter, ?_⟩
    rw [← produces, List.prefix_append_right_inj]
    exact List.take_prefix room pending
  case ok =>
    intro rc
    dsimp only at rc ⊢
    unfold code at rc
    split_ifs at rc with ends spoilt stuck
    rcases delivered with full | all
    · exact Or.inl full
    have goesOn := goesOn_of_unreported ends spoilt all
    rw [taken]
    exact Or.inr ⟨consumed goesOn ▸ rfl, all, goesOn⟩
  case streamEnd =>
    intro rc
    dsimp only at rc ⊢
    unfold code at rc
    split_ifs at rc with ends
    exact taken.symm ▸ ends
  case bufError =>
    intro rc
    dsimp only at rc ⊢
    unfold code at rc
    split_ifs at rc with ends spoilt stuck
    simp only [ne_eq, decide_eq_false_iff_not, not_or, not_not,
      List.length_eq_zero_iff] at stuck
    obtain ⟨rfl, nothing⟩ := stuck
    rw [List.append_nil] at ends spoilt consumed delivered
    rw [nothing, List.append_nil] at ends spoilt delivered
    refine ⟨rfl, nothing, fun someRoom => ?_⟩
    have all : given = decoding.produce fed :=
      delivered.resolve_left (Nat.ne_of_lt someRoom)
    have goesOn := goesOn_of_unreported ends spoilt all
    rw [if_pos (consumed goesOn).symm]
    exact ⟨all, goesOn⟩
  case failed =>
    intro msg rc
    dsimp only at rc ⊢
    unfold code at rc
    split_ifs at rc with ends spoilt stuck
    exact taken.symm ▸ spoilt.2

theorem zlib : Zlib decoding (@After decoding) where
  starts := by
    rintro windowBits zs (⟨⟩)
    exact ⟨rfl, Decoding.live_nil, List.nil_prefix⟩
  live := fun history => history.live
  delivers := fun history => history.delivers
  answers := fun history input room => answered history input room

end Buffering

end ItchExchange.Wire
