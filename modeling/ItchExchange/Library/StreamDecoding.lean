import Mathlib.Data.List.Infix

/-!
# Decoding a stream piece by piece

A streaming decoder consumes its input in pieces and delivers its output in
pieces.  What it can deliver, and whether the stream goes on, are functions of
the input consumed so far; the pieces do not enter into it.  `reach` is the part
of an input which such a decoder consumes: up to the end of the stream, or up to
the first place where the input is corrupt.
-/

namespace StreamDecoding

/-- Where a decoder stands in the stream. -/
inductive Standing where
  | more
  | ended
  | corrupt
deriving DecidableEq, Repr

/-- What a decoder can deliver, and where it stands, by what it consumed. -/
structure Decoding (α β : Type) where
  produce : List α → List β
  standing : List α → Standing
  grows : ∀ fed more, produce fed <+: produce (fed ++ more)

namespace Decoding

variable {α β : Type} (decoding : Decoding α β)

/-- The stream went on wherever more of the input was consumed. -/
def Live (fed : List α) : Prop :=
  ∀ earlier, earlier <+: fed → earlier ≠ fed →
    decoding.standing earlier = .more

/-- What is consumed in the end, when `fed` is consumed and the rest follows. -/
def reachFrom (fed : List α) : List α → List α
  | [] => fed
  | head :: tail =>
      if decoding.standing fed = .more then
        reachFrom (fed ++ [head]) tail
      else fed

/-- The part of an input which is consumed. -/
def reach (input : List α) : List α :=
  decoding.reachFrom [] input

variable {decoding} {fed rest used : List α}

theorem live_nil : decoding.Live [] := by
  intro earlier isPrefix other
  exact absurd (List.prefix_nil.mp isPrefix) other

/-- A live input goes on before each of its elements. -/
theorem Live.standing {head : α}
    (live : decoding.Live (fed ++ head :: used)) :
    decoding.standing fed = .more := by
  refine live fed (List.prefix_append fed _) fun same => ?_
  have longer := congrArg List.length same
  simp at longer

/-- What was consumed live is part of what is consumed in the end. -/
theorem Live.reachFrom_append (live : decoding.Live (fed ++ used)) :
    decoding.reachFrom fed (used ++ rest) =
      decoding.reachFrom (fed ++ used) rest := by
  induction used generalizing fed with
  | nil => rw [List.nil_append, List.append_nil]
  | cons head tail induction =>
      have split : fed ++ head :: tail = fed ++ [head] ++ tail := by
        rw [List.append_assoc, List.singleton_append]
      rw [List.cons_append, reachFrom, if_pos live.standing, split]
      exact induction (split ▸ live)

theorem Live.reach_append (live : decoding.Live fed) :
    decoding.reach (fed ++ rest) = decoding.reachFrom fed rest := by
  have whole : decoding.Live ([] ++ fed) := live
  exact whole.reachFrom_append

theorem prefix_reachFrom (decoding : Decoding α β) (fed rest : List α) :
    fed <+: decoding.reachFrom fed rest := by
  induction rest generalizing fed with
  | nil => exact List.prefix_refl fed
  | cons head tail induction =>
      rw [reachFrom]
      split_ifs
      · exact (List.prefix_append fed [head]).trans (induction _)
      · exact List.prefix_refl fed

theorem reachFrom_prefix (decoding : Decoding α β) (fed rest : List α) :
    decoding.reachFrom fed rest <+: fed ++ rest := by
  induction rest generalizing fed with
  | nil => rw [List.append_nil]; exact List.prefix_refl fed
  | cons head tail induction =>
      rw [reachFrom]
      split_ifs
      · have split : fed ++ head :: tail = fed ++ [head] ++ tail := by
          rw [List.append_assoc, List.singleton_append]
        exact split ▸ induction (fed ++ [head])
      · exact List.prefix_append fed _

/-- A stream which goes on is consumed whole. -/
theorem reachFrom_more
    (goesOn : decoding.standing (decoding.reachFrom fed rest) = .more) :
    decoding.reachFrom fed rest = fed ++ rest := by
  induction rest generalizing fed with
  | nil => exact (List.append_nil fed).symm
  | cons head tail induction =>
      rw [reachFrom] at goesOn ⊢
      split_ifs at goesOn ⊢ with here
      · rw [induction goesOn, List.append_assoc, List.singleton_append]
      · exact absurd goesOn here

theorem reachFrom_stopped (stopped : decoding.standing fed ≠ .more) :
    decoding.reachFrom fed rest = fed := by
  cases rest with
  | nil => rfl
  | cons head tail => exact if_neg stopped

theorem live_reachFrom (live : decoding.Live fed) :
    decoding.Live (decoding.reachFrom fed rest) := by
  induction rest generalizing fed with
  | nil => exact live
  | cons head tail induction =>
      rw [reachFrom]
      split_ifs with goesOn
      · refine induction fun earlier isPrefix other => ?_
        rcases List.prefix_concat_iff.mp isPrefix with same | before
        · exact absurd same other
        · by_cases all : earlier = fed
          · exact all ▸ goesOn
          · exact live earlier before all
      · exact live

/-- Behind the end, and behind corrupt input, nothing is consumed. -/
theorem Live.reach_stopped (live : decoding.Live fed)
    (stopped : decoding.standing fed ≠ .more) :
    decoding.reach (fed ++ rest) = fed :=
  live.reach_append.trans (reachFrom_stopped stopped)

theorem Live.reach_self (live : decoding.Live fed) :
    decoding.reach fed = fed := by
  have whole : decoding.reach (fed ++ []) = fed := live.reach_append
  rwa [List.append_nil] at whole

/-- What can be delivered on the way can be delivered in the end. -/
theorem Live.produce_prefix (live : decoding.Live fed) (rest : List α) :
    decoding.produce fed <+:
      decoding.produce (decoding.reach (fed ++ rest)) := by
  obtain ⟨more, whole⟩ := prefix_reachFrom decoding fed rest
  rw [live.reach_append, ← whole]
  exact decoding.grows fed more

end Decoding

end StreamDecoding
