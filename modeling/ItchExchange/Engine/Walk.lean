import ItchExchange.Book.ArrivalBook
import ItchExchange.Engine.MatchingEngine

/-!
# Price-time-priority matching as one walk

`walk` recurses once over the orders which oppose an incoming order, best price
first and oldest first within a price.  Its laws say where the quantity goes:
what the incoming order loses and what the queue loses are the fills, apart
from the orders which self-trade prevention pulls out.
-/

namespace ItchExchange.Engine

open ItchExchange.Core ItchExchange.Book

/-! ## The walk -/

/-- What a walk down the opposing queue leads to. -/
structure Walk where
  fills : List Fill := []
  left : List Resting := []
  remaining : Qty
  pulled : List Resting := []
  events : Nat := 0
  stopped : Bool := false
deriving DecidableEq, Repr

/--
The price test of the walk, as a comparison of prices: a limit to buy trades up
to its price, and a limit to sell down to it.
-/
theorem crosses_iff {order : NewOrder} {touch : Price} :
    crosses order touch = true ↔
      order.type = .market ∨
        order.side = .buy ∧ touch ≤ order.price ∨
        order.side = .sell ∧ order.price ≤ touch := by
  unfold crosses
  cases order.type with
  | market => exact iff_of_true rfl (.inl rfl)
  | limit =>
      cases order.side with
      | buy => simp
      | sell => simp

/-- A touch is crossed unless it lies further off than the limit. -/
theorem crosses_iff_not_closer {order : NewOrder} {touch : Price} :
    crosses order touch = true ↔
      order.type = .market ∨
        ¬ Closer (opposite order.side) order.price touch := by
  rw [crosses_iff]
  refine or_congr_right ?_
  cases order.side with
  | buy => simp [opposite, Closer]
  | sell => simp [opposite, Closer]

/-- The fill of `traded` shares against one resting order. -/
def fillAgainst (order : NewOrder) (head : Resting) (traded : Qty) :
    Fill where
  aggressor := order.clientId
  resting := head.ref
  aggressorOwner := order.owner
  restingOwner := head.owner
  price := head.price
  qty := traded

/-- Shares traded between what remains of an order and a resting order. -/
def tradedQty (remaining available : Qty) : Qty :=
  if remaining < available then remaining else available

/-- The head belongs to the incoming participant, and that matters. -/
def SelfTrade (stp : StpMode) (order : NewOrder) (head : Resting) : Prop :=
  stp ≠ .off ∧ head.owner = order.owner ∧ order.owner ≠ 0

instance (stp : StpMode) (order : NewOrder) (head : Resting) :
    Decidable (SelfTrade stp order head) := by
  unfold SelfTrade
  infer_instance

/-- Price-time-priority matching, as one walk down the opposing queue. -/
def walk (stp : StpMode) (order : NewOrder) : Qty → List Resting → Walk
  | remaining, [] => { remaining }
  | remaining, head :: tail =>
      if remaining = 0 ∨ crosses order head.price = false then
        { left := head :: tail, remaining }
      else if SelfTrade stp order head then
        match stp with
        | .cancelOldest =>
            let rest := walk stp order remaining tail
            { rest with
              pulled := head :: rest.pulled
              events := rest.events + 1 }
        | .cancelBoth =>
            { left := tail
              remaining
              pulled := [head]
              events := 1
              stopped := true }
        | _ =>
            { left := head :: tail, remaining, events := 1, stopped := true }
      else
        let traded := tradedQty remaining head.qty
        let fill := fillAgainst order head traded
        if traded = head.qty then
          let rest := walk stp order (remaining - traded) tail
          { rest with fills := fill :: rest.fills }
        else
          { fills := [fill]
            left := { head with qty := head.qty - traded } :: tail
            remaining := remaining - traded }

theorem walk_nil (stp : StpMode) (order : NewOrder) (remaining : Qty) :
    walk stp order remaining [] = { remaining } :=
  rfl

theorem walk_cons (stp : StpMode) (order : NewOrder) (remaining : Qty)
    (head : Resting) (tail : List Resting) :
    walk stp order remaining (head :: tail) =
      if remaining = 0 ∨ crosses order head.price = false then
        { left := head :: tail, remaining }
      else if SelfTrade stp order head then
        match stp with
        | .cancelOldest =>
            let rest := walk stp order remaining tail
            { rest with
              pulled := head :: rest.pulled
              events := rest.events + 1 }
        | .cancelBoth =>
            { left := tail
              remaining
              pulled := [head]
              events := 1
              stopped := true }
        | _ =>
            { left := head :: tail, remaining, events := 1, stopped := true }
      else
        let traded := tradedQty remaining head.qty
        let fill := fillAgainst order head traded
        if traded = head.qty then
          let rest := walk stp order (remaining - traded) tail
          { rest with fills := fill :: rest.fills }
        else
          { fills := [fill]
            left := { head with qty := head.qty - traded } :: tail
            remaining := remaining - traded } :=
  rfl

namespace Walk

/-- Shares filled, in the width of the report. -/
def filled (result : Walk) : Qty :=
  (result.fills.map Fill.qty).sum

/-- Shares filled, in the width of the engine's counter. -/
def filledWord (result : Walk) : UInt64 :=
  (result.fills.map fun fill => fill.qty.toUInt64).sum

/-- The order rests after the walk. -/
def Rests (result : Walk) (order : NewOrder) : Prop :=
  result.stopped = false ∧ result.remaining ≠ 0 ∧
    order.type = .limit ∧ order.tif = .day

instance (result : Walk) (order : NewOrder) :
    Decidable (result.Rests order) := by
  unfold Rests
  infer_instance

/-- The report of the walk, when the order would rest under `ref`. -/
def report (result : Walk) (order : NewOrder) (ref : OrderRef) : Report where
  outcome :=
    if result.stopped = true then .stpRejected
    else if result.remaining = 0 then .filledComplete
    else if result.Rests order then .rested
    else .cancelled
  restingRef := if result.Rests order then ref else 0
  filled := result.filled
  restingQty := if result.Rests order then result.remaining else 0
  stpCancelledResting := UInt32.ofNat result.pulled.length

/-- The variables of the loop once it has gone down the walk. -/
def finish {B : Type} (result : Walk) (book : B) (start : Sweep B) :
    Sweep B where
  book
  stats :=
    { start.stats with
      fills := start.stats.fills + UInt64.ofNat result.fills.length
      filledQty := start.stats.filledQty + result.filledWord
      stpEvents := start.stats.stpEvents + UInt64.ofNat result.events }
  fills := start.fills ++ result.fills
  remaining := result.remaining
  report :=
    { start.report with
      filled := start.report.filled + result.filled
      stpCancelledResting :=
        start.report.stpCancelledResting +
          UInt32.ofNat result.pulled.length }
  stpStop := result.stopped

/-- The order which rests after the walk. -/
def remainder (result : Walk) (order : NewOrder) (ref : OrderRef) :
    Resting where
  ref
  side := order.side
  price := order.price
  qty := result.remaining
  owner := order.owner

end Walk

/-! ## Laws of the report -/

namespace Walk

variable {result : Walk} {order : NewOrder} (ref : OrderRef)

theorem report_rested_iff {ref : OrderRef} :
    (result.report order ref).outcome = .rested ↔ result.Rests order := by
  unfold report
  dsimp only
  split_ifs with stopped done rests
  · simp [Rests, stopped]
  · simp [Rests, done]
  · simpa using rests
  · simpa using rests

theorem report_of_rests (rests : result.Rests order) :
    (result.report order ref).restingRef = ref ∧
      (result.report order ref).restingQty = result.remaining :=
  ⟨if_pos rests, if_pos rests⟩

theorem report_of_not_rests (unrested : ¬ result.Rests order) :
    (result.report order ref).restingRef = 0 ∧
      (result.report order ref).restingQty = 0 :=
  ⟨if_neg unrested, if_neg unrested⟩

end Walk

/-! ## Laws of the walk -/

theorem tradedQty_le_available (remaining available : Qty) :
    tradedQty remaining available ≤ available := by
  unfold tradedQty
  split_ifs with less
  · exact UInt32.le_of_lt less
  · exact UInt32.le_refl _

theorem tradedQty_le_remaining (remaining available : Qty) :
    tradedQty remaining available ≤ remaining := by
  unfold tradedQty
  split_ifs with less
  · exact UInt32.le_refl _
  · exact UInt32.not_lt.mp less

/-- A fill which does not exhaust the head exhausts the incoming order. -/
theorem sub_tradedQty_of_ne {remaining available : Qty}
    (partly : tradedQty remaining available ≠ available) :
    remaining - tradedQty remaining available = 0 := by
  unfold tradedQty at partly ⊢
  split_ifs at partly ⊢ with less
  · exact UInt32.sub_self _
  · exact absurd rfl partly

/-- The cases in which a walk goes on or ends. -/
theorem walk_induction {stp : StpMode} {order : NewOrder}
    {motive : Qty → List Resting → Walk → Prop}
    (ended : ∀ remaining, motive remaining [] { remaining })
    (halts : ∀ remaining head tail,
      remaining = 0 ∨ crosses order head.price = false →
        motive remaining (head :: tail) { left := head :: tail, remaining })
    (refused : ∀ remaining head tail, remaining ≠ 0 →
      SelfTrade stp order head →
        motive remaining (head :: tail)
          { left := head :: tail, remaining, events := 1, stopped := true })
    (pullsBoth : ∀ remaining head tail, remaining ≠ 0 →
      SelfTrade stp order head →
        motive remaining (head :: tail)
          { left := tail
            remaining
            pulled := [head]
            events := 1
            stopped := true })
    (pulls : ∀ remaining head tail, SelfTrade stp order head →
      let rest := walk stp order remaining tail
      motive remaining tail rest →
        motive remaining (head :: tail)
          { rest with
            pulled := head :: rest.pulled
            events := rest.events + 1 })
    (exhausts : ∀ remaining head tail, remaining ≠ 0 →
      head.qty ≤ remaining →
        let rest := walk stp order (remaining - head.qty) tail
        motive (remaining - head.qty) tail rest →
          motive remaining (head :: tail)
            { rest with
              fills := fillAgainst order head head.qty :: rest.fills })
    (partly : ∀ remaining head tail, remaining ≠ 0 →
      remaining < head.qty →
        motive remaining (head :: tail)
          { fills := [fillAgainst order head remaining]
            left := { head with qty := head.qty - remaining } :: tail
            remaining := 0 })
    (remaining : Qty) (opposing : List Resting) :
    motive remaining opposing (walk stp order remaining opposing) := by
  induction opposing generalizing remaining with
  | nil => exact ended remaining
  | cons head tail induction =>
      rw [walk_cons]
      split_ifs with stays own
      · exact halts remaining head tail stays
      · have someQty : remaining ≠ 0 := fun none => stays (Or.inl none)
        cases stp with
        | off => exact absurd rfl own.1
        | cancelNewest => exact refused remaining head tail someQty own
        | cancelOldest =>
            exact pulls remaining head tail own (induction remaining)
        | cancelBoth => exact pullsBoth remaining head tail someQty own
      · have someQty : remaining ≠ 0 := fun none => stays (Or.inl none)
        dsimp only
        by_cases exhausted : tradedQty remaining head.qty = head.qty
        · have enough : head.qty ≤ remaining :=
            exhausted ▸ tradedQty_le_remaining remaining head.qty
          rw [if_pos exhausted, exhausted]
          exact exhausts remaining head tail someQty enough
            (induction (remaining - head.qty))
        · have less : remaining < head.qty := by
            by_contra more
            exact exhausted (if_neg more)
          have traded : tradedQty remaining head.qty = remaining := if_pos less
          rw [if_neg exhausted, traded, UInt32.sub_self]
          exact partly remaining head tail someQty less

section Laws

variable (stp : StpMode) (order : NewOrder)

/-- What is left of the queue was in it, at the same price. -/
theorem walk_left (remaining : Qty) (opposing : List Resting) :
    ∀ resting ∈ (walk stp order remaining opposing).left,
      ∃ before ∈ opposing,
        before.ref = resting.ref ∧ before.price = resting.price := by
  refine walk_induction (motive := fun _ opposing result =>
    ∀ resting ∈ result.left, ∃ before ∈ opposing,
      before.ref = resting.ref ∧ before.price = resting.price)
    ?ended ?halts ?refused ?pullsBoth ?pulls ?exhausts ?partly
    remaining opposing
  case ended =>
    intro _ resting member
    exact absurd member List.not_mem_nil
  case halts =>
    intro _ head tail _ resting member
    exact ⟨resting, member, rfl, rfl⟩
  case refused =>
    intro _ head tail _ _ resting member
    exact ⟨resting, member, rfl, rfl⟩
  case pullsBoth =>
    intro _ head tail _ _ resting member
    exact ⟨resting, List.mem_cons_of_mem head member, rfl, rfl⟩
  case pulls =>
    intro _ head tail _ rest induction resting member
    obtain ⟨before, inTail, same⟩ := induction resting member
    exact ⟨before, List.mem_cons_of_mem head inTail, same⟩
  case exhausts =>
    intro _ head tail _ _ rest induction resting member
    obtain ⟨before, inTail, same⟩ := induction resting member
    exact ⟨before, List.mem_cons_of_mem head inTail, same⟩
  case partly =>
    intro remaining head tail _ _ resting member
    rcases List.mem_cons.mp member with rfl | inTail
    · exact ⟨head, List.mem_cons_self, rfl, rfl⟩
    · exact ⟨resting, List.mem_cons_of_mem head inTail, rfl, rfl⟩

/-- With quantity left and no self-trade, the head of the rest stays away. -/
theorem walk_stays (remaining : Qty) (opposing : List Resting) :
    (walk stp order remaining opposing).stopped = false →
      (walk stp order remaining opposing).remaining ≠ 0 →
        ∀ head ∈ (walk stp order remaining opposing).left.head?,
          crosses order head.price = false := by
  refine walk_induction (motive := fun _ _ result =>
    result.stopped = false → result.remaining ≠ 0 →
      ∀ head ∈ result.left.head?, crosses order head.price = false)
    ?ended ?halts ?refused ?pullsBoth ?pulls ?exhausts ?partly
    remaining opposing
  case ended =>
    intro _ _ _ head member
    cases member
  case halts =>
    intro _ head tail stays _ someQty other member
    cases member
    exact stays.resolve_left someQty
  case refused =>
    intro _ head tail _ _ stopped
    cases stopped
  case pullsBoth =>
    intro _ head tail _ _ stopped
    cases stopped
  case pulls =>
    intro _ head tail _ rest induction
    exact induction
  case exhausts =>
    intro _ head tail _ _ rest induction
    exact induction
  case partly =>
    intro _ head tail _ _ _ someQty
    exact absurd rfl someQty

/-- Shares of a list of fills, without wrap-around. -/
def naturalFilled (fills : List Fill) : Nat :=
  (fills.map fun fill => fill.qty.toNat).sum

/-- The incoming order loses what the fills say. -/
theorem walk_remaining (remaining : Qty) (opposing : List Resting) :
    naturalFilled (walk stp order remaining opposing).fills +
        (walk stp order remaining opposing).remaining.toNat =
      remaining.toNat := by
  refine walk_induction (motive := fun remaining _ result =>
    naturalFilled result.fills + result.remaining.toNat = remaining.toNat)
    ?ended ?halts ?refused ?pullsBoth ?pulls ?exhausts ?partly
    remaining opposing
  case ended => simp [naturalFilled]
  case halts => simp [naturalFilled]
  case refused => simp [naturalFilled]
  case pullsBoth => simp [naturalFilled]
  case pulls =>
    intro _ head tail _ rest induction
    exact induction
  case exhausts =>
    intro remaining head tail _ enough rest induction
    have difference := UInt32.toNat_sub_of_le _ _ enough
    have bound := UInt32.le_iff_toNat_le.mp enough
    simp only [naturalFilled, List.map_cons, List.sum_cons, fillAgainst]
      at induction ⊢
    omega
  case partly => simp [naturalFilled, fillAgainst]

/-- The opposing queue loses what the fills say and what was pulled. -/
theorem walk_conserves (remaining : Qty) (opposing : List Resting) :
    naturalFilled (walk stp order remaining opposing).fills +
        naturalQty (walk stp order remaining opposing).pulled +
        naturalQty (walk stp order remaining opposing).left =
      naturalQty opposing := by
  refine walk_induction (motive := fun _ opposing result =>
    naturalFilled result.fills + naturalQty result.pulled +
      naturalQty result.left = naturalQty opposing)
    ?ended ?halts ?refused ?pullsBoth ?pulls ?exhausts ?partly
    remaining opposing
  case ended => simp [naturalFilled, naturalQty]
  case halts => simp [naturalFilled, naturalQty]
  case refused => simp [naturalFilled, naturalQty]
  case pullsBoth => simp [naturalFilled, naturalQty]
  case pulls =>
    intro _ head tail _ rest induction
    simp only [naturalQty, List.map_cons, List.sum_cons] at induction ⊢
    omega
  case exhausts =>
    intro _ head tail _ _ rest induction
    simp only [naturalFilled, naturalQty, List.map_cons, List.sum_cons,
      fillAgainst] at induction ⊢
    omega
  case partly =>
    intro remaining head tail _ less
    have difference :=
      UInt32.toNat_sub_of_le _ _ (UInt32.le_of_lt less)
    have bound := UInt32.lt_iff_toNat_lt.mp less
    simp only [naturalFilled, naturalQty, List.map_cons, List.map_nil,
      List.sum_cons, List.sum_nil, fillAgainst]
    omega

/-- A fill moves at least one share. -/
theorem walk_fill_positive (remaining : Qty) (opposing : List Resting)
    (positive : ∀ resting ∈ opposing, resting.qty ≠ 0) :
    ∀ fill ∈ (walk stp order remaining opposing).fills, fill.qty ≠ 0 := by
  revert positive
  refine walk_induction (motive := fun _ opposing result =>
    (∀ resting ∈ opposing, resting.qty ≠ 0) →
      ∀ fill ∈ result.fills, fill.qty ≠ 0)
    ?ended ?halts ?refused ?pullsBoth ?pulls ?exhausts ?partly
    remaining opposing
  case ended => simp
  case halts => simp
  case refused => simp
  case pullsBoth => simp
  case pulls =>
    intro _ head tail _ rest induction positive
    exact induction fun resting inTail =>
      positive resting (List.mem_cons_of_mem head inTail)
  case exhausts =>
    intro _ head tail _ _ rest induction positive fill member
    rcases List.mem_cons.mp member with rfl | inRest
    · exact positive head List.mem_cons_self
    · exact induction (fun resting inTail =>
        positive resting (List.mem_cons_of_mem head inTail)) fill inRest
  case partly =>
    intro remaining head tail someQty _ _ fill member
    rw [List.mem_singleton.mp member]
    exact someQty

/-- Self-trade prevention only stops an order with quantity left. -/
theorem walk_stopped (remaining : Qty) (opposing : List Resting) :
    (walk stp order remaining opposing).stopped = true →
      (walk stp order remaining opposing).remaining ≠ 0 := by
  refine walk_induction (motive := fun _ _ result =>
    result.stopped = true → result.remaining ≠ 0)
    ?ended ?halts ?refused ?pullsBoth ?pulls ?exhausts ?partly
    remaining opposing
  case ended => simp
  case halts => simp
  case refused =>
    intro _ head tail someQty _ _
    exact someQty
  case pullsBoth =>
    intro _ head tail someQty _ _
    exact someQty
  case pulls =>
    intro _ head tail _ rest induction
    exact induction
  case exhausts =>
    intro _ head tail _ _ rest induction
    exact induction
  case partly => simp

/-- A fill names an order of the opposing queue. -/
theorem walk_fill_resting (remaining : Qty) (opposing : List Resting) :
    ∀ fill ∈ (walk stp order remaining opposing).fills,
      ∃ resting ∈ opposing, resting.ref = fill.resting := by
  refine walk_induction (motive := fun _ opposing result =>
    ∀ fill ∈ result.fills, ∃ resting ∈ opposing,
      resting.ref = fill.resting)
    ?ended ?halts ?refused ?pullsBoth ?pulls ?exhausts ?partly
    remaining opposing
  case ended => simp
  case halts => simp
  case refused => simp
  case pullsBoth => simp
  case pulls =>
    intro _ head tail _ rest induction fill member
    obtain ⟨resting, inTail, same⟩ := induction fill member
    exact ⟨resting, List.mem_cons_of_mem head inTail, same⟩
  case exhausts =>
    intro _ head tail _ _ rest induction fill member
    rcases List.mem_cons.mp member with rfl | inRest
    · exact ⟨head, List.mem_cons_self, rfl⟩
    · obtain ⟨resting, inTail, same⟩ := induction fill inRest
      exact ⟨resting, List.mem_cons_of_mem head inTail, same⟩
  case partly =>
    intro _ head tail _ _ fill member
    rw [List.mem_singleton.mp member]
    exact ⟨head, List.mem_cons_self, rfl⟩

/-- Only orders of the incoming participant are pulled out. -/
theorem walk_pulled (remaining : Qty) (opposing : List Resting) :
    ∀ resting ∈ (walk stp order remaining opposing).pulled,
      SelfTrade stp order resting := by
  refine walk_induction (motive := fun _ _ result =>
    ∀ resting ∈ result.pulled, SelfTrade stp order resting)
    ?ended ?halts ?refused ?pullsBoth ?pulls ?exhausts ?partly
    remaining opposing
  case ended => simp
  case halts => simp
  case refused => simp
  case pullsBoth =>
    intro _ head tail _ own resting member
    exact List.mem_singleton.mp member ▸ own
  case pulls =>
    intro _ head tail own rest induction
    exact List.forall_mem_cons.mpr ⟨own, induction⟩
  case exhausts =>
    intro _ head tail _ _ rest induction
    exact induction
  case partly => simp

/-- The orders which are gone although no fill names them. -/
def withdrawn (before after : List Resting) (fills : List Fill) :
    List Resting :=
  before.filter fun resting =>
    decide ((∀ other ∈ after, other.ref ≠ resting.ref) ∧
      ∀ fill ∈ fills, fill.resting ≠ resting.ref)

theorem withdrawn_of_subset {before after : List Resting}
    {fills : List Fill}
    (kept : ∀ resting ∈ before, ∃ other ∈ after, other.ref = resting.ref) :
    withdrawn before after fills = [] := by
  refine List.filter_eq_nil_iff.mpr fun resting member gone => ?_
  obtain ⟨other, otherMember, same⟩ := kept resting member
  exact (of_decide_eq_true gone).1 other otherMember same

theorem head_ref_ne {head : Resting} {tail : List Resting}
    (distinct : ((head :: tail).map Resting.ref).Nodup) :
    ∀ resting ∈ tail, resting.ref ≠ head.ref := by
  intro resting member same
  rw [List.map_cons, List.nodup_cons] at distinct
  exact distinct.1 (same ▸ List.mem_map_of_mem member)

/-- What is gone without a fill was pulled out. -/
theorem walk_withdrawn (remaining : Qty) (opposing : List Resting)
    (distinct : (opposing.map Resting.ref).Nodup) :
    withdrawn opposing (walk stp order remaining opposing).left
        (walk stp order remaining opposing).fills =
      (walk stp order remaining opposing).pulled := by
  revert distinct
  refine walk_induction (motive := fun _ opposing result =>
    (opposing.map Resting.ref).Nodup →
      withdrawn opposing result.left result.fills = result.pulled)
    ?ended ?halts ?refused ?pullsBoth ?pulls ?exhausts ?partly
    remaining opposing
  case ended =>
    intro _ _
    rfl
  case halts =>
    intro _ head tail _ _
    exact withdrawn_of_subset fun resting member => ⟨resting, member, rfl⟩
  case refused =>
    intro _ head tail _ _ _
    exact withdrawn_of_subset fun resting member => ⟨resting, member, rfl⟩
  case pullsBoth =>
    intro _ head tail _ _ distinct
    have apart := head_ref_ne distinct
    have tailKept : withdrawn tail tail [] = [] :=
      withdrawn_of_subset fun resting member => ⟨resting, member, rfl⟩
    unfold withdrawn at tailKept ⊢
    rw [List.filter_cons_of_pos (by simpa using apart), tailKept]
  case pulls =>
    intro remaining head tail _ rest induction distinct
    have apart := head_ref_ne distinct
    have tailGone := induction (List.nodup_cons.mp distinct).2
    have headGone : (∀ other ∈ rest.left, other.ref ≠ head.ref) ∧
        ∀ fill ∈ rest.fills, fill.resting ≠ head.ref := by
      constructor
      · intro other member same
        obtain ⟨earlier, inTail, sameRef, -⟩ :=
          walk_left stp order remaining tail other member
        exact apart earlier inTail (sameRef.trans same)
      · intro fill member same
        obtain ⟨earlier, inTail, sameRef⟩ :=
          walk_fill_resting stp order remaining tail fill member
        exact apart earlier inTail (sameRef.trans same)
    unfold withdrawn at tailGone ⊢
    dsimp only
    rw [List.filter_cons, if_pos (decide_eq_true headGone), tailGone]
  case exhausts =>
    intro remaining head tail _ _ rest induction distinct
    have apart := head_ref_ne distinct
    have tailGone := induction (List.nodup_cons.mp distinct).2
    rw [← tailGone]
    unfold withdrawn
    rw [List.filter_cons_of_neg (by simp [fillAgainst])]
    refine List.filter_congr fun resting member => ?_
    have other := (apart resting member).symm
    simp [fillAgainst, other]
  case partly =>
    intro _ head tail _ _ _
    refine withdrawn_of_subset fun resting member => ?_
    rcases List.mem_cons.mp member with rfl | inTail
    · exact ⟨_, List.mem_cons_self, rfl⟩
    · exact ⟨resting, List.mem_cons_of_mem _ inTail, rfl⟩

end Laws

end ItchExchange.Engine
