import ItchExchange.Library.Simulation

/-!
# Pumping a stream into a handler

A stream is pulled until it stops; every item goes to a handler.  `Yields` says
which items a stream hands out, and why and where it stops.  Two streams which
yield the same items are the same to every handler, and what a pump does is the
fold of the handler over the items.
-/

namespace Pump

variable {ε ι ω σ τ : Type}

/-- What a stream has in front of it: an item, or a reason to stop. -/
inductive Pulled (ι ω σ : Type) where
  | item (value : ι) (later : σ)
  | stop (reason : ω) (later : σ)

namespace Pulled

/-- The stream behind. -/
def later : Pulled ι ω σ → σ
  | .item _ later => later
  | .stop _ later => later

def map (view : σ → τ) : Pulled ι ω σ → Pulled ι ω τ
  | .item value later => .item value (view later)
  | .stop reason later => .stop reason (view later)

end Pulled

/-- The loop, for at most so many turns; `exhausted` when it needs more. -/
def pumpWithin (exhausted : ε) (pull : σ → Except ε (Pulled ι ω σ))
    (handle : τ → ι → Except ε τ) :
    Nat → σ → τ → Except ε (ω × σ × τ)
  | 0, _, _ => .error exhausted
  | turns + 1, stream, target => do
      match ← pull stream with
      | .item value later => do
          let target ← handle target value
          pumpWithin exhausted pull handle turns later target
      | .stop reason later => pure (reason, later, target)

/-- The stream hands out these items and then stops, for this reason. -/
inductive Yields (pull : σ → Except ε (Pulled ι ω σ)) :
    σ → List ι → ω → σ → Prop where
  | stop {stream later : σ} {reason : ω}
      (pulled : pull stream = .ok (.stop reason later)) :
      Yields pull stream [] reason later
  | item {stream later last : σ} {value : ι} {rest : List ι} {reason : ω}
      (pulled : pull stream = .ok (.item value later))
      (yields : Yields pull later rest reason last) :
      Yields pull stream (value :: rest) reason last

section Pump

variable {exhausted : ε} {pull : σ → Except ε (Pulled ι ω σ)}
  {handle : τ → ι → Except ε τ} {stream last : σ} {items : List ι}
  {reason : ω}

/-- A stream which is known turn by turn. -/
theorem yields_of_forall (stands : Nat → σ → Prop) (ends : ω → σ → Prop)
    (hands : ∀ index stream (within : index < items.length),
      stands index stream →
        ∃ later, pull stream = .ok (.item items[index] later) ∧
          stands (index + 1) later)
    (stops : ∀ stream, stands items.length stream →
      ∃ reason last, pull stream = .ok (.stop reason last) ∧
        ends reason last)
    (begins : stands 0 stream) :
    ∃ reason last, Yields pull stream items reason last ∧
      ends reason last := by
  induction items generalizing stream stands with
  | nil =>
      obtain ⟨reason, last, pulled, ended⟩ := stops stream begins
      exact ⟨reason, last, .stop pulled, ended⟩
  | cons value rest induction =>
      obtain ⟨later, pulled, next⟩ :=
        hands 0 stream (Nat.zero_lt_succ _) begins
      obtain ⟨reason, last, yields, ended⟩ :=
        induction (fun index => stands (index + 1))
          (fun index stream within here =>
            hands (index + 1) stream (Nat.succ_lt_succ within) here)
          stops next
      exact ⟨reason, last, .item pulled yields, ended⟩

/-- A stream which is another one, seen through a map of their states. -/
theorem Yields.image {ε' σ' : Type}
    {pull' : σ' → Except ε' (Pulled ι ω σ')} (view : σ → σ')
    {holds : σ → Prop}
    (agrees : ∀ {stream pulled}, holds stream → pull stream = .ok pulled →
      pull' (view stream) = .ok (pulled.map view) ∧ holds pulled.later)
    (begins : holds stream) (yields : Yields pull stream items reason last) :
    Yields pull' (view stream) items reason (view last) := by
  induction yields with
  | stop pulled => exact .stop (agrees begins pulled).1
  | item pulled _ induction =>
      obtain ⟨handed, next⟩ := agrees begins pulled
      exact .item handed (induction next)

/-- With a turn for each item and one to stop, a pump is a fold. -/
theorem Yields.pump (yields : Yields pull stream items reason last)
    {turns : Nat} (enough : items.length < turns) (target : τ) :
    pumpWithin exhausted pull handle turns stream target =
      (items.foldlM handle target).map fun target =>
        (reason, last, target) := by
  induction yields generalizing turns target with
  | stop pulled =>
      obtain ⟨turns, rfl⟩ := Nat.exists_eq_succ_of_ne_zero
        (Nat.ne_of_gt enough)
      rw [pumpWithin, pulled]
      rfl
  | @item stream later last value rest reason pulled _ induction =>
      obtain ⟨turns, rfl⟩ := Nat.exists_eq_succ_of_ne_zero
        (Nat.ne_of_gt (Nat.lt_of_le_of_lt (Nat.zero_le _) enough))
      rw [pumpWithin, pulled, List.foldlM_cons]
      change (handle target value >>= _) = _
      cases handled : handle target value with
      | error failure => rfl
      | ok next =>
          exact induction (Nat.lt_of_succ_lt_succ enough) next

end Pump

end Pump
