import Mathlib.Data.List.Basic

/-!
# Simulation between computations which may fail

A computation which may fail is a value of `Except`.  `Simulates` says that
whatever one computation returns, another one returns something related to it;
its rules follow the shape of a program.  `transcript` feeds a machine with a
list of inputs and collects what it puts out.  The rules for one step give the
rules for a whole transcript, where a step may ask for a condition which
`Along` carries along the run.
-/

namespace Simulation

variable {ε ε' α β γ δ : Type}

/-- Whatever `right` returns, `left` returns something related to it. -/
def Simulates (rel : α → β → Prop) (left : Except ε α)
    (right : Except ε' β) : Prop :=
  ∀ value, right = .ok value → ∃ result, left = .ok result ∧ rel result value

/-! ## The shape of a program -/

/-- A sequence returns exactly when both of its parts do. -/
theorem bind_eq_ok {first : Except ε α} {next : α → Except ε β} {result : β} :
    (first >>= next) = .ok result ↔
      ∃ value, first = .ok value ∧ next value = .ok result := by
  cases first with
  | error failure =>
      constructor
      · intro returned
        cases returned
      · rintro ⟨value, impossible, -⟩
        cases impossible
  | ok value =>
      constructor
      · exact fun returned => ⟨value, rfl, returned⟩
      · rintro ⟨other, same, returned⟩
        cases same
        exact returned

namespace Simulates

variable {rel : α → β → Prop} {out : γ → δ → Prop}
  {left : Except ε α} {right : Except ε' β}

theorem ok {result : α} {value : β} (related : rel result value) :
    Simulates rel (.ok result : Except ε α) (.ok value : Except ε' β) := by
  rintro other returned
  cases returned
  exact ⟨result, rfl, related⟩

/-- A computation which fails asks for nothing. -/
theorem error {failure : ε'} :
    Simulates rel left (.error failure : Except ε' β) := by
  intro value returned
  cases returned

theorem refl {computed : Except ε α} : Simulates Eq computed computed :=
  fun value returned => ⟨value, returned, rfl⟩

theorem of_eq {computed computed' : Except ε α} (same : computed = computed') :
    Simulates Eq computed computed' :=
  same ▸ refl

theorem mono {weaker : α → β → Prop} (simulates : Simulates rel left right)
    (implied : ∀ result value, rel result value → weaker result value) :
    Simulates weaker left right := by
  intro value returned
  obtain ⟨result, ran, related⟩ := simulates value returned
  exact ⟨result, ran, implied result value related⟩

/-- What the first parts return may be used in the second parts. -/
theorem bind {next : α → Except ε γ} {next' : β → Except ε' δ}
    (firsts : Simulates rel left right)
    (nexts : ∀ result value, rel result value → left = .ok result →
      right = .ok value → Simulates out (next result) (next' value)) :
    Simulates out (left >>= next) (right >>= next') := by
  intro last returned
  obtain ⟨value, first, second⟩ := bind_eq_ok.mp returned
  obtain ⟨result, ran, related⟩ := firsts value first
  obtain ⟨final, finished, relatedFinal⟩ :=
    nexts result value related ran first last second
  exact ⟨final, bind_eq_ok.mpr ⟨result, ran, finished⟩, relatedFinal⟩

theorem map {image : α → γ} {image' : β → δ}
    (simulates : Simulates rel left right)
    (images : ∀ result value, rel result value →
      out (image result) (image' value)) :
    Simulates out (left.map image) (right.map image') := by
  intro last returned
  cases right with
  | error failure => cases returned
  | ok value =>
      cases returned
      obtain ⟨result, rfl, related⟩ := simulates value rfl
      exact ⟨image result, rfl, images result value related⟩

/-- Both programs ask the same question. -/
theorem branch {condition condition' : Prop} {decided : Decidable condition}
    {decided' : Decidable condition'} {kept dropped : Except ε α}
    {kept' dropped' : Except ε' β} (same : condition ↔ condition')
    (keeps : condition → Simulates rel kept kept')
    (drops : ¬ condition → Simulates rel dropped dropped') :
    Simulates rel (@ite _ condition decided kept dropped)
      (@ite _ condition' decided' kept' dropped') := by
  by_cases holds : condition
  · rw [if_pos holds, if_pos (same.mp holds)]
    exact keeps holds
  · rw [if_neg holds, if_neg (mt same.mpr holds)]
    exact drops holds

/-- Simulations compose along the composition of their relations. -/
theorem trans {ε'' : Type} {rel' : β → γ → Prop} {last : Except ε'' γ}
    (first : Simulates rel left right) (second : Simulates rel' right last) :
    Simulates (fun result value => ∃ between, rel result between ∧
      rel' between value) left last := by
  intro value returned
  obtain ⟨between, ran, relatedBetween⟩ := second value returned
  obtain ⟨result, finished, related⟩ := first between ran
  exact ⟨result, finished, between, related, relatedBetween⟩

end Simulates

/-! ## Transcripts -/

section Transcript

variable {σ τ ι ο : Type}

/-- What a machine puts out for a list of inputs, and its last state. -/
def transcript (step : σ → ι → Except ε (ο × σ)) (state : σ) :
    List ι → Except ε (List ο × σ)
  | [] => .ok ([], state)
  | input :: rest => do
      let (output, state) ← step state input
      let (outputs, state) ← transcript step state rest
      pure (output :: outputs, state)

variable {step : σ → ι → Except ε (ο × σ)} {state final : σ}
  {inputs : List ι} {outputs : List ο}

theorem transcript_cons_eq_ok {input : ι} :
    transcript step state (input :: inputs) = .ok (outputs, final) ↔
      ∃ output next more, step state input = .ok (output, next) ∧
        transcript step next inputs = .ok (more, final) ∧
        outputs = output :: more := by
  rw [transcript, bind_eq_ok]
  constructor
  · rintro ⟨⟨output, next⟩, stepped, returned⟩
    obtain ⟨⟨more, last⟩, ran, equal⟩ := bind_eq_ok.mp returned
    cases equal
    exact ⟨output, next, more, stepped, ran, rfl⟩
  · rintro ⟨output, next, more, stepped, ran, rfl⟩
    exact ⟨(output, next), stepped, bind_eq_ok.mpr ⟨(more, final), ran, rfl⟩⟩

/-- A transcript in two parts. -/
theorem transcript_append_eq_ok {first second : List ι} :
    transcript step state (first ++ second) = .ok (outputs, final) ↔
      ∃ earlier middle later,
        transcript step state first = .ok (earlier, middle) ∧
          transcript step middle second = .ok (later, final) ∧
          outputs = earlier ++ later := by
  induction first generalizing state outputs with
  | nil =>
      constructor
      · exact fun ran => ⟨[], state, outputs, rfl, ran, rfl⟩
      · rintro ⟨earlier, middle, later, nothing, ran, rfl⟩
        cases nothing
        exact ran
  | cons input rest induction =>
      rw [List.cons_append, transcript_cons_eq_ok]
      constructor
      · rintro ⟨output, next, more, stepped, ran, rfl⟩
        obtain ⟨earlier, middle, later, before, behind, rfl⟩ :=
          induction.mp ran
        exact ⟨output :: earlier, middle, later,
          transcript_cons_eq_ok.mpr
            ⟨output, next, earlier, stepped, before, rfl⟩, behind, rfl⟩
      · rintro ⟨earlier, middle, later, before, behind, rfl⟩
        obtain ⟨output, next, more, stepped, ran, rfl⟩ :=
          transcript_cons_eq_ok.mp before
        exact ⟨output, next, more ++ later, stepped,
          induction.mpr ⟨more, middle, later, ran, behind, rfl⟩, rfl⟩

/-- The first inputs lead to the first outputs. -/
theorem transcript_take (ran : transcript step state inputs =
      .ok (outputs, final)) (count : Nat) :
    ∃ middle, transcript step state (inputs.take count) =
      .ok (outputs.take count, middle) := by
  induction count generalizing state inputs outputs with
  | zero => exact ⟨_, rfl⟩
  | succ count induction =>
      cases inputs with
      | nil =>
          cases ran
          exact ⟨final, rfl⟩
      | cons input rest =>
          obtain ⟨output, next, more, stepped, later, rfl⟩ :=
            transcript_cons_eq_ok.mp ran
          obtain ⟨middle, reached⟩ := induction later
          exact ⟨middle, transcript_cons_eq_ok.mpr
            ⟨output, next, _, stepped, reached, rfl⟩⟩

/-- A condition on every input, in the state which meets it. -/
def Along (condition : σ → ι → Prop) (step : σ → ι → Except ε (ο × σ))
    (state : σ) : List ι → Prop
  | [] => True
  | input :: rest =>
      condition state input ∧
        ∀ output next, step state input = .ok (output, next) →
          Along condition step next rest

theorem Along.take {condition : σ → ι → Prop}
    (along : Along condition step state inputs) (count : Nat) :
    Along condition step state (inputs.take count) := by
  induction count generalizing state inputs with
  | zero => trivial
  | succ count induction =>
      cases inputs with
      | nil => trivial
      | cons input rest =>
          exact ⟨along.1, fun output next stepped =>
            induction (along.2 output next stepped)⟩

/-- A condition which every input of the list meets in every state. -/
theorem along_of_mem {condition : σ → ι → Prop}
    (meets : ∀ state, ∀ input ∈ inputs, condition state input) :
    Along condition step state inputs := by
  induction inputs generalizing state with
  | nil => trivial
  | cons input rest induction =>
      exact ⟨meets state input List.mem_cons_self, fun _ _ _ =>
        induction fun state other member =>
          meets state other (List.mem_cons_of_mem input member)⟩

/-- A condition on all the states which the first inputs lead to. -/
theorem along_of_take {condition : σ → ι → Prop}
    (meets : ∀ count input rest earlier middle,
      inputs.drop count = input :: rest →
        transcript step state (inputs.take count) = .ok (earlier, middle) →
          condition middle input) :
    Along condition step state inputs := by
  induction inputs generalizing state with
  | nil => trivial
  | cons input rest induction =>
      refine ⟨meets 0 input rest [] state rfl rfl, ?_⟩
      intro output next stepped
      refine induction fun count other behind earlier middle dropped ran => ?_
      refine meets (count + 1) other behind (output :: earlier) middle
        dropped ?_
      rw [List.take_succ_cons, transcript_cons_eq_ok]
      exact ⟨output, next, earlier, stepped, ran, rfl⟩

/-- Machines which simulate step by step put out the same. -/
theorem Simulates.transcript {step' : τ → ι → Except ε' (ο × τ)}
    (rel : σ → τ → Prop) {allows : σ → ι → Prop} {allows' : τ → ι → Prop}
    (steps : ∀ {state state' input}, rel state state' → allows state input →
      allows' state' input →
        Simulates (fun result value => result.1 = value.1 ∧
          rel result.2 value.2) (step state input) (step' state' input))
    {state : σ} {state' : τ} (related : rel state state')
    (along : Along allows step state inputs)
    (along' : Along allows' step' state' inputs) :
    Simulates (fun result value => result.1 = value.1 ∧
        rel result.2 value.2)
      (Simulation.transcript step state inputs)
      (Simulation.transcript step' state' inputs) := by
  induction inputs generalizing state state' with
  | nil => exact Simulates.ok ⟨rfl, related⟩
  | cons input rest induction =>
      obtain ⟨here, later⟩ := along
      obtain ⟨here', later'⟩ := along'
      refine (steps related here here').bind ?_
      rintro ⟨output, next⟩ ⟨output', next'⟩ ⟨sameOutput, relatedNext⟩
        stepped stepped'
      refine (induction relatedNext (later _ _ stepped)
        (later' _ _ stepped')).bind ?_
      rintro ⟨outputs, final⟩ ⟨outputs', final'⟩ ⟨sameOutputs, relatedFinal⟩
        - -
      exact Simulates.ok
        ⟨congrArg₂ List.cons sameOutput sameOutputs, relatedFinal⟩

end Transcript

end Simulation
