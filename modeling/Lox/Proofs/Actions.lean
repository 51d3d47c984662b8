/-!
# Actions on a state

Parsers and evaluations are actions on a state that may fail.  An action that
is a sequence succeeds exactly if all its parts do, one after another.  A
relation between states that is reflexive and transitive, and that every part of
a sequence keeps, is kept by the sequence, however it ends.  Two actions on
different states can be followed side by side.
-/

namespace Lox

namespace Actions

variable {ε σ α β : Type}

/-- The state in which an action ends. -/
def endState : EStateM.Result ε σ α → σ
  | .ok _ state => state
  | .error _ state => state

@[simp]
theorem endState_ok (value : α) (state : σ) :
    endState (.ok value state : EStateM.Result ε σ α) = state :=
  rfl

@[simp]
theorem endState_error (error : ε) (state : σ) :
    endState (.error error state : EStateM.Result ε σ α) = state :=
  rfl

/-- The result with its state changed. -/
def mapState (change : σ → σ) : EStateM.Result ε σ α → EStateM.Result ε σ α
  | .ok value state => .ok value (change state)
  | .error error state => .error error (change state)

@[simp]
theorem endState_mapState (change : σ → σ) (result : EStateM.Result ε σ α) :
    endState (mapState change result) = change (endState result) := by
  cases result <;> rfl

/-- The value of an action that succeeds. -/
def value? : EStateM.Result ε σ α → Option α
  | .ok value _ => some value
  | .error _ _ => none

theorem eq_ok_of_value? {result : EStateM.Result ε σ α} (value : α)
    (found : value? result = some value) : result = .ok value (endState result) := by
  cases result with
  | ok other state =>
      cases found
      rfl
  | error error state => cases found

/-! ## Sequences -/

theorem bind_apply (first : EStateM ε σ α) (next : α → EStateM ε σ β) (state : σ) :
    (first >>= next) state =
      match first state with
      | .ok value middle => next value middle
      | .error error middle => .error error middle :=
  rfl

@[simp]
theorem pure_apply (value : α) (state : σ) :
    (pure value : EStateM ε σ α) state = .ok value state :=
  rfl

theorem bind_of_ok {first : EStateM ε σ α} {next : α → EStateM ε σ β} {state middle : σ}
    {value : α} (succeeded : first state = .ok value middle) :
    (first >>= next) state = next value middle := by
  rw [bind_apply, succeeded]

theorem bind_of_error {first : EStateM ε σ α} {next : α → EStateM ε σ β}
    {state middle : σ} {error : ε} (failed : first state = .error error middle) :
    (first >>= next) state = .error error middle := by
  rw [bind_apply, failed]

/-- A sequence succeeds exactly if its first part does and what follows does. -/
theorem bind_eq_ok_iff {first : EStateM ε σ α} {next : α → EStateM ε σ β} {state final : σ}
    {result : β} :
    (first >>= next) state = .ok result final ↔
      ∃ value middle, first state = .ok value middle ∧
        next value middle = .ok result final := by
  constructor
  · intro succeeded
    rw [bind_apply] at succeeded
    split at succeeded
    next value middle firstResult =>
      exact ⟨value, middle, firstResult, succeeded⟩
    next error middle firstResult =>
      cases succeeded
  · rintro ⟨value, middle, firstResult, succeeded⟩
    rw [bind_of_ok firstResult, succeeded]

theorem pure_eq_ok_iff {value result : α} {state final : σ} :
    (pure value : EStateM ε σ α) state = .ok result final ↔
      value = result ∧ state = final := by
  rw [pure_apply, EStateM.Result.ok.injEq]

theorem map_eq_ok_iff {first : EStateM ε σ α} {f : α → β} {state final : σ} {result : β} :
    (f <$> first) state = .ok result final ↔
      ∃ value, first state = .ok value final ∧ f value = result := by
  change (first >>= fun value => pure (f value)) state = .ok result final ↔ _
  rw [bind_eq_ok_iff]
  constructor
  · rintro ⟨value, middle, firstResult, succeeded⟩
    obtain ⟨valueEquality, stateEquality⟩ := pure_eq_ok_iff.mp succeeded
    exact ⟨value, stateEquality ▸ firstResult, valueEquality⟩
  · rintro ⟨value, firstResult, valueEquality⟩
    exact ⟨value, final, firstResult, pure_eq_ok_iff.mpr ⟨valueEquality, rfl⟩⟩

/-! ## Relations kept by actions -/

/-- The action leads, however it ends, to a related state. -/
def Respects (relation : σ → σ → Prop) (action : EStateM ε σ α) : Prop :=
  ∀ state, relation state (endState (action state))

/-- A relation that holds between each state and itself, and that can be
followed over several states. -/
structure StepOrder (relation : σ → σ → Prop) : Prop where
  refl : ∀ state, relation state state
  trans : ∀ {first second third}, relation first second → relation second third →
    relation first third

namespace Respects

variable {relation : σ → σ → Prop}

theorem pure (order : StepOrder relation) (value : α) :
    Respects relation (pure value : EStateM ε σ α) :=
  fun state => order.refl state

theorem throw (order : StepOrder relation) (error : ε) :
    Respects relation (throw error : EStateM ε σ α) :=
  fun state => order.refl state

theorem get (order : StepOrder relation) :
    Respects relation (get : EStateM ε σ σ) :=
  fun state => order.refl state

theorem bind (order : StepOrder relation) {first : EStateM ε σ α}
    {next : α → EStateM ε σ β} (firstRespects : Respects relation first)
    (nextRespects : ∀ value, Respects relation (next value)) :
    Respects relation (first >>= next) := by
  intro state
  have firstStep := firstRespects state
  rw [bind_apply]
  cases firstResult : first state with
  | ok value middle =>
      rw [firstResult] at firstStep
      exact order.trans firstStep (nextRespects value middle)
  | error error middle =>
      rw [firstResult] at firstStep
      exact firstStep

theorem map (order : StepOrder relation) {first : EStateM ε σ α} (f : α → β)
    (firstRespects : Respects relation first) :
    Respects relation (f <$> first) :=
  bind order firstRespects fun value => pure order (f value)

theorem ite {condition : Prop} [Decidable condition] {first second : EStateM ε σ α}
    (firstRespects : Respects relation first) (secondRespects : Respects relation second) :
    Respects relation (if condition then first else second) := by
  split
  · exact firstRespects
  · exact secondRespects

end Respects

/-! ## Two actions side by side -/

section Paired

variable {ε' σ' α' β' : Type}

/-- Either both actions yield values, and one condition holds, or both fail, and the
other condition holds. -/
def Paired (yields : α → σ → α' → σ' → Prop) (fails : ε → σ → ε' → σ' → Prop) :
    EStateM.Result ε σ α → EStateM.Result ε' σ' α' → Prop
  | .ok value final, .ok value' final' => yields value final value' final'
  | .error error final, .error error' final' => fails error final error' final'
  | _, _ => False

variable {fails : ε → σ → ε' → σ' → Prop}

/-- Either both results are values, or both are errors. -/
theorem Paired.cases {yields : α → σ → α' → σ' → Prop} {motive : Prop}
    {result : EStateM.Result ε σ α} {result' : EStateM.Result ε' σ' α'}
    (paired : Paired yields fails result result')
    (ofValues : ∀ value final value' final', result = .ok value final →
      result' = .ok value' final' → yields value final value' final' → motive)
    (ofErrors : ∀ error final error' final', result = .error error final →
      result' = .error error' final' → fails error final error' final' → motive) : motive := by
  cases result with
  | ok value final =>
      cases result' with
      | ok value' final' => exact ofValues _ _ _ _ rfl rfl paired
      | error error' final' => exact paired.elim
  | error error final =>
      cases result' with
      | ok value' final' => exact paired.elim
      | error error' final' => exact ofErrors _ _ _ _ rfl rfl paired

theorem Paired.imp {yields weaker : α → σ → α' → σ' → Prop}
    {weakerFails : ε → σ → ε' → σ' → Prop}
    {result : EStateM.Result ε σ α} {result' : EStateM.Result ε' σ' α'}
    (paired : Paired yields fails result result')
    (imp : ∀ value final value' final', yields value final value' final' →
      weaker value final value' final')
    (failsImp : ∀ error final error' final', fails error final error' final' →
      weakerFails error final error' final') : Paired weaker weakerFails result result' := by
  refine paired.cases ?_ ?_
  · rintro value final value' final' rfl rfl holds
    exact imp _ _ _ _ holds
  · rintro error final error' final' rfl rfl holds
    exact failsImp _ _ _ _ holds

theorem Paired.bind {first : EStateM ε σ α} {next : α → EStateM ε σ β}
    {first' : EStateM ε' σ' α'} {next' : α' → EStateM ε' σ' β'} {state : σ} {state' : σ'}
    {between : α → σ → α' → σ' → Prop} {yields : β → σ → β' → σ' → Prop}
    (paired : Paired between fails (first state) (first' state'))
    (nextPaired : ∀ value middle value' middle', between value middle value' middle' →
      Paired yields fails (next value middle) (next' value' middle')) :
    Paired yields fails ((first >>= next) state) ((first' >>= next') state') := by
  refine paired.cases ?_ ?_
  · intro value middle value' middle' result result' holds
    rw [bind_of_ok result, bind_of_ok result']
    exact nextPaired _ _ _ _ holds
  · intro error middle error' middle' result result' holds
    rw [bind_of_error result, bind_of_error result']
    exact holds

end Paired

end Actions

end Lox
