import Lox.Proofs.Parser.ListSource

/-!
# Reading tokens

What the parsers for single tokens do, both as equations on a state whose next
token is known and as facts about a state in which they succeeded.  Parsers only
move forward: they drop tokens from the front, add errors at the end and give out
identities in ascending order.
-/

namespace Lox

open Actions

/-- A later state of the same parse. -/
structure ParserState.Precedes (state final : ParserState) : Prop where
  /-- Tokens are only taken from the front. -/
  rest : final.rest <:+ state.rest
  /-- Errors are only added. -/
  errors : state.errors.toList <+: final.errors.toList
  /-- Identities are only given out. -/
  nextId : state.nextId ≤ final.nextId

namespace ParserState

theorem precedes_order : StepOrder Precedes where
  refl _ := ⟨List.suffix_refl _, List.prefix_refl _, Nat.le_refl _⟩
  trans first second :=
    ⟨second.rest.trans first.rest, first.errors.trans second.errors,
      Nat.le_trans first.nextId second.nextId⟩

/-- If no errors are left after two steps, then none were left in between. -/
theorem Precedes.errors_eq {state middle final : ParserState}
    (first : state.Precedes middle) (second : middle.Precedes final)
    (clean : final.errors = state.errors) :
    middle.errors = state.errors ∧ final.errors = middle.errors := by
  have back : middle.errors.toList <+: state.errors.toList := by
    rw [← clean]
    exact second.errors
  have same : middle.errors = state.errors :=
    Array.toList_inj.mp <| back.eq_of_length <|
      Nat.le_antisymm back.length_le first.errors.length_le
  exact ⟨same, clean.trans same.symm⟩

theorem peek_cons (token : Token) (rest : List Token) (errors : Array SyntaxError)
    (nextId : UseId) :
    (ParserState.mk (token :: rest) errors nextId).peek = token :=
  rfl

/-- A next token that is not the end of input is the first one to be read. -/
theorem rest_eq_of_peek {state : ParserState} {token : Token} (next : state.peek = token)
    (inside : token.kind ≠ .endOfInput) :
    ∃ rest, state.rest = token :: rest := by
  unfold peek at next
  cases restEquality : state.rest with
  | nil =>
      rw [restEquality, List.headD_nil] at next
      exact absurd (congrArg Token.kind next).symm inside
  | cons first rest =>
      rw [restEquality, List.headD_cons] at next
      exact ⟨rest, by rw [next]⟩

end ParserState

namespace Parser

/-! ## Moving forward -/

/-- The parser only moves forward, however it ends. -/
abbrev Advancing {α : Type} (parser : Parser α) : Prop :=
  Respects ParserState.Precedes parser

section Advancing

open ParserState (precedes_order)

variable {α β : Type}

theorem Advancing.pure (value : α) : Advancing (Pure.pure value : Parser α) :=
  Respects.pure precedes_order value

theorem Advancing.bind {first : Parser α} {next : α → Parser β} (firstAdvances : Advancing first)
    (nextAdvances : ∀ value, Advancing (next value)) : Advancing (first >>= next) :=
  Respects.bind precedes_order firstAdvances nextAdvances

theorem Advancing.map {first : Parser α} (f : α → β) (firstAdvances : Advancing first) :
    Advancing (f <$> first) :=
  Respects.map precedes_order f firstAdvances

theorem Advancing.ite {condition : Prop} [Decidable condition] {first second : Parser α}
    (firstAdvances : Advancing first) (secondAdvances : Advancing second) :
    Advancing (if condition then first else second) :=
  Respects.ite firstAdvances secondAdvances

theorem advancing_peek : Advancing peek :=
  fun state => precedes_order.refl state

theorem advancing_isAtEnd : Advancing isAtEnd :=
  fun state => precedes_order.refl state

theorem advancing_check (kind : TokenKind) : Advancing (check kind) :=
  advancing_isAtEnd.bind fun _ =>
    Advancing.ite (Advancing.pure _) (advancing_peek.bind fun _ => Advancing.pure _)

theorem advancing_advance : Advancing advance := by
  intro state
  rw [advance_apply, endState_ok, ParserState.advance]
  split
  · exact precedes_order.refl state
  · exact ⟨List.tail_suffix _, List.prefix_refl _, Nat.le_refl _⟩

theorem advancing_acceptIf (accepts : TokenKind → Bool) : Advancing (acceptIf accepts) := by
  intro state
  rw [acceptIf_apply]
  split
  · exact ⟨List.tail_suffix _, List.prefix_refl _, Nat.le_refl _⟩
  · exact precedes_order.refl state

theorem advancing_accept (kind : TokenKind) : Advancing (accept kind) :=
  advancing_acceptIf _

theorem advancing_skip (kind : TokenKind) : Advancing (skip kind) :=
  (advancing_accept kind).bind fun _ => Advancing.pure _

theorem advancing_fail (fault : SyntaxFault) : Advancing (fail fault : Parser α) :=
  fun state => precedes_order.refl state

theorem advancing_reportAt (token : Token) (fault : SyntaxFault) :
    Advancing (reportAt token fault) := by
  intro state
  refine ⟨List.suffix_refl _, ?_, Nat.le_refl _⟩
  rw [reportAt_apply, endState_ok, ParserState.record, Array.toList_push]
  exact List.prefix_append _ _

theorem advancing_report (fault : SyntaxFault) : Advancing (report fault) :=
  fun state => advancing_reportAt state.peek fault state

theorem advancing_expect (kind : TokenKind) (fault : SyntaxFault) :
    Advancing (expect kind fault) := by
  refine (advancing_accept kind).bind ?_
  intro found
  cases found with
  | none => exact advancing_fail fault
  | some token => exact Advancing.pure token

theorem advancing_expectName (fault : SyntaxFault) : Advancing (expectName fault) :=
  (advancing_expect .identifier fault).bind fun _ => Advancing.pure _

theorem advancing_freshId : Advancing freshId :=
  fun _ => ⟨List.suffix_refl _, List.prefix_refl _, Nat.le_succ _⟩

/-- One round of reading a list with commas. -/
theorem commaSeparated_succ (item : Parser α) (fault : SyntaxFault) (budget : Nat)
    (done : List α) :
    commaSeparated item fault (budget + 1) done =
      ((if maxArity ≤ done.length then report fault else Pure.pure ()) >>= fun _ =>
        item >>= fun next =>
          skip (.punct .comma) >>= fun more =>
            if more = true then commaSeparated item fault budget (next :: done)
            else Pure.pure (next :: done).reverse) := by
  rw [commaSeparated]
  split <;> rfl

theorem advancing_commaSeparated {item : Parser α} (fault : SyntaxFault)
    (itemAdvances : Advancing item) (budget : Nat) (done : List α) :
    Advancing (commaSeparated item fault budget done) := by
  induction budget generalizing done with
  | zero => exact Advancing.pure _
  | succ budget inductionHypothesis =>
      rw [commaSeparated_succ]
      refine (Advancing.ite (advancing_report fault) (Advancing.pure _)).bind fun _ => ?_
      refine itemAdvances.bind fun next => (advancing_skip _).bind fun _ => ?_
      exact Advancing.ite (inductionHypothesis _) (Advancing.pure _)

/-- If a sequence succeeds without recording errors, so do its parts. -/
theorem bind_clean {first : Parser α} {next : α → Parser β} {state final : ParserState}
    {result : β} (firstAdvances : Advancing first) (nextAdvances : ∀ value, Advancing (next value))
    (parsed : (first >>= next) state = .ok result final)
    (clean : final.errors = state.errors) :
    ∃ value middle, first state = .ok value middle ∧ middle.errors = state.errors ∧
      next value middle = .ok result final ∧ final.errors = middle.errors := by
  obtain ⟨value, middle, firstParsed, nextParsed⟩ := bind_eq_ok_iff.mp parsed
  have firstStep := firstAdvances state
  have nextStep := nextAdvances value middle
  rw [firstParsed] at firstStep
  rw [nextParsed] at nextStep
  obtain ⟨firstClean, nextClean⟩ := firstStep.errors_eq nextStep clean
  exact ⟨value, middle, firstParsed, firstClean, nextParsed, nextClean⟩

end Advancing

/-! ## Reading a known token -/

variable {errors : Array SyntaxError} {nextId : UseId} {token : Token} {rest : List Token}

theorem peek_mk_cons :
    peek ⟨token :: rest, errors, nextId⟩ = .ok token ⟨token :: rest, errors, nextId⟩ :=
  rfl

theorem advance_mk_cons (inside : token.kind ≠ .endOfInput) :
    advance ⟨token :: rest, errors, nextId⟩ = .ok token ⟨rest, errors, nextId⟩ := by
  rw [advance_apply]
  simp [ParserState.advance, ParserState.isAtEnd, ParserState.peek_cons, inside]

/-- The end of input is not what is looked for. -/
theorem check_eq {kind : TokenKind} (inside : kind ≠ .endOfInput) (state : ParserState) :
    check kind state = .ok (decide (state.peek.kind = kind)) state := by
  rw [check_apply, ParserState.isAtEnd]
  by_cases same : state.peek.kind = kind
  · rw [decide_eq_false (same ▸ inside), decide_eq_true same]
    rfl
  · rw [decide_eq_false same, Bool.and_false]

theorem check_mk_cons {kind : TokenKind} (inside : kind ≠ .endOfInput) :
    check kind ⟨token :: rest, errors, nextId⟩ =
      .ok (decide (token.kind = kind)) ⟨token :: rest, errors, nextId⟩ :=
  check_eq inside _

theorem acceptIf_mk_cons {accepts : TokenKind → Bool} (inside : token.kind ≠ .endOfInput)
    (accepted : accepts token.kind = true) :
    acceptIf accepts ⟨token :: rest, errors, nextId⟩ =
      .ok (some token) ⟨rest, errors, nextId⟩ := by
  rw [acceptIf_apply]
  simp [ParserState.isAtEnd, ParserState.peek_cons, inside, accepted]

theorem acceptIf_of_refused {accepts : TokenKind → Bool} {state : ParserState}
    (refused : state.peek.kind ≠ .endOfInput → accepts state.peek.kind = false) :
    acceptIf accepts state = .ok none state := by
  rw [acceptIf_apply, ParserState.isAtEnd]
  by_cases atEnd : state.peek.kind = .endOfInput
  · simp [atEnd]
  · simp [atEnd, refused atEnd]

theorem accept_mk_cons {kind : TokenKind} (same : token.kind = kind)
    (inside : kind ≠ .endOfInput) :
    accept kind ⟨token :: rest, errors, nextId⟩ = .ok (some token) ⟨rest, errors, nextId⟩ :=
  acceptIf_mk_cons (same ▸ inside) (by simp [same])

theorem accept_of_ne {kind : TokenKind} {state : ParserState}
    (different : state.peek.kind ≠ kind) :
    accept kind state = .ok none state :=
  acceptIf_of_refused fun _ => by simp [different]

theorem skip_mk_cons {kind : TokenKind} (same : token.kind = kind)
    (inside : kind ≠ .endOfInput) :
    skip kind ⟨token :: rest, errors, nextId⟩ = .ok true ⟨rest, errors, nextId⟩ := by
  unfold skip
  rw [bind_of_ok (accept_mk_cons same inside)]
  rfl

theorem skip_of_ne {kind : TokenKind} {state : ParserState}
    (different : state.peek.kind ≠ kind) :
    skip kind state = .ok false state := by
  unfold skip
  rw [bind_of_ok (accept_of_ne different)]
  rfl

theorem expect_mk_cons {kind : TokenKind} {fault : SyntaxFault} (same : token.kind = kind)
    (inside : kind ≠ .endOfInput) :
    expect kind fault ⟨token :: rest, errors, nextId⟩ =
      .ok token ⟨rest, errors, nextId⟩ := by
  unfold expect
  rw [bind_of_ok (accept_mk_cons same inside)]
  rfl

theorem expectName_mk_cons {fault : SyntaxFault} (same : token.kind = .identifier) :
    expectName fault ⟨token :: rest, errors, nextId⟩ =
      .ok token.toName ⟨rest, errors, nextId⟩ := by
  unfold expectName
  rw [bind_of_ok (expect_mk_cons same (by decide))]
  rfl

/-! ## What was read -/

section Read

variable {state final : ParserState} {accepts : TokenKind → Bool} {kind : TokenKind}

theorem acceptIf_some {token : Token} (read : acceptIf accepts state = .ok (some token) final) :
    state.rest = token :: final.rest ∧ accepts token.kind = true ∧
      final.errors = state.errors ∧ final.nextId = state.nextId := by
  rw [acceptIf_apply] at read
  split at read
  next passed =>
    simp only [Bool.and_eq_true, Bool.not_eq_true', ParserState.isAtEnd,
      decide_eq_false_iff_not] at passed
    obtain ⟨rest, restEquality⟩ := ParserState.rest_eq_of_peek rfl passed.1
    injection read with tokenEquality stateEquality
    injection tokenEquality with tokenEquality
    subst stateEquality tokenEquality
    refine ⟨?_, passed.2, rfl, rfl⟩
    rw [restEquality, List.tail_cons]
  next refused =>
    injection read with tokenEquality
    cases tokenEquality

theorem acceptIf_none (read : acceptIf accepts state = .ok none final) :
    final = state ∧ (state.peek.kind ≠ .endOfInput → accepts state.peek.kind = false) := by
  rw [acceptIf_apply] at read
  split at read
  next passed =>
    injection read with tokenEquality
    cases tokenEquality
  next refused =>
    injection read with tokenEquality stateEquality
    refine ⟨stateEquality.symm, ?_⟩
    intro inside
    simpa [ParserState.isAtEnd, inside] using refused

theorem accept_some {token : Token} (read : accept kind state = .ok (some token) final) :
    state.rest = token :: final.rest ∧ token.kind = kind ∧
      final.errors = state.errors ∧ final.nextId = state.nextId := by
  obtain ⟨restEquality, accepted, errorsEquality, idEquality⟩ := acceptIf_some read
  exact ⟨restEquality, of_decide_eq_true accepted, errorsEquality, idEquality⟩

theorem accept_none (inside : kind ≠ .endOfInput) (read : accept kind state = .ok none final) :
    final = state ∧ state.peek.kind ≠ kind := by
  obtain ⟨stateEquality, refused⟩ := acceptIf_none read
  refine ⟨stateEquality, ?_⟩
  intro same
  have rejected := refused (same ▸ inside)
  simp [same] at rejected

theorem skip_true (read : skip kind state = .ok true final) :
    ∃ token, state.rest = token :: final.rest ∧ token.kind = kind ∧
      final.errors = state.errors ∧ final.nextId = state.nextId := by
  obtain ⟨found, middle, accepted, finished⟩ := bind_eq_ok_iff.mp read
  obtain ⟨foundEquality, stateEquality⟩ := pure_eq_ok_iff.mp finished
  cases found with
  | none => cases foundEquality
  | some token => exact ⟨token, stateEquality ▸ accept_some accepted⟩

theorem skip_false (inside : kind ≠ .endOfInput) (read : skip kind state = .ok false final) :
    final = state ∧ state.peek.kind ≠ kind := by
  obtain ⟨found, middle, accepted, finished⟩ := bind_eq_ok_iff.mp read
  obtain ⟨foundEquality, stateEquality⟩ := pure_eq_ok_iff.mp finished
  cases found with
  | none => exact stateEquality ▸ accept_none inside accepted
  | some token => cases foundEquality

theorem expect_ok {fault : SyntaxFault} {token : Token}
    (read : expect kind fault state = .ok token final) :
    state.rest = token :: final.rest ∧ token.kind = kind ∧
      final.errors = state.errors ∧ final.nextId = state.nextId := by
  obtain ⟨found, middle, accepted, finished⟩ := bind_eq_ok_iff.mp read
  cases found with
  | none => cases finished
  | some token =>
      obtain ⟨tokenEquality, stateEquality⟩ := pure_eq_ok_iff.mp finished
      subst tokenEquality stateEquality
      exact accept_some accepted

theorem expectName_ok {fault : SyntaxFault} {name : Name}
    (read : expectName fault state = .ok name final) :
    ∃ token, state.rest = token :: final.rest ∧ token.kind = .identifier ∧
      name = token.toName ∧ final.errors = state.errors ∧ final.nextId = state.nextId := by
  obtain ⟨token, middle, expected, finished⟩ := bind_eq_ok_iff.mp read
  obtain ⟨nameEquality, stateEquality⟩ := pure_eq_ok_iff.mp finished
  subst stateEquality
  obtain ⟨restEquality, kindEquality, errorsEquality, idEquality⟩ := expect_ok expected
  exact ⟨token, restEquality, kindEquality, nameEquality.symm, errorsEquality, idEquality⟩

theorem check_ok {found : Bool} (read : check kind state = .ok found final) : final = state := by
  rw [check_apply] at read
  injection read with _ stateEquality
  exact stateEquality.symm

theorem peek_ok {token : Token} (read : peek state = .ok token final) :
    state.peek = token ∧ final = state := by
  injection read with tokenEquality stateEquality
  exact ⟨tokenEquality, stateEquality.symm⟩

/-- Reading on over a next token that was seen to be no end of input. -/
theorem advance_ok {token passed : Token} (next : state.peek = token)
    (inside : token.kind ≠ .endOfInput) (read : advance state = .ok passed final) :
    state.rest = token :: final.rest ∧ final.errors = state.errors ∧
      final.nextId = state.nextId := by
  have before : state.isAtEnd = false := by
    rw [ParserState.isAtEnd, next]
    exact decide_eq_false inside
  obtain ⟨first, rest, restEquality, -, isPeek, moves⟩ := exists_next before
  rw [advance_apply, moves] at read
  injection read with _ stateEquality
  subst stateEquality
  rw [restEquality, ← isPeek, next]
  exact ⟨rfl, rfl, rfl⟩

theorem freshId_ok {id : UseId} (read : freshId state = .ok id final) :
    id = state.nextId ∧ final = { state with nextId := state.nextId + 1 } := by
  injection read with idEquality stateEquality
  exact ⟨idEquality.symm, stateEquality.symm⟩

end Read

end Parser

end Lox
