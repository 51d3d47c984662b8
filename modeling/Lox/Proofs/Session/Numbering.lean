import Mathlib.Data.List.Induction
import Lox.Proofs.Copies.Moments
import Lox.Proofs.Session.Relocation

/-!
# Sessions with numbered tokens

If all tokens of a session carry numbers in place of their lines, the session runs as it
does otherwise, but a runtime error names the very token at which it was found: the
evaluation that fails by itself is that of a node to which this token belongs.
-/

namespace Lox

open Actions Eval

/-! ## Numbered tokens -/

/-- The tokens, with numbers from `first` on in place of their lines. -/
def numberTokens (first : Nat) (tokens : List Token) : List Token :=
  tokens.mapIdx fun index token => { token with line := first + index }

/-- The line of the token with this number. -/
def lineAt (tokens : List Token) (number : Nat) : Nat :=
  (tokens[number]?.map Token.line).getD 0

/-- The tokens with numbers from `first` on stand on these lines. -/
def Placed (line : Nat → Nat) (first : Nat) (tokens : List Token) : Prop :=
  ∀ index token, tokens[index]? = some token → line (first + index) = token.line

theorem lineAt_of_getElem? {tokens : List Token} {number : Nat} {token : Token}
    (found : tokens[number]? = some token) : lineAt tokens number = token.line := by
  rw [lineAt, found]
  rfl

theorem lineAt_left {tokens : List Token} {number : Nat} {token : Token}
    (found : tokens[number]? = some token) (more : List Token) :
    lineAt (tokens ++ more) number = token.line := by
  apply lineAt_of_getElem?
  rw [List.getElem?_append_left (List.getElem?_eq_some_iff.mp found).1, found]

theorem lineAt_right {more : List Token} {index : Nat} {token : Token} (tokens : List Token)
    (found : more[index]? = some token) :
    lineAt (tokens ++ more) (tokens.length + index) = token.line := by
  apply lineAt_of_getElem?
  rw [List.getElem?_append_right (Nat.le_add_right _ _), Nat.add_sub_cancel_left, found]

theorem placed_lineAt (tokens : List Token) : Placed (lineAt tokens) 0 tokens := by
  intro index token found
  rw [Nat.zero_add, lineAt_of_getElem? found]

namespace Placed

variable {line : Nat → Nat} {first : Nat} {tokens more : List Token}

theorem left (placed : Placed line first (tokens ++ more)) : Placed line first tokens := by
  intro index token found
  apply placed index
  rw [List.getElem?_append_left (List.getElem?_eq_some_iff.mp found).1, found]

theorem right (placed : Placed line first (tokens ++ more)) :
    Placed line (first + tokens.length) more := by
  intro index token found
  rw [Nat.add_assoc]
  apply placed
  rw [List.getElem?_append_right (Nat.le_add_right _ _), Nat.add_sub_cancel_left, found]

/-- Numbered tokens that are moved to their lines are the tokens. -/
theorem moved (placed : Placed line first tokens) :
    (numberTokens first tokens).map (Token.moved line) = tokens := by
  apply List.ext_getElem?
  intro index
  rw [numberTokens, List.getElem?_map, List.getElem?_mapIdx]
  cases found : tokens[index]? with
  | none => rfl
  | some token =>
      rw [Option.map_some, Option.map_some, Token.moved, placed index token found]

end Placed

theorem numberTokens_append (first : Nat) (tokens more : List Token) :
    numberTokens first (tokens ++ more) =
      numberTokens first tokens ++ numberTokens (first + tokens.length) more := by
  rw [numberTokens, List.mapIdx_append]
  simp only [numberTokens, Nat.add_comm tokens.length, Nat.add_assoc]

/-- Numbers do not depend on lines. -/
theorem numberTokens_moved (first : Nat) (line : Nat → Nat) (tokens : List Token) :
    numberTokens first (tokens.map (Token.moved line)) = numberTokens first tokens := by
  apply List.ext_getElem?
  intro index
  rw [numberTokens, numberTokens, List.getElem?_mapIdx, List.getElem?_map, List.getElem?_mapIdx,
    Option.map_map]
  rfl

theorem Scanned.numbered {tokens : List Token} (scanned : Scanned tokens) (first : Nat) :
    Scanned (numberTokens first tokens) := by
  rcases scanned with ⟨before, last, rfl, isEnd, inside, plain⟩
  refine ⟨numberTokens first before, { last with line := first + before.length }, ?_, isEnd, ?_, ?_⟩
  · rw [numberTokens_append]
    rfl
  · intro token member
    rcases List.mem_mapIdx.mp member with ⟨index, bound, rfl⟩
    exact inside before[index] (List.getElem_mem bound)
  · intro token member isName
    rcases List.mem_mapIdx.mp member with ⟨index, bound, rfl⟩
    exact plain before[index] (List.getElem_mem bound) isName

/-- The second evaluation is that of a copy of the same node, with all tokens on these
lines. -/
def Moment.Moved (line : Nat → Nat) (moment moment' : Moment) : Prop :=
  (moment.machine.copying moment'.machine (· = line)).Moments moment moment'

/-- Only the ways in which trees are moved matter for copies of moments. -/
theorem Copying.Moments.copying_eq {copying : Copying} {moment moment' : Moment}
    (copied : copying.Moments moment moment') :
    copying = moment.machine.copying moment'.machine copying.Moves := by
  rcases copying with ⟨distances, others, Moves⟩
  cases copied.machine.distances
  cases copied.machine.others
  rfl

theorem Copying.Moments.moved {copying : Copying} {moment moment' : Moment} {line : Nat → Nat}
    (copied : copying.Moments moment moment') (moves : copying.Moves = (· = line)) :
    moment.Moved line moment' := by
  rw [Moment.Moved, ← moves, ← copied.copying_eq]
  exact copied

theorem Copying.Errors.moved {copying : Copying} {error error' : RuntimeError} {line : Nat → Nat}
    (errors : copying.Errors error error') (moves : copying.Moves = (· = line)) :
    error' = { error with line := line error.line } := by
  rcases error' with ⟨found, fault⟩
  rcases errors.line with ⟨move, isMove, isLine⟩
  rw [moves] at isMove
  cases isMove
  cases isLine
  cases errors.fault
  rfl

namespace Session

/-! ## Numbered sessions -/

/-- The tokens of units, in order. -/
def unitTokens (units : List (Nat × String)) : List Token :=
  units.flatMap fun unit => scanTokens unit.2

/-- Run a unit whose tokens carry the numbers from `first` on in place of their lines. -/
def runNumbered (fuel : Nat) (session : Session) (first : Nat) (source : String) :
    Outcome × Session :=
  session.runTokens fuel ((scanErrors source).map .lexical)
    (numberTokens first (scanTokens source))

/-- Run units one after another, with their tokens numbered throughout. -/
def runAllNumbered (session : Session) (first : Nat) : List (Nat × String) → Session
  | [] => session
  | unit :: rest =>
      (session.runNumbered unit.1 first unit.2).2.runAllNumbered
        (first + (scanTokens unit.2).length) rest

theorem runAllNumbered_append_singleton (session : Session) (first : Nat)
    (units : List (Nat × String)) (unit : Nat × String) :
    session.runAllNumbered first (units ++ [unit]) =
      ((session.runAllNumbered first units).runNumbered unit.1
        (first + (unitTokens units).length) unit.2).2 := by
  induction units generalizing session first with
  | nil => rfl
  | cons other rest inductionHypothesis =>
      rw [List.cons_append, runAllNumbered, inductionHypothesis, runAllNumbered, unitTokens,
        unitTokens, List.flatMap_cons, List.length_append, Nat.add_assoc]

theorem copies_initial (line : Nat → Nat) (sink : Sink) (clock : Clock) :
    Copies 0 line (initial sink clock) (initial sink clock) := by
  refine ⟨rfl, ⟨rfl, rfl, rfl, rfl, ?_, rfl, ?_⟩, rfl, rfl, rfl, rfl, rfl, rfl, rfl, rfl⟩
  · intro ref
    have absent : (initial sink clock).machine.heap.function ref = default := by
      simp [Heap.function, initial, Machine.initial, Heap.empty]
    rw [absent]
    exact ⟨.empty rfl, rfl, rfl⟩
  · intro ref
    have absent : (initial sink clock).machine.heap.classInfo ref = default := by
      simp [Heap.classInfo, initial, Machine.initial, Heap.empty]
    rw [absent]
    refine ⟨rfl, rfl, ?_⟩
    intro name
    have noMethod : (default : ClassInfo).methods[name]? = none := rfl
    rw [noMethod]
    exact .none

/-- The first session has run the same units as the second one, but with numbers in place
of the lines of their tokens, which are these. -/
structure Numbered (tokens : List Token) (numbered session : Session) : Prop where
  settled : numbered.Settled fun _ => True
  settled' : session.Settled fun _ => True
  copies : ∀ line, Placed line 0 tokens → Copies 0 line numbered session

namespace Numbered

variable {tokens : List Token} {numbered session : Session} {line : Nat → Nat}

/-- The next unit runs as it does with numbered tokens, but on the lines of its tokens. -/
theorem run_copies (numbers : Numbered tokens numbered session) (fuel : Nat) {source : String}
    (placed : Placed line 0 (tokens ++ scanTokens source)) :
    (session.run fuel source).1 =
        (numbered.runNumbered fuel tokens.length source).1.moved line ∧
      Copies 0 line (numbered.runNumbered fuel tokens.length source).2
        (session.run fuel source).2 := by
  have own := placed.right
  rw [Nat.zero_add] at own
  have ran := (numbers.copies line placed.left).runTokens numbers.settled numbers.settled' fuel
    (scanErrors source) ((scanned_scanTokens source).numbered tokens.length)
  rw [own.moved] at ran
  exact ran

theorem run (numbers : Numbered tokens numbered session) (fuel : Nat) (source : String) :
    Numbered (tokens ++ scanTokens source)
      (numbered.runNumbered fuel tokens.length source).2 (session.run fuel source).2 where
  settled := numbers.settled.runTokens fuel _ ((scanned_scanTokens source).numbered _)
  settled' := numbers.settled'.run fuel source (fun _ => id) fun _ _ _ _ => trivial
  copies _ placed := (numbers.run_copies fuel placed).2

end Numbered

theorem unitTokens_append_singleton (units : List (Nat × String)) (unit : Nat × String) :
    unitTokens (units ++ [unit]) = unitTokens units ++ scanTokens unit.2 := by
  rw [unitTokens, List.flatMap_append, List.flatMap_singleton, unitTokens]

/-- In whatever session, numbering the tokens changes nothing but lines. -/
theorem numbered_runAll (sink : Sink) (clock : Clock) (units : List (Nat × String)) :
    Numbered (unitTokens units) ((initial sink clock).runAllNumbered 0 units)
      ((initial sink clock).runAll units) := by
  induction units using List.reverseRecOn with
  | nil =>
      exact ⟨settled_initial sink clock, settled_initial sink clock,
        fun line _ => copies_initial line sink clock⟩
  | append_singleton units unit inductionHypothesis =>
      rw [unitTokens_append_singleton, runAllNumbered_append_singleton, Nat.zero_add,
        runAll_append_singleton]
      exact inductionHypothesis.run unit.1 unit.2

/-! ## Units that run -/

/-- Between units, the session accepts the tokens, and runs them as this program. -/
structure Runs (session : Session) (tokens : List Token) (program : List Stmt)
    (nextId : UseId) : Prop where
  settled : session.Settled fun _ => True
  scanned : Scanned tokens
  parsed : parseProgram session.nextId tokens = (.ok program, nextId)
  clean : (resolveProgram session.machine.globalNames program).errors = []

/-- The session after a unit that was run as this program. -/
def after (session : Session) (fuel : Nat) (program : List Stmt) (nextId : UseId) : Session :=
  ⟨(session.finalMachine fuel program).release program, nextId⟩

section Runs

variable {session : Session} {tokens : List Token} {program : List Stmt} {nextId : UseId}

theorem not_rejected_of_completed {outcome : Outcome} (completed : outcome = .completed)
    (errors : List Diagnostic) : outcome ≠ .rejected errors := by
  rw [completed]
  exact nofun

/-- Tokens that are not rejected run. -/
theorem Settled.exists_runs (settled : session.Settled fun _ => True) (scanned : Scanned tokens)
    {fuel : Nat} {lexical : List Diagnostic}
    (notRejected : ∀ errors, (session.runTokens fuel lexical tokens).1 ≠ .rejected errors) :
    lexical = [] ∧ ∃ program nextId, session.Runs tokens program nextId := by
  rcases session.runTokens_cases fuel lexical tokens with
    ⟨program, nextId, rfl, parsed⟩ | ⟨errors, nextId, -, rejected⟩
  · refine ⟨rfl, program, nextId, settled, scanned, parsed, ?_⟩
    by_contra unclean
    apply notRejected ((resolveProgram session.machine.globalNames program).errors.map .resolution)
    rw [runTokens_parsed fuel parsed, runProgram_rejected unclean]
  · exact absurd (congrArg Prod.fst rejected) (notRejected errors)

variable (runs : session.Runs tokens program nextId)

include runs

theorem Runs.takes : session.Takes program nextId :=
  takes_of_parse runs.scanned runs.parsed

theorem Runs.run_eq (fuel : Nat) : session.runTokens fuel [] tokens =
    (.ofResult (executeProgram fuel program (session.resolved program)),
      session.after fuel program nextId) := by
  rw [runTokens_parsed fuel runs.parsed, runProgram_outcome runs.clean,
    runProgram_clean runs.clean, after]

theorem Runs.settled_after (fuel : Nat) :
    (session.after fuel program nextId).Settled fun _ => True :=
  (runs.takes.settled_accepted runs.settled runs.clean fuel).imp fun _ _ => trivial

/-- The program of a unit that completes runs to its end. -/
theorem Runs.executed {fuel : Nat}
    (completed : (session.runTokens fuel [] tokens).1 = .completed) :
    executeProgram fuel program (session.resolved program) =
      .ok () (session.finalMachine fuel program) := by
  rw [runs.run_eq] at completed
  rw [finalMachine]
  cases result : executeProgram fuel program (session.resolved program) with
  | ok value final => rfl
  | error cause final =>
      rw [result] at completed
      cases completed

end Runs

/-! ## Where a unit fails -/

/-- The run of these tokens comes to this evaluation, which fails by itself: the error is
on the line of a token that belongs to its node. -/
structure FailsBy (session : Session) (fuel : Nat) (tokens : List Token) (moment : Moment)
    (error : RuntimeError) : Prop where
  reached : ∃ program nextId, parseProgram session.nextId tokens = (.ok program, nextId) ∧
    Reaches ⟨fuel, .executeProgram program, session.resolved program⟩ moment
  itself : moment.FailsItself error
  own : error.line ∈ moment.task.lines

section FailsBy

variable {session session' : Session} {fuel : Nat} {tokens tokens' : List Token}
  {program program' : List Stmt} {nextId nextId' : UseId} {moment : Moment}
  {error : RuntimeError}

/-- A run with a runtime error has failed by one of its evaluations. -/
theorem Runs.exists_failsBy (runs : session.Runs tokens program nextId)
    (failed : (session.runTokens fuel [] tokens).1 = .interrupted (.runtime error)) :
    ∃ moment, session.FailsBy fuel tokens moment error := by
  have whole : Moment.failure? ⟨fuel, .executeProgram program, session.resolved program⟩ =
      some error := by
    rw [runs.run_eq] at failed
    rw [Moment.failure?]
    cases result : executeProgram fuel program (session.resolved program) with
    | ok value final =>
        rw [result] at failed
        cases failed
    | error cause final =>
        rw [result] at failed
        cases failed
        rfl
  rcases Moment.exists_failsItself whole with ⟨moment, reaches, itself⟩
  exact ⟨moment, ⟨program, nextId, runs.parsed, reaches⟩, itself, itself.own⟩

/-- If a run comes to a copy of the start of another run, both fail by copies of the same
evaluation. -/
theorem FailsBy.copied {copying : Copying} {begins : Moment}
    (failsBy : session.FailsBy fuel tokens moment error)
    (parsed : parseProgram session.nextId tokens = (.ok program, nextId))
    (parsed' : parseProgram session'.nextId tokens' = (.ok program', nextId'))
    (reaches' : Reaches ⟨fuel, .executeProgram program', session'.resolved program'⟩ begins)
    (copied : copying.Moments ⟨fuel, .executeProgram program, session.resolved program⟩
      begins) :
    ∃ moment' error', session'.FailsBy fuel tokens' moment' error' ∧
      copying.Moments moment moment' ∧ copying.Errors error error' := by
  rcases failsBy.reached with ⟨_, _, read, reaches⟩
  cases read.symm.trans parsed
  rcases copied.exists_reached reaches with ⟨moment', further, copiedMoment⟩
  rcases copiedMoment.exists_failsItself failsBy.itself with ⟨error', itself, errors⟩
  exact ⟨moment', error', ⟨⟨program', nextId', parsed', reaches'.trans further⟩, itself, itself.own⟩,
    copiedMoment, errors⟩

/-- Sessions that are copies fail by copies of the same evaluation. -/
theorem Copies.failsBy {line : Nat → Nat} (copies : Copies 0 line session session')
    (settled' : session'.Settled fun _ => True) (runs : session.Runs tokens program nextId)
    (failsBy : session.FailsBy fuel tokens moment error) :
    ∃ moment', session'.FailsBy fuel (tokens.map (Token.moved line)) moment'
        { error with line := line error.line } ∧ moment.Moved line moment' := by
  have parsed' := runs.scanned.parse_moved 0 line session.nextId
  rw [runs.parsed, ← copies.nextId] at parsed'
  have takes' := takes_of_parse (runs.scanned.moved line) parsed'
  have machines := runs.takes.resolved_copied takes' runs.settled settled' copies.machines
  have labels := copies.labels runs.takes takes' runs.settled settled' runs.clean
    (copies.clean runs.clean)
  rcases failsBy.copied runs.parsed parsed' .refl ⟨rfl, .executeProgram labels, machines⟩ with
    ⟨moment', error', failsBy', copied, errors⟩
  rw [errors.moved rfl] at failsBy'
  exact ⟨moment', failsBy', copied.moved rfl⟩

end FailsBy

/-- A runtime error in a session with numbered tokens names one of them. -/
theorem Numbered.exists_token {tokens : List Token} {numbered session : Session}
    (numbers : Numbered tokens numbered session) {fuel number : Nat} {source : String}
    {fault : RuntimeFault}
    (named : (numbered.runNumbered fuel tokens.length source).1 =
      .interrupted (.runtime ⟨number, fault⟩)) :
    ∃ token, (tokens ++ scanTokens source)[number]? = some token := by
  by_contra absent
  push Not at absent
  -- The line of a number that no token has could be any, but the unit fails on one line.
  let line := lineAt (tokens ++ scanTokens source)
  let other := fun sought => if sought = number then line number + 1 else line sought
  have placed : Placed line 0 (tokens ++ scanTokens source) := placed_lineAt _
  have placedOther : Placed other 0 (tokens ++ scanTokens source) := by
    intro index token found
    have apart : 0 + index ≠ number := by
      rintro rfl
      rw [Nat.zero_add] at absent
      exact absent token found
    exact (if_neg apart).trans (placed index token found)
  have same := (numbers.run_copies fuel placed).1.symm.trans (numbers.run_copies fuel placedOther).1
  rw [named] at same
  have lines : line number = other number := by
    injection same with causes
    injection causes with errors
    injection errors
  simp [other] at lines

end Session

end Lox
