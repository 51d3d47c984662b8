import Lox.Proofs.Copies.Mentions
import Lox.Proofs.Parser.Relocation
import Lox.Proofs.Resolution.Relocation

/-!
# Sessions on other lines

Two sessions run the same units, but the second one gives out later identities, and its
tokens stand on other lines.  The trees of the second session are copies of those of the
first one, so that every unit ends in the same way, with its errors on those other lines.
-/

namespace Lox

open Actions

/-! ## How units end -/

/-- The error, found at a token that has been moved.  A lexical error is not found at a
token. -/
def Diagnostic.moved (line : Nat → Nat) : Diagnostic → Diagnostic
  | .lexical error => .lexical error
  | .syntactic error => .syntactic (error.moved line)
  | .resolution error => .resolution (error.moved line)
  | .runtime error => .runtime { error with line := line error.line }
  | .output error => .output error

theorem Diagnostic.moved_id (diagnostic : Diagnostic) : diagnostic.moved id = diagnostic := by
  cases diagnostic <;> rfl

/-- The interrupt, with a runtime error at a token that has been moved. -/
def Interrupt.moved (line : Nat → Nat) : Interrupt → Interrupt
  | .runtime error => .runtime { error with line := line error.line }
  | .output error => .output error
  | .outOfFuel => .outOfFuel

theorem Interrupt.moved_id (cause : Interrupt) : cause.moved id = cause := by
  cases cause <;> rfl

namespace Outcome

/-- How a unit ends whose run ended so. -/
def ofResult : EStateM.Result Interrupt Machine Unit → Outcome
  | .ok _ _ => .completed
  | .error cause _ => .interrupted cause

theorem ofResult_ne_rejected (result : EStateM.Result Interrupt Machine Unit)
    (errors : List Diagnostic) : ofResult result ≠ .rejected errors := by
  intro rejected
  cases result with
  | ok value final => cases rejected
  | error cause final => cases rejected

/-- The same end, with errors at tokens that have been moved. -/
def moved (line : Nat → Nat) : Outcome → Outcome
  | .completed => .completed
  | .rejected errors => .rejected (errors.map (Diagnostic.moved line))
  | .interrupted cause => .interrupted (cause.moved line)

theorem moved_id (outcome : Outcome) : outcome.moved id = outcome := by
  cases outcome with
  | completed => rfl
  | rejected errors => rw [moved, funext Diagnostic.moved_id, List.map_id']
  | interrupted cause => rw [moved, Interrupt.moved_id]

theorem eq_completed_of_moved {line : Nat → Nat} {outcome : Outcome}
    (same : outcome.moved line = .completed) : outcome = .completed := by
  cases outcome with
  | completed => rfl
  | rejected errors => cases same
  | interrupted cause => cases same

end Outcome

/-! ## Copies of machines -/

/-- The distances of two machines, for trees that are moved in these ways. -/
def Machine.copying (machine machine' : Machine) (Moves : (Nat → Nat) → Prop) : Copying where
  distances := machine.distances
  others := machine'.distances
  Moves

namespace Copying

variable {copying : Copying} {machine machine' : Machine} {α : Type}

theorem Agree.endState {action action' : Eval α}
    (agree : copying.Agree machine machine' action action') :
    copying.Machines (Actions.endState (action machine)) (Actions.endState (action' machine')) := by
  unfold Agree at agree
  generalize action machine = result at agree ⊢
  generalize action' machine' = result' at agree ⊢
  cases result with
  | ok value final =>
      cases result' with
      | ok value' final' => exact agree.2
      | error cause' final' => exact agree.elim
  | error cause final =>
      cases result' with
      | ok value' final' => exact agree.elim
      | error cause' final' => exact agree.2

/-- What agrees with an action that yields a value yields that value. -/
theorem Agree.exists_ok {final : Machine} {action action' : Eval α} {value : α}
    (agree : copying.Agree machine machine' action action')
    (succeeded : action machine = .ok value final) :
    ∃ final', action' machine' = .ok value final' ∧ copying.Machines final final' := by
  unfold Agree at agree
  rw [succeeded] at agree
  cases result : action' machine' with
  | ok value' final' =>
      rw [result] at agree
      rcases agree with ⟨rfl, machines⟩
      exact ⟨final', rfl, machines⟩
  | error cause final' =>
      rw [result] at agree
      exact agree.elim

/-- How units end whose runs agree. -/
inductive Outcomes (copying : Copying) : Outcome → Outcome → Prop where
  | completed : Outcomes copying .completed .completed
  | interrupted {cause cause' : Interrupt} : copying.Interrupts cause cause' →
      Outcomes copying (.interrupted cause) (.interrupted cause')

theorem Agree.outcomes {action action' : Eval Unit}
    (agree : copying.Agree machine machine' action action') :
    copying.Outcomes (.ofResult (action machine)) (.ofResult (action' machine')) := by
  unfold Agree at agree
  generalize action machine = result at agree ⊢
  generalize action' machine' = result' at agree ⊢
  cases result with
  | ok value final =>
      cases result' with
      | ok value' final' => exact .completed
      | error cause' final' => exact agree.elim
  | error cause final =>
      cases result' with
      | ok value' final' => exact agree.elim
      | error cause' final' => exact .interrupted agree.1

/-- If trees are moved in one way only, errors are moved in that way. -/
theorem Outcomes.moved {line : Nat → Nat} {outcome outcome' : Outcome}
    (outcomes : (machine.copying machine' (· = line)).Outcomes outcome outcome') :
    outcome' = outcome.moved line := by
  cases outcomes with
  | completed => rfl
  | interrupted interrupts =>
      cases interrupts with
      | runtime fault lines =>
          rcases lines with ⟨move, rfl, rfl⟩
          rfl
      | output error => rfl
      | outOfFuel => rfl

end Copying

/-! ## Tokens on other lines -/

theorem Scanned.moved {tokens : List Token} (scanned : Scanned tokens) (line : Nat → Nat) :
    Scanned (tokens.map (Token.moved line)) := by
  rcases scanned with ⟨before, last, rfl, isEnd, inside, plain⟩
  refine ⟨before.map (Token.moved line), last.moved line, by simp, isEnd, ?_, ?_⟩
  · intro token member
    rcases List.mem_map.mp member with ⟨original, isOriginal, rfl⟩
    exact inside original isOriginal
  · intro token member isName
    rcases List.mem_map.mp member with ⟨original, isOriginal, rfl⟩
    exact plain original isOriginal isName

theorem Scanned.parse_moved {tokens : List Token} (scanned : Scanned tokens) (shift : Nat)
    (line : Nat → Nat) (firstId : UseId) :
    parseProgram (firstId + shift) (tokens.map (Token.moved line)) =
      Parser.movedResult shift line (Stmt.relabelEach (· + shift) line)
        (parseProgram firstId tokens) := by
  rcases scanned with ⟨before, last, rfl, isEnd, -, -⟩
  exact parseProgram_moved shift line firstId List.getLast?_concat isEnd

/-! ## Programs that run in both sessions -/

namespace Session

variable {session session' : Session} {origin origin' : Visit → Prop} {shift : Nat}
  {line : Nat → Nat} {program program' : List Stmt} {nextId nextId' : UseId}

theorem runProgram_outcome {fuel : Nat}
    (clean : (resolveProgram session.machine.globalNames program).errors = []) :
    (session.machine.runProgram fuel program).1 =
      .ofResult (executeProgram fuel program (session.resolved program)) := by
  rw [Machine.runProgram, clean, resolved]
  cases executeProgram fuel program
    (session.machine.record (resolveProgram session.machine.globalNames program).uses) <;> rfl

theorem runProgram_rejected {fuel : Nat}
    (unclean : (resolveProgram session.machine.globalNames program).errors ≠ []) :
    (session.machine.runProgram fuel program).1 =
      .rejected ((resolveProgram session.machine.globalNames program).errors.map .resolution) := by
  have nonempty : (resolveProgram session.machine.globalNames program).errors.isEmpty = false := by
    rw [List.isEmpty_eq_false_iff]
    exact unclean
  simp only [Machine.runProgram, nonempty]
  rfl

section Programs

variable (takes : session.Takes program nextId) (takes' : session'.Takes program' nextId')
  (settled : session.Settled origin) (settled' : session'.Settled origin')

include takes takes' settled settled'

/-- Two units with the same uses start with the same distances recorded for them. -/
theorem Takes.same_distances
    (clean : (resolveProgram session.machine.globalNames program).errors = [])
    (clean' : (resolveProgram session'.machine.globalNames program').errors = [])
    {use : UseId → UseId}
    (within : ∀ found ∈ (resolveProgram session.machine.globalNames program).uses,
      found.relabel use ∈ (resolveProgram session'.machine.globalNames program').uses) :
    ∀ id ∈ Stmt.idsEach program,
      (session'.resolved program').distances[use id]? =
        (session.resolved program).distances[id]? := by
  intro id member
  have counted := Stmt.count_visitsEach [] false program id
  have positive := List.count_pos_iff.mpr member
  rw [← counted, List.count_pos_iff] at positive
  rcases List.mem_map.mp positive with ⟨visit, visited, rfl⟩
  have used : visit.use ∈ (resolveProgram session.machine.globalNames program).uses := by
    rw [(resolveProgram_visits takes.wellFormed clean).1]
    exact List.mem_map_of_mem visited
  have recorded := takes.recorded settled clean used
  have recorded' := takes'.recorded settled' clean' (within visit.use used)
  exact recorded'.trans recorded.symm

/-- Machines that are copies of each other are so when both have been resolved. -/
theorem Takes.resolved_copied {Moves : (Nat → Nat) → Prop}
    (machines : (session.machine.copying session'.machine Moves).Machines session.machine
      session'.machine) :
    ((session.resolved program).copying (session'.resolved program') Moves).Machines
      (session.resolved program) (session'.resolved program') := by
  refine ⟨machines.heap.recast (fun _ => id) ?_ ?_, machines.globals, machines.current,
    machines.callDepth, machines.callLimit, rfl, rfl, machines.sink, machines.clock⟩
  · intro use mentions
    exact takes.resolved_mentioned settled mentions
  · intro use mentions
    exact takes'.resolved_mentioned settled' mentions

/-- Machines that are copies of each other when programs have run are so when both have
been released. -/
theorem Takes.released_copied {Moves : (Nat → Nat) → Prop} {fuel : Nat}
    (clean : (resolveProgram session.machine.globalNames program).errors = [])
    (clean' : (resolveProgram session'.machine.globalNames program').errors = [])
    (machines : ((session.resolved program).copying (session'.resolved program') Moves).Machines
      (session.finalMachine fuel program) (session'.finalMachine fuel program')) :
    (((session.finalMachine fuel program).release program).copying
        ((session'.finalMachine fuel program').release program') Moves).Machines
      ((session.finalMachine fuel program).release program)
      ((session'.finalMachine fuel program').release program') := by
  refine ⟨machines.heap.recast (fun _ => id) ?_ ?_, machines.globals, machines.current,
    machines.callDepth, machines.callLimit, rfl, rfl, machines.sink, machines.clock⟩
  · intro use mentions
    exact takes.released_mentioned settled clean mentions
  · intro use mentions
    exact takes'.released_mentioned settled' clean' mentions

/-- Machines that are copies of each other are so when both have rejected a program. -/
theorem Takes.rejected_copied {Moves : (Nat → Nat) → Prop}
    (machines : (session.machine.copying session'.machine Moves).Machines session.machine
      session'.machine) :
    (((session.resolved program).release program).copying
        ((session'.resolved program').release program') Moves).Machines
      ((session.resolved program).release program)
      ((session'.resolved program').release program') := by
  refine ⟨machines.heap.recast (fun _ => id) ?_ ?_, machines.globals, machines.current,
    machines.callDepth, machines.callLimit, rfl, rfl, machines.sink, machines.clock⟩
  · intro use mentions
    exact takes.rejected_mentioned settled mentions
  · intro use mentions
    exact takes'.rejected_mentioned settled' mentions

end Programs

/-! ## Sessions that are copies -/

/-- The second session is as the first one, but gives out later identities, and its trees
stand on other lines. -/
structure Copies (shift : Nat) (line : Nat → Nat) (session session' : Session) : Prop where
  nextId : session'.nextId = session.nextId + shift
  machines : (session.machine.copying session'.machine (· = line)).Machines session.machine
    session'.machine

namespace Copies

variable (copies : Copies shift line session session')

include copies

theorem globalNames : session'.machine.globalNames = session.machine.globalNames := by
  rw [Machine.globalNames, Machine.globalNames, copies.machines.heap.scopes,
    copies.machines.globals]

/-- Resolution finds the same in both sessions, and reports it at the moved tokens. -/
theorem resolution (program : List Stmt) :
    (resolveProgram session'.machine.globalNames
        (Stmt.relabelEach (· + shift) line program)).uses =
      (resolveProgram session.machine.globalNames program).uses.map (Use.relabel (· + shift)) ∧
    (resolveProgram session'.machine.globalNames
        (Stmt.relabelEach (· + shift) line program)).errors =
      (resolveProgram session.machine.globalNames program).errors.map
        (ResolutionError.moved line) := by
  rw [copies.globalNames, resolveProgram_relabel]
  exact ⟨rfl, rfl⟩

theorem clean (clean : (resolveProgram session.machine.globalNames program).errors = []) :
    (resolveProgram session'.machine.globalNames
      (Stmt.relabelEach (· + shift) line program)).errors = [] := by
  rw [(copies.resolution program).2, clean, List.map_nil]

section Run

variable (takes : session.Takes program nextId)
  (takes' : session'.Takes (Stmt.relabelEach (· + shift) line program) (nextId + shift))
  (settled : session.Settled origin) (settled' : session'.Settled origin') (fuel : Nat)

include takes takes' settled settled'

omit fuel in
/-- In both sessions the same distances are recorded for the program. -/
theorem labels (clean : (resolveProgram session.machine.globalNames program).errors = [])
    (clean' : (resolveProgram session'.machine.globalNames
      (Stmt.relabelEach (· + shift) line program)).errors = []) :
    ((session.resolved program).copying
      (session'.resolved (Stmt.relabelEach (· + shift) line program)) (· = line)).Labels
      (· + shift) line (Stmt.idsEach program) := by
  refine ⟨rfl, takes.same_distances takes' settled settled' clean clean' ?_⟩
  intro found member
  rw [(copies.resolution program).1]
  exact List.mem_map_of_mem member

/-- An accepted program ends in the same way, and the sessions are copies again. -/
theorem runProgram_accepted
    (clean : (resolveProgram session.machine.globalNames program).errors = []) :
    (session'.machine.runProgram fuel (Stmt.relabelEach (· + shift) line program)).1 =
        (session.machine.runProgram fuel program).1.moved line ∧
      Copies shift line ⟨(session.machine.runProgram fuel program).2, nextId⟩
        ⟨(session'.machine.runProgram fuel (Stmt.relabelEach (· + shift) line program)).2,
          nextId + shift⟩ := by
  have clean' := copies.clean clean
  have labels := copies.labels takes takes' settled settled' clean clean'
  have agree := Copying.executeProgram_agree fuel program
    (takes.resolved_copied takes' settled settled' copies.machines) labels
  rw [runProgram_clean clean, runProgram_clean clean', runProgram_outcome clean,
    runProgram_outcome clean']
  exact ⟨agree.outcomes.moved, rfl,
    takes.released_copied takes' settled settled' clean clean' agree.endState⟩

/-- A program that resolution rejects is rejected with the same errors, and the sessions
are copies again. -/
theorem runProgram_rejected
    (unclean : (resolveProgram session.machine.globalNames program).errors ≠ []) :
    (session'.machine.runProgram fuel (Stmt.relabelEach (· + shift) line program)).1 =
        (session.machine.runProgram fuel program).1.moved line ∧
      Copies shift line ⟨(session.machine.runProgram fuel program).2, nextId⟩
        ⟨(session'.machine.runProgram fuel (Stmt.relabelEach (· + shift) line program)).2,
          nextId + shift⟩ := by
  have errors' := (copies.resolution program).2
  have unclean' : (resolveProgram session'.machine.globalNames
      (Stmt.relabelEach (· + shift) line program)).errors ≠ [] := by
    rw [errors', ne_eq, List.map_eq_nil_iff]
    exact unclean
  rw [runProgram_unclean unclean, runProgram_unclean unclean', Session.runProgram_rejected unclean,
    Session.runProgram_rejected unclean', errors']
  refine ⟨?_, rfl, takes.rejected_copied takes' settled settled' copies.machines⟩
  rw [Outcome.moved, List.map_map, List.map_map]
  rfl

end Run

/-- Tokens and the same tokens on other lines run in the same way, and the sessions are
copies again. -/
theorem runTokens (settled : session.Settled origin) (settled' : session'.Settled origin')
    (fuel : Nat) (lexical : List LexError) {tokens : List Token} (scanned : Scanned tokens) :
    (session'.runTokens fuel (lexical.map .lexical) (tokens.map (Token.moved line))).1 =
        (session.runTokens fuel (lexical.map .lexical) tokens).1.moved line ∧
      Copies shift line (session.runTokens fuel (lexical.map .lexical) tokens).2
        (session'.runTokens fuel (lexical.map .lexical) (tokens.map (Token.moved line))).2 := by
  have unmoved : (lexical.map Diagnostic.lexical).map (Diagnostic.moved line) =
      lexical.map .lexical := by
    rw [List.map_map]
    rfl
  have parsed' := scanned.parse_moved shift line session.nextId
  rw [← copies.nextId] at parsed'
  cases parsed : parseProgram session.nextId tokens with
  | mk result nextId =>
      rw [parsed] at parsed'
      cases result with
      | error errors =>
          rw [runTokens_malformed _ parsed, runTokens_malformed _ parsed', Outcome.moved,
            List.map_append, unmoved, List.map_map, List.map_map]
          exact ⟨rfl, rfl, copies.machines⟩
      | ok program =>
          by_cases faultless : lexical.map Diagnostic.lexical = []
          · rw [faultless, runTokens_parsed fuel parsed, runTokens_parsed fuel parsed']
            have takes := takes_of_parse scanned parsed
            have takes' := takes_of_parse (scanned.moved line) parsed'
            by_cases clean : (resolveProgram session.machine.globalNames program).errors = []
            · exact copies.runProgram_accepted takes takes' settled settled' fuel clean
            · exact copies.runProgram_rejected takes takes' settled settled' fuel clean
          · rw [runTokens_misspelled parsed faultless, runTokens_misspelled parsed' faultless,
              Outcome.moved, unmoved]
            exact ⟨rfl, rfl, copies.machines⟩

end Copies

end Session

end Lox
