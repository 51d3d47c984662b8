import Lox.Diagnostic
import Lox.Evaluation
import Lox.Parser.Statement
import Lox.Resolution

/-!
# Sessions

A session runs one unit of source text after another on the same machine.
Globals stay from unit to unit, and so do the distances of uses in function
bodies, since functions can be called by later units.
-/

namespace Lox

/-- A machine and the next free identity for uses of variables. -/
structure Session where
  machine : Machine
  nextId : UseId

/-- How a unit ends. -/
inductive Outcome where
  | completed
  /-- The unit has static errors and was not run. -/
  | rejected (errors : List Diagnostic)
  /-- The run stopped before its end. -/
  | interrupted (cause : Interrupt)
  deriving DecidableEq

namespace Outcome

/-- The errors of a unit. -/
def errors : Outcome → List Diagnostic
  | .completed => []
  | .rejected errors => errors
  | .interrupted cause => cause.diagnostic?.toList

/-- The exit code that a unit leads to. -/
def exitCode : Outcome → Nat
  | .completed => 0
  | .rejected _ => 65
  | .interrupted cause => (cause.diagnostic?.map Diagnostic.exitCode).getD 70

/-- The reports of all errors, one after another. -/
def message (outcome : Outcome) : String :=
  "\n".intercalate (outcome.errors.map Diagnostic.message)

end Outcome

namespace Machine

/-- Resolve a program and, if it has no static errors, run it.  In any case the
distances of uses outside function bodies are forgotten afterwards. -/
def runProgram (fuel : Nat) (machine : Machine) (program : List Stmt) : Outcome × Machine :=
  let resolution := resolveProgram machine.globalNames program
  let resolved := machine.record resolution.uses
  if resolution.errors.isEmpty then
    match executeProgram fuel program resolved with
    | .ok _ final => (.completed, final.release program)
    | .error cause final => (.interrupted cause, final.release program)
  else
    (.rejected (resolution.errors.map .resolution), resolved.release program)

end Machine

namespace Session

/-- A fuel that no run in practice uses up. -/
def ampleFuel : Nat :=
  1000000000000000000

/-- A session that has run nothing. -/
def initial (sink : Sink) (clock : Clock) : Session :=
  { machine := .initial sink clock, nextId := 0 }

/-- Run a unit of these tokens, which were scanned with these lexical errors.  Lexical
and syntax errors are reported together; static rules are checked only if there are
none. -/
def runTokens (fuel : Nat) (session : Session) (lexical : List Diagnostic)
    (tokens : List Token) : Outcome × Session :=
  match parseProgram session.nextId tokens with
  | (.error errors, nextId) =>
      (.rejected (lexical ++ errors.map .syntactic), { session with nextId })
  | (.ok program, nextId) =>
      if lexical.isEmpty then
        match session.machine.runProgram fuel program with
        | (outcome, machine) => (outcome, { machine, nextId })
      else
        (.rejected lexical, { session with nextId })

/-- Run a unit of source text. -/
def run (fuel : Nat) (session : Session) (source : String) : Outcome × Session :=
  let items := scan source
  session.runTokens fuel ((items.filterMap lexError?).map .lexical) (items.filterMap token?)

/-- How the evaluation of an expression ends. -/
inductive Answer where
  | value (value : Value)
  | malformed (errors : List SyntaxError)
  | interrupted (cause : Interrupt)
  deriving DecidableEq

/-- Evaluate the expression at the front of a source text, without resolution:
every name in it is a global.  Lexical errors are passed over. -/
def evaluate (fuel : Nat) (session : Session) (source : String) : Answer × Session :=
  match parseExpression session.nextId (scanTokens source) with
  | (.error errors, nextId) => (.malformed errors, { session with nextId })
  | (.ok expr, nextId) =>
      match Lox.evaluate fuel expr session.machine with
      | .ok value machine => (.value value, { machine, nextId })
      | .error cause machine => (.interrupted cause, { machine, nextId })

end Session

end Lox
