import Lox.Interrupt
import Lox.Parser.Basic
import Lox.Resolution.State
import Lox.Scan

/-!
# Diagnostics

The errors of all stages under one type, with their reports, their lines and the
exit codes they lead to.
-/

namespace Lox

/-- An error of any stage. -/
inductive Diagnostic where
  | lexical (error : LexError)
  | syntactic (error : SyntaxError)
  | resolution (error : ResolutionError)
  | runtime (error : RuntimeError)
  | output (error : OutputError)
  deriving DecidableEq

namespace Diagnostic

/-- The report of the error. -/
def message : Diagnostic → String
  | .lexical error => error.message
  | .syntactic error => error.message
  | .resolution error => error.message
  | .runtime error => error.message
  | .output error => error.message

/-- The line that the error points at. -/
def line? : Diagnostic → Option Nat
  | .lexical error => some error.line
  | .syntactic error => some error.token.line
  | .resolution error => some error.name.line
  | .runtime error => some error.line
  | .output _ => none

/-- The exit code that the error leads to: 65 for a faulty program, 70 for a
failure while it runs, 74 for a failure of its output. -/
def exitCode : Diagnostic → Nat
  | .lexical _ => 65
  | .syntactic _ => 65
  | .resolution _ => 65
  | .runtime _ => 70
  | .output _ => 74

end Diagnostic

namespace Interrupt

/-- The error behind an interrupt; running out of fuel is none. -/
def diagnostic? : Interrupt → Option Diagnostic
  | .runtime error => some (.runtime error)
  | .output error => some (.output error)
  | .outOfFuel => none

end Interrupt

end Lox
