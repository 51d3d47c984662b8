import Lox.Diagnostic
import Lox.Token.Listing
import Lox.Utf8

/-!
# What commands write

A command reports what goes to the standard output and to the standard error,
and its exit code.  Sources that cannot be read have reports of their own.
-/

namespace Lox

/-- What a command writes, and how it exits. -/
structure Report where
  output : ByteArray
  errors : String
  exitCode : Nat

namespace Report

/-- A report of texts. -/
def ofTexts (output errors : String) (exitCode : Nat) : Report :=
  { output := output.toUTF8, errors, exitCode }

end Report

/-- Lines of text, each with its line break. -/
def textLines (lines : List String) : String :=
  String.join (lines.map (· ++ "\n"))

/-- The reports of errors, one a line. -/
def reportLines (errors : List Diagnostic) : String :=
  textLines (errors.map Diagnostic.message)

/-! ## Reading sources -/

/-- Why a source cannot be read. -/
inductive ReadFailure where
  | cannotOpen (file : String) (cause : String)
  | notText (file : String) (fault : Utf8.Fault)
  | inputNotText
  deriving DecidableEq, Repr

namespace ReadFailure

/-- The text for a file that does not exist. -/
def noSuchFile : String :=
  "No such file or directory (os error 2)"

/-- The failure and its cause. -/
def description : ReadFailure → String × String
  | .cannotOpen file cause => ("Failed to open file " ++ JsonText.quote file, cause)
  | .notText file fault =>
      ("File " ++ JsonText.quote file ++ " is not valid UTF-8", fault.message)
  | .inputNotText => ("Failed to read from stdin", "stream did not contain valid UTF-8")

/-- The report of the failure. -/
def message (failure : ReadFailure) : String :=
  "Error: " ++ failure.description.1 ++ "\n\nCaused by:\n    " ++ failure.description.2 ++ "\n"

/-- The report of a command that could not read its source. -/
def report (failure : ReadFailure) : Report :=
  .ofTexts "" failure.message 1

end ReadFailure

/-- The contents of a file, or the cause why it cannot be opened. -/
abbrev FileContents :=
  Except String ByteArray

/-- The source text in a file. -/
def readSource (file : String) : FileContents → Except ReadFailure String
  | .error cause => .error (.cannotOpen file cause)
  | .ok bytes =>
      match Utf8.decode bytes with
      | .ok source => .ok source
      | .error fault => .error (.notText file fault)

end Lox
