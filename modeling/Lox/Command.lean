import Lox.Command.Arguments
import Lox.Command.Prompt
import Lox.Syntax.Text

/-!
# Commands

What each command does, as functions from the contents of files and of the
standard input to a report.
-/

namespace Lox

namespace Command

/-- List the tokens of a source. -/
def tokenizeSource (json : Bool) (source : String) : Report :=
  let items := scan source
  let listed (token : Token) := if json then token.json else token.columns
  let errors := (items.filterMap lexError?).map Diagnostic.lexical
  .ofTexts (textLines ((items.filterMap token?).map listed)) (reportLines errors)
    (if errors.isEmpty then 0 else 65)

/-- Show the syntax tree of a source. -/
def parseSource (source : String) : Report :=
  let lexical := (scanErrors source).map Diagnostic.lexical
  match (parseProgram 0 (scanTokens source)).1 with
  | .ok program =>
      .ofTexts (textLines (program.map Stmt.text)) (reportLines lexical)
        (if lexical.isEmpty then 0 else 65)
  | .error errors => .ofTexts "" (reportLines (lexical ++ errors.map .syntactic)) 65

/-- Evaluate a source as one expression. -/
def evaluateSource (clock : Clock) (source : String) : Report :=
  let lexical := (scanErrors source).map Diagnostic.lexical
  match (parseExpression 0 (scanTokens source)).1 with
  | .error errors => .ofTexts "" (reportLines (lexical ++ errors.map .syntactic)) 65
  | .ok expr =>
      if lexical.isEmpty then
        match Lox.evaluate Session.ampleFuel expr (.initial .unlimited clock) with
        | .ok value machine => .ofTexts (machine.heap.text value ++ "\n") "" 0
        | .error cause _ =>
            let outcome := Outcome.interrupted cause
            .ofTexts "" (reportLines outcome.errors) outcome.exitCode
      else
        .ofTexts "" (reportLines lexical) 65

/-- Run a source as one unit. -/
def runSource (clock : Clock) (source : String) : Report :=
  let (outcome, session) :=
    (Session.initial .unlimited clock).run Session.ampleFuel source
  { output := session.machine.sink.written
    errors := reportLines outcome.errors
    exitCode := outcome.exitCode }

/-- Apply a command to a source that may not have been read. -/
def onSource (action : String → Report) : Except ReadFailure String → Report
  | .ok source => action source
  | .error failure => failure.report

/-- Run a command, given what is in each file and in the standard input. -/
def report (clock : Clock) (files : String → FileContents) (input : ByteArray) :
    Command → Report
  | .tokenize file json => onSource (tokenizeSource json) (readSource file (files file))
  | .parse file => onSource parseSource (readSource file (files file))
  | .evaluate file => onSource (evaluateSource clock) (readSource file (files file))
  | .run file => onSource (runSource clock) (readSource file (files file))
  | .prompt => Prompt.run clock input

end Command

end Lox
