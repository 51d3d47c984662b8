import Lox.Command.Report
import Lox.Session

/-!
# The prompt

An interactive session: every line of the input is a unit of its own, and an
error in one line does not end the session.
-/

namespace Lox

namespace Prompt

/-- What the prompt shows before each line. -/
def mark : String :=
  "> "

/-- Run a line as one unit; what it printed is taken out of the session. -/
def step (session : Session) (line : String) : Report × Session :=
  let (outcome, session) := session.run Session.ampleFuel line
  let machine := session.machine
  ({ output := machine.sink.written
     errors := reportLines outcome.errors
     exitCode := 0 },
    { session with machine := { machine with sink := .unlimited } })

/-- The bytes of a line, given the last first, that a line break ended; a
carriage return before the line break is not part of the line. -/
def closeLine (line : List UInt8) : ByteArray :=
  match line with
  | 13 :: rest => ⟨rest.reverse.toArray⟩
  | bytes => ⟨bytes.reverse.toArray⟩

/-- Cut bytes into lines; `line` holds the bytes of the line begun, the last
first, and `done` the lines before it, the last first. -/
def cutLines (done : List ByteArray) (line : List UInt8) : List UInt8 → List ByteArray
  | [] => (if line.isEmpty then done else ⟨line.reverse.toArray⟩ :: done).reverse
  | byte :: rest =>
      if byte = 10 then cutLines (closeLine line :: done) [] rest
      else cutLines done (byte :: line) rest

/-- The lines of an input; the last one may lack its line break. -/
def lines (input : ByteArray) : List ByteArray :=
  cutLines [] [] input.toList

/-- Run all lines of an input, with `report` as what was written before. -/
def runLines (report : Report) (session : Session) : List ByteArray → Report
  | [] => { report with output := report.output ++ (mark ++ "\n").toUTF8 }
  | line :: rest =>
      let output := report.output ++ mark.toUTF8
      match Utf8.decode line with
      | .error _ =>
          { output
            errors := report.errors ++ ReadFailure.inputNotText.message
            exitCode := 1 }
      | .ok text =>
          let (step, session) := step session text
          runLines
            { output := output ++ step.output
              errors := report.errors ++ step.errors
              exitCode := 0 }
            session rest

/-- Run the prompt on a whole input. -/
def run (clock : Clock) (input : ByteArray) : Report :=
  runLines (.ofTexts "" "" 0) (.initial .unlimited clock) (lines input)

end Prompt

end Lox
