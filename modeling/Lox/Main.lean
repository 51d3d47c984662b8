import Std.Time.DateTime.Timestamp
import Lox.Command

/-!
# The program

Reads the command line, the files and the standard input, and writes what the
command reports.
-/

namespace Lox

/-- A clock that starts at the present time. -/
def presentClock : IO Clock := do
  let now ← Std.Time.Timestamp.now
  return .startingAt (now.toNanosecondsSinceUnixEpoch.toInt / 1000).toNat

/-- The contents of a file. -/
def readContents (file : String) : IO FileContents := do
  match ← (IO.FS.readBinFile file).toBaseIO with
  | .ok bytes => return .ok bytes
  | .error (.noFileOrDirectory ..) => return .error ReadFailure.noSuchFile
  | .error cause => return .error (toString cause)

/-- Write what a command reports, and give its exit code. -/
def deliver (report : Report) : IO UInt32 := do
  (← IO.getStdout).write report.output
  (← IO.getStdout).flush
  IO.eprint report.errors
  return report.exitCode.toUInt32

/-- The bytes of the next line, with its line break. -/
partial def readLine (input : IO.FS.Stream) (line : ByteArray) : IO ByteArray := do
  let bytes ← input.read 1
  if bytes.isEmpty || bytes.toList = [10] then return line ++ bytes
  else readLine input (line ++ bytes)

/-- Read and run lines until the input ends. -/
partial def promptLoop (session : Session) : IO UInt32 := do
  IO.print Prompt.mark
  (← IO.getStdout).flush
  match Prompt.lines (← readLine (← IO.getStdin) .empty) with
  | [] => deliver (.ofTexts "\n" "" 0)
  | line :: _ =>
      match Utf8.decode line with
      | .error _ => deliver ReadFailure.inputNotText.report
      | .ok text =>
          let (report, session) := Prompt.step session text
          let _ ← deliver report
          promptLoop session

/-- Carry out a command. -/
def carryOut (command : Command) : IO UInt32 := do
  let clock ← presentClock
  match command with
  | .prompt => promptLoop (.initial .unlimited clock)
  | .tokenize file _ | .parse file | .evaluate file | .run file =>
      let contents ← readContents file
      deliver (command.report clock (fun _ => contents) .empty)

end Lox

open Lox in
/-- The program: its exit code is that of the command, or 2 if the command line
cannot be understood. -/
def main (words : List String) : IO UInt32 := do
  match Arguments.ofWords? words with
  | none =>
      IO.eprintln <|
        "usage: lox [--log] [tokenize [--json] FILE | parse FILE | evaluate FILE | run [FILE]]"
      return 2
  | some arguments =>
      if arguments.log then IO.FS.writeFile "app.log" ""
      carryOut arguments.command
