/-!
# The words of the command line

Which command the words of the command line ask for.
-/

namespace Lox

/-- What the command line asks for. -/
inductive Command where
  | tokenize (file : String) (json : Bool)
  | parse (file : String)
  | evaluate (file : String)
  | run (file : String)
  | prompt
  deriving DecidableEq, Repr

/-- A command, and whether a log file is to be created. -/
structure Arguments where
  command : Command
  log : Bool
  deriving DecidableEq, Repr

namespace Arguments

/-- The command of the words that are left without the switches. -/
def command? (json : Bool) : List String → Option Command
  | ["tokenize", file] => some (.tokenize file json)
  | ["parse", file] => if json then none else some (.parse file)
  | ["evaluate", file] => if json then none else some (.evaluate file)
  | ["run", file] => if json then none else some (.run file)
  | ["run"] => if json then none else some .prompt
  | [] => if json then none else some .prompt
  | _ => none

/-- Read the words of the command line; switches may stand anywhere. -/
def ofWords? (words : List String) : Option Arguments :=
  let rest := words.filter fun word => word ≠ "--log" && word ≠ "--json"
  (command? (words.contains "--json") rest).map fun command =>
    { command, log := words.contains "--log" }

end Arguments

end Lox
