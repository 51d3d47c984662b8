import Lox.Parser.Basic

/-!
# Reading tokens by their place

The tokens stand in an array, and the parser keeps the place of the next one.  Looking
at a place outside the array is a failure of its own, which is no syntax error: nothing
recovers from it.
-/

namespace Lox

/-- Why parsing comes to a stop. -/
inductive ParserStop where
  | syntactic (error : SyntaxError)
  /-- There is no token at the place. -/
  | outOfRange
  deriving DecidableEq

/-- The tokens to be parsed, how far they have been read and what has been found. -/
structure TokenReader where
  tokens : Array Token
  /-- The place of the token to be read next. -/
  current : Nat
  /-- The errors recorded so far, in order. -/
  errors : Array SyntaxError
  /-- The identity for the next use of a variable. -/
  nextId : UseId

namespace TokenReader

/-- The start of parsing, with identities from `nextId` on. -/
def start (tokens : List Token) (nextId : UseId) : TokenReader :=
  { tokens := tokens.toArray, current := 0, errors := #[], nextId }

/-- The token at a place. -/
def tokenAt (place : Nat) : EStateM ParserStop TokenReader Token := fun reader =>
  match reader.tokens[place]? with
  | some token => .ok token reader
  | none => .error .outOfRange reader

/-- The token to be read next. -/
def peek : EStateM ParserStop TokenReader Token := fun reader =>
  tokenAt reader.current reader

/-- The token that was read last; there is none in front of the first one. -/
def previous : EStateM ParserStop TokenReader Token := fun reader =>
  match reader.current with
  | 0 => .error .outOfRange reader
  | place + 1 => tokenAt place reader

/-- Move on, but not past the end of input, and give the token that was read last. -/
def advance : EStateM ParserStop TokenReader Token := do
  if (← peek).kind ≠ .endOfInput then
    modify fun reader => { reader with current := reader.current + 1 }
  previous

/-- An identity that no other use of a variable has. -/
def freshId : EStateM ParserStop TokenReader UseId := fun reader =>
  .ok reader.nextId { reader with nextId := reader.nextId + 1 }

/-- Record an error. -/
def record (error : SyntaxError) (reader : TokenReader) : TokenReader :=
  { reader with errors := reader.errors.push error }

instance : TokenSource ParserStop TokenReader where
  peek := peek
  advance := advance
  remaining reader := reader.tokens.size - reader.current
  record := record
  freshId := freshId
  raise := .syntactic
  syntaxError?
    | .syntactic error => some error
    | .outOfRange => none

end TokenReader

end Lox
