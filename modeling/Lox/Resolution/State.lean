import Std.Data.TreeMap
import Lox.Syntax

/-!
# The state of resolution

What resolution finds, the static rules it checks, and the scopes it keeps while
it walks over a program.

A name whose initializer is being resolved is declared but not yet defined.  A
read passes over such an entry to an outer one; a write takes the innermost
entry in either case.
-/

namespace Lox

/-- How far a declaration has got. -/
inductive Status where
  | declared
  | defined
  deriving DecidableEq, Repr

/-- The names known in one scope. -/
abbrev NameTable :=
  Std.TreeMap String Status

/-- What kind of function body the walk is in. -/
inductive FunctionContext where
  | outside
  | function
  | method
  | initializer
  deriving DecidableEq, Repr

/-- What kind of class body the walk is in. -/
inductive ClassContext where
  | outside
  | plain
  | derived
  deriving DecidableEq, Repr

/-- How a variable is used. -/
inductive Access where
  | read
  | write
  deriving DecidableEq, Repr

/-- A violation of the static rules. -/
inductive ResolutionFault where
  | alreadyDeclared
  | readInOwnInitializer
  | returnOutsideFunction
  | returnValueFromInitializer
  | thisOutsideClass
  | superOutsideClass
  | superWithoutSuperclass
  | inheritsFromItself
  deriving DecidableEq, Repr

/-- A violation and the name or keyword at which it stands. -/
structure ResolutionError where
  name : Name
  fault : ResolutionFault
  deriving DecidableEq, Repr

/-- What was found for a use of a variable: the number of scopes between the use
and its variable, or nothing if the variable is global. -/
structure Use where
  id : UseId
  name : String
  distance : Option Nat
  deriving DecidableEq, Repr

namespace ResolutionFault

/-- The wording of the violation. -/
def message : ResolutionFault → String
  | .alreadyDeclared => "Already a variable with this name in this scope."
  | .readInOwnInitializer => "Can't read local variable in its own initializer."
  | .returnOutsideFunction => "Can't return from top-level code."
  | .returnValueFromInitializer => "Can't return a value from an initializer."
  | .thisOutsideClass => "Can't use 'this' outside of a class."
  | .superOutsideClass => "Can't use 'super' outside of a class."
  | .superWithoutSuperclass => "Can't use 'super' in a class with no superclass."
  | .inheritsFromItself => "A class can't inherit from itself."

end ResolutionFault

namespace ResolutionError

/-- The report of the error. -/
def message (error : ResolutionError) : String :=
  "[line " ++ toString error.name.line ++ "] Error at '" ++ error.name.text ++ "': " ++
    error.fault.message

end ResolutionError

namespace Use

/-- One line that says what was found. -/
def text (use : Use) : String :=
  "Resolved '" ++ use.name ++ "' " ++
    match use.distance with
    | some distance => "at depth " ++ toString distance
    | none => "as global"

end Use

/-! ## The state of the walk -/

/-- What the walk knows and has found. -/
structure ResolverState where
  /-- The names of the open local scopes, the innermost first. -/
  scopes : List NameTable
  globals : NameTable
  functionContext : FunctionContext
  classContext : ClassContext
  /-- The uses met so far, in order. -/
  uses : Array Use
  /-- The violations met so far, in order. -/
  errors : Array ResolutionError

namespace ResolverState

/-- The state before a program, with the given names as defined globals. -/
def initial (globals : List String) : ResolverState where
  scopes := []
  globals := globals.foldl (fun table name => table.insert name .defined) ∅
  functionContext := .outside
  classContext := .outside
  uses := #[]
  errors := #[]

/-- Record a violation. -/
def report (state : ResolverState) (name : Name) (fault : ResolutionFault) :
    ResolverState :=
  { state with errors := state.errors.push { name, fault } }

/-- Open a local scope. -/
def enter (state : ResolverState) : ResolverState :=
  { state with scopes := ∅ :: state.scopes }

/-- Close the innermost local scope. -/
def leave (state : ResolverState) : ResolverState :=
  { state with scopes := state.scopes.tail }

/-- Declare a name.  A local scope takes each name only once; globals can be
declared again and stay defined meanwhile. -/
def declare (state : ResolverState) (name : Name) : ResolverState :=
  match state.scopes with
  | [] => { state with globals := state.globals.insertIfNew name.text .declared }
  | scope :: outer =>
      if scope.contains name.text then state.report name .alreadyDeclared
      else { state with scopes := scope.insert name.text .declared :: outer }

/-- Mark a name as defined in the innermost scope. -/
def define (state : ResolverState) (name : String) : ResolverState :=
  match state.scopes with
  | [] => { state with globals := state.globals.insert name .defined }
  | scope :: outer => { state with scopes := scope.insert name .defined :: outer }

/-- Declare a name and mark it as defined at once. -/
def introduce (state : ResolverState) (name : Name) : ResolverState :=
  (state.declare name).define name.text

/-- The distance to the innermost entry of a name that an access can take. -/
def distance? (name : String) (access : Access) : List NameTable → Option Nat
  | [] => none
  | scope :: outer =>
      if scope[name]? = some .defined || (scope.contains name && access = .write) then some 0
      else (distance? name access outer).map (· + 1)

/-- Whether a read of a name that is no local variable is allowed: the global of
that name is defined, or neither a global nor a local of that name is waiting
for its initializer. -/
def globalReadable (state : ResolverState) (name : String) : Bool :=
  match state.globals[name]? with
  | some .defined => true
  | some .declared => false
  | none => !state.scopes.any (·.contains name)

/-- Record a use of a variable. -/
def use (state : ResolverState) (id : UseId) (name : String) (access : Access) :
    ResolverState :=
  { state with
    uses := state.uses.push
      { id, name, distance := distance? name access state.scopes } }

/-- Record a read of a variable, and report it if nothing can be read. -/
def read (state : ResolverState) (id : UseId) (name : Name) : ResolverState :=
  let found := distance? name.text .read state.scopes
  let next := state.use id name.text .read
  if found.isSome || state.globalReadable name.text then next
  else next.report name .readInOwnInitializer

end ResolverState

end Lox
