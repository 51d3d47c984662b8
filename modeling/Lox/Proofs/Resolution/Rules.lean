import Lox.Resolution.State
import Lox.Proofs.Syntax.WellFormed

/-!
# The static rules

The occurrences in a program that a static rule can forbid, each with its lexical
surroundings, in the order in which they are reported; and the rules themselves.
Neither speaks of resolution: surroundings are read off the tree alone.
-/

namespace Lox

/-! ## Surroundings -/

/-- What the body around an occurrence is the body of. -/
inductive BodyOwner where
  | function
  | method (name : String)
  deriving DecidableEq, Repr

/-- What lies around an occurrence in a program. -/
structure Surroundings where
  /-- The functions and methods around, the innermost first. -/
  owners : List BodyOwner
  /-- Of each class around, the innermost first, whether it has a superclass. -/
  classes : List Bool
  /-- The names declared earlier in the innermost local scope, if there is one. -/
  scope : Option (List String)
  /-- The names declared earlier in the local scopes around that one. -/
  outer : List String
  /-- The global names: those there are already, and those declared earlier outside
  all local scopes. -/
  globals : List String
  /-- The variable in whose initializer the occurrence stands. -/
  initializing : Option String
  deriving DecidableEq, Repr

namespace Surroundings

/-- What lies around a program. -/
def outermost (globals : List String) : Surroundings where
  owners := []
  classes := []
  scope := none
  outer := []
  globals := globals
  initializing := none

/-- The names declared earlier in local scopes. -/
def locals (around : Surroundings) : List String :=
  around.scope.getD [] ++ around.outer

/-- Behind a declaration. -/
def declare (around : Surroundings) (name : String) : Surroundings :=
  match around.scope with
  | none => { around with globals := name :: around.globals }
  | some names => { around with scope := some (name :: names) }

/-- Behind a statement. -/
def after (around : Surroundings) (stmt : Stmt) : Surroundings :=
  match stmt.declares? with
  | none => around
  | some name => around.declare name.text

/-- In a new local scope. -/
def inScope (around : Surroundings) : Surroundings :=
  { around with scope := some [], outer := around.locals }

/-- In the local scope of the parameters and the body of a function. -/
def inBody (around : Surroundings) (owner : BodyOwner) : Surroundings :=
  { around.inScope with owners := owner :: around.owners }

/-- In a class. -/
def inClass (around : Surroundings) (hasSuperclass : Bool) : Surroundings :=
  { around with classes := hasSuperclass :: around.classes }

/-- In the initializer of a variable. -/
def inInitializer (around : Surroundings) (name : String) : Surroundings :=
  { around with initializing := some name }

end Surroundings

/-! ## Occurrences -/

/-- What a static rule can forbid. -/
inductive Subject where
  | return_ (line : Nat) (hasValue : Bool)
  | this (line : Nat)
  | super (line : Nat)
  /-- The declaration of a variable, function, class or parameter. -/
  | declaration (name : Name)
  /-- The superclass that a class names. -/
  | superclass (ofClass : String) (name : Name)
  | read (name : Name)
  deriving DecidableEq, Repr

/-- A part of a program and what lies around it. -/
structure Occurrence where
  subject : Subject
  around : Surroundings
  deriving DecidableEq, Repr

namespace Expr

mutual

/-- The occurrences in an expression.  An assigned value comes before the object
that it is assigned to. -/
def occurrences (around : Surroundings) : Expr → List Occurrence
  | .literal _ => []
  | .group inner => inner.occurrences around
  | .unary _ operand => operand.occurrences around
  | .binary left _ right => left.occurrences around ++ right.occurrences around
  | .logical left _ right => left.occurrences around ++ right.occurrences around
  | .var _ name => [⟨.read name, around⟩]
  | .assign _ _ value => value.occurrences around
  | .call callee _ arguments => callee.occurrences around ++ occurrencesEach around arguments
  | .get object _ => object.occurrences around
  | .set object _ value => value.occurrences around ++ object.occurrences around
  | .this _ line => [⟨.this line, around⟩]
  | .super _ line _ => [⟨.super line, around⟩]

/-- The occurrences in expressions from left to right. -/
def occurrencesEach (around : Surroundings) : List Expr → List Occurrence
  | [] => []
  | first :: rest => first.occurrences around ++ occurrencesEach around rest

end

/-- The occurrences in an optional expression. -/
def optionOccurrences (around : Surroundings) : Option Expr → List Occurrence
  | none => []
  | some value => value.occurrences around

/-- The occurrences in the superclass of a class. -/
def superclassOccurrences (around : Surroundings) (ofClass : String) :
    Option Expr → List Occurrence
  | some (.var id name) =>
      ⟨.superclass ofClass name, around⟩ :: (Expr.var id name).occurrences around
  | superclass => optionOccurrences around superclass

end Expr

/-- The declarations of parameters, one after another. -/
def paramOccurrences (around : Surroundings) : List Name → List Occurrence
  | [] => []
  | first :: rest =>
      ⟨.declaration first, around⟩ :: paramOccurrences (around.declare first.text) rest

/-- Behind the declarations of parameters. -/
def Surroundings.afterParams (around : Surroundings) (params : List Name) : Surroundings :=
  params.foldl (fun around param => around.declare param.text) around

namespace Stmt

mutual

/-- The occurrences in a statement. -/
def occurrences (around : Surroundings) : Stmt → List Occurrence
  | .expression value => value.occurrences around
  | .print value => value.occurrences around
  | .var name initializer =>
      ⟨.declaration name, around⟩ ::
        Expr.optionOccurrences (around.inInitializer name.text) initializer
  | .block body => occurrencesEach around.inScope body
  | .if_ condition thenBranch none =>
      condition.occurrences around ++ thenBranch.occurrences around
  | .if_ condition thenBranch (some elseBranch) =>
      condition.occurrences around ++ thenBranch.occurrences around ++
        elseBranch.occurrences around
  | .while_ condition body => condition.occurrences around ++ body.occurrences around
  | .function declaration =>
      ⟨.declaration declaration.name, around⟩ ::
        functionOccurrences (around.declare declaration.name.text) .function declaration
  | .return_ line value =>
      ⟨.return_ line value.isSome, around⟩ :: Expr.optionOccurrences around value
  | .class_ name superclass methods =>
      ⟨.declaration name, around⟩ ::
        (Expr.superclassOccurrences (around.declare name.text) name.text superclass ++
          methodOccurrences ((around.declare name.text).inClass superclass.isSome) methods)

/-- The occurrences in statements from first to last. -/
def occurrencesEach (around : Surroundings) : List Stmt → List Occurrence
  | [] => []
  | first :: rest => first.occurrences around ++ occurrencesEach (around.after first) rest

/-- The occurrences in the parameters and the body of a function. -/
def functionOccurrences (around : Surroundings) (owner : BodyOwner) :
    FunctionDecl → List Occurrence
  | ⟨_, params, body⟩ =>
      paramOccurrences (around.inBody owner) params ++
        occurrencesEach ((around.inBody owner).afterParams params) body

/-- The occurrences in methods from first to last. -/
def methodOccurrences (around : Surroundings) : List FunctionDecl → List Occurrence
  | [] => []
  | first :: rest =>
      functionOccurrences around (.method first.name.text) first ++
        methodOccurrences around rest

end

end Stmt

/-- The occurrences in a program that is run where the given global names exist. -/
def programOccurrences (globals : List String) (program : List Stmt) : List Occurrence :=
  Stmt.occurrencesEach (.outermost globals) program

/-! ## Rules -/

/-- The occurrence violates a static rule, and this is the error. -/
inductive Occurrence.Violates : Occurrence → ResolutionError → Prop where
  /-- A `return` stands in a function or method. -/
  | returnOutsideFunction {line hasValue around} :
      around.owners = [] →
      Violates ⟨.return_ line hasValue, around⟩ ⟨⟨"return", line⟩, .returnOutsideFunction⟩
  /-- The innermost body around a `return` with a value is not that of an
  initializer. -/
  | returnValueFromInitializer {line around} :
      around.owners.head? = some (.method "init") →
      Violates ⟨.return_ line true, around⟩ ⟨⟨"return", line⟩, .returnValueFromInitializer⟩
  /-- `this` stands in a class. -/
  | thisOutsideClass {line around} :
      around.classes = [] →
      Violates ⟨.this line, around⟩ ⟨⟨"this", line⟩, .thisOutsideClass⟩
  /-- `super` stands in a class. -/
  | superOutsideClass {line around} :
      around.classes = [] →
      Violates ⟨.super line, around⟩ ⟨⟨"super", line⟩, .superOutsideClass⟩
  /-- The innermost class around `super` has a superclass. -/
  | superWithoutSuperclass {line around} :
      around.classes.head? = some false →
      Violates ⟨.super line, around⟩ ⟨⟨"super", line⟩, .superWithoutSuperclass⟩
  /-- A name is declared once in a local scope. -/
  | alreadyDeclared {name around names} :
      around.scope = some names → name.text ∈ names →
      Violates ⟨.declaration name, around⟩ ⟨name, .alreadyDeclared⟩
  /-- A class does not name itself as its superclass. -/
  | inheritsFromItself {ofClass name around} :
      name.text = ofClass →
      Violates ⟨.superclass ofClass name, around⟩ ⟨name, .inheritsFromItself⟩
  /-- The initializer of a variable reads that name only if it was declared
  earlier in an open local scope, or is that of a global. -/
  | readInOwnInitializer {name around} :
      around.initializing = some name.text → name.text ∉ around.locals →
      name.text ∉ around.globals →
      Violates ⟨.read name, around⟩ ⟨name, .readInOwnInitializer⟩

namespace Occurrence

/-- The error that an occurrence is reported with, if it violates a rule. -/
def violation? : Occurrence → Option ResolutionError
  | ⟨.return_ line hasValue, around⟩ =>
      match around.owners with
      | [] => some ⟨⟨"return", line⟩, .returnOutsideFunction⟩
      | owner :: _ =>
          if owner = .method "init" ∧ hasValue then
            some ⟨⟨"return", line⟩, .returnValueFromInitializer⟩
          else none
  | ⟨.this line, around⟩ =>
      if around.classes = [] then some ⟨⟨"this", line⟩, .thisOutsideClass⟩ else none
  | ⟨.super line, around⟩ =>
      match around.classes with
      | [] => some ⟨⟨"super", line⟩, .superOutsideClass⟩
      | false :: _ => some ⟨⟨"super", line⟩, .superWithoutSuperclass⟩
      | true :: _ => none
  | ⟨.declaration name, around⟩ =>
      if name.text ∈ around.scope.getD [] then some ⟨name, .alreadyDeclared⟩ else none
  | ⟨.superclass ofClass name, _⟩ =>
      if name.text = ofClass then some ⟨name, .inheritsFromItself⟩ else none
  | ⟨.read name, around⟩ =>
      if around.initializing = some name.text ∧ name.text ∉ around.locals ∧
          name.text ∉ around.globals then
        some ⟨name, .readInOwnInitializer⟩
      else none

theorem violates_of_violation? {occurrence : Occurrence} {error : ResolutionError}
    (reported : occurrence.violation? = some error) : occurrence.Violates error := by
  rcases occurrence with ⟨subject, around⟩
  cases subject with
  | return_ line hasValue =>
      cases owners : around.owners with
      | nil =>
          simp only [violation?, owners] at reported
          cases reported
          exact .returnOutsideFunction owners
      | cons owner rest =>
          simp only [violation?, owners] at reported
          split at reported
          next isInitializer =>
            rcases isInitializer with ⟨rfl, rfl⟩
            cases reported
            exact .returnValueFromInitializer (by rw [owners, List.head?_cons])
          next => cases reported
  | this line =>
      simp only [violation?] at reported
      split at reported
      next outside =>
        cases reported
        exact .thisOutsideClass outside
      next => cases reported
  | super line =>
      cases classes : around.classes with
      | nil =>
          simp only [violation?, classes] at reported
          cases reported
          exact .superOutsideClass classes
      | cons hasSuperclass rest =>
          simp only [violation?, classes] at reported
          cases hasSuperclass with
          | false =>
              cases reported
              exact .superWithoutSuperclass (by rw [classes, List.head?_cons])
          | true => cases reported
  | declaration name =>
      simp only [violation?] at reported
      split at reported
      next declared =>
        cases reported
        cases scope : around.scope with
        | none => simp [scope] at declared
        | some names =>
            rw [scope, Option.getD_some] at declared
            exact .alreadyDeclared scope declared
      next => cases reported
  | superclass ofClass name =>
      simp only [violation?] at reported
      split at reported
      next same =>
        cases reported
        exact .inheritsFromItself same
      next => cases reported
  | read name =>
      simp only [violation?] at reported
      split at reported
      next unreadable =>
        cases reported
        exact .readInOwnInitializer unreadable.1 unreadable.2.1 unreadable.2.2
      next => cases reported

theorem Violates.violation?_eq {occurrence : Occurrence} {error : ResolutionError}
    (violates : occurrence.Violates error) : occurrence.violation? = some error := by
  cases violates with
  | returnOutsideFunction outside => simp [violation?, outside]
  | @returnValueFromInitializer line around inInitializer =>
      rcases List.head?_eq_some_iff.mp inInitializer with ⟨rest, owners⟩
      simp [violation?, owners]
  | thisOutsideClass outside => simp [violation?, outside]
  | superOutsideClass outside => simp [violation?, outside]
  | @superWithoutSuperclass line around inPlain =>
      rcases List.head?_eq_some_iff.mp inPlain with ⟨rest, classes⟩
      simp [violation?, classes]
  | alreadyDeclared scope declared => simp [violation?, scope, declared]
  | inheritsFromItself same => simp [violation?, same]
  | readInOwnInitializer initializing noLocal noGlobal =>
      simp [violation?, initializing, noLocal, noGlobal]

/-- An occurrence is reported exactly if it violates a rule. -/
theorem violation?_eq_some_iff {occurrence : Occurrence} {error : ResolutionError} :
    occurrence.violation? = some error ↔ occurrence.Violates error :=
  ⟨violates_of_violation?, Violates.violation?_eq⟩

/-- The occurrence violates a static rule. -/
def IsViolation (occurrence : Occurrence) : Prop :=
  ∃ error, occurrence.Violates error

theorem isViolation_iff {occurrence : Occurrence} :
    occurrence.IsViolation ↔ occurrence.violation?.isSome := by
  rw [Option.isSome_iff_exists]
  exact exists_congr fun _ => violation?_eq_some_iff.symm

instance : DecidablePred IsViolation :=
  fun _ => decidable_of_iff _ isViolation_iff.symm

end Occurrence

end Lox
