import Lox.Sink

/-!
# Interrupts

What can stop a program before its end.
-/

namespace Lox

/-- Why a step of a program cannot be done. -/
inductive RuntimeFault where
  | undefinedVariable (name : String)
  | undefinedProperty (name : String)
  | operandNotNumber
  | operandsNotNumbers
  | operandsNotAddable
  | invalidOperator (lexeme : String)
  | notCallable
  | wrongArgumentCount (expected : Nat) (actual : Nat)
  | stackOverflow
  | propertyOfNonObject
  | fieldOfNonObject
  | superclassNotClass
  | initializerNotBound
  | nativeFailure (message : String)
  deriving DecidableEq, Repr

/-- A fault and the line at which it occurred. -/
structure RuntimeError where
  line : Nat
  fault : RuntimeFault
  deriving DecidableEq, Repr

namespace RuntimeFault

/-- The wording of the fault. -/
def message : RuntimeFault → String
  | .undefinedVariable name => "Undefined variable '" ++ name ++ "'."
  | .undefinedProperty name => "Undefined property '" ++ name ++ "'."
  | .operandNotNumber => "Operand must be a number."
  | .operandsNotNumbers => "Operands must be numbers."
  | .operandsNotAddable => "Operands must be two numbers or two strings."
  | .invalidOperator lexeme => "Invalid binary operator '" ++ lexeme ++ "'."
  | .notCallable => "Can only call functions and classes."
  | .wrongArgumentCount expected actual =>
      "Expected " ++ toString expected ++ " arguments but got " ++ toString actual ++ "."
  | .stackOverflow => "Stack overflow."
  | .propertyOfNonObject => "Only instances have properties."
  | .fieldOfNonObject => "Only instances have fields."
  | .superclassNotClass => "Superclass must be a class."
  | .initializerNotBound => "Initializer is not bound to an instance."
  | .nativeFailure message => message

end RuntimeFault

namespace RuntimeError

/-- The report of the error. -/
def message (error : RuntimeError) : String :=
  error.fault.message ++ "\n[line " ++ toString error.line ++ "]"

end RuntimeError

/-- What ends a run before its end: an error of the program, a failure of its
output, or the end of the fuel that bounds the run. -/
inductive Interrupt where
  | runtime (error : RuntimeError)
  | output (error : OutputError)
  | outOfFuel
  deriving DecidableEq, Repr

end Lox
