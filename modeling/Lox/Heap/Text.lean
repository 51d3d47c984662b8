import Lox.Decimal.Format
import Lox.Heap
import Lox.Token.Listing

/-!
# Texts of values

The text that `print` writes for a value, and a description for inspection.
-/

namespace Lox

namespace Closure

/-- The text that `print` writes for a function. -/
def text (closure : Closure) : String :=
  "<fn " ++ closure.name ++ ">"

/-- A description of a function. -/
def describe (closure : Closure) : String :=
  "LoxFunction \x7b name: " ++ JsonText.quote closure.name ++
    ", arity: " ++ toString closure.arity ++
    ", is_initializer: " ++ toString closure.isInitializer ++ " \x7d"

end Closure

namespace Native

/-- A description of a native function. -/
def describe (subject : Native) : String :=
  "<native fn " ++ subject.name ++ ">"

end Native

namespace Heap

/-- The text that `print` writes for a value. -/
def text (heap : Heap) : Value → String
  | .nil => "nil"
  | .bool value => toString value
  | .number value => NumberFormat.printed.render value
  | .string value => value
  | .native _ => "<native fn>"
  | .function ref => (heap.function ref).text
  | .classRef ref => (heap.classInfo ref).name
  | .object ref => (heap.classInfo (heap.object ref).ofClass).name ++ " instance"

/-- Quoted names in brackets. -/
def describeNames (names : List String) : String :=
  "[" ++ ", ".intercalate (names.map JsonText.quote) ++ "]"

/-- A description of a class. -/
def describeClass (heap : Heap) (info : ClassInfo) : String :=
  "LoxClass \x7b name: " ++ JsonText.quote info.name ++
    ", superclass: " ++
    (match info.superclass with
    | some superclass => "Some(" ++ JsonText.quote (heap.classInfo superclass).name ++ ")"
    | none => "None") ++
    ", methods: " ++ describeNames info.methods.keys ++ " \x7d"

/-- A description of an object. -/
def describeObject (heap : Heap) (object : Object) : String :=
  "LoxInstance \x7b class: " ++ JsonText.quote (heap.classInfo object.ofClass).name ++
    ", fields: " ++ describeNames object.fields.keys ++ " \x7d"

/-- A description of a value that shows its type. -/
def describe (heap : Heap) : Value → String
  | .nil => "Nil"
  | .bool value => "Bool(" ++ toString value ++ ")"
  | .number value => "Number(" ++ NumberFormat.described.render value ++ ")"
  | .string value => "String(" ++ JsonText.quote value ++ ")"
  | .native ref => "NativeFunction(" ++ (heap.native ref).describe ++ ")"
  | .function ref => "Function(" ++ (heap.function ref).describe ++ ")"
  | .classRef ref => "Class(" ++ heap.describeClass (heap.classInfo ref) ++ ")"
  | .object ref =>
      "Instance(RefCell \x7b value: " ++ heap.describeObject (heap.object ref) ++ " \x7d)"

end Heap

end Lox
