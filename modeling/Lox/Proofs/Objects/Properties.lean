import Lox.Proofs.Objects.Instances

/-!
# Properties of objects

The classes around a class form a chain that ends, and a method is that of the nearest class
of the chain that declares it.  A property of an object is the field that was assigned last,
through whatever reference to the object, or else the nearest method, bound to the object.
An assignment changes one field of one object.
-/

namespace Lox

open Actions Eval

/-! ## Bound methods -/

/-- The value is the method, closing over a scope of its own in which `this` is the object. -/
def Heap.IsBound (heap : Heap) (method : Closure) (ref : ObjectRef) (value : Value) : Prop :=
  ∃ function scope, value = .function function ∧
    heap.functions[function.index]? = some { method with scope } ∧
    heap.scopes.own? scope "this" = some (.object ref) ∧
    heap.scopes.parent? scope = some method.scope

theorem bindMethod_isBound (method : Closure) (ref : ObjectRef) (machine : Machine) :
    ∃ value final, bindMethod method (.object ref) machine = .ok value final ∧
      final.heap.IsBound method ref value := by
  have isThis := machine.heap.own?_bind method (.object ref)
  have isAround : (machine.heap.bind method (.object ref)).1.scopes.parent?
      machine.heap.scopes.nextRef = some method.scope := by
    rw [Heap.bind_fst]
    exact Scopes.parent?_push_nextRef machine.heap.scopes _
  exact ⟨_, _, rfl, _, machine.heap.scopes.nextRef, rfl, Array.getElem?_push_size, isThis, isAround⟩

/-! ## Fields -/

/-- A field assignment that succeeds sets the field of the object that it names. -/
theorem evaluate_set_ok {fuel : Nat} {object value : Expr} {name : Name} {assigned : Value}
    {machine final : Machine}
    (succeeded : evaluate (fuel + 1) (.set object name value) machine = .ok assigned final) :
    ∃ ref middle last, evaluate fuel object machine = .ok (.object ref) middle ∧
      evaluate fuel value middle = .ok assigned last ∧
      assignmentTarget fuel object value name machine = .ok (ref, assigned) last ∧
      final = { last with heap := last.heap.setField ref name.text assigned } := by
  rw [evaluate_set_apply] at succeeded
  cases result : assignmentTarget fuel object value name machine with
  | error cause middle =>
      rw [result] at succeeded
      cases succeeded
  | ok target last =>
      rw [result] at succeeded
      cases succeeded
      rcases bind_eq_ok_iff.mp result with ⟨found, middle, objectResult, rest⟩
      cases found with
      | object ref =>
          rcases bind_eq_ok_iff.mp rest with ⟨assigned, between, valueResult, yielded⟩
          cases yielded
          exact ⟨ref, middle, last, objectResult, valueResult, rfl, rfl⟩
      | _ => cases rest

/-- Setting a field changes that field of that object, and no class. -/
theorem Heap.setField_apart (heap : Heap) {ref : ObjectRef}
    (present : ref.index < heap.objects.size) (name : String) (value : Value) (other : ObjectRef) :
    ((heap.setField ref name value).object other).ofClass = (heap.object other).ofClass ∧
      ∀ field : String, ((heap.setField ref name value).object other).fields[field]? =
        if other = ref ∧ field = name then some value else (heap.object other).fields[field]? := by
  rw [object_setField heap present]
  by_cases same : ref = other
  · subst same
    rw [if_pos rfl]
    refine ⟨rfl, fun field => ?_⟩
    rw [Table.getElem?_insert]
    by_cases named : name = field
    · rw [if_pos named, if_pos ⟨rfl, named.symm⟩]
    · rw [if_neg named, if_neg fun both => named both.2.symm]
  · rw [if_neg same]
    exact ⟨rfl, fun field => by rw [if_neg fun both => same both.1.symm]⟩

/-! ## Histories -/

namespace Session

variable {sink : Sink} {clock : Clock} {units : List (Nat × String)} {fuel : Nat}
  {object : Expr} {name : Name} {machine middle : Machine} {ref : ObjectRef}

theorem getProperty_field {value : Value}
    (found : (machine.heap.object ref).fields[name.text]? = some value) :
    getProperty ref name machine = .ok value machine := by
  have started : (get : Eval Machine) machine = .ok machine machine := rfl
  rw [getProperty, bind_of_ok started]
  simp only [found]
  rfl

/-- An object that is evaluated is there, and so is its class. -/
theorem Occurs.has_ofClass {expr : Expr}
    (occurs : Occurs sink clock units ⟨fuel, .evaluate expr, machine⟩)
    (evaluated : Lox.evaluate fuel expr machine = .ok (.object ref) middle) :
    Passes sink clock units middle ∧
      middle.heap.Has (.classRef (middle.heap.object ref).ofClass) := by
  have healthy := occurs.healthy
  rcases ((keepsAt fuel).evaluate expr healthy.machine healthy.task).of_ok evaluated with
    ⟨later, -, has⟩
  have passes := Passes.ends occurs
  rw [Moment.final, evaluated] at passes
  exact ⟨passes, later.intact.ofClass has⟩

/-- When an expression has been evaluated, every field has the value that was assigned
last. -/
theorem AssignedBefore.fields_evaluated {expr : Expr} {value : Value} {log : List Assignment}
    (before : AssignedBefore sink clock units ⟨fuel, .evaluate expr, machine⟩ log)
    (evaluated : Lox.evaluate fuel expr machine = .ok value middle) (ref : ObjectRef)
    (name : String) :
    (middle.heap.object ref).fields[name]? =
      lastAssigned? (log ++ Moment.assignments ⟨fuel, .evaluate expr, machine⟩) ref name := by
  have after := before.occurs.chronicled.assigned
  rw [Moment.final, evaluated] at after
  exact fields_of_assigned (before.assigned.trans after) ref name

/-- The object of a property is evaluated before anything else. -/
theorem AssignedBefore.objectOfProperty {log : List Assignment}
    (before : AssignedBefore sink clock units ⟨fuel + 1, .evaluate (.get object name), machine⟩
      log) :
    AssignedBefore sink clock units ⟨fuel, .evaluate object, machine⟩ log := by
  rcases before with ⟨earlier, unitFuel, source, program, inner, isPrefix, accepted, inUnit, rfl⟩
  have split : Moment.parts ⟨fuel + 1, .evaluate (.get object name), machine⟩ =
      [] ++ ⟨fuel, .evaluate object, machine⟩ :: [] := rfl
  have isFirst := inUnit.part split
  rw [List.flatMap_nil, List.append_nil] at isFirst
  exact ⟨earlier, unitFuel, source, program, inner, isPrefix, accepted, isFirst, rfl⟩

/-- A property is the field that was assigned last, or else the nearest method, bound to the
object. -/
theorem AssignedBefore.evaluate_get {log : List Assignment}
    (before : AssignedBefore sink clock units ⟨fuel + 1, .evaluate (.get object name), machine⟩
      log)
    (evaluated : Lox.evaluate fuel object machine = .ok (.object ref) middle)
    {ancestry : List (ClassRef × List FunctionDecl)}
    (isAncestry : Ancestry sink clock units (middle.heap.object ref).ofClass ancestry) :
    match lastAssigned? (log ++ Moment.assignments ⟨fuel, .evaluate object, machine⟩) ref name.text,
      nearest? ancestry name.text with
    | some value, _ => Lox.evaluate (fuel + 1) (.get object name) machine = .ok value middle
    | none, some declaration => ∃ method value final,
        middle.heap.findMethod? (middle.heap.object ref).ofClass name.text = some method ∧
        method.declaration = declaration ∧
        Lox.evaluate (fuel + 1) (.get object name) machine = .ok value final ∧
        final.heap.IsBound method ref value
    | none, none => Lox.evaluate (fuel + 1) (.get object name) machine =
        .error (.runtime ⟨name.line, .undefinedProperty name.text⟩) middle := by
  have objectBefore := before.objectOfProperty
  rcases objectBefore.occurs.has_ofClass evaluated with ⟨passes, has⟩
  have isRead : Lox.evaluate (fuel + 1) (.get object name) machine =
      getProperty ref name middle := by
    rw [Lox.evaluate, bind_of_ok evaluated]
  rw [← objectBefore.fields_evaluated evaluated, ← isAncestry.findMethod?_eq passes has, isRead]
  cases isField : (middle.heap.object ref).fields[name.text]? with
  | some value => exact getProperty_field isField
  | none =>
      cases isMethod : middle.heap.findMethod? (middle.heap.object ref).ofClass name.text with
      | none => exact getProperty_undefined isField isMethod
      | some method =>
          rcases bindMethod_isBound method ref middle with ⟨value, final, bound, isBound⟩
          refine ⟨method, value, final, rfl, rfl, ?_, isBound⟩
          rw [getProperty_method isField isMethod, bound]

end Session

/-- Properties are looked up nearest first.  Wherever a session is, the classes around a class
form a chain that ends and has no class twice, and the method of a name is the one that the
nearest class of the chain declares last, if any does.  A property of an object is the field
that was assigned last, or else that method bound to the object, or else undefined.  An
assignment changes the field of the object that it names and nothing else. -/
theorem properties_are_nearest (sink : Sink) (clock : Clock) (units : List (Nat × String)) :
    (∀ machine, Session.Passes sink clock units machine →
      ∀ ref, machine.heap.Has (.classRef ref) →
      (∃ ancestry, Session.Ancestry sink clock units ref ancestry) ∧
      ∀ ancestry, Session.Ancestry sink clock units ref ancestry →
        machine.heap.Lineage ref (ancestry.map Prod.fst) ∧ (ancestry.map Prod.fst).Nodup ∧
        ∀ name, (machine.heap.findMethod? ref name).map Closure.declaration =
          Session.nearest? ancestry name) ∧
    (∀ moment, Session.Occurs sink clock units moment →
      ∃ log, Session.AssignedBefore sink clock units moment log) ∧
    (∀ fuel object name machine log ref middle,
      Session.AssignedBefore sink clock units ⟨fuel + 1, .evaluate (.get object name), machine⟩
        log →
      evaluate fuel object machine = .ok (.object ref) middle →
      (∃ ancestry, Session.Ancestry sink clock units (middle.heap.object ref).ofClass ancestry) ∧
      ∀ ancestry, Session.Ancestry sink clock units (middle.heap.object ref).ofClass ancestry →
        match lastAssigned? (log ++ Moment.assignments ⟨fuel, .evaluate object, machine⟩) ref
            name.text,
          Session.nearest? ancestry name.text with
        | some value, _ => evaluate (fuel + 1) (.get object name) machine = .ok value middle
        | none, some declaration => ∃ method value final,
            middle.heap.findMethod? (middle.heap.object ref).ofClass name.text = some method ∧
            method.declaration = declaration ∧
            evaluate (fuel + 1) (.get object name) machine = .ok value final ∧
            final.heap.IsBound method ref value
        | none, none => evaluate (fuel + 1) (.get object name) machine =
            .error (.runtime ⟨name.line, .undefinedProperty name.text⟩) middle) ∧
    ∀ fuel object name value machine assigned final,
      Session.Occurs sink clock units ⟨fuel + 1, .evaluate (.set object name value), machine⟩ →
      evaluate (fuel + 1) (.set object name value) machine = .ok assigned final →
      ∃ ref middle last, evaluate fuel object machine = .ok (.object ref) middle ∧
        evaluate fuel value middle = .ok assigned last ∧
        final = { last with heap := { last.heap with objects := final.heap.objects } } ∧
        final.heap.objects.size = last.heap.objects.size ∧
        ∀ other, (final.heap.object other).ofClass = (last.heap.object other).ofClass ∧
          ∀ field : String, (final.heap.object other).fields[field]? =
            if other = ref ∧ field = name.text then some assigned
            else (last.heap.object other).fields[field]? := by
  refine ⟨?_, ?_, ?_, ?_⟩
  · intro machine passes ref has
    refine ⟨passes.exists_ancestry has, fun ancestry isAncestry => ?_⟩
    have lineage := isAncestry.lineage passes has
    exact ⟨lineage, lineage.nodup passes.healthy.intact, isAncestry.findMethod?_eq passes has⟩
  · intro moment occurs
    exact occurs.exists_assignedBefore
  · intro fuel object name machine log ref middle before evaluated
    rcases before.objectOfProperty.occurs.has_ofClass evaluated with ⟨passes, has⟩
    exact ⟨passes.exists_ancestry has, fun ancestry => before.evaluate_get evaluated⟩
  · intro fuel object name value machine assigned final occurs succeeded
    rcases evaluate_set_ok succeeded with
      ⟨ref, middle, last, objectResult, valueResult, isTarget, rfl⟩
    have has := has_assignmentTarget occurs.healthy.machine occurs.healthy.task isTarget
    refine ⟨ref, middle, last, objectResult, valueResult, rfl, Array.size_modify, fun other => ?_⟩
    exact last.heap.setField_apart has name.text assigned other

example : ((Session.initial .unlimited (.startingAt 0)).run 60
    ("class A \x7b m() \x7b return \"no\"; \x7d m() \x7b return \"m\"; \x7d \x7d var B = A; " ++
      "class A < B \x7b \x7d var a = A(); var b = a; print a.m(); b.m = \"field\"; print a.m; " ++
      "print A().m();")).2.machine.sink.written = "m\nfield\nm\n".toUTF8 := by
  decide +kernel

/-! ### A class redeclared inside itself -/

namespace Redeclared

/-- A class, another one of the same name whose superclass it is, and a field of a new
object. -/
def source : String :=
  "class A \x7b \x7d var B = A; class A < B \x7b \x7d A().x = true;"

def assignment : Expr :=
  .set (.call (.var 2 ⟨"A", 1⟩) 1 []) ⟨"x", 1⟩ (.literal (.bool true))

def declarations : List Stmt :=
  [.class_ ⟨"A", 1⟩ none [], .var ⟨"B", 1⟩ (some (.var 0 ⟨"A", 1⟩)),
    .class_ ⟨"A", 1⟩ (some (.var 1 ⟨"B", 1⟩)) []]

def program : List Stmt :=
  declarations ++ [.expression assignment]

theorem accepted : (Session.initial .unlimited (.startingAt 0)).Accepts source program :=
  ⟨⟨3, by decide +kernel, by rw [scanTokens_eq]; cbv⟩, by decide +kernel⟩

/-- The machine when everything has been declared. -/
def declared : Machine :=
  declarations.foldl (fun machine stmt => endState (execute 20 stmt machine))
    ((Session.initial .unlimited (.startingAt 0)).resolved program)

theorem occurs_assignment : Session.Occurs .unlimited (.startingAt 0) [(20, source)]
    ⟨19, .evaluate assignment, declared⟩ := by
  refine ⟨[], 20, source, program, List.prefix_refl _, accepted, ?_⟩
  refine .head (.restOfProgram (eq_ok_of_value? .normal (by decide +kernel))) ?_
  refine .head (.restOfProgram (eq_ok_of_value? .normal (by decide +kernel))) ?_
  refine .head (.restOfProgram (eq_ok_of_value? .normal (by decide +kernel))) ?_
  exact .head .firstOfProgram (.head .expression .refl)

end Redeclared

/-- The chain of the class that was declared last ends, and the field has been assigned. -/
theorem redeclared_is_nearest :
    (∃ ancestry,
      Session.Ancestry .unlimited (.startingAt 0) [(20, Redeclared.source)] ⟨1⟩ ancestry ∧
      ((Session.initial .unlimited (.startingAt 0)).runAll
        [(20, Redeclared.source)]).machine.heap.Lineage ⟨1⟩ (ancestry.map Prod.fst) ∧
      (ancestry.map Prod.fst).Nodup) ∧
    ∃ ref final,
      evaluate 19 Redeclared.assignment Redeclared.declared = .ok (.bool true) final ∧
        (final.heap.object ref).fields["x"]? = some (.bool true) := by
  have nearest := properties_are_nearest .unlimited (.startingAt 0) [(20, Redeclared.source)]
  have isThere : ((Session.initial .unlimited (.startingAt 0)).runAll
      [(20, Redeclared.source)]).machine.heap.Has (.classRef ⟨1⟩) := by
    change 1 < ((Session.initial .unlimited (.startingAt 0)).runAll
      [(20, Redeclared.source)]).machine.heap.classes.size
    decide +kernel
  have assigned : value? (evaluate 19 Redeclared.assignment Redeclared.declared) =
      some (.bool true) := by decide +kernel
  constructor
  · rcases nearest.1 _ (.rests (List.prefix_refl _)) _ isThere with ⟨⟨ancestry, isAncestry⟩, chain⟩
    rcases chain ancestry isAncestry with ⟨lineage, nodup, -⟩
    exact ⟨ancestry, isAncestry, lineage, nodup⟩
  · rcases nearest.2.2.2 _ _ _ _ _ _ _ Redeclared.occurs_assignment
      (eq_ok_of_value? _ assigned) with ⟨ref, middle, last, -, -, -, -, apart⟩
    exact ⟨ref, _, eq_ok_of_value? _ assigned, ((apart ref).2 "x").trans (if_pos ⟨rfl, rfl⟩)⟩

end Lox
