import Lox.Proofs.Evaluation.Scoping

/-!
# Evaluation keeps machines faithful

Evaluation adds functions and classes only where it executes their declarations,
in a scope that realizes what resolution knew there.  So a faithful machine stays
faithful, however the evaluation ends.
-/

namespace Lox

open Actions Eval

/-- All functions and methods of the machine fit. -/
abbrev Machine.Faithful (known : Visit → Prop) (machine : Machine) : Prop :=
  machine.heap.Faithful known machine.globals

/-- The current scope realizes the tables. -/
abbrev Machine.Realizes (machine : Machine) (tables : List NameTable) : Prop :=
  Lox.Realizes machine.heap.scopes machine.globals machine.current tables

theorem Machine.Realizes.mono {machine later : Machine} {tables : List NameTable}
    (realizes : machine.Realizes tables) (grows : machine.Grows later) :
    later.Realizes tables := by
  have same := Lox.Realizes.mono realizes grows.scopes
  rw [← grows.globals, ← grows.current] at same
  exact same

/-- However the action ends, the machine has grown and is faithful; if it yields a
value, the condition holds. -/
structure Sound (known : Visit → Prop) {α : Type} (action : Eval α) (machine : Machine)
    (condition : α → Machine → Prop) : Prop where
  grows : machine.Grows (endState (action machine))
  faithful : (endState (action machine)).Faithful known
  ensures : ∀ {value final}, action machine = .ok value final → condition value final

/-- However the action ends, the machine has grown and is faithful. -/
abbrev Safe (known : Visit → Prop) {α : Type} (action : Eval α) (machine : Machine) : Prop :=
  Sound known action machine fun _ _ => True

section Steps

variable {known : Visit → Prop} {α β : Type} {machine : Machine}

theorem Sound.weaken {action : Eval α} {condition weaker : α → Machine → Prop}
    (sound : Sound known action machine condition)
    (weakens : ∀ value final, condition value final → weaker value final) :
    Sound known action machine weaker :=
  ⟨sound.grows, sound.faithful, fun result => weakens _ _ (sound.ensures result)⟩

/-- What the current scope realizes, it still realizes afterwards. -/
theorem Safe.realizes {action : Eval α} {tables : List NameTable}
    (safe : Safe known action machine) (realizes : machine.Realizes tables) :
    Sound known action machine fun _ final => final.Realizes tables := by
  refine ⟨safe.grows, safe.faithful, ?_⟩
  intro value final succeeded
  have grows := safe.grows
  rw [succeeded] at grows
  exact realizes.mono grows

theorem Sound.pure {condition : α → Machine → Prop} (faithful : machine.Faithful known)
    {value : α} (holds : condition value machine) :
    Sound known (pure value : Eval α) machine condition := by
  refine ⟨framed_pure value machine, faithful, ?_⟩
  intro result final succeeded
  cases succeeded
  exact holds

theorem Safe.pure (faithful : machine.Faithful known) (value : α) :
    Safe known (Pure.pure value : Eval α) machine :=
  Sound.pure faithful trivial

theorem Sound.throw {condition : α → Machine → Prop} (faithful : machine.Faithful known)
    (interrupt : Interrupt) : Sound known (throw interrupt : Eval α) machine condition :=
  ⟨framed_throw interrupt machine, faithful, fun impossible => by cases impossible⟩

theorem Sound.fail {condition : α → Machine → Prop} (faithful : machine.Faithful known)
    (line : Nat) (fault : RuntimeFault) :
    Sound known (fail line fault : Eval α) machine condition :=
  Sound.throw faithful _

theorem Sound.bind {first : Eval α} {next : α → Eval β} {between : α → Machine → Prop}
    {condition : β → Machine → Prop} (firstSound : Sound known first machine between)
    (nextSound : ∀ value middle, machine.Grows middle → middle.Faithful known →
      between value middle → Sound known (next value) middle condition) :
    Sound known (first >>= next) machine condition := by
  have grows := firstSound.grows
  have faithful := firstSound.faithful
  cases result : first machine with
  | ok value middle =>
      rw [result] at grows faithful
      have sound := nextSound value middle grows faithful (firstSound.ensures result)
      have same : (first >>= next) machine = next value middle := bind_of_ok result
      refine ⟨?_, ?_, ?_⟩
      · rw [same]
        exact Machine.growsOrder.trans grows sound.grows
      · rw [same]
        exact sound.faithful
      · rw [same]
        exact sound.ensures
  | error interrupt middle =>
      rw [result] at grows faithful
      have same : (first >>= next) machine = .error interrupt middle := bind_of_error result
      refine ⟨?_, ?_, ?_⟩
      · rw [same]
        exact grows
      · rw [same]
        exact faithful
      · rw [same]
        intro _ _ impossible
        cases impossible

/-- An action that first looks at the machine. -/
theorem Sound.get {next : Machine → Eval α} {condition : α → Machine → Prop}
    (sound : Sound known (next machine) machine condition) :
    Sound known (get >>= next) machine condition :=
  ⟨sound.grows, sound.faithful, sound.ensures⟩

theorem Sound.onHeap {action : Heap → Heap × α} {condition : α → Machine → Prop}
    (grows : machine.heap.scopes.Grows (action machine.heap).1.scopes)
    (faithful : (action machine.heap).1.Faithful known machine.globals)
    (holds : condition (action machine.heap).2 { machine with heap := (action machine.heap).1 }) :
    Sound known (onHeap action) machine condition := by
  refine ⟨Machine.grows_heap grows, faithful, ?_⟩
  intro value final succeeded
  cases succeeded
  exact holds

/-- In another scope the machine is as faithful. -/
theorem Safe.within {action : Eval α} {scope : ScopeRef}
    (safe : Safe known action { machine with current := scope }) :
    Safe known (within scope action) machine := by
  refine ⟨?_, ?_, fun _ => trivial⟩
  · rw [endState_within]
    exact grows_return safe.grows
  · rw [endState_within]
    exact safe.faithful

theorem Safe.counted {action : Eval α}
    (safe : Safe known action { machine with callDepth := machine.callDepth + 1 }) :
    Safe known (counted action) machine := by
  refine ⟨?_, ?_, fun _ => trivial⟩
  · rw [endState_counted]
    exact grows_uncount safe.grows
  · rw [endState_counted]
    exact safe.faithful

/-! ## Single steps -/

/-- An action that changes nothing. -/
theorem Sound.of_still {action : Eval α} {condition : α → Machine → Prop}
    (faithful : machine.Faithful known) (still : endState (action machine) = machine)
    (ensures : ∀ {value final}, action machine = .ok value final → condition value final) :
    Sound known action machine condition := by
  refine ⟨?_, ?_, ensures⟩
  · rw [still]
    exact Machine.growsOrder.refl machine
  · rw [still]
    exact faithful

theorem Safe.ofResult (faithful : machine.Faithful known) (line : Nat)
    (result : Except RuntimeFault Value) : Safe known (ofResult line result) machine := by
  cases result with
  | ok value => exact Safe.pure faithful value
  | error fault => exact Sound.fail faithful line fault

theorem Safe.readVariable (faithful : machine.Faithful known) (id : UseId) (name : Name) :
    Safe known (readVariable id name) machine := by
  refine Sound.of_still faithful ?_ fun _ => trivial
  unfold Eval.readVariable
  dsimp only
  repeat' split
  all_goals rfl

theorem Safe.writeVariable (faithful : machine.Faithful known) (id : UseId) {name : Name}
    (plain : name.IsPlain) (value : Value) :
    Safe known (writeVariable id name value) machine := by
  refine Sound.get ?_
  split
  · exact Sound.onHeap (Scopes.grows_define _ _ _ _) (faithful.define _ _ plain.2) trivial
  · exact Sound.fail faithful _ _

theorem Sound.define (faithful : machine.Faithful known) {name : String} (plain : name ≠ "super")
    (value : Value) :
    Sound known (define name value) machine fun _ final =>
      final = { machine with heap := machine.heap.define machine.current name value } := by
  refine ⟨framed_define name value machine, faithful.define _ value plain, ?_⟩
  intro result final succeeded
  cases succeeded
  rfl

theorem Safe.newFunction (faithful : machine.Faithful known) {closure : Closure}
    (fits : closure.Fits known [] machine.heap.scopes machine.globals) :
    Safe known (newFunction closure) machine := by
  have added : Safe known (Eval.onHeap fun heap => heap.addFunction closure) machine :=
    Sound.onHeap (Scopes.Grows.refl _) (faithful.addFunction fits) trivial
  exact added.bind fun ref middle _ middleFaithful _ => Safe.pure middleFaithful _

theorem Sound.bindHeap (faithful : machine.Faithful known) {method : Closure}
    (fits : method.Fits known [thisTable] machine.heap.scopes machine.globals) (this : Value) :
    Sound known (Eval.onHeap fun heap => heap.bind method this) machine fun closure final =>
      closure.Fits known [] final.heap.scopes final.globals ∧
        closure.declaration = method.declaration := by
  rcases faithful.bind this fits with ⟨boundFaithful, boundFits⟩
  exact Sound.onHeap (grows_bind _ _ _) boundFaithful ⟨boundFits, rfl⟩

theorem Safe.bindMethod (faithful : machine.Faithful known) {method : Closure}
    (fits : method.Fits known [thisTable] machine.heap.scopes machine.globals) (this : Value) :
    Safe known (bindMethod method this) machine := by
  refine (Sound.bindHeap faithful fits this).bind ?_
  intro closure middle _ middleFaithful bound
  exact Safe.newFunction middleFaithful bound.1

theorem Safe.setField (faithful : machine.Faithful known) (ref : ObjectRef) (name : String)
    (value : Value) :
    Safe known (Eval.onHeap fun heap => (heap.setField ref name value, ())) machine :=
  Sound.onHeap (Scopes.Grows.refl _) (faithful.withObjects _) trivial

theorem Sound.addObject (faithful : machine.Faithful known) (ref : ClassRef) :
    Sound known (Eval.onHeap fun heap => heap.addObject ref) machine fun _ final =>
      final.heap.classes = machine.heap.classes :=
  Sound.onHeap (Scopes.Grows.refl _) (faithful.withObjects _) rfl

theorem Safe.getProperty (faithful : machine.Faithful known) (ref : ObjectRef) (name : Name) :
    Safe known (getProperty ref name) machine := by
  refine Sound.get ?_
  dsimp only
  split
  · exact Safe.pure faithful _
  · split
    next method found => exact Safe.bindMethod faithful (faithful.findMethod found) _
    next => exact Sound.fail faithful _ _

theorem Safe.getSuper (faithful : machine.Faithful known) (id : UseId) (line : Nat)
    (method : Name) : Safe known (getSuper id line method) machine := by
  refine Sound.get ?_
  split
  · split
    next found isFound => exact Safe.bindMethod faithful (faithful.findMethod isFound) _
    next => exact Sound.fail faithful _ _
  · exact Sound.fail faithful _ _

theorem Safe.callNative (faithful : machine.Faithful known) (native : Native)
    (arguments : List Value) (line : Nat) :
    Safe known (callNative native arguments line) machine := by
  unfold Eval.callNative
  split
  · exact ⟨⟨rfl, rfl, rfl, rfl, rfl, Scopes.Grows.refl _⟩, faithful, fun _ => trivial⟩
  · split
    · exact Safe.pure faithful _
    · exact Sound.fail faithful _ _

theorem Safe.writeLine (faithful : machine.Faithful known) (text : String) :
    Safe known (writeLine text) machine := by
  refine ⟨framed_writeLine text machine, ?_, fun _ => trivial⟩
  unfold Eval.writeLine
  dsimp only
  split
  · exact faithful
  · exact faithful

theorem Safe.callResult (faithful : machine.Faithful known) (closure : Closure) (line : Nat)
    (flow : Flow) : Safe known (callResult closure line flow) machine := by
  unfold Eval.callResult
  split
  · refine Sound.get ?_
    split
    · exact Safe.pure faithful _
    · exact Sound.fail faithful _ _
  · split
    · exact Safe.pure faithful _
    · exact Safe.pure faithful _

theorem checkDepth_still (line : Nat) (machine : Machine) :
    endState (checkDepth line machine) = machine := by
  change endState ((if _ then _ else _ : Eval Unit) machine) = machine
  split <;> rfl

/-- A call goes ahead only with the right number of arguments. -/
theorem Sound.checkCall (faithful : machine.Faithful known) (callee : Value) (line count : Nat) :
    Sound known (checkCall callee line count) machine fun _ final =>
      final = machine ∧ machine.heap.arity? callee = some count := by
  refine Sound.get ?_
  split
  · exact Sound.fail faithful _ _
  next arity isArity =>
    split
    · exact Sound.fail faithful _ _
    next same =>
      have still := checkDepth_still line machine
      refine Sound.of_still faithful still ?_
      intro value final succeeded
      have result : Eval.checkDepth line machine = .ok value final := succeeded
      rw [result] at still
      have equal : count = arity := Decidable.of_not_not same
      exact ⟨still, by rw [isArity, equal]⟩

/-! ## Declarations -/

theorem Sound.declareFunction {tables : List NameTable} {declaration : FunctionDecl}
    (faithful : machine.Faithful known) (realizes : machine.Realizes tables)
    (formed : Stmt.FunctionWellFormed declaration)
    (visited : ∀ visit ∈ Stmt.functionVisits (introduceIn declaration.name.text tables) declaration,
      known visit) :
    Sound known (declareFunction declaration) machine fun _ final =>
      final.Realizes (introduceIn declaration.name.text tables) := by
  have plain : declaration.name.IsPlain := by
    cases declaration
    exact formed.1
  let closure : Closure := { declaration, scope := machine.current, isInitializer := false }
  let value : Value := .function (machine.heap.addFunction closure).2
  have introduced := realizes.introduce declaration.name.text value
  have defined := faithful.define machine.current value plain.2
  have fits : closure.Fits known [] (machine.heap.define machine.current _ value).scopes
      machine.globals :=
    ⟨_, introduced, formed, visited⟩
  refine ⟨framed_declareFunction declaration machine, defined.addFunction fits, ?_⟩
  intro result final succeeded
  cases succeeded
  exact introduced

theorem methodTable_declared {declarations : List FunctionDecl} {scope : ScopeRef} {name : String}
    {method : Closure} (found : (methodTable declarations scope)[name]? = some method) :
    method.declaration ∈ declarations ∧ method.scope = scope := by
  -- The table that the fold starts with is generalized: an entry comes from there
  -- or from one of the declarations.
  have general : ∀ (table : Std.TreeMap String Closure), (declarations.foldl
      (fun table declaration => table.insert declaration.name.text
        { declaration, scope, isInitializer := declaration.name.text = "init" }) table)[name]? =
        some method →
      table[name]? = some method ∨ (method.declaration ∈ declarations ∧ method.scope = scope) := by
    clear found
    induction declarations with
    | nil => exact fun table found => .inl found
    | cons first rest inductionHypothesis =>
        intro table found
        rcases inductionHypothesis _ found with earlier | ⟨declared, same⟩
        · rw [Table.getElem?_insert] at earlier
          split at earlier
          · cases earlier
            exact .inr ⟨List.mem_cons_self, rfl⟩
          · exact .inl earlier
        · exact .inr ⟨List.mem_cons_of_mem _ declared, same⟩
  rcases general ∅ found with initially | declared
  · simp at initially
  · exact declared

/-- The methods of a class fit if the scope they close over realizes its tables. -/
theorem methodTable_fits {scopes : Scopes} {globals scope : ScopeRef} {tables : List NameTable}
    {declarations : List FunctionDecl} (realizes : Realizes scopes globals scope tables)
    (formed : Stmt.MethodsWellFormed declarations)
    (visited : ∀ visit ∈ Stmt.methodVisits (thisTable :: tables) declarations, known visit)
    (name : String) (method : Closure)
    (found : (methodTable declarations scope)[name]? = some method) :
    method.Fits known [thisTable] scopes globals := by
  rcases methodTable_declared found with ⟨declared, rfl⟩
  refine ⟨tables, realizes, Stmt.methodsWellFormed_iff.mp formed _ declared, ?_⟩
  intro visit member
  exact visited visit (Stmt.mem_methodVisits declared member)

/-- A scope that binds `super` to a class realizes its table. -/
theorem Heap.Faithful.pushSuper {heap : Heap} {globals scope : ScopeRef}
    {tables : List NameTable} (faithful : heap.Faithful known globals)
    (realizes : Realizes heap.scopes globals scope tables) (ref : ClassRef) :
    let inner : Scope :=
      { bindings := (∅ : Bindings).insert "super" (.classRef ref), parent := some scope }
    ({ heap with scopes := heap.scopes.push inner } : Heap).Faithful known globals ∧
      Realizes (heap.scopes.push inner) globals heap.scopes.nextRef (superTable :: tables) := by
  constructor
  · apply faithful.push
    intro value found
    rw [Table.getElem?_insert, if_pos rfl] at found
    cases found
    exact ⟨ref, rfl⟩
  · apply realizes.push faithful.present
    intro sought status found
    rw [superTable, Table.getElem?_insert] at found
    split at found
    next same =>
      cases found
      rw [Table.getElem?_insert, if_pos same]
      exact ⟨rfl, rfl⟩
    next => simp at found

theorem Sound.declareClass {tables : List NameTable} {name : Name} {superclass : Option Expr}
    {parent : Option ClassRef} {declarations : List FunctionDecl}
    (faithful : machine.Faithful known) (realizes : machine.Realizes tables)
    (plain : name.IsPlain) (formed : Stmt.MethodsWellFormed declarations)
    (derived : parent.isSome = superclass.isSome)
    (visited : ∀ visit ∈ Stmt.methodVisits
      (methodScopes superclass (introduceIn name.text tables)) declarations, known visit) :
    Sound known (declareClass name parent declarations) machine fun _ final =>
      final.Realizes (introduceIn name.text tables) := by
  have introduced := realizes.introduce name.text .nil
  have defined := faithful.define machine.current .nil plain.2
  refine ⟨framed_declareClass name parent declarations machine, ?_, ?_⟩
  · cases parent with
    | none =>
        cases superclass with
        | some _ => cases derived
        | none =>
            let info : ClassInfo := ⟨name.text, none, methodTable declarations machine.current⟩
            have fit := methodTable_fits introduced formed visited
            exact (defined.addClass (show ∀ name method, info.methods[name]? = some method → _
              from fit)).define _ _ plain.2
    | some ref =>
        cases superclass with
        | none => cases derived
        | some superclass =>
            rcases defined.pushSuper introduced ref with ⟨opened, entered⟩
            let info : ClassInfo := ⟨name.text, some ref, methodTable declarations
              (machine.heap.define machine.current name.text .nil).scopes.nextRef⟩
            have fit := methodTable_fits entered formed visited
            exact (opened.addClass (show ∀ name method, info.methods[name]? = some method → _
              from fit)).define _ _ plain.2
  · intro result final succeeded
    cases parent with
    | none =>
        cases succeeded
        exact introduced.mono (Scopes.grows_define _ _ _ _)
    | some ref =>
        cases succeeded
        exact introduced.mono ((Scopes.grows_push _ _).trans (Scopes.grows_define _ _ _ _))

end Steps

end Lox
