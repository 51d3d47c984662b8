import Lox.Proofs.Evaluation.Soundness

/-!
# Runs keep machines faithful

The step lemmas of `Sound`, put together over all expressions, statements and
calls by induction on the fuel.  A statement that ends normally leaves a scope that
realizes also the name it declares.
-/

namespace Lox

open Actions Eval

/-! ## Parameters -/

theorem foldl_insert_isSome (pairs : List (Name × Value)) (bindings : Bindings) (name : String) :
    ((pairs.foldl (fun bindings (param, argument) => bindings.insert param.text argument)
      bindings)[name]?).isSome ↔
      (bindings[name]?).isSome ∨ ∃ pair ∈ pairs, pair.1.text = name := by
  induction pairs generalizing bindings with
  | nil => simp
  | cons first rest inductionHypothesis =>
      have entry : ((bindings.insert first.1.text first.2)[name]?).isSome ↔
          (bindings[name]?).isSome ∨ first.1.text = name := by
        rw [Table.getElem?_insert]
        split
        next same => simp [same]
        next different => simp [different]
      rw [List.foldl_cons, inductionHypothesis, entry]
      simp only [List.mem_cons, exists_eq_or_imp, or_assoc]

theorem parameterBindings_isSome {params : List Name} {arguments : List Value}
    (sameLength : arguments.length = params.length) {param : Name} (member : param ∈ params) :
    ((parameterBindings params arguments)[param.text]?).isSome := by
  rw [parameterBindings, foldl_insert_isSome]
  have isFirst : param ∈ (params.zip arguments).map Prod.fst := by
    rw [List.map_fst_zip (Nat.le_of_eq sameLength.symm)]
    exact member
  rcases List.mem_map.mp isFirst with ⟨pair, inZip, rfl⟩
  exact .inr ⟨pair, inZip, rfl⟩

theorem parameterBindings_super {params : List Name} (arguments : List Value)
    (plain : ∀ param ∈ params, param.IsPlain) :
    (parameterBindings params arguments)["super"]? = none := by
  rw [← Option.not_isSome_iff_eq_none, parameterBindings, foldl_insert_isSome]
  rintro (initially | ⟨pair, inZip, isSuper⟩)
  · simp at initially
  · exact (plain pair.1 (List.of_mem_zip inZip).1).2 isSuper

/-- In the scope of a function body exactly its parameters are known. -/
theorem bodyScopes_eq (params : List Name) (tables : List NameTable) :
    ∃ table, bodyScopes params tables = table :: tables ∧
      ∀ (name : String) (status : Status), table[name]? = some status →
        status = .defined ∧ ∃ param ∈ params, param.text = name := by
  have general : ∀ start : NameTable, ∃ table,
      params.foldl (fun opened param => introduceIn param.text opened) (start :: tables) =
        table :: tables ∧
      ∀ (name : String) (status : Status), table[name]? = some status →
        start[name]? = some status ∨
          (status = .defined ∧ ∃ param ∈ params, param.text = name) := by
    induction params with
    | nil => exact fun start => ⟨start, rfl, fun _ _ found => .inl found⟩
    | cons first rest inductionHypothesis =>
        intro start
        rcases introduceIn_cons first.text start tables with ⟨middle, introduced, defines⟩
        rcases inductionHypothesis middle with ⟨table, same, entries⟩
        refine ⟨table, ?_, ?_⟩
        · rw [List.foldl_cons, introduced, same]
        · intro name status found
          rcases entries name status found with earlier | ⟨defined, param, member, named⟩
          · rcases defines name status earlier with ⟨rfl, rfl⟩ | initially
            · exact .inr ⟨rfl, first, List.mem_cons_self, rfl⟩
            · exact .inl initially
          · exact .inr ⟨defined, param, List.mem_cons_of_mem _ member, named⟩
  rcases general ∅ with ⟨table, same, entries⟩
  refine ⟨table, same, ?_⟩
  intro name status found
  rcases entries name status found with initially | known
  · simp at initially
  · exact known

/-- The scope of a call realizes the scopes in which the body starts. -/
theorem realizes_bodyScopes {scopes : Scopes} {globals scope : ScopeRef}
    {tables : List NameTable} {params : List Name} {arguments : List Value}
    (realizes : Realizes scopes globals scope tables)
    (present : globals.index < scopes.cells.size)
    (sameLength : arguments.length = params.length) :
    Realizes (scopes.push { bindings := parameterBindings params arguments, parent := some scope })
      globals scopes.nextRef (bodyScopes params tables) := by
  rcases bodyScopes_eq params tables with ⟨table, same, entries⟩
  rw [same]
  apply realizes.push present
  intro name status found
  rcases entries name status found with ⟨defined, param, member, rfl⟩
  exact ⟨defined, parameterBindings_isSome sameLength member⟩

/-- A scope with the arguments of a call is where the body was visited. -/
theorem Sound.openBody {known : Visit → Prop} {machine : Machine} {closure : Closure}
    {arguments : List Value} (faithful : machine.Faithful known)
    (fits : closure.Fits known [] machine.heap.scopes machine.globals)
    (sameLength : arguments.length = closure.arity) :
    Sound known (openScope (parameterBindings closure.declaration.params arguments)
      (some closure.scope)) machine fun ref final =>
        Stmt.WellFormedEach closure.declaration.body ∧ ∃ tables isInner,
          Realizes final.heap.scopes final.globals ref tables ∧
          ∀ visit ∈ Stmt.visitsEach tables isInner closure.declaration.body, known visit := by
  rcases closure with ⟨⟨name, params, body⟩, scope, isInitializer⟩
  rcases fits with ⟨tables, realizes, ⟨-, paramsPlain, bodyFormed⟩, visited⟩
  refine Sound.onHeap (Scopes.grows_push _ _) (faithful.push ?_) ⟨bodyFormed, _, true,
    realizes_bodyScopes realizes faithful.present sameLength, visited⟩
  intro value found
  rw [parameterBindings_super arguments paramsPlain] at found
  cases found

/-- A scope for a block is where the block was visited. -/
theorem Sound.openBlock {known : Visit → Prop} {machine : Machine} {tables : List NameTable}
    (faithful : machine.Faithful known) (realizes : machine.Realizes tables) :
    Sound known (openScope ∅ (some machine.current)) machine fun ref final =>
      Realizes final.heap.scopes final.globals ref (∅ :: tables) := by
  refine Sound.onHeap (Scopes.grows_push _ _) (faithful.push ?_)
    (realizes.push faithful.present ?_)
  · intro value found
    simp at found
  · intro name status found
    simp at found

/-! ## Runs -/

/-- What evaluations with the given fuel keep and achieve. -/
structure SoundAt (known : Visit → Prop) (fuel : Nat) : Prop where
  evaluate : ∀ (expr : Expr) {machine : Machine}, machine.Faithful known → expr.WellFormed →
    Safe known (evaluate fuel expr) machine
  evaluateEach : ∀ (exprs : List Expr) {machine : Machine}, machine.Faithful known →
    Expr.WellFormedEach exprs → Safe known (evaluateEach fuel exprs) machine
  callValue : ∀ {callee : Value} {arguments : List Value} (line : Nat) {machine : Machine},
    machine.Faithful known → machine.heap.arity? callee = some arguments.length →
    Safe known (callValue fuel callee arguments line) machine
  callFunction : ∀ {closure : Closure} {arguments : List Value} (line : Nat)
    {machine : Machine}, machine.Faithful known →
    closure.Fits known [] machine.heap.scopes machine.globals →
    arguments.length = closure.arity →
    Safe known (callFunction fuel closure arguments line) machine
  execute : ∀ (stmt : Stmt) {machine : Machine} {tables : List NameTable} (isInner : Bool),
    machine.Faithful known → machine.Realizes tables → stmt.WellFormed →
    (∀ visit ∈ stmt.visits tables isInner, known visit) →
    Sound known (execute fuel stmt) machine fun flow final =>
      flow = .normal → final.Realizes (stmt.scopesAfter tables)
  executeEach : ∀ (stmts : List Stmt) {machine : Machine} {tables : List NameTable}
    (isInner : Bool), machine.Faithful known → machine.Realizes tables →
    Stmt.WellFormedEach stmts → (∀ visit ∈ Stmt.visitsEach tables isInner stmts, known visit) →
    Safe known (executeEach fuel stmts) machine
  executeWhile : ∀ (condition : Expr) (body : Stmt) {machine : Machine}
    {tables : List NameTable} (isInner : Bool), machine.Faithful known →
    machine.Realizes tables → condition.WellFormed → body.WellFormed →
    (∀ visit ∈ body.visits tables isInner, known visit) →
    Safe known (executeWhile fuel condition body) machine

theorem soundAt_zero (known : Visit → Prop) : SoundAt known 0 where
  evaluate _ _ faithful _ := Sound.throw faithful _
  evaluateEach _ _ faithful _ := Sound.throw faithful _
  callValue _ _ faithful _ := Sound.throw faithful _
  callFunction _ _ faithful _ _ := Sound.throw faithful _
  execute _ _ _ _ faithful _ _ _ := Sound.throw faithful _
  executeEach _ _ _ _ faithful _ _ _ := Sound.throw faithful _
  executeWhile _ _ _ _ _ faithful _ _ _ _ := Sound.throw faithful _

namespace SoundAt

variable {known : Visit → Prop} {fuel : Nat} {machine : Machine}

theorem evaluate_succ (sound : SoundAt known fuel) (expr : Expr)
    (faithful : machine.Faithful known) (formed : expr.WellFormed) :
    Safe known (Lox.evaluate (fuel + 1) expr) machine := by
  cases expr with
  | literal value => exact Safe.pure faithful _
  | group inner => exact sound.evaluate inner faithful formed
  | unary operator operand =>
      refine (sound.evaluate operand faithful formed).bind fun _ _ _ later _ => ?_
      exact Safe.ofResult later _ _
  | binary left operator right =>
      refine (sound.evaluate left faithful formed.1).bind fun _ _ _ later _ => ?_
      refine (sound.evaluate right later formed.2).bind fun _ _ _ later _ => ?_
      exact Safe.ofResult later _ _
  | logical left operator right =>
      refine (sound.evaluate left faithful formed.1).bind fun _ _ _ later _ => ?_
      split
      · exact Safe.pure later _
      · exact sound.evaluate right later formed.2
  | var id name => exact Safe.readVariable faithful id name
  | assign id name value =>
      refine (sound.evaluate value faithful formed.2).bind fun _ _ _ later _ => ?_
      refine (Safe.writeVariable later id formed.1 _).bind fun _ _ _ later _ => ?_
      exact Safe.pure later _
  | call callee line arguments =>
      refine (sound.evaluate callee faithful formed.1).bind fun _ _ _ later _ => ?_
      refine (sound.evaluateEach arguments later formed.2).bind fun _ _ _ later _ => ?_
      refine (Sound.checkCall later _ line _).bind ?_
      rintro - middle - later ⟨rfl, arity⟩
      exact Safe.counted (sound.callValue line later arity)
  | get object name =>
      refine (sound.evaluate object faithful formed).bind fun _ _ _ later _ => ?_
      split
      · exact Safe.getProperty later _ name
      · exact Sound.fail later _ _
  | set object name value =>
      refine (sound.evaluate object faithful formed.1).bind fun _ _ _ later _ => ?_
      split
      · refine (sound.evaluate value later formed.2).bind fun _ _ _ later _ => ?_
        refine (Safe.setField later _ name.text _).bind fun _ _ _ later _ => ?_
        exact Safe.pure later _
      · exact Sound.fail later _ _
  | this id line => exact Safe.readVariable faithful id _
  | super id line method => exact Safe.getSuper faithful id line method

theorem evaluateEach_succ (sound : SoundAt known fuel) (exprs : List Expr)
    (faithful : machine.Faithful known) (formed : Expr.WellFormedEach exprs) :
    Safe known (Lox.evaluateEach (fuel + 1) exprs) machine := by
  cases exprs with
  | nil => exact Safe.pure faithful _
  | cons first rest =>
      refine (sound.evaluate first faithful formed.1).bind fun _ _ _ later _ => ?_
      refine (sound.evaluateEach rest later formed.2).bind fun _ _ _ later _ => ?_
      exact Safe.pure later _

theorem callFunction_succ (sound : SoundAt known fuel) {closure : Closure}
    {arguments : List Value} (line : Nat) (faithful : machine.Faithful known)
    (fits : closure.Fits known [] machine.heap.scopes machine.globals)
    (sameLength : arguments.length = closure.arity) :
    Safe known (Lox.callFunction (fuel + 1) closure arguments line) machine := by
  refine (Sound.openBody faithful fits sameLength).bind ?_
  rintro inner middle _ later ⟨formed, tables, isInner, entered, visited⟩
  have bodySafe : Safe known (Lox.executeEach fuel closure.declaration.body)
      { middle with current := inner } :=
    sound.executeEach _ isInner later entered formed visited
  exact (Safe.within bodySafe).bind fun flow _ _ later _ => Safe.callResult later _ line flow

theorem callValue_succ (sound : SoundAt known fuel) {callee : Value} {arguments : List Value}
    (line : Nat) (faithful : machine.Faithful known)
    (arity : machine.heap.arity? callee = some arguments.length) :
    Safe known (Lox.callValue (fuel + 1) callee arguments line) machine := by
  cases callee with
  | native ref => exact Sound.get (Safe.callNative faithful _ _ _)
  | function ref =>
      have sameLength : arguments.length = (machine.heap.function ref).arity :=
        (Option.some.inj arity).symm
      exact Sound.get (sound.callFunction line faithful (faithful.functions ref) sameLength)
  | classRef ref =>
      refine (Sound.addObject faithful ref).bind ?_
      intro object middle _ later same
      refine Sound.get ?_
      split
      next initializer found =>
        have fits := later.findMethod found
        rw [Heap.findMethod?_congr same] at found
        have sameLength : arguments.length = initializer.arity := by
          simpa [Heap.arity?, found] using arity.symm
        refine (Sound.bindHeap later fits _).bind ?_
        rintro bound final _ later ⟨boundFits, declared⟩
        rw [Closure.arity, ← declared] at sameLength
        exact (sound.callFunction line later boundFits sameLength).bind fun _ _ _ later _ =>
          Safe.pure later _
      next => exact Safe.pure later _
  | _ => exact Sound.fail faithful _ _

/-- A statement that declares nothing leaves the current scope with the same names. -/
theorem execute_branch (sound : SoundAt known fuel) (stmt : Stmt) {tables : List NameTable}
    (isInner : Bool) (faithful : machine.Faithful known) (realizes : machine.Realizes tables)
    (formed : stmt.WellFormed) (declares : stmt.declares? = none)
    (visited : ∀ visit ∈ stmt.visits tables isInner, known visit) :
    Sound known (Lox.execute fuel stmt) machine fun flow final =>
      flow = .normal → final.Realizes tables := by
  have executed := sound.execute stmt isInner faithful realizes formed visited
  rw [Stmt.scopesAfter, declares] at executed
  exact executed

theorem execute_var (sound : SoundAt known fuel) (name : Name) (initializer : Option Expr)
    {tables : List NameTable} (faithful : machine.Faithful known)
    (realizes : machine.Realizes tables) (formed : (Stmt.var name initializer).WellFormed) :
    Sound known (Lox.execute (fuel + 1) (.var name initializer)) machine fun flow final =>
      flow = .normal → final.Realizes ((Stmt.var name initializer).scopesAfter tables) := by
  cases initializer with
  | none =>
      refine (Sound.define faithful formed.1.2 _).bind ?_
      rintro - final - later rfl
      exact Sound.pure later fun _ => Realizes.introduce realizes name.text _
  | some value =>
      refine (sound.evaluate value faithful (formed.2 value rfl)).bind ?_
      intro result middle grows later _
      refine (Sound.define later formed.1.2 _).bind ?_
      rintro - final - later rfl
      exact Sound.pure later fun _ => Realizes.introduce (realizes.mono grows) name.text _

theorem execute_block (sound : SoundAt known fuel) (body : List Stmt) {tables : List NameTable}
    (isInner : Bool) (faithful : machine.Faithful known) (realizes : machine.Realizes tables)
    (formed : Stmt.WellFormedEach body)
    (visited : ∀ visit ∈ Stmt.visitsEach (∅ :: tables) isInner body, known visit) :
    Sound known (Lox.execute (fuel + 1) (.block body)) machine fun _ final =>
      final.Realizes tables := by
  refine Sound.get ((Sound.openBlock faithful realizes).bind ?_)
  intro inner middle grows later entered
  have bodySafe : Safe known (Lox.executeEach fuel body) { middle with current := inner } :=
    sound.executeEach body isInner later entered formed visited
  exact (Safe.within bodySafe).realizes (realizes.mono grows)

theorem execute_if (sound : SoundAt known fuel) (condition : Expr) (thenBranch : Stmt)
    (elseBranch : Option Stmt) {tables : List NameTable} (isInner : Bool)
    (faithful : machine.Faithful known) (realizes : machine.Realizes tables)
    (formed : (Stmt.if_ condition thenBranch elseBranch).WellFormed)
    (visited : ∀ visit ∈ (Stmt.if_ condition thenBranch elseBranch).visits tables isInner,
      known visit) :
    Sound known (Lox.execute (fuel + 1) (.if_ condition thenBranch elseBranch)) machine
      fun flow final => flow = .normal → final.Realizes tables := by
  cases elseBranch with
  | none =>
      rcases formed with ⟨conditionFormed, thenFormed, thenDeclares⟩
      simp only [Stmt.visits, List.forall_mem_append] at visited
      refine (sound.evaluate condition faithful conditionFormed).bind fun _ _ grows later _ => ?_
      have still := realizes.mono grows
      split
      · exact sound.execute_branch thenBranch isInner later still thenFormed thenDeclares visited.2
      · exact Sound.pure later fun _ => still
  | some elseBranch =>
      rcases formed with ⟨conditionFormed, ⟨thenFormed, thenDeclares⟩, elseFormed, elseDeclares⟩
      simp only [Stmt.visits, List.forall_mem_append] at visited
      refine (sound.evaluate condition faithful conditionFormed).bind fun _ _ grows later _ => ?_
      have still := realizes.mono grows
      split
      · exact sound.execute_branch thenBranch isInner later still thenFormed thenDeclares
          visited.1.2
      · exact sound.execute_branch elseBranch isInner later still elseFormed elseDeclares visited.2

theorem execute_class (sound : SoundAt known fuel) (name : Name) (superclass : Option Expr)
    (methods : List FunctionDecl) {tables : List NameTable} (isInner : Bool)
    (faithful : machine.Faithful known) (realizes : machine.Realizes tables)
    (formed : (Stmt.class_ name superclass methods).WellFormed)
    (visited : ∀ visit ∈ (Stmt.class_ name superclass methods).visits tables isInner,
      known visit) :
    Sound known (Lox.execute (fuel + 1) (.class_ name superclass methods)) machine
      fun flow final =>
        flow = .normal → final.Realizes ((Stmt.class_ name superclass methods).scopesAfter tables) := by
  rcases formed with ⟨plain, isVariable, methodsFormed⟩
  simp only [Stmt.visits, List.forall_mem_append] at visited
  cases superclass with
  | none =>
      refine (Sound.declareClass faithful realizes plain methodsFormed rfl visited.2).bind ?_
      intro _ final _ later introduced
      exact Sound.pure later fun _ => introduced
  | some superclass =>
      have superclassFormed := (isVariable superclass rfl).wellFormed
      refine (sound.evaluate superclass faithful superclassFormed).bind ?_
      intro value middle grows later _
      cases value with
      | classRef ref =>
          have declared := Sound.declareClass later (realizes.mono grows) plain methodsFormed
            (show (some ref).isSome = (some superclass).isSome from rfl) visited.2
          have executed : Sound known
              (declareClass name (some ref) methods >>= fun _ => pure Flow.normal) middle
              fun flow final => flow = .normal → final.Realizes (introduceIn name.text tables) :=
            declared.bind fun _ _ _ later introduced => Sound.pure later fun _ => introduced
          exact executed
      | _ => exact Sound.fail later _ _

theorem execute_succ (sound : SoundAt known fuel) (stmt : Stmt) {tables : List NameTable}
    (isInner : Bool) (faithful : machine.Faithful known) (realizes : machine.Realizes tables)
    (formed : stmt.WellFormed) (visited : ∀ visit ∈ stmt.visits tables isInner, known visit) :
    Sound known (Lox.execute (fuel + 1) stmt) machine fun flow final =>
      flow = .normal → final.Realizes (stmt.scopesAfter tables) := by
  cases stmt with
  | expression value =>
      refine (sound.evaluate value faithful formed).bind fun _ _ grows later _ => ?_
      exact Sound.pure later fun _ => realizes.mono grows
  | print value =>
      refine (sound.evaluate value faithful formed).bind fun _ _ grows later _ => ?_
      refine Sound.get ((Safe.writeLine later _).bind fun _ _ grows' later _ => ?_)
      exact Sound.pure later fun _ => (realizes.mono grows).mono grows'
  | var name initializer => exact sound.execute_var name initializer faithful realizes formed
  | block body =>
      have returned := sound.execute_block body isInner faithful realizes formed visited
      exact returned.weaken fun _ _ still _ => still
  | if_ condition thenBranch elseBranch =>
      exact sound.execute_if condition thenBranch elseBranch isInner faithful realizes formed
        visited
  | while_ condition body =>
      rcases formed with ⟨conditionFormed, bodyFormed, -⟩
      simp only [Stmt.visits, List.forall_mem_append] at visited
      have loop := sound.executeWhile condition body isInner faithful realizes conditionFormed
        bodyFormed visited.2
      exact (loop.realizes realizes).weaken fun _ _ still _ => still
  | function declaration =>
      rw [Stmt.visits] at visited
      refine (Sound.declareFunction faithful realizes formed visited).bind ?_
      intro _ final _ later introduced
      exact Sound.pure later fun _ => introduced
  | return_ line value =>
      cases value with
      | none =>
          refine Sound.pure faithful ?_
          intro impossible
          cases impossible
      | some value =>
          refine (sound.evaluate value faithful (formed value rfl)).bind fun _ _ _ later _ => ?_
          refine Sound.pure later ?_
          intro impossible
          cases impossible
  | class_ name superclass methods =>
      exact sound.execute_class name superclass methods isInner faithful realizes formed visited

theorem executeEach_succ (sound : SoundAt known fuel) (stmts : List Stmt)
    {tables : List NameTable} (isInner : Bool) (faithful : machine.Faithful known)
    (realizes : machine.Realizes tables) (formed : Stmt.WellFormedEach stmts)
    (visited : ∀ visit ∈ Stmt.visitsEach tables isInner stmts, known visit) :
    Safe known (Lox.executeEach (fuel + 1) stmts) machine := by
  cases stmts with
  | nil => exact Safe.pure faithful _
  | cons first rest =>
      simp only [Stmt.visitsEach, List.forall_mem_append] at visited
      refine (sound.execute first isInner faithful realizes formed.1 visited.1).bind ?_
      intro flow middle _ later after
      cases flow with
      | returned value => exact Safe.pure later _
      | normal => exact sound.executeEach rest isInner later (after rfl) formed.2 visited.2

theorem executeWhile_succ (sound : SoundAt known fuel) (condition : Expr) (body : Stmt)
    {tables : List NameTable} (isInner : Bool) (faithful : machine.Faithful known)
    (realizes : machine.Realizes tables) (conditionFormed : condition.WellFormed)
    (bodyFormed : body.WellFormed)
    (visited : ∀ visit ∈ body.visits tables isInner, known visit) :
    Safe known (Lox.executeWhile (fuel + 1) condition body) machine := by
  refine (sound.evaluate condition faithful conditionFormed).bind fun _ _ grows later _ => ?_
  split
  · have entered := realizes.mono grows
    refine (sound.execute body isInner later entered bodyFormed visited).bind ?_
    intro flow middle grows' later _
    cases flow with
    | returned value => exact Safe.pure later _
    | normal =>
        exact sound.executeWhile condition body isInner later (entered.mono grows')
          conditionFormed bodyFormed visited
  · exact Safe.pure later _

end SoundAt

theorem soundAt (known : Visit → Prop) (fuel : Nat) : SoundAt known fuel := by
  induction fuel with
  | zero => exact soundAt_zero known
  | succ fuel inductionHypothesis =>
      exact {
        evaluate := fun expr _ => inductionHypothesis.evaluate_succ expr
        evaluateEach := fun exprs _ => inductionHypothesis.evaluateEach_succ exprs
        callValue := fun line _ => inductionHypothesis.callValue_succ line
        callFunction := fun line _ => inductionHypothesis.callFunction_succ line
        execute := fun stmt _ _ => inductionHypothesis.execute_succ stmt
        executeEach := fun stmts _ _ => inductionHypothesis.executeEach_succ stmts
        executeWhile := fun condition body _ _ =>
          inductionHypothesis.executeWhile_succ condition body }

theorem safe_executeProgram {known : Visit → Prop} {fuel : Nat} {program : List Stmt}
    {machine : Machine} (faithful : machine.Faithful known) (realizes : machine.Realizes [])
    (formed : Stmt.WellFormedEach program)
    (visited : ∀ visit ∈ Stmt.visitsEach [] false program, known visit) :
    Safe known (executeProgram fuel program) machine := by
  induction program generalizing machine with
  | nil =>
      refine Sound.get ?_
      split
      · exact Sound.throw faithful _
      · exact Safe.pure faithful _
  | cons first rest inductionHypothesis =>
      simp only [Stmt.visitsEach, List.forall_mem_append, Stmt.scopesAfter_nil] at visited
      have firstSound :=
        (soundAt known fuel).execute first false faithful realizes formed.1 visited.1
      refine firstSound.bind fun _ _ grows later _ => ?_
      exact inductionHypothesis later (realizes.mono grows) formed.2 visited.2

end Lox
