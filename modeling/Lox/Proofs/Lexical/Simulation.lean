import Lox.Proofs.Lexical.Frames

/-!
# Runs of the machine and of the store

The steps, put together over all expressions, statements and calls by induction on
the fuel.  The machine and the store use up the same fuel.
-/

namespace Lox

namespace Lexical

open Actions

/-- What the machine and the store do alike with the given fuel. -/
structure SimulatesAt (known : Visit → Prop) (fuel : Nat) : Prop where
  evaluate : ∀ (expr : Expr) {names : Names} {place : Place} {world : World} {machine : Machine}
    {store : Store}, Mirrors known world machine store →
    Sees world machine.heap.scopes machine.current names place → expr.WellFormed →
    (∀ visit ∈ expr.visits place, known visit) →
    Agrees known false world machine store (Lox.evaluate fuel expr) (evaluate fuel names expr)
  evaluateEach : ∀ (exprs : List Expr) {names : Names} {place : Place} {world : World}
    {machine : Machine} {store : Store}, Mirrors known world machine store →
    Sees world machine.heap.scopes machine.current names place → Expr.WellFormedEach exprs →
    (∀ visit ∈ Expr.visitsEach place exprs, known visit) →
    Agrees known false world machine store (Lox.evaluateEach fuel exprs)
      (evaluateEach fuel names exprs)
  callValue : ∀ {callee : Value} {arguments : List Value} (line : Nat) {world : World}
    {machine : Machine} {store : Store}, Mirrors known world machine store →
    machine.heap.arity? callee = some arguments.length →
    Agrees known false world machine store (Lox.callValue fuel callee arguments line)
      (callValue fuel callee arguments line)
  callFunction : ∀ {closure : Lox.Closure} {other : Closure} {arguments : List Value} (line : Nat)
    {world : World} {machine : Machine} {store : Store}, Mirrors known world machine store →
    Alike known [] world machine.heap.scopes machine.globals closure other →
    arguments.length = closure.arity →
    Agrees known false world machine store (Lox.callFunction fuel closure arguments line)
      (callFunction fuel other arguments line)
  execute : ∀ (stmt : Stmt) {tables : List NameTable} {frame : Frame} (isInner : Bool)
    {world : World} {machine : Machine} {store : Store}, Mirrors known world machine store →
    Fits world machine tables frame → stmt.WellFormed → stmt.Distinct tables →
    (∀ visit ∈ stmt.visits tables isInner, known visit) →
    Simulates known true world machine store (Lox.execute fuel stmt) (execute fuel frame stmt)
      fun later flow result final => result.1 = flow ∧
        (flow = .normal → Fits later final (stmt.scopesAfter tables) result.2)
  executeEach : ∀ (stmts : List Stmt) {tables : List NameTable} {frame : Frame} (isInner : Bool)
    {world : World} {machine : Machine} {store : Store}, Mirrors known world machine store →
    Fits world machine tables frame → Stmt.WellFormedEach stmts →
    Stmt.DistinctEach tables stmts → (∀ visit ∈ Stmt.visitsEach tables isInner stmts, known visit) →
    Agrees known true world machine store (Lox.executeEach fuel stmts)
      (executeEach fuel frame stmts)
  executeWhile : ∀ (condition : Expr) (body : Stmt) {tables : List NameTable} {frame : Frame}
    (isInner : Bool) {world : World} {machine : Machine} {store : Store},
    Mirrors known world machine store → Fits world machine tables frame → condition.WellFormed →
    body.WellFormed → body.declares? = none → body.Distinct tables →
    (∀ visit ∈ condition.visits ⟨tables, isInner, .ordinary⟩, known visit) →
    (∀ visit ∈ body.visits tables isInner, known visit) →
    Simulates known true world machine store (Lox.executeWhile fuel condition body)
      (executeWhile fuel frame condition body) fun later flow flow' final =>
        flow' = flow ∧ (flow = .normal → Fits later final tables frame)

theorem simulatesAt_zero (known : Visit → Prop) : SimulatesAt known 0 where
  evaluate _ _ _ _ _ _ mirrors _ _ _ := Simulates.throw mirrors _
  evaluateEach _ _ _ _ _ _ mirrors _ _ _ := Simulates.throw mirrors _
  callValue _ _ _ _ mirrors _ := Simulates.throw mirrors _
  callFunction _ _ _ _ mirrors _ _ := Simulates.throw mirrors _
  execute _ _ _ _ _ _ _ mirrors _ _ _ _ := Simulates.throw mirrors _
  executeEach _ _ _ _ _ _ _ mirrors _ _ _ _ := Simulates.throw mirrors _
  executeWhile _ _ _ _ _ _ _ _ mirrors _ _ _ _ _ _ _ := Simulates.throw mirrors _

/-- What an expression sees, it still sees when another has been evaluated. -/
theorem Sees.grows {isOpen : Bool} {world later : World} {machine final : Machine}
    {names : Names} {place : Place}
    (sees : Sees world machine.heap.scopes machine.current names place)
    (grows : machine.Grows final) (extension : world.Extends isOpen machine.current later) :
    Sees later final.heap.scopes final.current names place := by
  rw [grows.current]
  exact sees.mono grows.scopes extension

namespace SimulatesAt

variable {known : Visit → Prop} {fuel : Nat} {world : World} {machine : Machine} {store : Store}

theorem evaluate_succ (simulates : SimulatesAt known fuel) (expr : Expr) {names : Names}
    {place : Place} (mirrors : Mirrors known world machine store)
    (sees : Sees world machine.heap.scopes machine.current names place)
    (formed : expr.WellFormed) (visited : ∀ visit ∈ expr.visits place, known visit) :
    Agrees known false world machine store (Lox.evaluate (fuel + 1) expr)
      (Lexical.evaluate (fuel + 1) names expr) := by
  cases expr with
  | literal value => exact Agrees.pure mirrors value.toValue
  | group inner => exact simulates.evaluate inner mirrors sees formed visited
  | unary operator operand =>
      refine (simulates.evaluate operand mirrors sees formed visited).bind ?_
      rintro _ value _ _ _ - - later rfl
      exact Agrees.ofResult later _ _
  | binary left operator right =>
      simp only [Expr.visits, List.forall_mem_append] at visited
      refine (simulates.evaluate left mirrors sees formed.1 visited.1).bind ?_
      rintro _ _ leftValue _ _ extension grows later rfl
      refine (simulates.evaluate right later (sees.grows grows extension) formed.2 visited.2).bind ?_
      rintro _ _ rightValue _ _ - - later rfl
      exact Agrees.ofResult later _ _
  | logical left operator right =>
      simp only [Expr.visits, List.forall_mem_append] at visited
      refine (simulates.evaluate left mirrors sees formed.1 visited.1).bind ?_
      rintro _ _ value _ _ extension grows later rfl
      split
      · exact Agrees.pure later value
      · exact simulates.evaluate right later (sees.grows grows extension) formed.2 visited.2
  | var id name =>
      exact Agrees.readVariable mirrors sees (visited _ List.mem_cons_self)
  | assign id name value =>
      simp only [Expr.visits, List.forall_mem_append, List.forall_mem_singleton] at visited
      refine (simulates.evaluate value mirrors sees formed.2 visited.1).bind ?_
      rintro _ _ result _ _ extension grows later rfl
      have seesLater := sees.grows grows extension
      refine (Agrees.writeVariable later seesLater visited.2 formed.1 result).bind ?_
      intro _ _ _ _ _ _ _ later _
      exact Agrees.pure later result
  | call callee line arguments =>
      simp only [Expr.visits, List.forall_mem_append] at visited
      refine (simulates.evaluate callee mirrors sees formed.1 visited.1).bind ?_
      rintro _ _ calleeValue _ _ extension grows later rfl
      have seesLater := sees.grows grows extension
      refine (simulates.evaluateEach arguments later seesLater formed.2 visited.2).bind ?_
      rintro _ _ values _ _ - - later rfl
      refine (Simulates.checkCall later calleeValue line values.length).bind ?_
      intro _ _ _ _ _ _ _ later arity
      have depth := later.callDepth
      exact Agrees.counted (simulates.callValue line (later.withDepth (by rw [depth])) arity)
  | get object name =>
      refine (simulates.evaluate object mirrors sees formed visited).bind ?_
      rintro _ _ value _ _ - - later rfl
      cases value with
      | object ref => exact Agrees.getProperty later ref name
      | _ => exact Simulates.fail later _ _
  | set object name value =>
      simp only [Expr.visits, List.forall_mem_append] at visited
      refine (simulates.evaluate object mirrors sees formed.1 visited.2).bind ?_
      rintro _ _ target _ _ extension grows later rfl
      cases target with
      | object ref =>
          have seesLater := sees.grows grows extension
          refine (simulates.evaluate value later seesLater formed.2 visited.1).bind ?_
          rintro _ _ result _ _ - - later rfl
          refine (Agrees.setField later ref name.text result).bind ?_
          intro _ _ _ _ _ _ _ later _
          exact Agrees.pure later result
      | _ => exact Simulates.fail later _ _
  | this id line =>
      exact Agrees.readVariable mirrors sees (visited _ List.mem_cons_self)
  | super id line method =>
      exact Agrees.getSuper mirrors sees (visited _ List.mem_cons_self) line method

theorem evaluateEach_succ (simulates : SimulatesAt known fuel) (exprs : List Expr)
    {names : Names} {place : Place} (mirrors : Mirrors known world machine store)
    (sees : Sees world machine.heap.scopes machine.current names place)
    (formed : Expr.WellFormedEach exprs)
    (visited : ∀ visit ∈ Expr.visitsEach place exprs, known visit) :
    Agrees known false world machine store (Lox.evaluateEach (fuel + 1) exprs)
      (Lexical.evaluateEach (fuel + 1) names exprs) := by
  cases exprs with
  | nil => exact Agrees.pure mirrors []
  | cons first rest =>
      simp only [Expr.visitsEach, List.forall_mem_append] at visited
      refine (simulates.evaluate first mirrors sees formed.1 visited.1).bind ?_
      rintro _ _ value _ _ extension grows later rfl
      have seesLater := sees.grows grows extension
      refine (simulates.evaluateEach rest later seesLater formed.2 visited.2).bind ?_
      rintro _ _ values _ _ - - later rfl
      exact Agrees.pure later (value :: values)

theorem callFunction_succ (simulates : SimulatesAt known fuel) {closure : Lox.Closure}
    {other : Closure} {arguments : List Value} (line : Nat)
    (mirrors : Mirrors known world machine store)
    (alike : Alike known [] world machine.heap.scopes machine.globals closure other)
    (sameLength : arguments.length = closure.arity) :
    Agrees known false world machine store (Lox.callFunction (fuel + 1) closure arguments line)
      (Lexical.callFunction (fuel + 1) other arguments line) := by
  refine (Simulates.openBody mirrors alike sameLength).bind ?_
  rintro opened ref locals final final' extension grows later
    ⟨newer, formed, table, outer, fits, distinct, visited⟩
  rw [alike.declaration]
  rw [← grows.current] at newer
  have body : Agrees known true opened { final with current := ref } final'
      (Lox.executeEach fuel closure.declaration.body)
      (Lexical.executeEach fuel ⟨locals, true⟩ closure.declaration.body) :=
    simulates.executeEach _ true (later.enter fits.represents.lt_size) fits formed distinct visited
  refine (Agrees.within later.current newer body).bind ?_
  rintro _ _ flow last _ lastExtension lastGrows later rfl
  have alikeLater := (alike.mono grows.scopes extension).mono lastGrows.scopes lastExtension
  rw [← grows.globals, ← lastGrows.globals] at alikeLater
  exact Agrees.callResult later alikeLater line flow

theorem callValue_succ (simulates : SimulatesAt known fuel) {callee : Value}
    {arguments : List Value} (line : Nat) (mirrors : Mirrors known world machine store)
    (arity : machine.heap.arity? callee = some arguments.length) :
    Agrees known false world machine store (Lox.callValue (fuel + 1) callee arguments line)
      (Lexical.callValue (fuel + 1) callee arguments line) := by
  cases callee with
  | native ref =>
      have same : store.native ref = machine.heap.native ref := by
        rw [Store.native, Heap.native, mirrors.natives]
      refine Simulates.get ?_
      rw [same]
      exact Agrees.callNative mirrors _ _ _
  | function ref =>
      have sameLength : arguments.length = (machine.heap.function ref).arity :=
        (Option.some.inj arity).symm
      exact Simulates.get (simulates.callFunction line mirrors (mirrors.functions ref) sameLength)
  | classRef ref =>
      refine (Simulates.addObject mirrors ref).bind ?_
      rintro _ _ object middle middle' extension grows later ⟨rfl, classes⟩
      refine Simulates.get ?_
      have methods := later.findMethod ref "init"
      rw [Heap.findMethod?_congr classes] at methods ⊢
      rw [Heap.arity?] at arity
      generalize machine.heap.findMethod? ref "init" = method at methods arity
      generalize middle'.findMethod? ref "init" = other at methods
      cases methods with
      | none => exact Agrees.pure later _
      | @some initializer _ alike =>
          have sameLength : arguments.length = initializer.arity := (Option.some.inj arity).symm
          refine (Simulates.bindHeap later alike (.object object)).bind ?_
          rintro _ closure closure' final final' - - later ⟨declared, boundAlike⟩
          rw [Lox.Closure.arity, ← declared] at sameLength
          refine (simulates.callFunction line later boundAlike sameLength).bind ?_
          intro _ _ _ _ _ _ _ later _
          exact Agrees.pure later _
  | _ => exact Simulates.fail mirrors _ _

theorem execute_block (simulates : SimulatesAt known fuel) (body : List Stmt)
    {tables : List NameTable} {frame : Frame} (isInner : Bool)
    (mirrors : Mirrors known world machine store) (fits : Fits world machine tables frame)
    (formed : Stmt.WellFormedEach body) (distinct : Stmt.DistinctEach (∅ :: tables) body)
    (visited : ∀ visit ∈ Stmt.visitsEach (∅ :: tables) isInner body, known visit) :
    Agrees known false world machine store (Lox.execute (fuel + 1) (.block body))
      (Lexical.executeEach fuel { frame with isLocal := true } body) := by
  rcases mirrors.openScope fits.represents with ⟨opened, entered, complete⟩
  refine Simulates.after rfl (Machine.growsOrder.refl machine) ?_
  refine Simulates.after rfl (Machine.grows_heap (Scopes.grows_push _ _)) ?_
  refine Agrees.within opened.current mirrors.current ?_
  exact simulates.executeEach body isInner (opened.enter entered.lt_size)
    ⟨entered, rfl, complete⟩ formed distinct visited

/-- A statement that starts with an expression goes on where the expression left off. -/
theorem evaluate_then {α β : Type} (simulates : SimulatesAt known fuel) {expr : Expr}
    {place : Place} {tables : List NameTable} {frame : Frame} {next : Value → Eval α}
    {next' : Value → Action β} {post : World → α → β → Machine → Prop}
    (mirrors : Mirrors known world machine store) (fits : Fits world machine tables frame)
    (sees : Sees world machine.heap.scopes machine.current frame.names place)
    (formed : expr.WellFormed) (visited : ∀ visit ∈ expr.visits place, known visit)
    (rest : ∀ {later : World} {final : Machine} {final' : Store} (value : Value),
      Mirrors known later final final' → Fits later final tables frame →
      Simulates known true later final final' (next value) (next' value) post) :
    Simulates known true world machine store (Lox.evaluate fuel expr >>= next)
      (Lexical.evaluate fuel frame.names expr >>= next') post := by
  refine (simulates.evaluate expr mirrors sees formed visited).opened.bind ?_
  rintro _ _ value _ _ - grows later ⟨extension, rfl⟩
  exact rest value later (fits.mono grows extension)

/-- A statement that declares nothing goes on in the same frame. -/
theorem execute_branch (simulates : SimulatesAt known fuel) (stmt : Stmt)
    {tables : List NameTable} {frame : Frame} (isInner : Bool)
    (mirrors : Mirrors known world machine store) (fits : Fits world machine tables frame)
    (formed : stmt.WellFormed) (declares : stmt.declares? = none) (distinct : stmt.Distinct tables)
    (visited : ∀ visit ∈ stmt.visits tables isInner, known visit) :
    Simulates known true world machine store (Lox.execute fuel stmt)
      (Lexical.execute fuel frame stmt) fun later flow result final =>
        result.1 = flow ∧ (flow = .normal → Fits later final tables result.2) := by
  have executed := simulates.execute stmt isInner mirrors fits formed distinct visited
  rw [Stmt.scopesAfter, declares] at executed
  exact executed

theorem execute_var (simulates : SimulatesAt known fuel) (name : Name) (initializer : Option Expr)
    {tables : List NameTable} {frame : Frame} (isInner : Bool)
    (mirrors : Mirrors known world machine store) (fits : Fits world machine tables frame)
    (formed : (Stmt.var name initializer).WellFormed)
    (distinct : (Stmt.var name initializer).Distinct tables)
    (visited : ∀ visit ∈ (Stmt.var name initializer).visits tables isInner, known visit) :
    Simulates known true world machine store (Lox.execute (fuel + 1) (.var name initializer))
      (Lexical.execute (fuel + 1) frame (.var name initializer)) fun later flow result final =>
        result.1 = flow ∧ (flow = .normal →
          Fits later final ((Stmt.var name initializer).scopesAfter tables) result.2) := by
  cases initializer with
  | none =>
      refine Simulates.introduce fits mirrors distinct ?_
      intro opened inner final' later pending
      refine (Simulates.define pending.targets formed.1.2 later .nil).bind ?_
      rintro _ _ _ _ _ - - later ⟨rfl, rfl⟩
      exact Simulates.pure later ⟨rfl, fun _ => pending.defined .nil⟩
  | some value =>
      refine Simulates.introduce fits mirrors distinct ?_
      intro opened inner final' later pending
      have evaluated := simulates.evaluate value later (pending.sees isInner)
        (formed.2 value rfl) visited
      refine evaluated.opened.bind ?_
      rintro _ _ result _ _ - grows later ⟨extension, rfl⟩
      have stillPending := pending.mono grows extension
      refine (Simulates.define stillPending.targets formed.1.2 later result).bind ?_
      rintro _ _ _ _ _ - - later ⟨rfl, rfl⟩
      exact Simulates.pure later ⟨rfl, fun _ => stillPending.defined result⟩

theorem execute_if (simulates : SimulatesAt known fuel) (condition : Expr) (thenBranch : Stmt)
    (elseBranch : Option Stmt) {tables : List NameTable} {frame : Frame} (isInner : Bool)
    (mirrors : Mirrors known world machine store) (fits : Fits world machine tables frame)
    (formed : (Stmt.if_ condition thenBranch elseBranch).WellFormed)
    (distinct : (Stmt.if_ condition thenBranch elseBranch).Distinct tables)
    (visited : ∀ visit ∈ (Stmt.if_ condition thenBranch elseBranch).visits tables isInner,
      known visit) :
    Simulates known true world machine store
      (Lox.execute (fuel + 1) (.if_ condition thenBranch elseBranch))
      (Lexical.execute (fuel + 1) frame (.if_ condition thenBranch elseBranch))
      fun later flow result final =>
        result.1 = flow ∧ (flow = .normal → Fits later final tables result.2) := by
  cases elseBranch with
  | none =>
      rcases formed with ⟨conditionFormed, thenFormed, thenDeclares⟩
      simp only [Stmt.visits, List.forall_mem_append] at visited
      refine simulates.evaluate_then mirrors fits (fits.sees isInner) conditionFormed visited.1 ?_
      intro _ _ _ result later fitsLater
      split
      · exact simulates.execute_branch thenBranch isInner later fitsLater thenFormed thenDeclares
          distinct visited.2
      · exact Simulates.pure later ⟨rfl, fun _ => fitsLater⟩
  | some elseBranch =>
      rcases formed with ⟨conditionFormed, ⟨thenFormed, thenDeclares⟩, elseFormed, elseDeclares⟩
      simp only [Stmt.visits, List.forall_mem_append] at visited
      refine simulates.evaluate_then mirrors fits (fits.sees isInner) conditionFormed visited.1.1 ?_
      intro _ _ _ result later fitsLater
      split
      · exact simulates.execute_branch thenBranch isInner later fitsLater thenFormed thenDeclares
          distinct.1 visited.1.2
      · exact simulates.execute_branch elseBranch isInner later fitsLater elseFormed elseDeclares
          distinct.2 visited.2

theorem execute_class (simulates : SimulatesAt known fuel) (name : Name)
    (superclass : Option Expr) (methods : List FunctionDecl) {tables : List NameTable}
    {frame : Frame} (isInner : Bool) (mirrors : Mirrors known world machine store)
    (fits : Fits world machine tables frame)
    (formed : (Stmt.class_ name superclass methods).WellFormed)
    (distinct : (Stmt.class_ name superclass methods).Distinct tables)
    (visited : ∀ visit ∈ (Stmt.class_ name superclass methods).visits tables isInner,
      known visit) :
    Simulates known true world machine store
      (Lox.execute (fuel + 1) (.class_ name superclass methods))
      (Lexical.execute (fuel + 1) frame (.class_ name superclass methods))
      fun later flow result final => result.1 = flow ∧ (flow = .normal →
        Fits later final ((Stmt.class_ name superclass methods).scopesAfter tables) result.2) := by
  rcases formed with ⟨plain, isVariable, methodsFormed⟩
  simp only [Stmt.visits, List.forall_mem_append] at visited
  cases superclass with
  | none =>
      have declared := Simulates.declareClass fits mirrors distinct.1 plain methodsFormed
        distinct.2 (show (none : Option ClassRef).isSome = (none : Option Expr).isSome from rfl)
        visited.2
      refine declared.bind ?_
      intro _ _ inner _ _ _ _ later fitted
      exact Simulates.pure later ⟨rfl, fun _ => fitted⟩
  | some superclass =>
      have superclassFormed := (isVariable superclass rfl).wellFormed
      have sees := fits.sees_superclass isInner name.text
      refine simulates.evaluate_then mirrors fits sees superclassFormed visited.1 ?_
      intro _ _ _ value later fitsLater
      refine (Agrees.expectClass later _ value).opened.bind ?_
      rintro _ _ ref _ _ - grows later ⟨extension, rfl⟩
      have declared := Simulates.declareClass (fitsLater.mono grows extension) later distinct.1
        plain methodsFormed distinct.2
        (show (some ref).isSome = (some superclass).isSome from rfl) visited.2
      refine declared.bind ?_
      intro _ _ inner _ _ _ _ later fitted
      exact Simulates.pure later ⟨rfl, fun _ => fitted⟩

theorem execute_succ (simulates : SimulatesAt known fuel) (stmt : Stmt)
    {tables : List NameTable} {frame : Frame} (isInner : Bool)
    (mirrors : Mirrors known world machine store) (fits : Fits world machine tables frame)
    (formed : stmt.WellFormed) (distinct : stmt.Distinct tables)
    (visited : ∀ visit ∈ stmt.visits tables isInner, known visit) :
    Simulates known true world machine store (Lox.execute (fuel + 1) stmt)
      (Lexical.execute (fuel + 1) frame stmt) fun later flow result final =>
        result.1 = flow ∧ (flow = .normal → Fits later final (stmt.scopesAfter tables) result.2) := by
  cases stmt with
  | expression value =>
      refine simulates.evaluate_then mirrors fits (fits.sees isInner) formed visited ?_
      intro _ _ _ _ later fitsLater
      exact Simulates.pure later ⟨rfl, fun _ => fitsLater⟩
  | print value =>
      refine simulates.evaluate_then mirrors fits (fits.sees isInner) formed visited ?_
      intro _ _ _ result later fitsLater
      refine Simulates.get ?_
      rw [later.text]
      refine (Agrees.writeLine later _).opened.bind ?_
      rintro _ _ _ _ _ - grows later ⟨extension, -⟩
      exact Simulates.pure later ⟨rfl, fun _ => fitsLater.mono grows extension⟩
  | var name initializer =>
      exact simulates.execute_var name initializer isInner mirrors fits formed distinct visited
  | block body =>
      have executed := simulates.execute_block body isInner mirrors fits formed distinct visited
      refine executed.opened.mapReference ?_
      rintro _ _ _ _ grows ⟨extension, rfl⟩
      exact ⟨rfl, fun _ => fits.mono grows extension⟩
  | if_ condition thenBranch elseBranch =>
      exact simulates.execute_if condition thenBranch elseBranch isInner mirrors fits formed
        distinct visited
  | while_ condition body =>
      rcases formed with ⟨conditionFormed, bodyFormed, bodyDeclares⟩
      simp only [Stmt.visits, List.forall_mem_append] at visited
      have executed := simulates.executeWhile condition body isInner mirrors fits conditionFormed
        bodyFormed bodyDeclares distinct visited.1 visited.2
      refine executed.mapReference ?_
      rintro _ _ _ _ - ⟨rfl, after⟩
      exact ⟨rfl, after⟩
  | function declaration =>
      rw [Stmt.visits] at visited
      have declared :=
        Simulates.declareFunction fits mirrors distinct.1 formed distinct.2 visited
      refine declared.bind ?_
      intro _ _ inner _ _ _ _ later fitted
      exact Simulates.pure later ⟨rfl, fun _ => fitted⟩
  | return_ line value =>
      cases value with
      | none =>
          refine Simulates.pure mirrors ⟨rfl, ?_⟩
          intro impossible
          cases impossible
      | some value =>
          refine simulates.evaluate_then mirrors fits (fits.sees isInner) (formed value rfl)
            visited ?_
          intro _ _ _ result later _
          refine Simulates.pure later ⟨rfl, ?_⟩
          intro impossible
          cases impossible
  | class_ name superclass methods =>
      exact simulates.execute_class name superclass methods isInner mirrors fits formed distinct
        visited

theorem executeEach_succ (simulates : SimulatesAt known fuel) (stmts : List Stmt)
    {tables : List NameTable} {frame : Frame} (isInner : Bool)
    (mirrors : Mirrors known world machine store) (fits : Fits world machine tables frame)
    (formed : Stmt.WellFormedEach stmts) (distinct : Stmt.DistinctEach tables stmts)
    (visited : ∀ visit ∈ Stmt.visitsEach tables isInner stmts, known visit) :
    Agrees known true world machine store (Lox.executeEach (fuel + 1) stmts)
      (Lexical.executeEach (fuel + 1) frame stmts) := by
  cases stmts with
  | nil => exact Agrees.pure mirrors _
  | cons first rest =>
      simp only [Stmt.visitsEach, List.forall_mem_append] at visited
      have executed :=
        simulates.execute first isInner mirrors fits formed.1 distinct.1 visited.1
      refine executed.bind ?_
      rintro _ flow ⟨flow', inner⟩ _ _ - - later ⟨rfl, after⟩
      cases flow' with
      | returned value => exact Agrees.pure later _
      | normal =>
          exact simulates.executeEach rest isInner later (after rfl) formed.2 distinct.2 visited.2

theorem executeWhile_succ (simulates : SimulatesAt known fuel) (condition : Expr) (body : Stmt)
    {tables : List NameTable} {frame : Frame} (isInner : Bool)
    (mirrors : Mirrors known world machine store) (fits : Fits world machine tables frame)
    (conditionFormed : condition.WellFormed) (bodyFormed : body.WellFormed)
    (bodyDeclares : body.declares? = none) (distinct : body.Distinct tables)
    (conditionVisited : ∀ visit ∈ condition.visits ⟨tables, isInner, .ordinary⟩, known visit)
    (bodyVisited : ∀ visit ∈ body.visits tables isInner, known visit) :
    Simulates known true world machine store (Lox.executeWhile (fuel + 1) condition body)
      (Lexical.executeWhile (fuel + 1) frame condition body) fun later flow flow' final =>
        flow' = flow ∧ (flow = .normal → Fits later final tables frame) := by
  have sees := fits.sees isInner
  refine simulates.evaluate_then mirrors fits sees conditionFormed conditionVisited ?_
  intro _ _ _ result later fitsLater
  split
  · have executed :=
      simulates.execute_branch body isInner later fitsLater bodyFormed bodyDeclares distinct
        bodyVisited
    refine executed.bind ?_
    rintro _ flow ⟨flow', inner⟩ _ _ extension grows later ⟨rfl, after⟩
    cases flow' with
    | returned value =>
        refine Simulates.pure later ⟨rfl, ?_⟩
        intro impossible
        cases impossible
    | normal =>
        -- The body may have given the current scope cells, but declares nothing there.
        exact simulates.executeWhile condition body isInner later
          (fitsLater.resume grows extension (after rfl).complete) conditionFormed bodyFormed
          bodyDeclares distinct conditionVisited bodyVisited
  · exact Simulates.pure later ⟨rfl, fun _ => fitsLater⟩

end SimulatesAt

theorem simulatesAt (known : Visit → Prop) (fuel : Nat) : SimulatesAt known fuel := by
  induction fuel with
  | zero => exact simulatesAt_zero known
  | succ fuel inductionHypothesis =>
      exact {
        evaluate := fun expr _ _ _ _ _ => inductionHypothesis.evaluate_succ expr
        evaluateEach := fun exprs _ _ _ _ _ => inductionHypothesis.evaluateEach_succ exprs
        callValue := fun line _ _ _ => inductionHypothesis.callValue_succ line
        callFunction := fun line _ _ _ => inductionHypothesis.callFunction_succ line
        execute := fun stmt _ _ isInner _ _ _ => inductionHypothesis.execute_succ stmt isInner
        executeEach := fun stmts _ _ isInner _ _ _ =>
          inductionHypothesis.executeEach_succ stmts isInner
        executeWhile := fun condition body _ _ isInner _ _ _ =>
          inductionHypothesis.executeWhile_succ condition body isInner }

theorem executeProgram_agrees {known : Visit → Prop} {fuel : Nat} {program : List Stmt}
    {world : World} {machine : Machine} {store : Store}
    (mirrors : Mirrors known world machine store)
    (fits : Fits world machine [] { locals := ∅, isLocal := false })
    (formed : Stmt.WellFormedEach program) (distinct : Stmt.DistinctEach [] program)
    (visited : ∀ visit ∈ Stmt.visitsEach [] false program, known visit) :
    Agrees known true world machine store (Lox.executeProgram fuel program)
      (executeProgram fuel program) := by
  induction program generalizing world machine store with
  | nil => exact Agrees.flush mirrors
  | cons first rest inductionHypothesis =>
      simp only [Stmt.visitsEach, List.forall_mem_append, Stmt.scopesAfter_nil] at visited
      simp only [Stmt.DistinctEach, Stmt.scopesAfter_nil] at distinct
      have executed := (simulatesAt known fuel).execute first false mirrors fits formed.1
        distinct.1 visited.1
      refine executed.bind ?_
      intro _ _ _ _ _ extension grows later _
      exact inductionHypothesis later (fits.resume grows extension trivial) formed.2 distinct.2
        visited.2

end Lexical

end Lox
