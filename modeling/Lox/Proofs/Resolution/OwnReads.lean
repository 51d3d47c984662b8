import Lox.Proofs.Resolution.Violations

/-!
# Reads in their own initializers

The initializer of a variable may read that name if it was declared earlier.  Where
such a read violates no rule and resolution finds no local variable for it, the name is
that of a global: one that exists already, one declared earlier outside all local
scopes, or the function or class in whose body the read stands.
-/

namespace Lox

open ResolverState (distance?)

/-- The visit reads a variable in the initializer of a variable of that name. -/
structure Visit.IsOwnRead (visit : Visit) : Prop where
  access : visit.access = .read
  role : visit.place.role = .initializer visit.name

/-! ## Scopes -/

/-- The name is defined in one of the scopes. -/
def IsDefinedIn (name : String) (scopes : List NameTable) : Prop :=
  ∃ table ∈ scopes, table[name]? = some .defined

theorem distance?_eq_none_iff {name : String} {scopes : List NameTable} :
    distance? name .read scopes = none ↔ ¬ IsDefinedIn name scopes := by
  induction scopes with
  | nil => simp [distance?, IsDefinedIn]
  | cons table outer inductionHypothesis =>
      rw [distance?, IsDefinedIn, List.exists_mem_cons_iff]
      by_cases defined : table[name]? = some .defined
      · simp [defined]
      · simp [defined, inductionHypothesis, IsDefinedIn]

theorem Visit.IsOwnRead.noLocal_iff {visit : Visit} (own : visit.IsOwnRead) :
    visit.use.distance = none ↔ ¬ IsDefinedIn visit.name visit.place.scopes := by
  rw [Visit.use, own.access]
  exact distance?_eq_none_iff

section Scopes

variable {name : String} {scopes : List NameTable}

theorem IsDefinedIn.declareIn (defined : IsDefinedIn name scopes) (declared : String) :
    IsDefinedIn name (declareIn declared scopes) := by
  obtain ⟨table, member, entry⟩ := defined
  cases scopes with
  | nil => cases member
  | cons innermost outer =>
      rw [Lox.declareIn]
      split
      next => exact ⟨table, member, entry⟩
      next absent =>
        rcases List.mem_cons.mp member with rfl | inOuter
        · refine ⟨_, List.mem_cons_self, ?_⟩
          rw [Table.getElem?_insert, if_neg, entry]
          rintro rfl
          rw [Std.TreeMap.contains_eq_isSome_getElem?, entry] at absent
          exact absent rfl
        · exact ⟨table, List.mem_cons_of_mem _ inOuter, entry⟩

theorem IsDefinedIn.defineIn (defined : IsDefinedIn name scopes) (other : String) :
    IsDefinedIn name (defineIn other scopes) := by
  obtain ⟨table, member, entry⟩ := defined
  cases scopes with
  | nil => cases member
  | cons innermost outer =>
      rcases List.mem_cons.mp member with rfl | inOuter
      · refine ⟨_, List.mem_cons_self, ?_⟩
        rw [Table.getElem?_insert]
        split
        · rfl
        · exact entry
      · exact ⟨table, List.mem_cons_of_mem _ inOuter, entry⟩

theorem IsDefinedIn.introduceIn (defined : IsDefinedIn name scopes) (other : String) :
    IsDefinedIn name (introduceIn other scopes) :=
  (defined.declareIn other).defineIn other

theorem isDefinedIn_introduceIn (name : String) (opened : scopes ≠ []) :
    IsDefinedIn name (introduceIn name scopes) := by
  cases scopes with
  | nil => exact absurd rfl opened
  | cons innermost outer =>
      rw [introduceIn, declareIn]
      split
      · exact ⟨_, List.mem_cons_self, Std.TreeMap.getElem?_insert_self⟩
      · exact ⟨_, List.mem_cons_self, Std.TreeMap.getElem?_insert_self⟩

end Scopes

/-- What was declared earlier in the local scopes around is defined in the scopes. -/
structure Mirrors (scopes : List NameTable) (around : Surroundings) : Prop where
  locals : ∀ name ∈ around.locals, IsDefinedIn name scopes
  outside : scopes = [] → around.scope = none

namespace Mirrors

variable {scopes : List NameTable} {around : Surroundings}

theorem outermost (globals : List String) : Mirrors [] (.outermost globals) :=
  ⟨nofun, fun _ => rfl⟩

theorem introduce (mirrors : Mirrors scopes around) (name : String) :
    Mirrors (introduceIn name scopes) (around.declare name) := by
  cases scope : around.scope with
  | none =>
      refine ⟨fun sought member => ?_, fun _ => ?_⟩
      · rw [Surroundings.locals, around.declare_global scope] at member
        exact (mirrors.locals sought member).introduceIn name
      · rw [around.declare_global scope]
        exact scope
  | some names =>
      have opened : scopes ≠ [] := fun outside => by
        rw [mirrors.outside outside] at scope
        cases scope
      refine ⟨fun sought member => ?_, fun none => ?_⟩
      · rw [Surroundings.locals, around.declare_local scope] at member
        rcases List.mem_cons.mp member with rfl | earlier
        · exact isDefinedIn_introduceIn _ opened
        · refine (mirrors.locals sought ?_).introduceIn name
          rw [Surroundings.locals, scope]
          exact earlier
      · cases scopes with
        | nil => exact absurd rfl opened
        | cons innermost outer =>
            obtain ⟨later, introduced, -⟩ := introduceIn_cons name innermost outer
            rw [introduced] at none
            cases none

theorem after (mirrors : Mirrors scopes around) (stmt : Stmt) :
    Mirrors (stmt.scopesAfter scopes) (around.after stmt) := by
  rw [Stmt.scopesAfter, Surroundings.after]
  cases stmt.declares? with
  | none => exact mirrors
  | some name => exact mirrors.introduce name.text

/-- One more scope, and the same names declared. -/
theorem push (mirrors : Mirrors scopes around) (table : NameTable) {inside : Surroundings}
    (locals : inside.locals = around.locals) : Mirrors (table :: scopes) inside := by
  refine ⟨fun name member => ?_, nofun⟩
  obtain ⟨other, inScopes, entry⟩ := mirrors.locals name (locals ▸ member)
  exact ⟨other, List.mem_cons_of_mem _ inScopes, entry⟩

theorem body (mirrors : Mirrors scopes around) (owner : BodyOwner) (params : List Name) :
    Mirrors (bodyScopes params scopes) ((around.inBody owner).afterParams params) := by
  have entered : Mirrors (∅ :: scopes) (around.inBody owner) := mirrors.push ∅ rfl
  rw [bodyScopes, Surroundings.afterParams]
  generalize (∅ : NameTable) :: scopes = opened at entered ⊢
  generalize around.inBody owner = inside at entered ⊢
  induction params generalizing opened inside with
  | nil => exact entered
  | cons first rest inductionHypothesis => exact inductionHypothesis _ _ (entered.introduce _)

theorem methods (mirrors : Mirrors scopes around) (superclass : Option Expr) :
    Mirrors (methodScopes superclass scopes) (around.inClass superclass.isSome) := by
  cases superclass with
  | none => exact mirrors.push thisTable rfl
  | some superclass =>
      have inSuper : Mirrors (superTable :: scopes) around := mirrors.push superTable rfl
      exact inSuper.push thisTable rfl

end Mirrors

/-! ## Expressions -/

namespace Expr

mutual

/-- A read that is visited in an expression occurs in it. -/
theorem exists_read (around : Surroundings) (place : Place) {visit : Visit}
    (isRead : visit.access = .read) (plain : visit.name ≠ "this" ∧ visit.name ≠ "super") :
    ∀ expr : Expr, visit ∈ expr.visits place →
      ∃ name : Name, name.text = visit.name ∧ ⟨.read name, around⟩ ∈ expr.occurrences around
  | .literal _, visited => by cases visited
  | .group inner, visited => exists_read around place isRead plain inner visited
  | .unary _ operand, visited => exists_read around place isRead plain operand visited
  | .binary left _ right, visited => by
      rcases List.mem_append.mp visited with inLeft | inRight
      · obtain ⟨name, same, occurs⟩ := exists_read around place isRead plain left inLeft
        exact ⟨name, same, List.mem_append_left _ occurs⟩
      · obtain ⟨name, same, occurs⟩ := exists_read around place isRead plain right inRight
        exact ⟨name, same, List.mem_append_right _ occurs⟩
  | .logical left _ right, visited => by
      rcases List.mem_append.mp visited with inLeft | inRight
      · obtain ⟨name, same, occurs⟩ := exists_read around place isRead plain left inLeft
        exact ⟨name, same, List.mem_append_left _ occurs⟩
      · obtain ⟨name, same, occurs⟩ := exists_read around place isRead plain right inRight
        exact ⟨name, same, List.mem_append_right _ occurs⟩
  | .var _ name, visited => by
      obtain rfl := List.mem_singleton.mp visited
      exact ⟨name, rfl, List.mem_singleton_self _⟩
  | .assign _ _ value, visited => by
      rcases List.mem_append.mp visited with inValue | isTarget
      · exact exists_read around place isRead plain value inValue
      · obtain rfl := List.mem_singleton.mp isTarget
        cases isRead
  | .call callee _ arguments, visited => by
      rcases List.mem_append.mp visited with inCallee | inArguments
      · obtain ⟨name, same, occurs⟩ := exists_read around place isRead plain callee inCallee
        exact ⟨name, same, List.mem_append_left _ occurs⟩
      · obtain ⟨name, same, occurs⟩ :=
          exists_readEach around place isRead plain arguments inArguments
        exact ⟨name, same, List.mem_append_right _ occurs⟩
  | .get object _, visited => exists_read around place isRead plain object visited
  | .set object _ value, visited => by
      rcases List.mem_append.mp visited with inValue | inObject
      · obtain ⟨name, same, occurs⟩ := exists_read around place isRead plain value inValue
        exact ⟨name, same, List.mem_append_left _ occurs⟩
      · obtain ⟨name, same, occurs⟩ := exists_read around place isRead plain object inObject
        exact ⟨name, same, List.mem_append_right _ occurs⟩
  | .this _ _, visited => by
      obtain rfl := List.mem_singleton.mp visited
      exact absurd rfl plain.1
  | .super _ _ _, visited => by
      obtain rfl := List.mem_singleton.mp visited
      exact absurd rfl plain.2

theorem exists_readEach (around : Surroundings) (place : Place) {visit : Visit}
    (isRead : visit.access = .read) (plain : visit.name ≠ "this" ∧ visit.name ≠ "super") :
    ∀ exprs : List Expr, visit ∈ visitsEach place exprs →
      ∃ name : Name, name.text = visit.name ∧
        ⟨.read name, around⟩ ∈ occurrencesEach around exprs
  | [], visited => by cases visited
  | first :: rest, visited => by
      rcases List.mem_append.mp visited with inFirst | inRest
      · obtain ⟨name, same, occurs⟩ := exists_read around place isRead plain first inFirst
        exact ⟨name, same, List.mem_append_left _ occurs⟩
      · obtain ⟨name, same, occurs⟩ := exists_readEach around place isRead plain rest inRest
        exact ⟨name, same, List.mem_append_right _ occurs⟩

end

end Expr

/-! ## Statements -/

/-- What lies around the bodies in a statement: functions and classes are declared before
their bodies, variables after their initializers. -/
def Surroundings.aroundBodies (outside : Surroundings) : Stmt → Surroundings
  | .function declaration => outside.declare declaration.name.text
  | .class_ name _ _ => outside.declare name.text
  | _ => outside

/-- A read in its own initializer for which resolution finds no local variable has one of
the names. -/
def Visit.Supplied (names : String → Prop) (visit : Visit) : Prop :=
  visit.IsOwnRead → visit.use.distance = none → names visit.name

theorem Visit.Supplied.imp {names others : String → Prop} {visit : Visit}
    (supplied : visit.Supplied names) (included : ∀ name, names name → others name) :
    visit.Supplied others :=
  fun own noLocal => included _ (supplied own noLocal)

namespace Expr

/-- Elsewhere than in the initializer of a variable, no read is in its own. -/
theorem supplied {place : Place} {expr : Expr} {visit : Visit}
    (visited : visit ∈ expr.visits place) (elsewhere : ∀ name, place.role ≠ .initializer name)
    (names : String → Prop) : visit.Supplied names := by
  intro own
  have role := own.role
  rw [place_of_mem_visits place expr visited] at role
  exact absurd role (elsewhere _)

theorem optionSupplied {place : Place} {expr : Option Expr} {visit : Visit}
    (visited : visit ∈ optionVisits place expr)
    (elsewhere : ∀ name, place.role ≠ .initializer name) (names : String → Prop) :
    visit.Supplied names := by
  cases expr with
  | none => cases visited
  | some value => exact supplied visited elsewhere names

end Expr

namespace Stmt

theorem globals_aroundBodies_of_local {around : Surroundings} (isLocal : around.scope.isSome)
    (stmt : Stmt) : (around.aroundBodies stmt).globals = around.globals := by
  cases stmt with
  | function declaration => exact (Surroundings.Continues.declare isLocal _).globals
  | class_ name superclass methods => exact (Surroundings.Continues.declare isLocal _).globals
  | _ => rfl

theorem globals_aroundBodies_of_none {around : Surroundings} {stmt : Stmt}
    (noDeclaration : stmt.declares? = none) :
    (around.aroundBodies stmt).globals = around.globals := by
  cases stmt with
  | function declaration => cases noDeclaration
  | class_ name superclass methods => cases noDeclaration
  | _ => rfl

/-- In the initializer of a variable. -/
theorem supplied_var {scopes : List NameTable} {around : Surroundings} {isInner : Bool}
    {name : Name} {initializer : Option Expr} (mirrors : Mirrors scopes around)
    (formed : (Stmt.var name initializer).WellFormed)
    (legal : Legal ((Stmt.var name initializer).occurrences around)) {visit : Visit}
    (visited : visit ∈ (Stmt.var name initializer).visits scopes isInner) :
    visit.Supplied (· ∈ around.globals) := by
  intro own noLocal
  cases initializer with
  | none => cases visited
  | some value =>
      have atPlace := Expr.place_of_mem_visits _ value visited
      have sameName : name.text = visit.name := by
        have role := own.role
        rw [atPlace] at role
        exact Role.initializer.inj role
      obtain ⟨readName, isRead, occurs⟩ := value.exists_read (around.inInitializer name.text) _
        own.access (sameName ▸ formed.1) visited
      have unviolated := legal _ (List.mem_cons_of_mem _ occurs)
      by_contra noGlobal
      refine unviolated ⟨_, .readInOwnInitializer ?_ ?_ ?_⟩
      · exact congrArg some (sameName.trans isRead.symm)
      · intro isLocal
        refine own.noLocal_iff.mp noLocal ?_
        rw [atPlace]
        exact (mirrors.locals visit.name (isRead ▸ isLocal)).declareIn name.text
      · exact isRead ▸ noGlobal

mutual

/-- Where a read in its own initializer violates no rule, there is a variable for it. -/
theorem supplied : ∀ (stmt : Stmt) (scopes : List NameTable) (isInner : Bool)
    (around : Surroundings), Mirrors scopes around → stmt.WellFormed →
      Legal (stmt.occurrences around) → ∀ visit ∈ stmt.visits scopes isInner,
        visit.Supplied (· ∈ (around.aroundBodies stmt).globals)
  | .expression _, _, _, _, _, _, _, _, visited => Expr.supplied visited nofun _
  | .print _, _, _, _, _, _, _, _, visited => Expr.supplied visited nofun _
  | .var name initializer, _, _, _, mirrors, formed, legal, _, visited =>
      supplied_var mirrors formed legal visited
  | .block body, scopes, isInner, around, mirrors, formed, legal, visit, visited =>
      suppliedEach body (∅ :: scopes) isInner around.inScope (mirrors.push ∅ rfl) rfl formed legal
        visit visited
  | .if_ condition thenBranch none, scopes, isInner, around, mirrors, formed, legal, visit,
      visited => by
      rcases List.mem_append.mp visited with inCondition | inThen
      · exact Expr.supplied inCondition nofun _
      · have inBranch := supplied thenBranch scopes isInner around mirrors formed.2.1
          (List.forall_mem_append.mp legal).2 visit inThen
        rw [globals_aroundBodies_of_none formed.2.2] at inBranch
        exact inBranch
  | .if_ condition thenBranch (some elseBranch), scopes, isInner, around, mirrors, formed, legal,
      visit, visited => by
      have both := List.forall_mem_append.mp legal
      rcases List.mem_append.mp visited with before | inElse
      · rcases List.mem_append.mp before with inCondition | inThen
        · exact Expr.supplied inCondition nofun _
        · have inBranch := supplied thenBranch scopes isInner around mirrors formed.2.1.1
            (List.forall_mem_append.mp both.1).2 visit inThen
          rw [globals_aroundBodies_of_none formed.2.1.2] at inBranch
          exact inBranch
      · have inBranch := supplied elseBranch scopes isInner around mirrors formed.2.2.1 both.2
          visit inElse
        rw [globals_aroundBodies_of_none formed.2.2.2] at inBranch
        exact inBranch
  | .while_ condition body, scopes, isInner, around, mirrors, formed, legal, visit, visited => by
      rcases List.mem_append.mp visited with inCondition | inBody
      · exact Expr.supplied inCondition nofun _
      · have inLoop := supplied body scopes isInner around mirrors formed.2.1
          (List.forall_mem_append.mp legal).2 visit inBody
        rw [globals_aroundBodies_of_none formed.2.2] at inLoop
        exact inLoop
  | .function ⟨name, params, body⟩, scopes, _, around, mirrors, formed, legal, visit, visited =>
      functionSupplied ⟨name, params, body⟩ _ (around.declare name.text) .function
        (mirrors.introduce name.text) formed (List.forall_mem_cons.mp legal).2 visit visited
  | .return_ _ _, _, _, _, _, _, _, _, visited => Expr.optionSupplied visited nofun _
  | .class_ name superclass methods, scopes, _, around, mirrors, formed, legal, visit,
      visited => by
      rcases List.mem_append.mp visited with inSuperclass | inMethods
      · exact Expr.optionSupplied inSuperclass nofun _
      · have inside := (mirrors.introduce name.text).methods superclass
        exact methodsSupplied methods _ _ inside formed.2.2
          (List.forall_mem_append.mp (List.forall_mem_cons.mp legal).2).2 visit inMethods

theorem suppliedEach : ∀ (stmts : List Stmt) (scopes : List NameTable) (isInner : Bool)
    (around : Surroundings), Mirrors scopes around → around.scope.isSome →
      WellFormedEach stmts → Legal (occurrencesEach around stmts) →
        ∀ visit ∈ visitsEach scopes isInner stmts, visit.Supplied (· ∈ around.globals)
  | [], _, _, _, _, _, _, _, _, visited => by cases visited
  | first :: rest, scopes, isInner, around, mirrors, isLocal, formed, legal, visit, visited => by
      have both := List.forall_mem_append.mp legal
      have continues := Surroundings.Continues.after isLocal first
      rcases List.mem_append.mp visited with inFirst | inRest
      · rw [← globals_aroundBodies_of_local isLocal first]
        exact supplied first scopes isInner around mirrors formed.1 both.1 visit inFirst
      · rw [← continues.globals]
        exact suppliedEach rest _ isInner (around.after first) (mirrors.after first)
          continues.scope formed.2 both.2 visit inRest

theorem functionSupplied : ∀ (declaration : FunctionDecl) (scopes : List NameTable)
    (around : Surroundings) (owner : BodyOwner), Mirrors scopes around →
      FunctionWellFormed declaration → Legal (functionOccurrences around owner declaration) →
        ∀ visit ∈ functionVisits scopes declaration, visit.Supplied (· ∈ around.globals)
  | ⟨name, params, body⟩, scopes, around, owner, mirrors, formed, legal, visit, visited => by
      have entered : (around.inBody owner).scope.isSome := rfl
      have continues := Surroundings.Continues.afterParams entered params
      have inBody := suppliedEach body (bodyScopes params scopes) true _
        (mirrors.body owner params) continues.scope formed.2.2
        (List.forall_mem_append.mp legal).2 visit visited
      rw [continues.globals] at inBody
      exact inBody

theorem methodsSupplied : ∀ (methods : List FunctionDecl) (scopes : List NameTable)
    (around : Surroundings), Mirrors scopes around → MethodsWellFormed methods →
      Legal (methodOccurrences around methods) →
        ∀ visit ∈ methodVisits scopes methods, visit.Supplied (· ∈ around.globals)
  | [], _, _, _, _, _, _, visited => by cases visited
  | first :: rest, scopes, around, mirrors, formed, legal, visit, visited => by
      have both := List.forall_mem_append.mp legal
      rcases List.mem_append.mp visited with inFirst | inRest
      · exact functionSupplied first scopes around (.method first.name.text) mirrors formed.1
          both.1 visit inFirst
      · exact methodsSupplied rest scopes around mirrors formed.2 both.2 visit inRest

end

end Stmt

end Lox
