import Mathlib
import Lox.Proofs.Evaluation.CallDepth
import Lox.Proofs.Receivers.Occurrences
import Lox.Proofs.Resolution.OwnReads
import Lox.Proofs.Session.Globals

/-!
# Accepted reads in their own initializers succeed

Resolution judges such reads by the globals it knows: those that exist when the unit
starts, and those declared earlier in it.  When a statement of the unit is executed,
both exist, and from then on they stay.  So whatever can call the function in which the
read stands, now or in a later unit, finds the global.
-/

namespace Lox

open Actions Eval
open ResolverState (distance?)

/-! ## Globals stay -/

section Globals

variable {name : String}

theorem Calls.hasGlobal {first second : Moment} (calls : Calls first second)
    (bound : first.machine.HasGlobal name) : second.machine.HasGlobal name := by
  rcases calls.grows_cases with ⟨_, _, _, machine, -, grows, -, same, -⟩ | ⟨-, scope, grows⟩
  · rw [same]
    exact grows.hasGlobal bound
  · exact grows.hasGlobal bound

theorem Reaches.hasGlobal {start moment : Moment} (reaches : Reaches start moment)
    (bound : start.machine.HasGlobal name) : moment.machine.HasGlobal name :=
  reaches.invariant bound fun _ _ calls => calls.hasGlobal

end Globals

/-! ## Statements outside local scopes -/

/-- The bodies of all functions were visited, and the globals for the reads in their own
initializers exist. -/
abbrev Machine.Supplied (known : Visit → Prop) (machine : Machine) : Prop :=
  machine.Faithful fun visit => known visit ∧ visit.Supplied machine.HasGlobal

/-- A program is being executed, and a statement with these surroundings comes next. -/
structure Machine.Stands (known : Visit → Prop) (around : Surroundings) (machine : Machine) :
    Prop where
  atRoot : machine.AtRoot
  supplied : machine.Supplied known
  globals : ∀ name ∈ around.globals, machine.HasGlobal name

/-- What is known of a statement that comes next in a program. -/
structure Stmt.Stands (known : Visit → Prop) (around : Surroundings) (stmt : Stmt) : Prop where
  formed : stmt.WellFormed
  visited : ∀ visit ∈ stmt.visits [] false, known visit
  supplied : ∀ visit ∈ stmt.visits [] false,
    visit.Supplied (· ∈ (around.aroundBodies stmt).globals)

namespace Surroundings

variable {around : Surroundings} {name : String}

theorem mem_globals_declare {declared : String}
    (member : name ∈ (around.declare declared).globals) :
    name ∈ around.globals ∨ name = declared := by
  cases scope : around.scope with
  | none =>
      rw [around.declare_global scope] at member
      exact (List.mem_cons.mp member).symm
  | some names =>
      rw [around.declare_local scope] at member
      exact .inl member

theorem mem_globals_after {stmt : Stmt} (member : name ∈ (around.after stmt).globals) :
    name ∈ around.globals ∨ ∃ declared ∈ stmt.declares?, name = declared.text := by
  rw [after] at member
  cases declares : stmt.declares? with
  | none =>
      rw [declares] at member
      exact .inl member
  | some declared =>
      rw [declares] at member
      exact (mem_globals_declare member).imp_right fun same => ⟨declared, rfl, same⟩

theorem mem_globals_aroundBodies {stmt : Stmt}
    (member : name ∈ (around.aroundBodies stmt).globals) :
    name ∈ around.globals ∨ ∃ declared ∈ stmt.declares?, name = declared.text := by
  cases stmt with
  | function declaration =>
      exact (mem_globals_declare member).imp_right fun same => ⟨declaration.name, rfl, same⟩
  | class_ declared superclass methods =>
      exact (mem_globals_declare member).imp_right fun same => ⟨declared, rfl, same⟩
  | _ => exact .inl member

end Surroundings

section Statements

variable {known : Visit → Prop} {around : Surroundings} {stmt : Stmt} {machine final : Machine}
  {fuel : Nat} {flow : Flow}

/-- What a machine supplies, a later one does. -/
theorem Machine.Supplied.of_grows {earlier : Machine} (grows : earlier.Grows machine)
    (faithful : machine.Faithful fun visit => known visit ∧ visit.Supplied earlier.HasGlobal) :
    machine.Supplied known :=
  faithful.imp fun _ _ both => ⟨both.1, both.2.imp fun _ => grows.hasGlobal⟩

/-- A function is declared at once. -/
theorem faithful_of_failed_function {declaration : FunctionDecl} {cause : Interrupt}
    (faithful : machine.Faithful known)
    (failed : execute fuel (.function declaration) machine = .error cause final) :
    final.Faithful known := by
  cases fuel with
  | zero =>
      cases failed
      exact faithful
  | succ fuel => cases failed

/-- Before a class is declared, only its superclass is evaluated. -/
theorem faithful_of_failed_class {name : Name} {superclass : Option Expr}
    {methods : List FunctionDecl} {cause : Interrupt} (faithful : machine.Faithful known)
    (formed : (Stmt.class_ name superclass methods).WellFormed)
    (failed : execute fuel (.class_ name superclass methods) machine = .error cause final) :
    final.Faithful known := by
  cases fuel with
  | zero =>
      cases failed
      exact faithful
  | succ fuel =>
      cases superclass with
      | none => cases failed
      | some superclass =>
          have safe := (soundAt known fuel).evaluate superclass faithful
            (formed.2.1 superclass rfl).wellFormed
          rw [execute] at failed
          cases result : evaluate fuel superclass machine with
          | error reason later =>
              rw [bind_of_error result] at failed
              cases failed
              have kept := safe.faithful
              rw [result] at kept
              exact kept
          | ok value later =>
              rw [bind_of_ok result] at failed
              cases value with
              | classRef ref => cases failed
              | _ =>
                  cases failed
                  exact (safe.of_ok result).2.1

namespace Machine.Stands

theorem realizes (stands : machine.Stands known around) : machine.Realizes [] :=
  stands.atRoot.current

/-- A statement that has been executed has bound what it declares. -/
theorem hasGlobal (stands : machine.Stands known around)
    (executed : execute fuel stmt machine = .ok flow final) {name : String}
    (isKnown : name ∈ around.globals ∨ ∃ declared ∈ stmt.declares?, name = declared.text) :
    final.HasGlobal name := by
  rcases isKnown with before | ⟨declared, isDeclared, rfl⟩
  · exact (((framedAt fuel).execute stmt).of_ok executed).hasGlobal (stands.globals name before)
  · exact hasGlobal_execute stands.atRoot executed isDeclared

/-- Behind a statement that has been executed. -/
theorem completed (stands : machine.Stands known around) (isNext : stmt.Stands known around)
    (executed : execute fuel stmt machine = .ok flow final) :
    final.Stands known (around.after stmt) := by
  have grows := ((framedAt fuel).execute stmt).of_ok executed
  refine ⟨grows.atRoot stands.atRoot, ?_, fun name member =>
    stands.hasGlobal executed (Surroundings.mem_globals_after member)⟩
  let visible : Visit → Prop := fun visit => known visit ∧ visit.Supplied final.HasGlobal
  have before : machine.Faithful visible :=
    stands.supplied.imp fun _ _ both => ⟨both.1, both.2.imp fun _ => grows.hasGlobal⟩
  have visited : ∀ visit ∈ stmt.visits [] false, visible visit := fun visit member =>
    ⟨isNext.visited visit member, (isNext.supplied visit member).imp fun _ isKnown =>
      stands.hasGlobal executed (Surroundings.mem_globals_aroundBodies isKnown)⟩
  exact (((soundAt visible fuel).execute stmt false before stands.realizes isNext.formed
    visited).of_ok executed).2.1

/-- No function closes over a declaration that was not completed. -/
theorem failed (stands : machine.Stands known around) (isNext : stmt.Stands known around)
    {cause : Interrupt} (executed : execute fuel stmt machine = .error cause final) :
    final.Supplied known := by
  have grows := (framedAt fuel).execute stmt machine
  rw [executed] at grows
  refine .of_grows grows ?_
  cases stmt with
  | function declaration => exact faithful_of_failed_function stands.supplied executed
  | class_ name superclass methods =>
      exact faithful_of_failed_class stands.supplied isNext.formed executed
  | _ =>
      have sound := (soundAt _ fuel).execute _ false stands.supplied stands.realizes isNext.formed
        fun visit member => ⟨isNext.visited visit member,
          (isNext.supplied visit member).imp stands.globals⟩
      have faithful := sound.faithful
      rw [executed] at faithful
      exact faithful

end Machine.Stands

/-- What is to be done was visited, and the globals for the reads in their own
initializers exist. -/
def Moment.Supplied (known : Visit → Prop) (moment : Moment) : Prop :=
  ∃ visible : Visit → Prop, moment.Ready visible ∧
    ∀ visit, visible visit → known visit ∧ visit.Supplied moment.machine.HasGlobal

theorem Moment.Supplied.reaches {start moment : Moment} (supplied : start.Supplied known)
    (reaches : Reaches start moment) : moment.Supplied known := by
  obtain ⟨visible, ready, isKnown⟩ := supplied
  refine ⟨visible, reaches.ready ready, fun visit isVisible => ?_⟩
  exact (isKnown visit isVisible).imp_right fun supplied =>
    supplied.imp fun _ => reaches.hasGlobal

/-- A statement other than a declaration of a function or class can be executed. -/
theorem Machine.Stands.start (stands : machine.Stands known around)
    (isNext : stmt.Stands known around)
    (plain : (around.aroundBodies stmt).globals = around.globals) (fuel : Nat) :
    Moment.Supplied known ⟨fuel, .execute stmt, machine⟩ := by
  refine ⟨fun visit => known visit ∧ visit.Supplied machine.HasGlobal, ⟨stands.supplied,
    isNext.formed, [], false, stands.realizes, fun visit member => ?_⟩, fun _ => id⟩
  have supplied := isNext.supplied visit member
  rw [plain] at supplied
  exact ⟨isNext.visited visit member, supplied.imp stands.globals⟩

/-- What is evaluated while a statement is executed. -/
theorem Machine.Stands.evaluated (stands : machine.Stands known around)
    (isNext : stmt.Stands known around) {remaining : Nat} {expr : Expr} {middle : Machine}
    (reaches : Reaches ⟨fuel, .execute stmt, machine⟩ ⟨remaining, .evaluate expr, middle⟩) :
    Moment.Supplied known ⟨remaining, .evaluate expr, middle⟩ := by
  cases stmt with
  | function declaration =>
      rcases reaches.cases_head with same | ⟨part, calls, -⟩
      · cases same
      · cases calls
  | class_ name superclass methods =>
      rcases reaches.cases_head with same | ⟨part, calls, rest⟩
      · cases same
      · cases calls with
        | @superclass fuel _ superclass =>
            have start : Moment.Supplied known ⟨fuel, .evaluate superclass, machine⟩ := by
              refine ⟨fun visit => known visit ∧ visit.Supplied machine.HasGlobal,
                ⟨stands.supplied, (isNext.formed.2.1 superclass rfl).wellFormed, [], false,
                  .superclass name.text, stands.realizes, fun visit member => ?_⟩, fun _ => id⟩
              exact ⟨isNext.visited visit (List.mem_append_left _ member),
                Expr.supplied member nofun _⟩
            exact start.reaches rest
  | _ => exact (stands.start isNext rfl fuel).reaches reaches

end Statements

/-! ## Programs -/

section Programs

variable {known : Visit → Prop} {around : Surroundings} {program : List Stmt} {machine : Machine}
  {fuel : Nat}

/-- What is known of the statements that come next in a program. -/
structure ProgramStands (known : Visit → Prop) (around : Surroundings) (program : List Stmt) :
    Prop where
  mirrors : Mirrors [] around
  formed : Stmt.WellFormedEach program
  legal : Legal (Stmt.occurrencesEach around program)
  visited : ∀ visit ∈ Stmt.visitsEach [] false program, known visit

theorem ProgramStands.cons {first : Stmt} {rest : List Stmt}
    (stands : ProgramStands known around (first :: rest)) :
    first.Stands known around ∧ ProgramStands known (around.after first) rest := by
  obtain ⟨mirrors, formed, legal, visited⟩ := stands
  obtain ⟨firstLegal, restLegal⟩ := List.forall_mem_append.mp legal
  obtain ⟨firstVisited, restVisited⟩ := List.forall_mem_append.mp visited
  rw [Stmt.scopesAfter_nil] at restVisited
  have behind := mirrors.after first
  rw [Stmt.scopesAfter_nil] at behind
  exact ⟨⟨formed.1, firstVisited, first.supplied [] false around mirrors formed.1 firstLegal⟩,
    behind, formed.2, restLegal, restVisited⟩

/-- However a program ends, the functions it leaves behind are supplied. -/
theorem supplied_executeProgram (stands : machine.Stands known around)
    (isNext : ProgramStands known around program) :
    (endState (executeProgram fuel program machine)).Supplied known := by
  induction program generalizing machine around with
  | nil =>
      have safe : Safe _ (executeProgram fuel []) machine :=
        safe_executeProgram stands.supplied stands.realizes trivial nofun
      exact .of_grows safe.grows safe.faithful
  | cons first rest inductionHypothesis =>
      obtain ⟨firstNext, restNext⟩ := isNext.cons
      rw [executeProgram]
      cases executed : execute fuel first machine with
      | ok flow middle =>
          rw [bind_of_ok executed]
          exact inductionHypothesis (stands.completed firstNext executed) restNext
      | error cause final =>
          rw [bind_of_error executed]
          exact stands.failed firstNext executed

/-- What is evaluated while a program is executed. -/
theorem supplied_of_reaches (stands : machine.Stands known around)
    (isNext : ProgramStands known around program) {remaining : Nat} {expr : Expr}
    {middle : Machine} (reaches : Reaches ⟨fuel, .executeProgram program, machine⟩
      ⟨remaining, .evaluate expr, middle⟩) :
    Moment.Supplied known ⟨remaining, .evaluate expr, middle⟩ := by
  induction program generalizing machine around with
  | nil =>
      rcases reaches.cases_head with same | ⟨part, calls, -⟩
      · cases same
      · cases calls
  | cons first rest inductionHypothesis =>
      obtain ⟨firstNext, restNext⟩ := isNext.cons
      rcases reaches.cases_head with same | ⟨part, calls, later⟩
      · cases same
      · cases calls with
        | firstOfProgram => exact stands.evaluated firstNext later
        | restOfProgram executed =>
            exact inductionHypothesis (stands.completed firstNext executed) restNext later

end Programs

/-! ## Sessions -/

namespace Session

variable {sink : Sink} {clock : Clock} {units : List (Nat × String)}

theorem VisitedIn.of_prefix {more : List (Nat × String)} {visit : Visit}
    (visited : VisitedIn sink clock units visit) (isPrefix : units <+: more) :
    VisitedIn sink clock more visit := by
  obtain ⟨before, unit, program, within, accepted, member⟩ := visited
  exact ⟨before, unit, program, within.trans isPrefix, accepted, member⟩

/-- A unit starts with all the globals that resolution knows. -/
theorem stands_resolved {session : Session} {known : Visit → Prop} (program : List Stmt)
    (atGlobals : session.machine.Realizes []) (supplied : session.machine.Supplied known) :
    (session.resolved program).Stands known (.outermost session.machine.globalNames) where
  atRoot := ⟨supplied.present, atGlobals⟩
  supplied := supplied
  globals name member := (session.machine.mem_globalNames name).mp member

theorem Accepts.programStands {session : Session} {source : String} {program : List Stmt}
    {known : Visit → Prop} (accepted : session.Accepts source program)
    (visited : ∀ visit ∈ Stmt.visitsEach [] false program, known visit) :
    ProgramStands known (.outermost session.machine.globalNames) program where
  mirrors := .outermost _
  formed := accepted.1.choose_spec.takes.wellFormed
  legal := accepted.legal
  visited := visited

/-- Between units, the globals for the reads in their own initializers exist. -/
theorem supplied_runAll (sink : Sink) (clock : Clock) (units : List (Nat × String)) :
    ((initial sink clock).runAll units).machine.Supplied (VisitedIn sink clock units) := by
  induction units using List.reverseRecOn with
  | nil =>
      have settled : (initial sink clock).Settled fun _ => False := settled_initial sink clock
      exact settled.faithful.imp fun _ _ knows => knows.origin.elim
  | append_singleton units unit inductionHypothesis =>
      have atGlobals := (settled_runAll sink clock units).atGlobals
      have supplied : ((initial sink clock).runAll units).machine.Supplied
          (VisitedIn sink clock (units ++ [unit])) :=
        inductionHypothesis.imp fun _ _ both => both.imp_left fun visited => visited.mono unit
      rw [runAll_append_singleton]
      generalize isSession : (initial sink clock).runAll units = session at *
      rcases session.run_cases unit.1 unit.2 with
        ⟨program, nextId, reads⟩ | ⟨errors, nextId, -, rejected⟩
      · rw [reads.run_eq]
        by_cases clean : (resolveProgram session.machine.globalNames program).errors = []
        · have accepted : session.Accepts unit.2 program := ⟨⟨nextId, reads⟩, clean⟩
          have visited : ∀ visit ∈ Stmt.visitsEach [] false program,
              VisitedIn sink clock (units ++ [unit]) visit := fun visit member =>
            ⟨units, unit, program, List.prefix_refl _, isSession ▸ accepted, member⟩
          rw [runProgram_clean clean]
          exact supplied_executeProgram (stands_resolved program atGlobals supplied)
            (accepted.programStands visited)
        · rw [runProgram_unclean clean]
          exact supplied
      · rw [rejected]
        exact supplied

/-- What is evaluated in a history. -/
theorem Occurs.supplied {fuel : Nat} {expr : Expr} {machine : Machine}
    (occurs : Occurs sink clock units ⟨fuel, .evaluate expr, machine⟩) :
    Moment.Supplied (VisitedIn sink clock units) ⟨fuel, .evaluate expr, machine⟩ := by
  obtain ⟨before, unitFuel, source, program, isPrefix, accepted, reaches⟩ := occurs
  have supplied := (supplied_runAll sink clock before).imp fun _ _ both =>
    both.imp_left fun visited => visited.of_prefix ((List.prefix_append _ _).trans isPrefix)
  have visited : ∀ visit ∈ Stmt.visitsEach [] false program, VisitedIn sink clock units visit :=
    fun visit member => ⟨before, (unitFuel, source), program, isPrefix, accepted, member⟩
  exact supplied_of_reaches
    (stands_resolved program (settled_runAll sink clock before).atGlobals supplied)
    (accepted.programStands visited) reaches

end Session

/-! ## What is found -/

/-- The value that a read finds: that of the nearest local variable around it which was
declared earlier, or else of the global. -/
inductive Visit.Finds (visit : Visit) (machine : Machine) (value : Value) : Prop where
  | local {distance : Nat} {table : NameTable} :
      visit.place.scopes[distance]? = some table → table[visit.name]? = some .defined →
      (∀ nearer < distance, ∀ other, visit.place.scopes[nearer]? = some other →
        other[visit.name]? ≠ some .defined) →
      machine.heap.scopes.getAt? machine.current distance visit.name = some value →
      visit.Finds machine value
  | global : ¬ IsDefinedIn visit.name visit.place.scopes →
      machine.heap.scopes.own? machine.globals visit.name = some value →
      visit.Finds machine value

/-- The distance of a read is that of the nearest scope in which the name is defined. -/
theorem nearest_of_distance? {name : String} {scopes : List NameTable} {distance : Nat}
    (found : distance? name .read scopes = some distance) :
    ∃ table : NameTable, scopes[distance]? = some table ∧ table[name]? = some .defined ∧
      ∀ nearer < distance, ∀ other : NameTable, scopes[nearer]? = some other →
        other[name]? ≠ some .defined := by
  induction scopes generalizing distance with
  | nil => cases found
  | cons innermost outer inductionHypothesis =>
      by_cases defined : innermost[name]? = some .defined
      · have here : distance = 0 := by simpa [distance?, defined] using found.symm
        subst here
        exact ⟨innermost, rfl, defined, fun nearer less => absurd less (Nat.not_lt_zero nearer)⟩
      · have inOuter : ∃ inner, distance? name .read outer = some inner ∧ inner + 1 = distance := by
          simpa [distance?, defined] using found
        obtain ⟨inner, isInner, rfl⟩ := inOuter
        obtain ⟨table, present, entry, nearest⟩ := inductionHypothesis isInner
        refine ⟨table, present, entry, fun nearer less other isOther => ?_⟩
        cases nearer with
        | zero =>
            cases isOther
            exact defined
        | succ nearer => exact nearest nearer (Nat.lt_of_succ_lt_succ less) other isOther

/-- A variable that an accepted unit reads in the initializer of a variable of that name is
found whenever the read is evaluated, in that unit or a later one and through whatever
function: the nearest local variable around it which was declared earlier, or else the
global. -/
theorem own_initializer_reads_succeed {sink : Sink} {clock : Clock} {units : List (Nat × String)}
    {fuel : Nat} {id : UseId} {name : Name} {machine : Machine} {visit : Visit}
    (occurs : Session.Occurs sink clock units ⟨fuel + 1, .evaluate (.var id name), machine⟩)
    (visited : Session.VisitedIn sink clock units visit) (isVisit : visit.id = id)
    (initializing : visit.place.role = .initializer name.text) :
    ∃ value, evaluate (fuel + 1) (.var id name) machine = .ok value machine ∧
      visit.Finds machine value := by
  obtain ⟨known, ready, isKnown⟩ := occurs.ready
  obtain ⟨-, tables, isInner, role, realizes, covers⟩ := ready.task
  obtain ⟨visitedHere, -, recorded⟩ := isKnown _ (covers _ (List.mem_singleton_self _))
  -- An identity is visited once, so all that is known is known of one and the same visit.
  obtain rfl := visited.eq_of_id visitedHere isVisit
  obtain ⟨visible, visibleReady, isVisible⟩ := occurs.supplied
  obtain ⟨-, otherTables, otherInner, otherRole, -, otherCovers⟩ := visibleReady.task
  obtain ⟨visitedOther, supplied⟩ := isVisible _ (otherCovers _ (List.mem_singleton_self _))
  rw [visitedOther.eq_of_id visitedHere rfl] at supplied
  rw [role.place_role] at initializing
  subst initializing
  cases found : distance? name.text .read (declareIn name.text tables) with
  | some distance =>
      obtain ⟨table, present, entry, nearest⟩ := nearest_of_distance? found
      have foundHere : distance? name.text .read
          ((Role.initializer name.text).place tables isInner).scopes = some distance := found
      have notSuperclass : Role.initializer name.text ≠ .superclass name.text := nofun
      obtain ⟨value, bound⟩ :=
        Option.isSome_iff_exists.mp (realizes.isSome_getAt? notSuperclass foundHere)
      refine ⟨value, ?_, .local present entry nearest bound⟩
      have isRecorded : machine.distances[id]? = some distance := recorded.trans found
      simp only [evaluate, readVariable, isRecorded, bound]
  | none =>
      obtain ⟨value, bound⟩ := Option.isSome_iff_exists.mp (supplied ⟨rfl, rfl⟩ found)
      refine ⟨value, ?_, .global (distance?_eq_none_iff.mp found) bound⟩
      have unrecorded : machine.distances[id]? = none := recorded.trans found
      have isGlobal : machine.heap.scopes.own? machine.globals name.text = some value := bound
      simp only [evaluate, readVariable, unrecorded, isGlobal]

/-! ### A function that reads a global in the initializer of a local variable -/

namespace OwnReading

def source : String :=
  "var x = true; fun f() \x7b var x = x; \x7d"

def declaration : FunctionDecl :=
  ⟨⟨"f", 1⟩, [], [.var ⟨"x", 1⟩ (some (.var 0 ⟨"x", 1⟩))]⟩

def program : List Stmt :=
  [.var ⟨"x", 1⟩ (some (.literal (.bool true))), .function declaration]

theorem reads : (Session.initial .unlimited (.startingAt 0)).Reads source program 1 :=
  ⟨by decide +kernel, by rw [scanTokens_eq]; cbv⟩

theorem accepted : (Session.initial .unlimited (.startingAt 0)).Accepts source program :=
  ⟨⟨1, reads⟩, by decide +kernel⟩

/-- The session in which both are declared. -/
def session : Session :=
  ⟨((Session.initial .unlimited (.startingAt 0)).machine.runProgram 20 program).2, 1⟩

theorem runAll_eq :
    (Session.initial .unlimited (.startingAt 0)).runAll [(20, source)] = session := by
  change ((Session.initial .unlimited (.startingAt 0)).run 20 source).2 = session
  rw [reads.run_eq]
  rfl

def call : Expr :=
  .call (.var 1 ⟨"f", 1⟩) 1 []

theorem callAccepted : session.Accepts "f();" [.expression call] := by
  have parsed : parseProgram 1 (scanTokens "f();") = (.ok [.expression call], 2) := by
    rw [scanTokens_eq]
    cbv
  exact ⟨⟨2, by decide +kernel, parsed⟩, by decide +kernel⟩

/-- The read in the body of the function. -/
def visit : Visit :=
  ⟨0, "x", .read, ⟨declareIn "x" [∅], true, .initializer "x"⟩⟩

theorem visited : Session.VisitedIn .unlimited (.startingAt 0) [(20, source), (20, "f();")]
    visit :=
  ⟨[], (20, source), program, ⟨[(20, "f();")], rfl⟩, accepted, List.mem_cons_self⟩

/-- The machine when the function has been found and can be called. -/
def checked : Machine :=
  endState (checkCall (.function ⟨0⟩) 1 0
    (endState (evaluate 18 (.var 1 ⟨"f", 1⟩) (session.resolved [.expression call]))))

/-- The machine in which the function is called. -/
def called : Machine :=
  { checked with callDepth := checked.callDepth + 1 }

theorem reaches_call : Reaches
    ⟨20, .executeProgram [.expression call], session.resolved [.expression call]⟩
    ⟨17, .callFunction (called.heap.function ⟨0⟩) [] 1, called⟩ := by
  have callee : value? (evaluate 18 (.var 1 ⟨"f", 1⟩)
      (session.resolved [.expression call])) = some (.function ⟨0⟩) := by decide +kernel
  have passed : value? (checkCall (.function ⟨0⟩) 1 0 (endState (evaluate 18 (.var 1 ⟨"f", 1⟩)
      (session.resolved [.expression call])))) = some () := by decide +kernel
  refine .head .firstOfProgram (.head .expression ?_)
  refine .head (.call (eq_ok_of_value? _ callee) rfl (eq_ok_of_value? _ passed)) ?_
  exact .head .function .refl

/-- The function is called by a later unit. -/
theorem occurs : ∃ machine, Session.Occurs .unlimited (.startingAt 0)
    [(20, source), (20, "f();")] ⟨13 + 1, .evaluate (.var 0 ⟨"x", 1⟩), machine⟩ := by
  have isFunction : (called.heap.function ⟨0⟩).declaration = declaration := by rfl
  obtain ⟨closure, isClosure⟩ : ∃ closure, called.heap.function ⟨0⟩ = closure := ⟨_, rfl⟩
  have reaches := reaches_call
  rw [isClosure] at reaches isFunction
  obtain ⟨_, scope, isInitializer⟩ := closure
  subst isFunction
  have inBody := (reaches.tail (.functionBody rfl)).tail .firstStmt
  have accepted := callAccepted
  rw [← runAll_eq] at inBody accepted
  exact ⟨_, [(20, source)], 20, "f();", [.expression call], List.prefix_refl _, accepted,
    inBody.tail .var⟩

end OwnReading

/-- The function finds the global. -/
theorem later_call_reads_global : ∃ machine value,
    evaluate 14 (.var 0 ⟨"x", 1⟩) machine = .ok value machine ∧
      OwnReading.visit.Finds machine value := by
  obtain ⟨machine, occurs⟩ := OwnReading.occurs
  have found := own_initializer_reads_succeed occurs OwnReading.visited rfl rfl
  exact ⟨machine, found⟩

end Lox
