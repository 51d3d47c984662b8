import Lox.Proofs.Evaluation.Capacity
import Lox.Proofs.Resolution.Violations
import Lox.Proofs.Session.Release

/-!
# Evaluation without resolution

Outside all scopes there is nothing to resolve: every variable of an expression is a
global, and only `this` and `super` can be out of place.  So an expression that uses
neither can be evaluated as it is.  To run it as a program that prints it does the same
on the same machine, and prints the value.
-/

namespace Lox

open Actions Eval

/-! ## Freestanding expressions -/

namespace Expr

mutual

/-- The expression uses neither `this` nor `super`. -/
def isFreestanding : Expr → Bool
  | .literal _ => true
  | .group inner => inner.isFreestanding
  | .unary _ operand => operand.isFreestanding
  | .binary left _ right => left.isFreestanding && right.isFreestanding
  | .logical left _ right => left.isFreestanding && right.isFreestanding
  | .var _ _ => true
  | .assign _ _ value => value.isFreestanding
  | .call callee _ arguments => callee.isFreestanding && areFreestanding arguments
  | .get object _ => object.isFreestanding
  | .set object _ value => object.isFreestanding && value.isFreestanding
  | .this _ _ => false
  | .super _ _ _ => false

/-- The expressions use neither `this` nor `super`. -/
def areFreestanding : List Expr → Bool
  | [] => true
  | first :: rest => first.isFreestanding && areFreestanding rest

end

end Expr

/-! ## Resolution outside all scopes -/

namespace ResolverState

/-- No local scope is open, and no global waits for its initializer. -/
structure Outermost (state : ResolverState) : Prop where
  scopes : state.scopes = []
  defined : ∀ name : String, state.globals[name]? ≠ some .declared

/-- From one state to the other, nothing was met but uses of globals. -/
def MeetsGlobals (state final : ResolverState) : Prop :=
  ∃ met : Array Use, (∀ use ∈ met, use.distance = none) ∧
    final = { state with uses := state.uses ++ met }

variable {state middle final : ResolverState}

theorem outermost_initial (globals : List String) : (initial globals).Outermost where
  scopes := rfl
  defined name := by
    have entry : (initial globals).globals[name]? = _ := getElem?_foldl_insert globals ∅ name
    rw [entry]
    split
    all_goals simp

theorem MeetsGlobals.refl (state : ResolverState) : MeetsGlobals state state :=
  ⟨#[], by simp, by rw [Array.append_empty]⟩

theorem MeetsGlobals.trans (first : MeetsGlobals state middle)
    (second : MeetsGlobals middle final) : MeetsGlobals state final := by
  rcases first with ⟨met, areGlobal, rfl⟩
  rcases second with ⟨more, moreAreGlobal, rfl⟩
  refine ⟨met ++ more, ?_, by rw [Array.append_assoc]⟩
  intro use member
  rcases Array.mem_append.mp member with earlier | later
  · exact areGlobal use earlier
  · exact moreAreGlobal use later

theorem MeetsGlobals.outermost (meets : MeetsGlobals state final) (outermost : state.Outermost) :
    final.Outermost := by
  rcases meets with ⟨met, -, rfl⟩
  exact ⟨outermost.scopes, outermost.defined⟩

theorem Outermost.use (outermost : state.Outermost) (id : UseId) (name : String)
    (access : Access) : MeetsGlobals state (state.use id name access) := by
  refine ⟨#[⟨id, name, none⟩], by simp, ?_⟩
  rw [ResolverState.use, outermost.scopes, distance?, Array.push_eq_append]

/-- A global can be read unless it waits for its initializer. -/
theorem Outermost.globalReadable (outermost : state.Outermost) (name : String) :
    state.globalReadable name = true := by
  unfold ResolverState.globalReadable
  split
  next => rfl
  next waiting => exact absurd waiting (outermost.defined name)
  next => rw [outermost.scopes, List.any_nil, Bool.not_false]

theorem Outermost.read (outermost : state.Outermost) (id : UseId) (name : Name) :
    MeetsGlobals state (state.read id name) := by
  have allowed : state.read id name = state.use id name.text .read := by
    rw [ResolverState.read, outermost.globalReadable, Bool.or_true, if_pos rfl]
  rw [allowed]
  exact outermost.use id name.text .read

end ResolverState

open ResolverState (Outermost MeetsGlobals)

namespace Expr

mutual

theorem resolve_meetsGlobals : ∀ (expr : Expr) (state : ResolverState), state.Outermost →
    expr.isFreestanding = true → MeetsGlobals state (expr.resolve state)
  | .literal _, state, _, _ => by
      rw [resolve]
      exact .refl state
  | .group inner, state, outermost, freestanding => by
      rw [resolve]
      exact resolve_meetsGlobals inner state outermost freestanding
  | .unary _ operand, state, outermost, freestanding => by
      rw [resolve]
      exact resolve_meetsGlobals operand state outermost freestanding
  | .binary left _ right, state, outermost, freestanding => by
      rw [isFreestanding, Bool.and_eq_true] at freestanding
      rw [resolve]
      have leftMeets := resolve_meetsGlobals left state outermost freestanding.1
      exact leftMeets.trans
        (resolve_meetsGlobals right _ (leftMeets.outermost outermost) freestanding.2)
  | .logical left _ right, state, outermost, freestanding => by
      rw [isFreestanding, Bool.and_eq_true] at freestanding
      rw [resolve]
      have leftMeets := resolve_meetsGlobals left state outermost freestanding.1
      exact leftMeets.trans
        (resolve_meetsGlobals right _ (leftMeets.outermost outermost) freestanding.2)
  | .var id name, state, outermost, _ => by
      rw [resolve]
      exact outermost.read id name
  | .assign id name value, state, outermost, freestanding => by
      rw [resolve]
      have valueMeets := resolve_meetsGlobals value state outermost freestanding
      exact valueMeets.trans ((valueMeets.outermost outermost).use id name.text .write)
  | .call callee _ arguments, state, outermost, freestanding => by
      rw [isFreestanding, Bool.and_eq_true] at freestanding
      rw [resolve]
      have calleeMeets := resolve_meetsGlobals callee state outermost freestanding.1
      exact calleeMeets.trans
        (resolveEach_meetsGlobals arguments _ (calleeMeets.outermost outermost) freestanding.2)
  | .get object _, state, outermost, freestanding => by
      rw [resolve]
      exact resolve_meetsGlobals object state outermost freestanding
  | .set object _ value, state, outermost, freestanding => by
      rw [isFreestanding, Bool.and_eq_true] at freestanding
      rw [resolve]
      have valueMeets := resolve_meetsGlobals value state outermost freestanding.2
      exact valueMeets.trans
        (resolve_meetsGlobals object _ (valueMeets.outermost outermost) freestanding.1)
  | .this _ _, _, _, freestanding => nomatch freestanding
  | .super _ _ _, _, _, freestanding => nomatch freestanding

theorem resolveEach_meetsGlobals : ∀ (exprs : List Expr) (state : ResolverState),
    state.Outermost → areFreestanding exprs = true → MeetsGlobals state (resolveEach exprs state)
  | [], state, _, _ => by
      rw [resolveEach]
      exact .refl state
  | first :: rest, state, outermost, freestanding => by
      rw [areFreestanding, Bool.and_eq_true] at freestanding
      rw [resolveEach]
      have firstMeets := resolve_meetsGlobals first state outermost freestanding.1
      exact firstMeets.trans
        (resolveEach_meetsGlobals rest _ (firstMeets.outermost outermost) freestanding.2)

end

end Expr

/-- A program that prints a freestanding expression has no static errors, and all it
uses are globals. -/
theorem resolveProgram_print (globals : List String) {expr : Expr}
    (freestanding : expr.isFreestanding = true) :
    (resolveProgram globals [.print expr]).errors = [] ∧
      ∀ use ∈ (resolveProgram globals [.print expr]).uses, use.distance = none := by
  obtain ⟨met, areGlobal, final⟩ := expr.resolve_meetsGlobals (.initial globals)
    (ResolverState.outermost_initial globals) freestanding
  have walked : Stmt.resolveEach [.print expr] (.initial globals) =
      expr.resolve (.initial globals) := rfl
  constructor
  · rw [resolveProgram, walked, final]
    rfl
  · rw [resolveProgram, walked, final]
    intro use member
    apply areGlobal use
    rw [← Array.mem_toList_iff]
    simpa [ResolverState.initial] using member

/-- Nothing is recorded for uses of globals. -/
theorem Machine.record_of_globals (machine : Machine) {uses : List Use}
    (areGlobal : ∀ use ∈ uses, use.distance = none) : machine.record uses = machine := by
  unfold record
  induction uses with
  | nil => rfl
  | cons first rest inductionHypothesis =>
      have unrecorded : recordUse machine.distances first = machine.distances := by
        rw [recordUse, areGlobal first List.mem_cons_self]
      rw [List.foldl_cons, unrecorded]
      exact inductionHypothesis fun use member => areGlobal use (List.mem_cons_of_mem _ member)

/-! ## Printing -/

namespace Sink

/-- The sink has room for the bytes, and does not fail when it is flushed. -/
structure Takes (sink : Sink) (bytes : ByteArray) : Prop where
  room : sink.hasRoom bytes = true
  flushes : sink.flushFails = false

/-- The sink takes whatever is written. -/
structure Reliable (sink : Sink) : Prop where
  unlimited : sink.capacity = none
  flushes : sink.flushFails = false

/-- The sink behind further bytes. -/
def behind (sink : Sink) (bytes : ByteArray) : Sink :=
  { sink with written := sink.written ++ bytes }

variable {sink : Sink}

theorem Reliable.takes (reliable : sink.Reliable) (bytes : ByteArray) : sink.Takes bytes :=
  ⟨hasRoom_of_unlimited reliable.unlimited bytes, reliable.flushes⟩

/-- If there is room for the bytes, all of them are written. -/
theorem Takes.write_eq {bytes : ByteArray} (takes : sink.Takes bytes) :
    sink.write bytes = sink.behind bytes := by
  have room := takes.room
  unfold hasRoom at room
  unfold write behind
  cases limit : sink.capacity with
  | none => rfl
  | some capacity =>
      rw [limit, decide_eq_true_iff] at room
      have all : bytes.extract 0 (capacity - sink.written.size) = bytes := extract_all (by omega)
      simp only [all]

end Sink

/-- The machine when the value has been printed. -/
def Machine.printed (machine : Machine) (value : Value) : Machine :=
  { machine with sink := machine.sink.behind (printedLine machine value) }

theorem Machine.SameOutlet.reliable {machine later : Machine} (same : machine.SameOutlet later)
    (reliable : machine.sink.Reliable) : later.sink.Reliable :=
  ⟨same.capacity.trans reliable.unlimited, same.flushFails.trans reliable.flushes⟩

theorem Eval.flush_eq {machine : Machine} (works : machine.sink.flushFails = false) :
    flush machine = .ok () machine := by
  change (if machine.sink.flushFails = true then _ else _ : Eval Unit) machine = _
  rw [works]
  rfl

section Printing

variable {fuel : Nat} {expr : Expr} {machine final : Machine}

theorem executeProgram_print_of_error {cause : Interrupt}
    (failed : evaluate fuel expr machine = .error cause final) :
    executeProgram (fuel + 1) [.print expr] machine = .error cause final := by
  have printing : execute (fuel + 1) (.print expr) machine = .error cause final := by
    rw [execute_print, bind_of_error failed]
  rw [executeProgram, bind_of_error printing]

theorem executeProgram_print_of_ok {value : Value}
    (evaluated : evaluate fuel expr machine = .ok value final)
    (takes : final.sink.Takes (printedLine final value)) :
    executeProgram (fuel + 1) [.print expr] machine = .ok () (final.printed value) := by
  have printing : execute (fuel + 1) (.print expr) machine =
      .ok .normal (final.printed value) := by
    rw [execute_print, bind_of_ok evaluated, printValue_apply, if_pos takes.room, takes.write_eq]
    rfl
  rw [executeProgram, bind_of_ok printing]
  exact flush_eq takes.flushes

end Printing

/-! ## Sessions -/

namespace Session

variable {session : Session} {expr : Expr}

/-- The expression was parsed for the session, just now or some requests ago. -/
def Parsed (session : Session) (expr : Expr) : Prop :=
  ∃ (earlier : Session) (tokens : List Token) (nextId : UseId) (requests : List Request),
    earlier.Reachable ∧ parseExpression earlier.nextId tokens = (.ok expr, nextId) ∧
      session = ({ earlier with nextId } : Session).serveAll requests

/-- The identity was given out, and this is recorded for it. -/
structure Keeps (id : UseId) (distance : Option Nat) (session : Session) : Prop where
  given : id < session.nextId
  recorded : session.machine.distances[id]? = distance

variable {id : UseId} {distance : Option Nat}

theorem Keeps.run (keeps : session.Keeps id distance) (fuel : Nat) (source : String) :
    (session.run fuel source).2.Keeps id distance := by
  rcases session.run_cases fuel source with
    ⟨program, nextId, reads⟩ | ⟨errors, nextId, ascending, rejected⟩
  · -- What the unit releases are identities that it gave out itself.
    have inner : id ∉ Stmt.outerUsesEach program := fun outer =>
      Nat.not_lt.mpr (reads.takes.outer_bounds outer).1 keeps.given
    constructor
    · rw [reads.run_eq]
      exact Nat.lt_of_lt_of_le keeps.given reads.takes.nextId_le
    · rw [reads.getElem?_distances, if_neg inner, reads.takes.resolved_old (.inl keeps.given),
        keeps.recorded]
  · rw [rejected]
    exact ⟨Nat.lt_of_lt_of_le keeps.given ascending, keeps.recorded⟩

theorem Keeps.evaluate (keeps : session.Keeps id distance) (fuel : Nat) (source : String) :
    (session.evaluate fuel source).2.Keeps id distance := by
  have ascending := parseExpression_nextId_le session.nextId (scanTokens source)
  rw [Session.evaluate]
  split
  next errors nextId parsed =>
    rw [parsed] at ascending
    exact ⟨Nat.lt_of_lt_of_le keeps.given ascending, keeps.recorded⟩
  next value nextId parsed =>
    rw [parsed] at ascending
    have given := Nat.lt_of_lt_of_le keeps.given ascending
    have grows := (framedAt fuel).evaluate value session.machine
    generalize Lox.evaluate fuel value session.machine = result at grows ⊢
    cases result with
    | ok _ _ => exact ⟨given, (congrArg (·[id]?) grows.distances).trans keeps.recorded⟩
    | error _ _ => exact ⟨given, (congrArg (·[id]?) grows.distances).trans keeps.recorded⟩

theorem Keeps.serveAll (keeps : session.Keeps id distance) (requests : List Request) :
    (session.serveAll requests).Keeps id distance :=
  serveAll_invariant (fun _ fuel source before => before.run fuel source)
    (fun _ fuel source before => before.evaluate fuel source) keeps requests

/-- Nothing is recorded for an expression that was parsed by itself. -/
theorem Parsed.unrecorded (parsed : session.Parsed expr) (used : id ∈ expr.uses) :
    session.machine.distances[id]? = none := by
  rcases parsed with ⟨earlier, tokens, nextId, requests, reachable, isExpr, rfl⟩
  have bounds := (parseExpression_fresh isExpr).mem_bounds used
  have atFirst : Keeps id none { earlier with nextId } :=
    ⟨bounds.2, reachable.unnumbered id bounds.1⟩
  exact (atFirst.serveAll requests).recorded

/-- To run the program forgets nothing. -/
theorem Parsed.getElem?_runProgram (parsed : session.Parsed expr)
    (freestanding : expr.isFreestanding = true) (fuel : Nat) (id : UseId) :
    (session.machine.runProgram fuel [.print expr]).2.distances[id]? =
      session.machine.distances[id]? := by
  have resolution := resolveProgram_print session.machine.globalNames freestanding
  have same := session.machine.record_of_globals resolution.2
  have outer : Stmt.outerUsesEach [.print expr] = expr.uses := by
    simp [Stmt.outerUsesEach, Stmt.outerUses]
  have grows := framed_executeProgram fuel [.print expr] session.machine
  rw [runProgram_clean resolution.1, Machine.getElem?_release, outer, finalMachine, resolved, same]
  by_cases used : id ∈ expr.uses
  · rw [if_pos used, parsed.unrecorded used]
  · rw [if_neg used]
    exact congrArg (·[id]?) grows.distances

end Session

/-- To evaluate a freestanding expression directly agrees with running it as a program that
prints it.  Resolution finds no errors and records nothing, so the program runs on the same
machine.  It fails as the evaluation does; or else, if output does not fail, it ends like
the evaluation but for the text of the value and a newline, which it prints in addition.
The distances that were recorded stay. -/
theorem printing_agrees_with_evaluation (session : Session) {expr : Expr}
    (freestanding : expr.isFreestanding = true) (fuel : Nat) :
    (resolveProgram session.machine.globalNames [.print expr]).errors = [] ∧
    session.resolved [.print expr] = session.machine ∧
    (∀ cause final, evaluate fuel expr session.machine = .error cause final →
      session.machine.runProgram (fuel + 1) [.print expr] =
        (.interrupted cause, final.release [.print expr])) ∧
    (∀ value final, evaluate fuel expr session.machine = .ok value final →
      (session.machine.sink.Reliable → final.sink.Takes (printedLine final value)) ∧
      (final.sink.Takes (printedLine final value) →
        session.machine.runProgram (fuel + 1) [.print expr] =
          (.completed, (final.printed value).release [.print expr]))) ∧
    (session.Parsed expr → ∀ id : UseId,
      (session.machine.runProgram (fuel + 1) [.print expr]).2.distances[id]? =
        session.machine.distances[id]?) := by
  have resolution := resolveProgram_print session.machine.globalNames freestanding
  -- Nothing is recorded: the program runs on the machine on which the expression is evaluated.
  have same := session.machine.record_of_globals resolution.2
  refine ⟨resolution.1, same, ?_, ?_, ?_⟩
  · intro cause final failed
    simp only [Machine.runProgram, resolution.1, List.isEmpty_nil, if_true, same,
      executeProgram_print_of_error failed]
  · intro value final evaluated
    have outlet := (Machine.sameOutletOrder.stepwise.atFuel fuel).evaluate expr session.machine
    rw [evaluated] at outlet
    refine ⟨fun reliable => (outlet.reliable reliable).takes _, ?_⟩
    intro takes
    simp only [Machine.runProgram, resolution.1, List.isEmpty_nil, if_true, same,
      executeProgram_print_of_ok evaluated takes]
  · intro parsed id
    exact parsed.getElem?_runProgram freestanding (fuel + 1) id

/-! ### A closure that is called -/

namespace Switching

/-- A function that prints and turns over a variable which only it can reach. -/
def source : String :=
  "fun make() \x7b var on = true; fun turn() \x7b print on; on = !on; return on; \x7d " ++
    "return turn; \x7d var turn = make();"

def program : List Stmt :=
  [.function ⟨⟨"make", 1⟩, [],
    [.var ⟨"on", 1⟩ (some (.literal (.bool true))),
      .function ⟨⟨"turn", 1⟩, [],
        [.print (.var 0 ⟨"on", 1⟩),
          .expression (.assign 3 ⟨"on", 1⟩ (.unary ⟨.punct .bang, "!", 1⟩ (.var 2 ⟨"on", 1⟩))),
          .return_ 1 (some (.var 4 ⟨"on", 1⟩))]⟩,
      .return_ 1 (some (.var 5 ⟨"turn", 1⟩))]⟩,
    .var ⟨"turn", 1⟩ (some (.call (.var 6 ⟨"make", 1⟩) 1 []))]

def call : Expr :=
  .call (.var 7 ⟨"turn", 1⟩) 1 []

theorem reads : (Session.initial .unlimited (.startingAt 0)).Reads source program 7 :=
  ⟨by decide +kernel, by rw [scanTokens_eq]; cbv⟩

/-- The session in which the function is declared. -/
def declared : Session :=
  ⟨((Session.initial .unlimited (.startingAt 0)).machine.runProgram 20 program).2, 7⟩

theorem reachable : declared.Reachable := by
  refine ⟨.unlimited, .startingAt 0, [.run 20 source], ?_⟩
  change declared = ((Session.initial .unlimited (.startingAt 0)).run 20 source).2
  rw [reads.run_eq]
  rfl

/-- The session in which the call has been parsed. -/
def session : Session :=
  { declared with nextId := 8 }

theorem parsed : session.Parsed call := by
  have isCall : parseExpression 7 (scanTokens "turn()") = (.ok call, 8) := by
    rw [scanTokens_eq]
    cbv
  exact ⟨declared, scanTokens "turn()", 8, [], reachable, isCall, rfl⟩

/-- The machine in which the call ends. -/
def final : Machine :=
  endState (evaluate 20 call session.machine)

theorem evaluated : evaluate 20 call session.machine = .ok (.bool false) final :=
  eq_ok_of_value? _ (by decide +kernel)

end Switching

/-- The call prints what the variable was, and the program what it is now. -/
theorem switching_prints :
    Switching.session.machine.runProgram (20 + 1) [.print Switching.call] =
      (.completed, (Switching.final.printed (.bool false)).release [.print Switching.call]) ∧
    (Switching.final.printed (.bool false)).sink.written = "true\nfalse\n".toUTF8 ∧
    ∀ id : UseId,
      (Switching.session.machine.runProgram (20 + 1) [.print Switching.call]).2.distances[id]? =
        Switching.session.machine.distances[id]? := by
  have freestanding : Switching.call.isFreestanding = true := rfl
  have reliable : Switching.session.machine.sink.Reliable :=
    ⟨by decide +kernel, by decide +kernel⟩
  obtain ⟨-, -, -, agrees, keeps⟩ :=
    printing_agrees_with_evaluation Switching.session freestanding 20
  obtain ⟨takes, prints⟩ := agrees _ _ Switching.evaluated
  exact ⟨prints (takes reliable), by decide +kernel, keeps Switching.parsed⟩

end Lox
