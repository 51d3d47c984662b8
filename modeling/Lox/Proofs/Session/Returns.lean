import Lox.Proofs.Evaluation.Returns
import Lox.Proofs.Resolution.Violations
import Lox.Proofs.Session.Release

/-!
# No return is lost

In an accepted unit, every `return` follows the rule for its place.  So at all times
the functions of a session follow it, whatever the session was asked before: no
statement outside functions returns, initializers return nothing, and any other call
yields what the first `return` in its body returns.
-/

namespace Lox

open Actions Eval

/-! ## The rule for a place -/

/-- The rule for `return` inside these functions and methods, the innermost first. -/
def ReturnRule.ofOwners : List BodyOwner → ReturnRule
  | [] => .never
  | .function :: _ => .free
  | .method name :: _ => .ofBody (name = "init")

/-- The rule for `return` at a place with these surroundings. -/
def Surroundings.returnRule (around : Surroundings) : ReturnRule :=
  .ofOwners around.owners

namespace Surroundings

variable (around : Surroundings)

@[simp]
theorem returnRule_declare (name : String) :
    (around.declare name).returnRule = around.returnRule :=
  congrArg ReturnRule.ofOwners (around.declare_owners name)

@[simp]
theorem returnRule_after (stmt : Stmt) : (around.after stmt).returnRule = around.returnRule := by
  rw [after]
  split
  · rfl
  · exact around.returnRule_declare _

@[simp]
theorem returnRule_afterParams (params : List Name) :
    (around.afterParams params).returnRule = around.returnRule := by
  induction params generalizing around with
  | nil => rfl
  | cons first rest inductionHypothesis =>
      exact (inductionHypothesis (around.declare first.text)).trans (around.returnRule_declare _)

end Surroundings

/-- A `return` that violates no rule is allowed at its place. -/
theorem allows_of_legal {line : Nat} {hasValue : Bool} {around : Surroundings}
    (legal : ¬ Occurrence.IsViolation ⟨.return_ line hasValue, around⟩) :
    around.returnRule.Allows hasValue := by
  rw [Surroundings.returnRule]
  cases owners : around.owners with
  | nil => exact legal ⟨_, .returnOutsideFunction owners⟩
  | cons owner rest =>
      cases owner with
      | function => trivial
      | method name =>
          by_cases isInitializer : name = "init"
          · subst isInitializer
            cases hasValue with
            | false => rfl
            | true => exact absurd ⟨_, .returnValueFromInitializer (owners ▸ rfl)⟩ legal
          · rw [ReturnRule.ofOwners, ReturnRule.ofBody, decide_eq_false isInitializer]
            trivial

namespace Stmt

mutual

/-- In a statement without violations, every `return` follows the rule. -/
theorem follows_of_legal (around : Surroundings) :
    ∀ stmt : Stmt, Legal (stmt.occurrences around) → stmt.Follows around.returnRule
  | .expression _, _ => trivial
  | .print _, _ => trivial
  | .var _ _, _ => trivial
  | .block body, legal => followsEach_of_legal around.inScope body legal
  | .if_ _ thenBranch none, legal =>
      follows_of_legal around thenBranch (List.forall_mem_append.mp legal).2
  | .if_ _ thenBranch (some elseBranch), legal =>
      have both := List.forall_mem_append.mp legal
      ⟨follows_of_legal around thenBranch (List.forall_mem_append.mp both.1).2,
        follows_of_legal around elseBranch both.2⟩
  | .while_ _ body, legal => follows_of_legal around body (List.forall_mem_append.mp legal).2
  | .function ⟨name, params, body⟩, legal =>
      functionFollows_of_legal (around.declare name.text) .function ⟨name, params, body⟩
        (List.forall_mem_cons.mp legal).2
  | .return_ _ _, legal => allows_of_legal (List.forall_mem_cons.mp legal).1
  | .class_ name superclass methods, legal =>
      methodsFollow_of_legal ((around.declare name.text).inClass superclass.isSome) methods
        (List.forall_mem_append.mp (List.forall_mem_cons.mp legal).2).2

theorem followsEach_of_legal (around : Surroundings) :
    ∀ stmts : List Stmt, Legal (occurrencesEach around stmts) →
      FollowsEach around.returnRule stmts
  | [], _ => trivial
  | first :: rest, legal =>
      have both := List.forall_mem_append.mp legal
      have follows := followsEach_of_legal (around.after first) rest both.2
      ⟨follows_of_legal around first both.1, around.returnRule_after first ▸ follows⟩

theorem functionFollows_of_legal (around : Surroundings) (owner : BodyOwner) :
    ∀ declaration : FunctionDecl, Legal (functionOccurrences around owner declaration) →
      FollowsEach (.ofOwners (owner :: around.owners)) declaration.body
  | ⟨_, params, body⟩, legal =>
      have inside : ((around.inBody owner).afterParams params).returnRule =
          .ofOwners (owner :: around.owners) := (around.inBody owner).returnRule_afterParams params
      have follows := followsEach_of_legal ((around.inBody owner).afterParams params) body
        (List.forall_mem_append.mp legal).2
      inside ▸ follows

theorem methodsFollow_of_legal (around : Surroundings) :
    ∀ methods : List FunctionDecl, Legal (methodOccurrences around methods) →
      MethodsFollow methods
  | [], _ => trivial
  | ⟨name, params, body⟩ :: rest, legal =>
      have both := List.forall_mem_append.mp legal
      ⟨functionFollows_of_legal around (.method name.text) ⟨name, params, body⟩ both.1,
        methodsFollow_of_legal around rest both.2⟩

end

end Stmt

/-! ## Sessions -/

namespace Session

variable {session : Session} {source : String} {program : List Stmt}

/-- The session is asked to evaluate this: an accepted unit, or an expression, which is
not resolved. -/
inductive Begins (session : Session) : Moment → Prop where
  | unit {fuel source program} : session.Accepts source program →
      session.Begins ⟨fuel, .executeProgram program, session.resolved program⟩
  | expression {fuel source expr nextId} :
      parseExpression session.nextId (scanTokens source) = (.ok expr, nextId) →
      session.Begins ⟨fuel, .evaluate expr, session.machine⟩

/-- Outside functions, an accepted unit has no `return`. -/
theorem Accepts.follows (accepted : session.Accepts source program) :
    Stmt.FollowsEach .never program :=
  Stmt.followsEach_of_legal (.outermost _) program accepted.legal

/-- The functions and methods of the session follow the rule for `return`. -/
abbrev Obeys (session : Session) : Prop :=
  session.machine.heap.Obeys returnLaw

theorem Begins.obeys {start : Moment} (begins : session.Begins start) (obeys : session.Obeys) :
    start.Obeys returnLaw := by
  cases begins with
  | unit accepted => exact ⟨obeys, accepted.follows.obeys⟩
  | expression parsed => exact ⟨obeys, trivial⟩

theorem Begins.final_obeys {start : Moment} (begins : session.Begins start)
    (obeys : session.Obeys) : start.final.heap.Obeys returnLaw :=
  ((begins.obeys obeys).parts hereditary_returnLaw).1

theorem obeys_initial (sink : Sink) (clock : Clock) : (initial sink clock).Obeys := by
  intro closure stored
  cases stored with
  | function member => cases Array.not_mem_empty _ member
  | method member found => cases Array.not_mem_empty _ member

theorem Obeys.run (obeys : session.Obeys) (fuel : Nat) (source : String) :
    (session.run fuel source).2.Obeys := by
  rcases session.run_cases fuel source with
    ⟨program, nextId, reads⟩ | ⟨errors, nextId, -, rejected⟩
  · rw [reads.run_eq]
    by_cases clean : (resolveProgram session.machine.globalNames program).errors = []
    · have begins : session.Begins ⟨fuel, _, _⟩ := .unit ⟨⟨nextId, reads⟩, clean⟩
      rw [runProgram_clean clean]
      exact begins.final_obeys obeys
    · rw [runProgram_unclean clean]
      exact obeys
  · rw [rejected]
    exact obeys

theorem Obeys.evaluate (obeys : session.Obeys) (fuel : Nat) (source : String) :
    (session.evaluate fuel source).2.Obeys := by
  rw [Session.evaluate]
  split
  next => exact obeys
  next expr nextId parsed =>
    have begins : session.Begins ⟨fuel, _, _⟩ := .expression parsed
    have ended := begins.final_obeys obeys
    rw [Moment.final] at ended
    generalize Lox.evaluate fuel expr session.machine = result at ended ⊢
    cases result with
    | ok value machine => exact ended
    | error cause machine => exact ended

theorem Reachable.obeys (reachable : session.Reachable) : session.Obeys := by
  obtain ⟨sink, clock, requests, rfl⟩ := reachable
  exact serveAll_invariant (fun _ fuel source before => before.run fuel source)
    (fun _ fuel source before => before.evaluate fuel source) (obeys_initial sink clock) requests

end Session

/-- The body of a lawful initializer returns nothing. -/
theorem Closure.Obeys.of_isInitializer {closure : Closure} (obeys : closure.Obeys returnLaw)
    (isInitializer : closure.isInitializer = true) {body : Moment} {flow : Flow}
    (isBody : body.task = .executeEach closure.declaration.body)
    (ended : body.flow? = some flow) : flow = .normal ∨ flow = .returned .nil := by
  rw [Closure.Obeys, returnLaw, isInitializer] at obeys
  have follows : body.task.Follows .bare := isBody ▸ obeys
  exact (Moment.permits follows ended).of_bare

/-- Whatever a session was asked before: statements outside functions never return; the
body of an initializer ends normally or returns `nil`, wherever it is called; and any
other call that completes yields what the first `return` in its body returns, or else
`nil`.  After that `return` no statement of the body is executed: the machine in which
it ends is the one in which the call ends, but for the scope in force. -/
theorem no_return_is_lost {session : Session} (reachable : session.Reachable) :
    (∀ source program, session.Accepts source program → ∀ stmt ∈ program,
      ∀ fuel machine flow final, execute fuel stmt machine = .ok flow final →
        flow = .normal) ∧
    (∀ start moment closure, session.Begins start → Reaches start moment →
      moment.machine.heap.Stores closure → closure.isInitializer = true →
      ∀ fuel machine flow final,
        executeEach fuel closure.declaration.body machine = .ok flow final →
          flow = .normal ∨ flow = .returned .nil) ∧
    ∀ start fuel closure arguments line machine, session.Begins start →
      Reaches start ⟨fuel, .callFunction closure arguments line, machine⟩ →
      (closure.isInitializer = true → ∀ body flow,
        Calls ⟨fuel, .callFunction closure arguments line, machine⟩ body →
        body.flow? = some flow → flow = .normal ∨ flow = .returned .nil) ∧
      ∀ value final, callFunction fuel closure arguments line machine = .ok value final →
        ∃ body flow, Calls ⟨fuel, .callFunction closure arguments line, machine⟩ body ∧
          body.task = .executeEach closure.declaration.body ∧ body.flow? = some flow ∧
          EndsAtReturn final body.statements flow ∧
          (closure.isInitializer = false → value = flow.result) := by
  have obeys := reachable.obeys
  refine ⟨?_, ?_, ?_⟩
  · intro source program accepted stmt member fuel machine flow final executed
    have follows : Task.Follows .never (.execute stmt) := accepted.follows.of_mem member
    have ended : Moment.flow? ⟨fuel, .execute stmt, machine⟩ = some flow := value?_of_ok executed
    exact (Moment.permits follows ended).eq_normal
  · intro start moment closure begins reaches stored isInitializer fuel machine flow final executed
    have lawful : moment.machine.heap.Obeys returnLaw :=
      (reaches.obeys hereditary_returnLaw (begins.obeys obeys)).heap
    have ended : Moment.flow? ⟨fuel, .executeEach closure.declaration.body, machine⟩ =
      some flow := value?_of_ok executed
    exact (lawful closure stored).of_isInitializer isInitializer rfl ended
  · intro start fuel closure arguments line machine begins reaches
    have lawful : closure.Obeys returnLaw :=
      (reaches.obeys hereditary_returnLaw (begins.obeys obeys)).task
    refine ⟨?_, ?_⟩
    · intro isInitializer body flow calls ended
      have isBody : body.task = .executeEach closure.declaration.body := by
        cases calls
        rfl
      exact lawful.of_isInitializer isInitializer isBody ended
    · intro value final called
      obtain ⟨body, flow, calls, isBody, ended, same, result⟩ := callFunction_body called
      exact ⟨body, flow, calls, isBody, ended, (body.endsAtReturn ended).inScope same, result⟩

/-! ### An initializer and a function that return from loops -/

namespace Returning

def source : String :=
  "class A \x7b init() \x7b while (true) \x7b if (A) return; \x7d \x7d \x7d " ++
    "fun f() \x7b while (true) \x7b return \"first\"; return \"second\"; \x7d \x7d"

def program : List Stmt :=
  [.class_ ⟨"A", 1⟩ none [⟨⟨"init", 1⟩, [], [.while_ (.literal (.bool true))
      (.block [.if_ (.var 0 ⟨"A", 1⟩) (.return_ 1 none) none])]⟩],
    .function ⟨⟨"f", 1⟩, [], [.while_ (.literal (.bool true))
      (.block [.return_ 1 (some (.literal (.string "first"))),
        .return_ 1 (some (.literal (.string "second")))])]⟩]

theorem reads : (Session.initial .unlimited (.startingAt 0)).Reads source program 1 :=
  ⟨by decide +kernel, by rw [scanTokens_eq]; cbv⟩

/-- The session in which both are declared. -/
def session : Session :=
  ⟨((Session.initial .unlimited (.startingAt 0)).machine.runProgram 20 program).2, 1⟩

theorem reachable : session.Reachable := by
  refine ⟨.unlimited, .startingAt 0, [.run 20 source], ?_⟩
  change session = ((Session.initial .unlimited (.startingAt 0)).run 20 source).2
  rw [reads.run_eq]
  rfl

def call : Expr :=
  .call (.var 1 ⟨"f", 1⟩) 1 []

theorem begins : session.Begins ⟨20, .evaluate call, session.machine⟩ := by
  have parsed : parseExpression 1 (scanTokens "f()") = (.ok call, 2) := by
    rw [scanTokens_eq]
    cbv
  exact .expression parsed

/-- The machine when the function has been found and can be called. -/
def checked : Machine :=
  endState (checkCall (.function ⟨0⟩) 1 0
    (endState (evaluate 19 (.var 1 ⟨"f", 1⟩) session.machine)))

/-- The machine in which the function is called. -/
def called : Machine :=
  { checked with callDepth := checked.callDepth + 1 }

theorem reaches : Reaches ⟨20, .evaluate call, session.machine⟩
    ⟨18, .callFunction (called.heap.function ⟨0⟩) [] 1, called⟩ := by
  have callee : value? (evaluate 19 (.var 1 ⟨"f", 1⟩) session.machine) =
      some (.function ⟨0⟩) := by decide +kernel
  have passed : value? (checkCall (.function ⟨0⟩) 1 0
      (endState (evaluate 19 (.var 1 ⟨"f", 1⟩) session.machine))) = some () := by decide +kernel
  exact .head (.call (eq_ok_of_value? _ callee) rfl (eq_ok_of_value? _ passed))
    (.head .function .refl)

end Returning

/-- The initializer ends without a value, and the function yields the first text, in the
machine of the first `return`. -/
theorem returning_from_loops :
    (∃ method flow, Returning.session.machine.heap.findMethod? ⟨0⟩ "init" = some method ∧
      method.isInitializer = true ∧
      value? (executeEach 20 method.declaration.body Returning.session.machine) = some flow ∧
      (flow = .normal ∨ flow = .returned .nil)) ∧
    ∃ (body : Moment) (flow : Flow),
      body.task = .executeEach (Returning.called.heap.function ⟨0⟩).declaration.body ∧
      EndsAtReturn (endState (callFunction 18 (Returning.called.heap.function ⟨0⟩) [] 1
        Returning.called)) body.statements flow ∧ flow.result = .string "first" := by
  have lossless := no_return_is_lost Returning.reachable
  constructor
  · have found : (Returning.session.machine.heap.findMethod? ⟨0⟩ "init").map (fun method =>
        (method.isInitializer,
          value? (executeEach 20 method.declaration.body Returning.session.machine))) =
        some (true, some (.returned .nil)) := by decide +kernel
    obtain ⟨method, isMethod, same⟩ := Option.map_eq_some_iff.mp found
    obtain ⟨isInitializer, ended⟩ := Prod.mk.inj same
    refine ⟨method, _, isMethod, isInitializer, ended, ?_⟩
    exact lossless.2.1 _ _ method Returning.begins .refl (Heap.stores_of_findMethod? isMethod)
      isInitializer _ _ _ _ (eq_ok_of_value? _ ended)
  · have yields : value? (callFunction 18 (Returning.called.heap.function ⟨0⟩) [] 1
        Returning.called) = some (.string "first") := by decide +kernel
    have notInitializer : (Returning.called.heap.function ⟨0⟩).isInitializer = false := by
      decide +kernel
    obtain ⟨body, flow, -, isBody, -, ends, result⟩ :=
      (lossless.2.2 _ _ _ _ _ _ Returning.begins Returning.reaches).2 _ _
        (eq_ok_of_value? _ yields)
    exact ⟨body, flow, isBody, ends, (result notInitializer).symm⟩

end Lox
