import Lox.Proofs.Session.Histories

/-!
# Evaluation restores its context

The context of a machine is the scope and the call depth that it is at, the global
scope and the recorded distances.  Whatever is evaluated, on whatever machine and
however it ends, the context is restored.  So a session waits for its next request
in the global scope, with no call in progress.
-/

namespace Lox

open Actions Eval

/-! ## Contexts -/

/-- The machines are in the same context. -/
structure Machine.SameContext (machine later : Machine) : Prop where
  current : later.current = machine.current
  callDepth : later.callDepth = machine.callDepth
  globals : later.globals = machine.globals
  distances : later.distances = machine.distances

theorem Machine.Grows.sameContext {machine later : Machine} (grows : machine.Grows later) :
    machine.SameContext later :=
  ⟨grows.current, grows.callDepth, grows.globals, grows.distances⟩

/-- The action leaves the machine in the context it found, whether it yields a value
or is interrupted. -/
def Eval.Restores {α : Type} (action : Eval α) : Prop :=
  ∀ machine : Machine, machine.SameContext (endState (action machine))

theorem Eval.Framed.restores {α : Type} {action : Eval α} (framed : Framed action) :
    Restores action :=
  fun machine => (framed machine).sameContext

/-! ## Sessions -/

namespace Session

/-- What a session can be asked to do, and the fuel for it. -/
inductive Request where
  | run (fuel : Nat) (source : String)
  | evaluate (fuel : Nat) (source : String)

/-- The session after a request. -/
def serve (session : Session) : Request → Session
  | .run fuel source => (session.run fuel source).2
  | .evaluate fuel source => (session.evaluate fuel source).2

/-- The session after requests, one after another. -/
def serveAll (session : Session) (requests : List Request) : Session :=
  requests.foldl serve session

/-- What every request preserves holds after requests. -/
theorem serveAll_invariant {property : Session → Prop}
    (run : ∀ (session : Session) (fuel : Nat) (source : String), property session →
      property (session.run fuel source).2)
    (evaluate : ∀ (session : Session) (fuel : Nat) (source : String), property session →
      property (session.evaluate fuel source).2)
    {session : Session} (holds : property session) (requests : List Request) :
    property (session.serveAll requests) := by
  induction requests generalizing session with
  | nil => exact holds
  | cons first rest inductionHypothesis =>
      cases first with
      | run fuel source => exact inductionHypothesis (run session fuel source holds)
      | evaluate fuel source => exact inductionHypothesis (evaluate session fuel source holds)

/-- The machine is in the global scope, and no call is in progress. -/
structure Idle (session : Session) : Prop where
  atGlobals : session.machine.current = session.machine.globals
  noCalls : session.machine.callDepth = 0

theorem idle_initial (sink : Sink) (clock : Clock) : (initial sink clock).Idle :=
  ⟨rfl, rfl⟩

variable {session : Session}

/-- A machine in the same scope and at the same depth is as idle. -/
theorem Idle.of_machine (idle : session.Idle) {machine : Machine} (nextId : UseId)
    (current : machine.current = session.machine.current)
    (globals : machine.globals = session.machine.globals)
    (callDepth : machine.callDepth = session.machine.callDepth) :
    Idle ⟨machine, nextId⟩ :=
  ⟨by rw [current, globals, idle.atGlobals], callDepth.trans idle.noCalls⟩

/-- A program leaves the machine in the scope and at the depth it found. -/
theorem Idle.runProgram (idle : session.Idle) (fuel : Nat) (program : List Stmt)
    (nextId : UseId) : Idle ⟨(session.machine.runProgram fuel program).2, nextId⟩ := by
  by_cases clean : (resolveProgram session.machine.globalNames program).errors = []
  · have grows := framed_executeProgram fuel program (session.resolved program)
    rw [runProgram_clean clean]
    exact idle.of_machine nextId grows.current grows.globals grows.callDepth
  · rw [runProgram_unclean clean]
    exact idle.of_machine nextId rfl rfl rfl

theorem Idle.run (idle : session.Idle) (fuel : Nat) (source : String) :
    (session.run fuel source).2.Idle := by
  rcases session.run_cases fuel source with
    ⟨program, nextId, reads⟩ | ⟨errors, nextId, -, rejected⟩
  · rw [reads.run_eq fuel]
    exact idle.runProgram fuel program nextId
  · rw [rejected]
    exact idle.of_machine nextId rfl rfl rfl

theorem Idle.evaluate (idle : session.Idle) (fuel : Nat) (source : String) :
    (session.evaluate fuel source).2.Idle := by
  rw [Session.evaluate]
  split
  next => exact idle.of_machine _ rfl rfl rfl
  next expr nextId parsed =>
    have grows := (framedAt fuel).evaluate expr session.machine
    generalize Lox.evaluate fuel expr session.machine = result at grows ⊢
    cases result with
    | ok value machine => exact idle.of_machine _ grows.current grows.globals grows.callDepth
    | error cause machine => exact idle.of_machine _ grows.current grows.globals grows.callDepth

theorem Idle.serveAll (idle : session.Idle) (requests : List Request) :
    (session.serveAll requests).Idle :=
  serveAll_invariant (fun _ fuel source before => before.run fuel source)
    (fun _ fuel source before => before.evaluate fuel source) idle requests

end Session

/-- Expressions, statements, blocks, calls and programs restore the context they
found, for any tree, on any machine and however they end; and after any requests a
session is in the global scope, with no call in progress. -/
theorem evaluation_restores_context (fuel : Nat) :
    (∀ expr, Restores (evaluate fuel expr)) ∧
      (∀ stmt, Restores (execute fuel stmt)) ∧
      (∀ stmts, Restores (executeEach fuel stmts)) ∧
      (∀ scope stmts, Restores (within scope (executeEach fuel stmts))) ∧
      (∀ callee arguments line, Restores (callValue fuel callee arguments line)) ∧
      (∀ callee arguments line, Restores (do
        checkCall callee line arguments.length
        counted (callValue fuel callee arguments line))) ∧
      (∀ program, Restores (executeProgram fuel program)) ∧
      ∀ sink clock requests, ((Session.initial sink clock).serveAll requests).Idle := by
  have framed := framedAt fuel
  refine ⟨fun expr => (framed.evaluate expr).restores, fun stmt => (framed.execute stmt).restores,
    fun stmts => (framed.executeEach stmts).restores,
    fun scope stmts => ((framed.executeEach stmts).within scope).restores,
    fun callee arguments line => (framed.callValue callee arguments line).restores, ?_,
    fun program => (framed_executeProgram fuel program).restores, ?_⟩
  · intro callee arguments line
    have called := (framed.callValue callee arguments line).counted
    exact ((framed_checkCall callee line arguments.length).bind fun _ => called).restores
  · intro sink clock requests
    exact (Session.idle_initial sink clock).serveAll requests

end Lox
