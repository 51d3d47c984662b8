import Mathlib
import Lox.Parser.Statement
import Lox.Proofs.Lexical.Moments

/-!
# Loops with clauses

The meaning of a `for` loop in its own terms.  The initializer runs once, in a scope
of its own, whose names the condition, the increment and the body see.  Each round
tests the condition, executes the body, and then evaluates the increment.  The tree
of the loop, built from blocks and `while`, means the same.
-/

namespace Lox

/-! ## Loops and their trees -/

/-- The clauses and the body of a `for` loop. -/
structure ForLoop where
  initializer : Option Stmt
  condition : Option Expr
  increment : Option Expr
  body : Stmt

/-- A statement of the grammar declares nothing, unlike a declaration. -/
theorem Grammar.DerivesStmt.declares_none {nearest isOpen : Bool} {tokens : List Token}
    {stmt : Stmt} (derived : DerivesStmt nearest .statement tokens stmt isOpen) :
    stmt.declares? = none := by
  cases derived with
  | expression stated =>
      cases stated
      rfl
  | @forLoop _ _ _ _ _ _ _ _ initializer => cases initializer <;> rfl
  | ifThen => rfl
  | ifThenElse => rfl
  | print => rfl
  | return_ => rfl
  | whileLoop => rfl
  | block => rfl

/-- A source text with one declaration or statement derives from the grammar. -/
theorem derivesStmt_of_parse {source : String} {firstId nextId : UseId} {stmt : Stmt}
    (parsed : parseProgram firstId (scanTokens source) = (.ok [stmt], nextId)) :
    ∃ tokens isOpen, Grammar.DerivesStmt true .declaration tokens stmt isOpen := by
  rcases scanTokens_split source with ⟨tokens, last, split, inside, -⟩
  rw [split] at parsed
  have derived := derivesProgram_of_parse inside rfl parsed
  generalize program : [stmt] = stmts at derived
  cases derived with
  | @mk parts derived =>
      rcases List.map_eq_singleton_iff.mp program.symm with ⟨part, rfl, rfl⟩
      exact ⟨part.tokens, part.isOpen, derived part List.mem_cons_self⟩

namespace ForLoop

/-- The tree that a loop is parsed as. -/
def tree (loop : ForLoop) : Stmt :=
  Parser.forLoop loop.initializer loop.condition loop.increment loop.body

/-- What the tree repeats: the body, and behind it the increment. -/
def round (loop : ForLoop) : Stmt :=
  match loop.increment with
  | none => loop.body
  | some value => .block [loop.body, .expression value]

theorem tree_eq (loop : ForLoop) : loop.tree =
    match loop.initializer with
    | none => .while_ (loop.condition.getD (.literal (.bool true))) loop.round
    | some stmt =>
        .block [stmt, .while_ (loop.condition.getD (.literal (.bool true))) loop.round] := by
  rcases loop with ⟨initializer, condition, increment, body⟩
  cases initializer <;> cases increment <;> rfl

theorem tree_declares (loop : ForLoop) : loop.tree.declares? = none := by
  rw [loop.tree_eq]
  cases loop.initializer <;> rfl

theorem body_wellFormed {loop : ForLoop} (formed : loop.tree.WellFormed) :
    loop.body.WellFormed := by
  have loopFormed :
      (Stmt.while_ (loop.condition.getD (.literal (.bool true))) loop.round).WellFormed := by
    rw [loop.tree_eq] at formed
    cases initializer : loop.initializer with
    | none =>
        rw [initializer] at formed
        exact formed
    | some stmt =>
        rw [initializer] at formed
        exact formed.2.1
  have roundFormed := loopFormed.2.1
  rw [round] at roundFormed
  cases increment : loop.increment with
  | none =>
      rw [increment] at roundFormed
      exact roundFormed
  | some value =>
      rw [increment] at roundFormed
      exact roundFormed.1

/-- The initializer declares a variable or is an expression, and the body declares
nothing. -/
structure IsProper (loop : ForLoop) : Prop where
  initializer : ∀ stmt ∈ loop.initializer,
    (∃ name value, stmt = .var name value) ∨ ∃ value, stmt = .expression value
  bodyFormed : loop.body.WellFormed
  bodyDeclares : loop.body.declares? = none

/-- What the grammar derives is proper. -/
theorem isProper_of_derives {loop : ForLoop} {nearest isOpen : Bool} {first last : List Token}
    (initializer : Grammar.ForInitializer first loop.initializer)
    (body : Grammar.DerivesStmt nearest .statement last loop.body isOpen)
    (formed : loop.tree.WellFormed) : loop.IsProper := by
  refine ⟨?_, body_wellFormed formed, body.declares_none⟩
  intro stmt isInitializer
  rw [Option.mem_def.mp isInitializer] at initializer
  cases initializer with
  | declaration declared =>
      cases declared with
      | plain => exact .inl ⟨_, _, rfl⟩
      | initialized => exact .inl ⟨_, _, rfl⟩
  | expression stated =>
      cases stated
      exact .inr ⟨_, rfl⟩

end ForLoop

namespace Lexical

open Actions

/-! ## The direct reading -/

/-- Whether another round begins; without a condition, it always does. -/
def tests (fuel : Nat) (names : Names) : Option Expr → Action Bool
  | none => return true
  | some condition => do return (← evaluate fuel names condition).isTruthy

/-- What follows a round that was completed. -/
def advances (fuel : Nat) (names : Names) : Option Expr → Action Unit
  | none => return
  | some increment => do let _ ← evaluate fuel names increment

/-- The fuel for the body in a round.  Where an increment follows, the block around both
takes its share. -/
def bodyFuel (fuel : Nat) : Option Expr → Nat
  | none => fuel
  | some _ => fuel - 2

/-- The rounds of a loop.  The body has a scope of its own, of which the condition and
the increment see nothing.  If it returns, the loop ends at once. -/
def iterate : Nat → Frame → ForLoop → Action Flow
  | 0, _, _ => throw .outOfFuel
  | fuel + 1, frame, loop => do
      if ← tests fuel frame.names loop.condition then
        let inner := { frame with isLocal := true }
        match ← execute (bodyFuel fuel loop.increment) inner loop.body with
        | (.returned value, _) => return .returned value
        | (.normal, _) => do
            -- Before the second statement, a block takes four units of fuel.
            advances (fuel - 4) frame.names loop.increment
            iterate fuel frame loop
      else
        return .normal

/-- Execute a `for` loop.  The initializer has a scope of its own, whose names all
rounds share and nothing behind the loop sees.  The parts get the fuel that they have in
the tree, so that both run out of it at once. -/
def executeFor (fuel : Nat) (frame : Frame) (loop : ForLoop) : Action Flow :=
  match loop.initializer with
  | none => iterate (fuel - 1) frame loop
  | some initializer => do
      let (_, inner) ← execute (fuel - 2) { frame with isLocal := true } initializer
      iterate (fuel - 4) inner loop

/-! ## Statements that declare nothing -/

/-- What a statement that declares nothing does is the same where declarations are
global and where they are local, and it leaves the frame as it is. -/
structure KeepsFrames (fuel : Nat) : Prop where
  execute : ∀ {stmt : Stmt}, stmt.WellFormed → stmt.declares? = none → ∀ frame : Frame,
    execute fuel frame stmt =
      (fun result => (result.1, frame)) <$> execute fuel { frame with isLocal := true } stmt
  executeWhile : ∀ (condition : Expr) {body : Stmt}, body.WellFormed → body.declares? = none →
    ∀ frame : Frame, executeWhile fuel frame condition body =
      executeWhile fuel { frame with isLocal := true } condition body

namespace KeepsFrames

variable {fuel : Nat}

theorem execute_succ (keeps : KeepsFrames fuel) {stmt : Stmt} (formed : stmt.WellFormed)
    (declares : stmt.declares? = none) (frame : Frame) :
    Lexical.execute (fuel + 1) frame stmt = (fun result => (result.1, frame)) <$>
      Lexical.execute (fuel + 1) { frame with isLocal := true } stmt := by
  cases stmt with
  | expression value => simp [Lexical.execute, Frame.names]
  | print value => simp [Lexical.execute, Frame.names]
  | block body => simp [Lexical.execute]
  | if_ condition thenBranch elseBranch =>
      cases elseBranch with
      | none =>
          rcases formed with ⟨-, thenFormed, thenDeclares⟩
          rw [Lexical.execute, Lexical.execute, keeps.execute thenFormed thenDeclares frame,
            map_bind]
          congr 1
          funext value
          split
          · rfl
          · rfl
      | some elseBranch =>
          rcases formed with ⟨-, ⟨thenFormed, thenDeclares⟩, elseFormed, elseDeclares⟩
          rw [Lexical.execute, Lexical.execute, keeps.execute thenFormed thenDeclares frame,
            map_bind]
          congr 1
          funext value
          split
          · rfl
          · exact keeps.execute elseFormed elseDeclares frame
  | while_ condition body =>
      rcases formed with ⟨-, bodyFormed, bodyDeclares⟩
      simp [Lexical.execute, keeps.executeWhile condition bodyFormed bodyDeclares frame]
  | return_ line value =>
      cases value with
      | none => simp [Lexical.execute]
      | some value => simp [Lexical.execute, Frame.names]
  | var name initializer => cases declares
  | function declaration => cases declares
  | class_ name superclass methods => cases declares

theorem executeWhile_succ (keeps : KeepsFrames fuel) (condition : Expr) {body : Stmt}
    (formed : body.WellFormed) (declares : body.declares? = none) (frame : Frame) :
    Lexical.executeWhile (fuel + 1) frame condition body =
      Lexical.executeWhile (fuel + 1) { frame with isLocal := true } condition body := by
  rw [Lexical.executeWhile, Lexical.executeWhile, keeps.execute formed declares frame,
    keeps.executeWhile condition formed declares frame]
  congr 1
  funext value
  split
  · rw [bind_map_left]
    congr 1
    funext result
    rcases result with ⟨flow, inner⟩
    cases flow <;> rfl
  · rfl

end KeepsFrames

theorem keepsFrames (fuel : Nat) : KeepsFrames fuel := by
  induction fuel with
  | zero => exact ⟨fun _ _ _ => rfl, fun _ _ _ _ _ => rfl⟩
  | succ fuel inductionHypothesis =>
      exact ⟨inductionHypothesis.execute_succ, inductionHypothesis.executeWhile_succ⟩

/-! ## Rounds -/

/-- One statement alone; its list takes one unit of fuel. -/
theorem executeEach_singleton (fuel : Nat) (frame : Frame) (stmt : Stmt) :
    executeEach fuel frame [stmt] = (do return (← execute (fuel - 1) frame stmt).1) := by
  cases fuel with
  | zero => rfl
  | succ fuel =>
      rw [executeEach]
      cases fuel with
      | zero => rfl
      | succ fuel =>
          congr 1
          funext result
          rcases result with ⟨flow, inner⟩
          cases flow with
          | returned value => rfl
          | normal => simp only [executeEach]

/-- Two statements, of which the first may return. -/
theorem executeEach_pair (fuel : Nat) (frame : Frame) (first second : Stmt) :
    executeEach fuel frame [first, second] = (do
      match ← execute (fuel - 1) frame first with
      | (.returned value, _) => return .returned value
      | (.normal, inner) => do return (← execute (fuel - 2) inner second).1) := by
  cases fuel with
  | zero => rfl
  | succ fuel =>
      rw [executeEach]
      congr 1
      funext result
      rcases result with ⟨flow, inner⟩
      cases flow with
      | returned value => rfl
      | normal => exact executeEach_singleton fuel inner second

theorem execute_expression (fuel : Nat) (frame : Frame) (value : Expr) :
    execute fuel frame (.expression value) =
      (do
        let _ ← evaluate (fuel - 1) frame.names value
        return (.normal, frame)) := by
  cases fuel with
  | zero => rfl
  | succ fuel =>
      rw [execute]
      rfl

theorem execute_block (fuel : Nat) (frame : Frame) (body : List Stmt) :
    execute fuel frame (.block body) =
      (do return (← executeEach (fuel - 1) { frame with isLocal := true } body, frame)) := by
  cases fuel with
  | zero => rfl
  | succ fuel =>
      rw [execute]
      rfl

/-- A round in the tree is the body and then the increment. -/
theorem execute_round {loop : ForLoop} (proper : loop.IsProper) (fuel : Nat) (frame : Frame) :
    execute fuel frame loop.round = (do
      match ← execute (bodyFuel fuel loop.increment) { frame with isLocal := true } loop.body with
      | (.returned value, _) => return (.returned value, frame)
      | (.normal, _) => do
          advances (fuel - 4) frame.names loop.increment
          return (.normal, frame)) := by
  have keeps := fun fuel => (keepsFrames fuel).execute proper.bodyFormed proper.bodyDeclares
  rw [ForLoop.round]
  cases loop.increment with
  | none =>
      dsimp only [bodyFuel, advances]
      rw [keeps fuel frame, map_eq_pure_bind]
      congr 1
      funext result
      rcases result with ⟨flow, inner⟩
      cases flow <;> rfl
  | some increment =>
      dsimp only [bodyFuel, advances]
      rw [execute_block, executeEach_pair, keeps, Nat.sub_sub, bind_map_left, bind_assoc]
      congr 1
      funext result
      rcases result with ⟨flow, inner⟩
      cases flow with
      | returned value => rfl
      | normal =>
          dsimp only
          rw [execute_expression]
          simp only [bind_assoc, pure_bind, Nat.sub_sub, Frame.names]

/-- A condition that is absent is true, unless there is no fuel left. -/
theorem evaluate_condition (fuel : Nat) (names : Names) (condition : Option Expr)
    {α : Type} (next : Bool → Action α) (exhausted : fuel = 0 → next true = throw .outOfFuel) :
    (do next (← evaluate fuel names (condition.getD (.literal (.bool true)))).isTruthy) =
      (do next (← tests fuel names condition)) := by
  cases condition with
  | some condition =>
      dsimp only [tests, Option.getD_some]
      rw [bind_assoc]
      rfl
  | none =>
      cases fuel with
      | zero => exact (exhausted rfl).symm
      | succ fuel => rfl

theorem bodyFuel_zero (increment : Option Expr) : bodyFuel 0 increment = 0 := by
  cases increment <;> rfl

/-- The loop in the tree does the rounds. -/
theorem executeWhile_round {loop : ForLoop} (proper : loop.IsProper) (fuel : Nat)
    (frame : Frame) :
    executeWhile fuel frame (loop.condition.getD (.literal (.bool true))) loop.round =
      iterate fuel frame loop := by
  induction fuel with
  | zero => rfl
  | succ fuel inductionHypothesis =>
      rw [executeWhile, iterate, execute_round proper, inductionHypothesis,
        evaluate_condition fuel frame.names loop.condition (if · then _ else _) ?_]
      · congr 1
        funext holds
        split
        · rw [bind_assoc]
          congr 1
          funext result
          rcases result with ⟨flow, inner⟩
          cases flow with
          | returned value => rfl
          | normal =>
              dsimp only
              rw [bind_assoc]
              rfl
        · rfl
      · -- An absent condition takes fuel in the tree only, but the body takes some as well.
        rintro rfl
        rw [if_pos rfl, bodyFuel_zero]
        rfl

/-! ## The tree -/

theorem execute_while (fuel : Nat) (frame : Frame) (condition : Expr) (body : Stmt) :
    execute fuel frame (.while_ condition body) =
      (do return (← executeWhile (fuel - 1) frame condition body, frame)) := by
  cases fuel with
  | zero => rfl
  | succ fuel =>
      rw [execute]
      rfl

/-- An initializer does not return. -/
theorem execute_initializer {stmt : Stmt}
    (isInitializer : (∃ name value, stmt = .var name value) ∨ ∃ value, stmt = .expression value)
    (fuel : Nat) (frame : Frame) :
    execute fuel frame stmt = (fun result => (.normal, result.2)) <$> execute fuel frame stmt := by
  cases fuel with
  | zero => rfl
  | succ fuel =>
      rcases isInitializer with ⟨name, value, rfl⟩ | ⟨value, rfl⟩
      · cases value with
        | none => simp [execute]
        | some value => simp [execute]
      · simp [execute]

/-- The tree of a loop means what the loop means. -/
theorem execute_tree {loop : ForLoop} (proper : loop.IsProper) (fuel : Nat) (frame : Frame) :
    execute fuel frame loop.tree = (fun flow => (flow, frame)) <$> executeFor fuel frame loop := by
  rw [loop.tree_eq, executeFor]
  cases initializer : loop.initializer with
  | none =>
      dsimp only
      rw [execute_while, executeWhile_round proper, map_eq_pure_bind]
  | some stmt =>
      have isInitializer := proper.initializer stmt initializer
      dsimp only
      rw [execute_block, executeEach_pair, execute_initializer isInitializer, bind_map_left,
        bind_assoc, map_bind, Nat.sub_sub]
      congr 1
      funext result
      dsimp only
      rw [execute_while, executeWhile_round proper]
      simp only [bind_assoc, pure_bind, Nat.sub_sub, map_eq_pure_bind]

/-! ## Loops in a run -/

/-- The store may wrap up what it yields. -/
theorem Simulates.of_map {known : Visit → Prop} {isOpen : Bool} {world : World}
    {machine : Machine} {store : Store} {α β γ : Type} {action : Eval α} {reference : Action β}
    {wrap : β → γ} {post : World → α → γ → Machine → Prop}
    (simulates : Simulates known isOpen world machine store action (wrap <$> reference) post) :
    Simulates known isOpen world machine store action reference fun later value value' final =>
      post later value (wrap value') final := by
  rw [map_eq_pure_bind] at simulates
  cases reached : reference store with
  | ok value' final' =>
      rw [Simulates, bind_of_ok reached] at simulates
      refine simulates.cases ?_ ?_
      · rintro value final _ _ result ⟨⟩ holds
        rw [Simulates, result, reached]
        exact holds
      · rintro _ _ _ _ _ ⟨⟩
  | error cause' final' =>
      rw [Simulates, bind_of_error reached] at simulates
      refine simulates.cases ?_ ?_
      · rintro _ _ _ _ _ ⟨⟩
      · rintro cause final _ _ result ⟨⟩ stopped
        rw [Simulates, result, reached]
        exact stopped

/-- With any fuel, the tree of the loop does on the machine what the loop itself does on
a store that mirrors the machine.  It ends in the same way, in states that mirror each
other.  If it ends normally, names stand for what they stood for before. -/
def ReadsDirectly (loop : ForLoop) (machine : Machine) : Prop :=
  ∃ known world store tables frame, Mirrors known world machine store ∧
    Fits world machine tables frame ∧ ∀ fuel, Simulates known true world machine store
      (Lox.execute fuel loop.tree) (executeFor fuel frame loop) fun later flow flow' final =>
        flow' = flow ∧ (flow = .normal → Fits later final tables frame)

end Lexical

open Lexical in
/-- A `for` loop means what it says: whenever a session executes the tree of a `for`
statement, it does what the initializer, the condition, the increment and the body do
when they are read directly. -/
theorem lowered_loop_is_direct {sink : Sink} {clock : Clock} {units : List (Nat × String)}
    {moment : Moment} {loop : ForLoop} {nearest isOpen : Bool} {first last : List Token}
    (initializer : Grammar.ForInitializer first loop.initializer)
    (body : Grammar.DerivesStmt nearest .statement last loop.body isOpen)
    (occurs : Session.Occurs sink clock units moment)
    (executes : moment.task = .execute loop.tree) : ReadsDirectly loop moment.machine := by
  rcases occurs.mirrored with ⟨known, world, store, mirrors, placed⟩
  rw [executes] at placed
  rcases placed with ⟨formed, tables, frame, isInner, fits, distinct, visited⟩
  have proper := ForLoop.isProper_of_derives initializer body formed
  refine ⟨known, world, store, tables, frame, mirrors, fits, ?_⟩
  intro fuel
  have executed :=
    (simulatesAt known fuel).execute loop.tree isInner mirrors fits formed distinct visited
  rw [execute_tree proper, Stmt.scopesAfter, loop.tree_declares] at executed
  exact executed.of_map

/-- A loop whose body has a function that reads the variable of the loop, before and
after the body declares another variable of that name. -/
def shadowedLoop : ForLoop where
  initializer := some (.var ⟨"more", 1⟩ (some (.literal (.string "yes"))))
  condition := some (.var 0 ⟨"more", 1⟩)
  increment := some (.assign 2 ⟨"more", 1⟩ (.literal .nil))
  body := .block [.function ⟨⟨"show", 1⟩, [], [.print (.var 3 ⟨"more", 1⟩)]⟩,
    .expression (.call (.var 4 ⟨"show", 1⟩) 1 []),
    .var ⟨"more", 1⟩ (some (.literal (.string "inner"))),
    .expression (.call (.var 5 ⟨"show", 1⟩) 1 [])]

/-- The body of `shadowedLoop`. -/
def shadowedBody : String :=
  "\x7b fun show() \x7b print more; \x7d show(); var more = \"inner\"; show(); \x7d"

/-- The source of `shadowedLoop`. -/
def shadowedSource : String :=
  "for (var more = \"yes\"; more; more = nil) " ++ shadowedBody

theorem shadowedLoop_initializer :
    ∃ tokens, Grammar.ForInitializer tokens shadowedLoop.initializer := by
  have parsed : parseProgram 0 (scanTokens "var more = \"yes\";") =
      (.ok [.var ⟨"more", 1⟩ (some (.literal (.string "yes")))], 0) := by
    rw [scanTokens_eq]
    cbv
  rcases derivesStmt_of_parse parsed with ⟨tokens, isOpen, derived⟩
  cases derived with
  | functionDeclaration _ derived => cases derived
  | varDeclaration declared => exact ⟨tokens, .declaration declared⟩
  | noDeclaration derived => cases derived.declares_none

theorem shadowedLoop_body :
    ∃ tokens isOpen, Grammar.DerivesStmt true .statement tokens shadowedLoop.body isOpen := by
  have parsed : parseProgram 3 (scanTokens shadowedBody) = (.ok [shadowedLoop.body], 6) := by
    rw [scanTokens_eq]
    cbv
  rcases derivesStmt_of_parse parsed with ⟨tokens, isOpen, derived⟩
  unfold shadowedLoop at derived ⊢
  cases derived with
  | functionDeclaration _ derived => cases derived
  | varDeclaration declared => cases declared
  | noDeclaration derived => exact ⟨tokens, isOpen, derived⟩

theorem shadowedLoop_accepted :
    (Session.initial .unlimited (.startingAt 0)).Accepts shadowedSource [shadowedLoop.tree] :=
  ⟨⟨6, by decide +kernel, by rw [scanTokens_eq]; cbv⟩, by decide +kernel⟩

open Lexical in
theorem shadowedLoop_is_direct :
    (Session.initial .unlimited (.startingAt 0)).Accepts shadowedSource [shadowedLoop.tree] ∧
      ReadsDirectly shadowedLoop
        ((Session.initial .unlimited (.startingAt 0)).resolved [shadowedLoop.tree]) ∧
      ((Session.initial .unlimited (.startingAt 0)).run 25 shadowedSource).2.machine.sink.written =
        "yes\nyes\n".toUTF8 ∧
      (Actions.endState (executeFor 25 { locals := ∅, isLocal := false } shadowedLoop
        (.initial .unlimited (.startingAt 0)))).sink.written = "yes\nyes\n".toUTF8 := by
  rcases shadowedLoop_initializer with ⟨first, initializer⟩
  rcases shadowedLoop_body with ⟨last, isOpen, body⟩
  have reached : Reaches ⟨25, .executeProgram [shadowedLoop.tree],
      (Session.initial .unlimited (.startingAt 0)).resolved [shadowedLoop.tree]⟩
      ⟨25, .execute shadowedLoop.tree,
        (Session.initial .unlimited (.startingAt 0)).resolved [shadowedLoop.tree]⟩ :=
    .single .firstOfProgram
  have occurs : Session.Occurs .unlimited (.startingAt 0) [(25, shadowedSource)] _ :=
    ⟨[], 25, shadowedSource, _, List.prefix_refl _, shadowedLoop_accepted, reached⟩
  exact ⟨shadowedLoop_accepted, lowered_loop_is_direct initializer body occurs rfl,
    by decide +kernel, by decide +kernel⟩

end Lox
