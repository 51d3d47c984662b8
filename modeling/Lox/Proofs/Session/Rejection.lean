import Mathlib
import Lox.Proofs.Session.Relocation

/-!
# Rejected units leave no trace

A unit with static errors may use up identities and leave recorded distances behind.
A session that has rejected such a unit and one that never saw it run the same units
with other identities, so that the trees of one are copies of those of the other.
-/

namespace Lox

open Actions

namespace Session

/-! ## What can be seen -/

/-- What can be seen of a unit that was run: how it ended, all the output so far, and
the names of the globals. -/
structure Observation where
  outcome : Outcome
  sink : Sink
  globalNames : List String

/-- What can be seen while units, each with its fuel, are run one after another. -/
def trace (session : Session) : List (Nat × String) → List Observation
  | [] => []
  | unit :: later =>
      let (outcome, next) := session.run unit.1 unit.2
      ⟨outcome, next.machine.sink, next.machine.globalNames⟩ :: next.trace later

/-! ## Sessions with other identities -/

variable {session session' : Session} {origin origin' : Visit → Prop} {shift : Nat}
  {source : String}

/-- Every unit ends in the same way in sessions whose trees stand on the same lines. -/
theorem Copies.run (copies : Copies shift id session session') (settled : session.Settled origin)
    (settled' : session'.Settled origin') (fuel : Nat) (source : String) :
    (session'.run fuel source).1 = (session.run fuel source).1 ∧
      Copies shift id (session.run fuel source).2 (session'.run fuel source).2 := by
  have ran := copies.runTokens settled settled' fuel (scanErrors source)
    (scanned_scanTokens source)
  rw [funext Token.moved_id, List.map_id', Outcome.moved_id] at ran
  exact ran

/-- Nothing can be seen of the difference between such sessions. -/
theorem Copies.trace_eq (copies : Copies shift id session session')
    (settled : session.Settled fun _ => True) (settled' : session'.Settled fun _ => True)
    (later : List (Nat × String)) : session'.trace later = session.trace later := by
  induction later generalizing session session' with
  | nil => rfl
  | cons unit later inductionHypothesis =>
      rcases copies.run settled settled' unit.1 unit.2 with ⟨outcome, copiesLater⟩
      have settledLater := settled.run unit.1 unit.2 (fun _ => id) fun _ _ _ _ => trivial
      have settledLater' := settled'.run unit.1 unit.2 (fun _ => id) fun _ _ _ _ => trivial
      have same := inductionHypothesis copiesLater settledLater settledLater'
      rw [trace, trace]
      dsimp only
      rw [outcome, copiesLater.machines.sink, copiesLater.globalNames, same]

/-! ## Rejected units -/

/-- A rejected unit changes nothing but identities and distances, and the session is
a copy of what it was. -/
theorem Settled.copies_of_rejected (settled : session.Settled origin) {fuel : Nat}
    {errors : List Diagnostic} (rejected : (session.run fuel source).1 = .rejected errors) :
    (∃ distances, (session.run fuel source).2.machine = { session.machine with distances }) ∧
      ∃ shift, Copies shift id session (session.run fuel source).2 := by
  rcases session.run_cases fuel source with
    ⟨program, nextId, reads⟩ | ⟨errors, nextId, ascending, ended⟩
  · have later := (Nat.add_sub_of_le reads.takes.nextId_le).symm
    rw [reads.run_eq] at rejected ⊢
    by_cases clean : (resolveProgram session.machine.globalNames program).errors = []
    · -- A program without static errors is run, so the unit is not rejected.
      rw [runProgram_outcome clean] at rejected
      exact absurd rejected (Outcome.ofResult_ne_rejected _ errors)
    · rw [runProgram_unclean clean]
      refine ⟨⟨_, rfl⟩, _, later, Copying.Heaps.of_same rfl ?_, rfl, rfl, rfl, rfl, rfl, rfl, rfl,
        rfl⟩
      intro use mentions
      exact reads.takes.rejected_mentioned settled mentions
  · rw [ended]
    have later := (Nat.add_sub_of_le ascending).symm
    exact ⟨⟨_, rfl⟩, _, later, Copying.Heaps.of_same rfl fun _ _ => rfl, rfl, rfl, rfl, rfl, rfl,
      rfl, rfl, rfl⟩

theorem settled_reachable (sink : Sink) (clock : Clock) (units : List (Nat × String)) :
    ((initial sink clock).runAll units).Settled fun _ => True := by
  induction units using List.reverseRecOn with
  | nil => exact settled_initial sink clock
  | append_singleton units unit inductionHypothesis =>
      rw [runAll_append_singleton]
      exact inductionHypothesis.run unit.1 unit.2 (fun _ => id) fun _ _ _ _ => trivial

end Session

/-- A unit with static errors leaves the machine as it is, but for recorded
distances, and nothing can be seen of it afterwards. -/
theorem rejected_unit_leaves_no_trace (sink : Sink) (clock : Clock)
    (history : List (Nat × String)) (fuel : Nat) (source : String) {errors : List Diagnostic}
    (rejected : (((Session.initial sink clock).runAll history).run fuel source).1 =
      .rejected errors) (later : List (Nat × String)) :
    (∃ distances, (((Session.initial sink clock).runAll history).run fuel source).2.machine =
        { ((Session.initial sink clock).runAll history).machine with distances }) ∧
      (((Session.initial sink clock).runAll history).run fuel source).2.trace later =
        ((Session.initial sink clock).runAll history).trace later := by
  have settled := Session.settled_reachable sink clock history
  rcases settled.copies_of_rejected rejected with ⟨same, shift, copies⟩
  refine ⟨same, copies.trace_eq settled ?_ later⟩
  exact settled.run fuel source (fun _ => id) fun _ _ _ _ => trivial

/-- A session in which one global has been declared. -/
def oneGlobal : Session :=
  (Session.initial .unlimited (.startingAt 0)).runAll [(9, "var x = clock;")]

/-- A function, and after it a violation. -/
def returningSource : String :=
  "fun g() \x7b var y = x; return y; \x7d return x;"

/-- The tree of `returningSource` in `oneGlobal`. -/
def returningProgram : List Stmt :=
  [.function ⟨⟨"g", 1⟩, [],
      [.var ⟨"y", 1⟩ (some (.var 1 ⟨"x", 1⟩)), .return_ 1 (some (.var 2 ⟨"y", 1⟩))]⟩,
    .return_ 1 (some (.var 3 ⟨"x", 1⟩))]

theorem oneGlobal_eq : oneGlobal =
    ⟨((Session.initial .unlimited (.startingAt 0)).machine.runProgram 9
      [.var ⟨"x", 1⟩ (some (.var 0 ⟨"clock", 1⟩))]).2, 1⟩ := by
  have reads : (Session.initial .unlimited (.startingAt 0)).Reads "var x = clock;"
      [.var ⟨"x", 1⟩ (some (.var 0 ⟨"clock", 1⟩))] 1 :=
    ⟨by decide +kernel, by rw [scanTokens_eq]; cbv⟩
  exact congrArg Prod.snd (reads.run_eq 9)

theorem returningSource_read : oneGlobal.Reads returningSource returningProgram 4 := by
  refine ⟨by decide +kernel, ?_⟩
  rw [oneGlobal_eq, scanTokens_eq]
  cbv

theorem returningSource_rejected : (oneGlobal.run 9 returningSource).1 =
    .rejected [.resolution ⟨⟨"return", 1⟩, .returnOutsideFunction⟩] := by
  have errors : (resolveProgram oneGlobal.machine.globalNames returningProgram).errors =
      [⟨⟨"return", 1⟩, .returnOutsideFunction⟩] := by
    rw [oneGlobal_eq]
    decide +kernel
  have unclean : (resolveProgram oneGlobal.machine.globalNames returningProgram).errors ≠ [] := by
    rw [errors]
    decide
  rw [returningSource_read.run_eq, Session.runProgram_rejected unclean, errors]
  rfl

theorem returningSource_leaves_no_trace :
    (oneGlobal.run 9 returningSource).1 =
        .rejected [.resolution ⟨⟨"return", 1⟩, .returnOutsideFunction⟩] ∧
      (oneGlobal.run 9 returningSource).2.trace [(9, "print x == clock;")] =
        oneGlobal.trace [(9, "print x == clock;")] :=
  ⟨returningSource_rejected,
    (rejected_unit_leaves_no_trace .unlimited (.startingAt 0) [(9, "var x = clock;")] 9
      returningSource returningSource_rejected [(9, "print x == clock;")]).2⟩

end Lox
