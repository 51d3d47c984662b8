import Lox.Proofs.Evaluation.Capacity
import Lox.Proofs.Session.Rejection

/-!
# Units with a limited output

A unit whose output is limited prints a prefix of what it prints without a limit.  If
everything fits, the limit makes no difference.  If it does not, the unit is interrupted
by the failure of the output at the first print that does not fit, and by nothing else.
-/

namespace Lox

open Actions Eval Timeline

namespace Session

/-- The session whose sink takes this many bytes in all. -/
def withCapacity (session : Session) (capacity : Option Nat) : Session :=
  { session with machine := session.machine.withCapacity capacity }

/-- The session whose sink takes everything. -/
def unlimited (session : Session) : Session :=
  session.withCapacity none

/-- The number of bytes that have been written when the sink has taken so many more. -/
def fullAt (session : Session) (capacity : Nat) : Nat :=
  session.machine.sink.written.size + capacity

/-- The session whose sink takes so many more bytes. -/
def limitedBy (session : Session) (capacity : Nat) : Session :=
  session.withCapacity (some (session.fullAt capacity))

variable {session : Session} {source : String} {program : List Stmt} {nextId : UseId}
  {fuel capacity : Nat}

/-- The run of the unit comes to a print whose line exceeds the capacity, and the machine is
what is left when nothing is executed after that. -/
def StopsAtPrint (session : Session) (fuel : Nat) (source : String) (capacity : Nat)
    (final : Machine) : Prop :=
  ∃ program moment value middle, session.Accepts source program ∧
    Reaches ⟨fuel, .executeProgram program, session.resolved program⟩ moment ∧
    Overfull capacity moment value middle ∧
    final = (stoppedAt capacity session.machine value middle).release program

/-- The bytes of a line that fit are those with which the output goes on, up to the
capacity. -/
theorem written_stoppedAt {machine middle : Machine} {moment : Moment} {value : Value}
    {written : ByteArray} (overfull : Overfull capacity moment value middle)
    (continues : ∃ rest, written = middle.sink.written ++ printedLine middle value ++ rest) :
    (stoppedAt capacity machine value middle).sink.written = written.extract 0 capacity := by
  rcases continues with ⟨rest, rfl⟩
  have fitted := overfull.fitted
  have exceeds := overfull.exceeds
  have none_left : rest.extract 0 (capacity -
      (middle.sink.written ++ printedLine middle value).size) = .empty := by
    rw [ByteArray.size_append, Nat.sub_eq_zero_of_le (Nat.le_of_lt exceeds)]
    exact ByteArray.extract_same
  rw [ByteArray.extract_append, ByteArray.extract_append, Sink.extract_all fitted, Nat.zero_sub,
    Nat.zero_sub, none_left, ByteArray.append_empty]
  rfl

/-- A unit that is not read is rejected in the same way on every machine. -/
theorem run_unread (unread : ∀ program nextId, ¬ session.Reads source program nextId) :
    ∃ errors nextId, ∀ machine fuel,
      run fuel { session with machine } source = (.rejected errors, ⟨machine, nextId⟩) := by
  cases parsed : parseProgram session.nextId (scanTokens source) with
  | mk result nextId =>
      cases result with
      | error errors =>
          refine ⟨(scanErrors source).map .lexical ++ errors.map .syntactic, nextId, ?_⟩
          intro machine fuel
          exact run_malformed parsed
      | ok program =>
          have lexical : scanErrors source ≠ [] := fun none => unread program nextId ⟨none, parsed⟩
          refine ⟨(scanErrors source).map .lexical, nextId, ?_⟩
          intro machine fuel
          exact run_misspelled parsed lexical

/-- How a unit ends when its sink takes so many more bytes, by what it prints without a
limit. -/
structure EndsLimited (session : Session) (fuel : Nat) (source : String) (capacity : Nat)
    (printed : ByteArray) : Prop where
  written : (session.unlimited.run fuel source).2.machine.sink.written =
    session.machine.sink.written ++ printed
  fits : printed.size ≤ capacity →
    (session.limitedBy capacity).run fuel source =
      ((session.unlimited.run fuel source).1,
        (session.unlimited.run fuel source).2.withCapacity (some (session.fullAt capacity)))
  full : capacity < printed.size →
    ∃ stopped, (session.limitedBy capacity).run fuel source =
        (.interrupted (.output .sinkFull),
          ⟨stopped, (session.unlimited.run fuel source).2.nextId⟩) ∧
      session.unlimited.StopsAtPrint fuel source (session.fullAt capacity) stopped ∧
      stopped.sink.written = session.machine.sink.written ++ printed.extract 0 capacity ∧
      stopped.current = session.machine.current ∧ stopped.callDepth = session.machine.callDepth

/-- A unit that prints nothing ends in the same way. -/
theorem EndsLimited.of_rejected {errors : List Diagnostic} (machine : Machine)
    (same : machine.sink.written = session.machine.sink.written)
    (ended : session.unlimited.run fuel source = (.rejected errors, ⟨machine, nextId⟩))
    (limitedEnd : (session.limitedBy capacity).run fuel source =
      (.rejected errors, ⟨machine.withCapacity (some (session.fullAt capacity)), nextId⟩)) :
    session.EndsLimited fuel source capacity .empty where
  written := by
    rw [ended, ByteArray.append_empty]
    exact same
  fits _ := by
    rw [ended, limitedEnd]
    rfl
  full exceeds := absurd exceeds (Nat.not_lt_zero _)

theorem Reads.run_clean (reads : session.Reads source program nextId)
    (clean : (resolveProgram session.machine.globalNames program).errors = []) (fuel : Nat) :
    session.run fuel source =
      (.ofResult (executeProgram fuel program (session.resolved program)),
        ⟨(session.finalMachine fuel program).release program, nextId⟩) := by
  rw [reads.run_eq, runProgram_outcome clean, runProgram_clean clean]

theorem Reads.run_unclean (reads : session.Reads source program nextId)
    (unclean : (resolveProgram session.machine.globalNames program).errors ≠ []) (fuel : Nat) :
    session.run fuel source =
      (.rejected ((resolveProgram session.machine.globalNames program).errors.map .resolution),
        ⟨(session.resolved program).release program, nextId⟩) := by
  rw [reads.run_eq, runProgram_rejected unclean, runProgram_unclean unclean]

/-- An accepted unit ends in the same way, or at the first print that does not fit. -/
theorem Accepts.endsLimited (accepted : session.unlimited.Accepts source program) :
    ∃ printed, session.EndsLimited fuel source capacity printed := by
  rcases accepted with ⟨⟨nextId, reads⟩, clean⟩
  have readsLimited : (session.limitedBy capacity).Reads source program nextId :=
    ⟨reads.lexical, reads.parsed⟩
  let start := session.unlimited.resolved program
  have ran := reads.run_clean clean fuel
  have ranLimited := readsLimited.run_clean clean fuel
  have isLimited : (session.limitedBy capacity).resolved program =
    start.withCapacity (some (session.fullAt capacity)) := rfl
  have ends := ((stepwise_capped (session.fullAt capacity)).executeProgram fuel program).ends
    start rfl (Nat.le_add_right _ _)
  rcases printing_executeProgram fuel program start with ⟨printed, written⟩
  have size : (endState (executeProgram fuel program start)).sink.written.size =
      session.machine.sink.written.size + printed.size := by
    rw [written, ByteArray.size_append]
    rfl
  refine ⟨printed, ?_⟩
  rw [finalMachine, isLimited] at ranLimited
  generalize executeProgram fuel program (start.withCapacity _) = limitedEnd at ends ranLimited
  cases ends with
  | fits _ fitted =>
      have fitting : printed.size ≤ capacity := by
        rw [size] at fitted
        exact Nat.le_of_add_le_add_left fitted
      constructor
      · rw [ran]
        exact written
      · intro _
        rw [ran, ranLimited, finalMachine]
        cases executeProgram fuel program start <;> rfl
      · intro exceeds
        exact absurd exceeds (Nat.not_lt.mpr fitting)
  | @full moment value middle member overfull continues =>
      have exceeding : capacity < printed.size := by
        rcases continues with ⟨rest, more⟩
        have exceeds := overfull.exceeds
        rw [more, ByteArray.size_append, ByteArray.size_append] at size
        unfold fullAt at exceeds
        omega
      constructor
      · rw [ran]
        exact written
      · intro fitting
        exact absurd exceeding (Nat.not_lt.mpr fitting)
      · intro _
        have reaches := Moment.mem_moments_iff.mp (List.flatMap_singleton .. ▸ member)
        let stopped := stoppedAt (session.fullAt capacity) start value middle
        have prefixed : stopped.sink.written =
            session.machine.sink.written ++ printed.extract 0 capacity := by
          rw [written_stoppedAt overfull continues, written]
          exact Sink.extract_append_add _ _ _
        refine ⟨stopped.release program, ?_, ?_, prefixed, rfl, rfl⟩
        · rw [ranLimited, ran]
          rfl
        · exact ⟨program, moment, value, middle, ⟨⟨nextId, reads⟩, clean⟩, reaches, overfull, rfl⟩

end Session

/-- A limited output sees a prefix.  Whatever a unit prints without a limit, and however it
ends: if that is at most as much as the sink takes, the unit ends in the same way with the
limit, and the session is the same but for the capacity.  Otherwise the sink takes the first
bytes up to its capacity, and the unit is interrupted by the failure of the output, in the
scope and at the depth in which it started.  Nothing is executed after the print that
fails. -/
theorem limited_output_is_prefix (session : Session) (fuel : Nat) (source : String)
    (capacity : Nat) :
    ∃ printed, session.EndsLimited fuel source capacity printed ∧
      (capacity < printed.size →
        ((session.limitedBy capacity).run fuel source).1.exitCode = 74) := by
  have ended : ∃ printed, session.EndsLimited fuel source capacity printed := by
    by_cases read : ∃ program nextId, session.unlimited.Reads source program nextId
    · rcases read with ⟨program, nextId, reads⟩
      by_cases clean : (resolveProgram session.unlimited.machine.globalNames program).errors = []
      · exact Session.Accepts.endsLimited ⟨⟨nextId, reads⟩, clean⟩
      · have readsLimited : (session.limitedBy capacity).Reads source program nextId :=
          ⟨reads.lexical, reads.parsed⟩
        exact ⟨.empty, .of_rejected ((session.unlimited.resolved program).release program) rfl
          (reads.run_unclean clean fuel) (readsLimited.run_unclean clean fuel)⟩
    · rcases Session.run_unread (fun program nextId reads => read ⟨program, nextId, reads⟩) with
        ⟨errors, nextId, rejected⟩
      exact ⟨.empty, .of_rejected session.unlimited.machine rfl (rejected _ fuel)
        (rejected _ fuel)⟩
  rcases ended with ⟨printed, ends⟩
  refine ⟨printed, ends, ?_⟩
  intro exceeds
  rcases ends.full exceeds with ⟨stopped, ran, -⟩
  rw [ran]
  rfl

example : (((Session.initial .unlimited (.startingAt 0)).limitedBy 4).run 9
    "print \"ab\"; print \"cd\";").2.machine.sink.written = "ab\nc".toUTF8 := by
  decide +kernel

end Lox
