import Lox.Proofs.Objects.Declarations

/-!
# What a session has assigned

At every moment of a session, the field assignments made so far, in whatever unit and
through whatever reference, are a list in the order of time.  A field has the value that
comes last in it.
-/

namespace Lox

open Actions Eval Timeline

/-! ## Moments in order -/

section Order

variable {machine later : Machine} {before after : List Moment} {part next : Moment}

/-- What one evaluation leaves behind is there when a later one starts. -/
theorem Follows.size_le (follows : Follows machine (before ++ next :: after) later)
    (member : part ∈ before) :
    part.final.heap.objects.size ≤ next.machine.heap.objects.size := by
  induction before generalizing machine with
  | nil => cases member
  | cons first rest inductionHypothesis =>
      cases follows with
      | cons _ _ restFollows =>
          rcases List.mem_cons.mp member with rfl | inRest
          · exact restFollows.assigned_before.size
          · exact inductionHypothesis restFollows inRest

end Order

/-- The object that a field is assigned of is there. -/
theorem has_assignmentTarget {fuel : Nat} {object value : Expr} {name : Name}
    {machine middle : Machine} {target : ObjectRef × Value} (healthy : machine.Healthy)
    (formed : (Expr.set object name value).WellFormed)
    (succeeded : assignmentTarget fuel object value name machine = .ok target middle) :
    middle.heap.Has (.object target.1) := by
  rcases bind_eq_ok_iff.mp succeeded with ⟨found, between, objectResult, rest⟩
  rcases ((keepsAt fuel).evaluate object healthy formed.1).of_ok objectResult with ⟨later, -, has⟩
  cases found with
  | object ref =>
      rcases bind_eq_ok_iff.mp rest with ⟨assigned, last, valueResult, yielded⟩
      rcases ((keepsAt fuel).evaluate value later formed.2).of_ok valueResult with ⟨-, widens, -⟩
      cases yielded
      exact has.mono widens
  | _ => cases rest

namespace Moment

variable {moment start : Moment}

/-- An object that is assigned a field is there. -/
theorem Healthy.grounded (healthy : moment.Healthy) : moment.Grounded := by
  rcases moment with ⟨fuel, task, machine⟩
  rcases healthy with ⟨healthy, formed, -⟩
  intro entry member
  rcases fuel with - | fuel
  · cases member
  · cases task with
    | evaluate expr =>
        cases expr with
        | set object name value =>
            rw [Moment.final, evaluate_set_apply]
            rw [ownAssignments_set] at member
            cases result : assignmentTarget fuel object value name machine with
            | error cause middle =>
                rw [result] at member
                cases member
            | ok target middle =>
                rw [result] at member
                rw [List.mem_singleton.mp member]
                have has := has_assignmentTarget healthy formed result
                exact has.mono (middle.heap.widens_setField _ _ _)
        | _ => cases member
    | _ => cases member

/-- The parts of every evaluation of a program follow one another. -/
theorem Healthy.chronicled {fuel : Nat} {program : List Stmt} {machine : Machine}
    (healthy : Healthy ⟨fuel, .executeProgram program, machine⟩)
    (reaches : Reaches ⟨fuel, .executeProgram program, machine⟩ moment) : moment.Chronicled := by
  have isMoment : ∀ other, other ∈ (Timeline.start fuel (.executeProgram program) machine).flatMap
      moments ↔ Reaches ⟨fuel, .executeProgram program, machine⟩ other := by
    intro other
    rw [Timeline.start, List.flatMap_singleton]
    exact mem_moments_iff
  have grounded : ∀ other ∈ (Timeline.start fuel (.executeProgram program) machine).flatMap moments,
      other.Grounded := by
    intro other member
    exact (healthy.reaches ((isMoment other).mp member)).grounded
  exact (stepwise_chronicles.executeProgram fuel program machine grounded).2 moment
    ((isMoment moment).mpr reaches)

/-- Until the second moment, the evaluation that starts at the first one has made the
assignments. -/
inductive AssignedBefore (start : Moment) : Moment → List Assignment → Prop where
  | start : AssignedBefore start start []
  | part {moment part before after log} : AssignedBefore start moment log →
      moment.parts = before ++ part :: after →
      AssignedBefore start part (log ++ before.flatMap assignments)

theorem AssignedBefore.reaches {log : List Assignment} (before : AssignedBefore start moment log) :
    Reaches start moment := by
  induction before with
  | start => exact .refl
  | part _ split inductionHypothesis =>
      apply inductionHypothesis.tail
      apply calls_of_mem_parts
      rw [split]
      exact List.mem_append_right _ List.mem_cons_self

/-- Every moment that is reached has its assignments before it. -/
theorem exists_assignedBefore (reaches : Reaches start moment) :
    ∃ log, AssignedBefore start moment log := by
  induction reaches with
  | refl => exact ⟨[], .start⟩
  | tail _ calls inductionHypothesis =>
      rcases inductionHypothesis with ⟨log, before⟩
      rcases List.append_of_mem calls.mem_parts with ⟨earlier, later, split⟩
      exact ⟨_, before.part split⟩

/-- The assignments lead to the machine of the moment. -/
theorem AssignedBefore.assigned {log : List Assignment} (before : AssignedBefore start moment log)
    (chronicled : ∀ other, Reaches start other → other.Chronicled) :
    start.machine.Assigned log moment.machine := by
  induction before with
  | start => exact .refl _
  | part outer split inductionHypothesis =>
      rcases chronicled _ outer.reaches with ⟨last, follows, -⟩
      rw [split] at follows
      exact inductionHypothesis.trans follows.assigned_before

end Moment

/-! ## Histories -/

namespace Session

variable {sink : Sink} {clock : Clock} {units : List (Nat × String)} {session : Session}

/-- The field assignments that a unit makes. -/
def unitAssignments (session : Session) (unit : Nat × String) : List Assignment :=
  match parseProgram session.nextId (scanTokens unit.2) with
  | (.error _, _) => []
  | (.ok program, _) =>
      if (scanErrors unit.2).isEmpty ∧
          (resolveProgram session.machine.globalNames program).errors.isEmpty then
        Moment.assignments ⟨unit.1, .executeProgram program, session.resolved program⟩
      else
        []

/-- The field assignments that units make, one after another. -/
def assignmentsIn (session : Session) : List (Nat × String) → List Assignment
  | [] => []
  | unit :: rest =>
      session.unitAssignments unit ++ (session.run unit.1 unit.2).2.assignmentsIn rest

/-- The assignments of a unit lead from the machine before it to the machine after it. -/
theorem assigned_run (healthy : session.machine.Healthy) (unit : Nat × String) :
    session.machine.Assigned (session.unitAssignments unit)
      (session.run unit.1 unit.2).2.machine := by
  cases parsed : parseProgram session.nextId (scanTokens unit.2) with
  | mk result nextId =>
      cases result with
      | error errors =>
          rw [run_malformed parsed, unitAssignments, parsed]
          exact .refl _
      | ok program =>
          by_cases lexical : scanErrors unit.2 = []
          · have reads : session.Reads unit.2 program nextId := ⟨lexical, parsed⟩
            rw [reads.run_eq, unitAssignments, parsed, lexical]
            dsimp only
            by_cases clean : (resolveProgram session.machine.globalNames program).errors = []
            · rw [runProgram_clean clean, clean, if_pos ⟨rfl, rfl⟩]
              -- Resolution and release leave the heap alone.
              have ran := ((reads.healthy healthy unit.1).chronicled .refl).assigned
              exact ⟨ran.size, ran.present, ran.ofClass, ran.fields⟩
            · rw [runProgram_unclean clean, if_neg fun both => clean (List.isEmpty_iff.mp both.2)]
              exact .of_objects rfl
          · rw [run_misspelled parsed lexical, unitAssignments, parsed]
            dsimp only
            rw [if_neg fun both => lexical (List.isEmpty_iff.mp both.1)]
            exact .refl _

theorem assigned_runAll (healthy : session.machine.Healthy) (units : List (Nat × String)) :
    session.machine.Assigned (session.assignmentsIn units) (session.runAll units).machine := by
  induction units generalizing session with
  | nil => exact .refl _
  | cons unit rest inductionHypothesis =>
      exact (assigned_run healthy unit).trans
        (inductionHypothesis (healthy_run healthy unit.1 unit.2))

/-- The session has made the assignments, in all units so far, when it comes to the
moment. -/
def AssignedBefore (sink : Sink) (clock : Clock) (units : List (Nat × String)) (moment : Moment)
    (log : List Assignment) : Prop :=
  ∃ before fuel source program inner, before ++ [(fuel, source)] <+: units ∧
    ((initial sink clock).runAll before).Accepts source program ∧
    Moment.AssignedBefore
      ⟨fuel, .executeProgram program, ((initial sink clock).runAll before).resolved program⟩
      moment inner ∧
    log = (initial sink clock).assignmentsIn before ++ inner

variable {moment : Moment} {log : List Assignment}

theorem AssignedBefore.occurs (before : AssignedBefore sink clock units moment log) :
    Occurs sink clock units moment := by
  rcases before with ⟨earlier, fuel, source, program, inner, isPrefix, accepted, inUnit, -⟩
  exact ⟨earlier, fuel, source, program, isPrefix, accepted, inUnit.reaches⟩

theorem Occurs.exists_assignedBefore (occurs : Occurs sink clock units moment) :
    ∃ log, AssignedBefore sink clock units moment log := by
  rcases occurs with ⟨earlier, fuel, source, program, isPrefix, accepted, reaches⟩
  rcases Moment.exists_assignedBefore reaches with ⟨inner, inUnit⟩
  exact ⟨_, earlier, fuel, source, program, inner, isPrefix, accepted, inUnit, rfl⟩

/-- Every evaluation of a session has its parts in order. -/
theorem Occurs.chronicled (occurs : Occurs sink clock units moment) : moment.Chronicled := by
  rcases occurs with ⟨before, fuel, source, program, -, ⟨⟨nextId, reads⟩, -⟩, reaches⟩
  exact (reads.healthy (healthy_runAll sink clock before) fuel).chronicled reaches

theorem AssignedBefore.assigned (before : AssignedBefore sink clock units moment log) :
    (initial sink clock).machine.Assigned log moment.machine := by
  rcases before with
    ⟨earlier, fuel, source, program, inner, isPrefix, accepted, inUnit, rfl⟩
  have units := assigned_runAll (healthy_initial sink clock) earlier
  have inProgram := inUnit.assigned fun other reaches =>
    Occurs.chronicled ⟨earlier, fuel, source, program, isPrefix, accepted, reaches⟩
  have resolved : ((initial sink clock).runAll earlier).machine.Assigned []
    (((initial sink clock).runAll earlier).resolved program) := .of_objects rfl
  exact units.trans (resolved.trans inProgram)

/-- A new session has no objects, so every field has the value that was assigned last. -/
theorem fields_of_assigned {machine : Machine}
    (assigned : (initial sink clock).machine.Assigned log machine) (ref : ObjectRef)
    (name : String) : (machine.heap.object ref).fields[name]? = lastAssigned? log ref name := by
  have noField : ((initial sink clock).machine.heap.object ref).fields[name]? = none :=
    Std.TreeMap.getElem?_emptyc
  rw [assigned.fields, noField, Option.or_none]

end Session

end Lox
