import Lox.Proofs.Evaluation.CallLimit
import Lox.Proofs.Evaluation.Output

/-!
# Field assignments in the order of time

`Moment.assignments` lists the field assignments that an evaluation makes, in the order in
which it makes them.  They determine all fields: a field has the value that was assigned to
it last, through whatever reference to the object, and else the value it had before.
-/

namespace Lox

open Actions Eval Timeline

/-! ## Assignments -/

/-- A value is assigned to a field of an object. -/
structure Assignment where
  object : ObjectRef
  name : String
  value : Value

/-- The value that is assigned last to the field of the object. -/
def lastAssigned? (log : List Assignment) (ref : ObjectRef) (name : String) : Option Value :=
  (log.filter fun entry => entry.object = ref ∧ entry.name = name).getLast?.map Assignment.value

section LastAssigned

variable {ref : ObjectRef} {name : String}

theorem lastAssigned?_append (log more : List Assignment) (ref : ObjectRef) (name : String) :
    lastAssigned? (log ++ more) ref name =
      (lastAssigned? more ref name).or (lastAssigned? log ref name) := by
  rw [lastAssigned?, List.filter_append, List.getLast?_append, lastAssigned?, lastAssigned?]
  cases (more.filter _).getLast? <;> rfl

theorem lastAssigned?_singleton (entry : Assignment) (ref : ObjectRef) (name : String) :
    lastAssigned? [entry] ref name =
      if entry.object = ref ∧ entry.name = name then some entry.value else none := by
  by_cases same : entry.object = ref ∧ entry.name = name
  · simp [lastAssigned?, same]
  · simp [lastAssigned?, same]

end LastAssigned

namespace Heap

variable {heap : Heap}

theorem object_eq (heap : Heap) (ref : ObjectRef) :
    heap.object ref = heap.objects[ref.index]?.getD default :=
  Array.getD_eq_getD_getElem?

/-- Setting a field changes that field of that object and nothing else. -/
theorem object_setField (heap : Heap) {ref : ObjectRef} (present : ref.index < heap.objects.size)
    (name : String) (value : Value) (other : ObjectRef) :
    (heap.setField ref name value).object other =
      if ref = other then
        { heap.object ref with fields := (heap.object ref).fields.insert name value }
      else
        heap.object other := by
  rw [object_eq, object_eq, object_eq, setField]
  dsimp only
  rw [Array.getElem?_modify]
  by_cases same : ref = other
  · subst same
    rw [if_pos rfl, if_pos rfl, Array.getElem?_eq_getElem present]
    rfl
  · have apart : ref.index ≠ other.index := fun equal => same (congrArg ObjectRef.mk equal)
    rw [if_neg same, if_neg apart]

theorem object_addObject (heap : Heap) (ofClass : ClassRef) (other : ObjectRef) :
    (heap.addObject ofClass).1.object other =
      if other.index = heap.objects.size then { ofClass, fields := ∅ } else heap.object other := by
  rw [object_eq, object_eq, addObject]
  dsimp only
  rw [Array.getElem?_push]
  split
  all_goals rfl

theorem object_of_not_lt {ref : ObjectRef} (absent : ¬ ref.index < heap.objects.size) :
    heap.object ref = default := by
  rw [object_eq, Array.getElem?_eq_none (Nat.not_lt.mp absent), Option.getD_none]

end Heap

namespace Moment

/-- The field assignment that the evaluation at the moment makes itself, once its parts
have ended. -/
def ownAssignments : Moment → List Assignment
  | ⟨fuel + 1, .evaluate (.set object name value), machine⟩ =>
      match evaluate fuel object machine with
      | .ok (.object ref) middle =>
          match evaluate fuel value middle with
          | .ok assigned _ => [⟨ref, name.text, assigned⟩]
          | .error _ _ => []
      | _ => []
  | _ => []

/-- All field assignments of the evaluation that starts at the moment, in the order of
time. -/
def assignments (moment : Moment) : List Assignment :=
  (moment.parts.attach.flatMap fun part => part.val.assignments) ++ moment.ownAssignments
termination_by (moment.fuel, moment.remaining)
decreasing_by exact rank_lt_of_mem_parts part.property

theorem assignments_eq (moment : Moment) :
    moment.assignments = moment.parts.flatMap assignments ++ moment.ownAssignments := by
  rw [assignments, List.flatMap_subtype (g := assignments) fun _ _ => rfl, List.unattach_attach]

end Moment

/-! ## What assignments do -/

namespace Machine

/-- The assignments lead from the first machine to the second one: objects were added,
those that were there are of the same class, and every field has the value that was
assigned last, or else the one it had. -/
structure Assigned (machine : Machine) (log : List Assignment) (later : Machine) : Prop where
  size : machine.heap.objects.size ≤ later.heap.objects.size
  present : ∀ entry ∈ log, entry.object.index < later.heap.objects.size
  ofClass : ∀ {ref : ObjectRef}, ref.index < machine.heap.objects.size →
    (later.heap.object ref).ofClass = (machine.heap.object ref).ofClass
  fields : ∀ (ref : ObjectRef) (name : String), (later.heap.object ref).fields[name]? =
    (lastAssigned? log ref name).or (machine.heap.object ref).fields[name]?

variable {machine middle later : Machine} {log more : List Assignment}

/-- Objects that stay as they are. -/
theorem Assigned.of_objects (same : later.heap.objects = machine.heap.objects) :
    machine.Assigned [] later := by
  have sameObject : ∀ ref, later.heap.object ref = machine.heap.object ref := by
    intro ref
    rw [Heap.object, same, Heap.object]
  constructor
  · exact Nat.le_of_eq (congrArg Array.size same).symm
  · intro entry member
    cases member
  · intro ref _
    rw [sameObject]
  · intro ref name
    rw [sameObject]
    rfl

theorem Assigned.refl (machine : Machine) : machine.Assigned [] machine :=
  .of_objects rfl

theorem Assigned.trans (first : machine.Assigned log middle)
    (second : middle.Assigned more later) : machine.Assigned (log ++ more) later := by
  constructor
  · exact Nat.le_trans first.size second.size
  · intro entry member
    rcases List.mem_append.mp member with earlier | isLater
    · exact Nat.lt_of_lt_of_le (first.present entry earlier) second.size
    · exact second.present entry isLater
  · intro ref present
    rw [second.ofClass (Nat.lt_of_lt_of_le present first.size), first.ofClass present]
  · intro ref name
    rw [second.fields, first.fields, lastAssigned?_append, Option.or_assoc]

theorem assigned_addObject (machine : Machine) (ofClass : ClassRef) :
    machine.Assigned [] { machine with heap := (machine.heap.addObject ofClass).1 } := by
  constructor
  · exact Nat.le_of_lt (Nat.lt_of_lt_of_eq (Nat.lt_succ_self _) (Array.size_push _).symm)
  · intro entry member
    cases member
  · intro ref present
    rw [Heap.object_addObject, if_neg (Nat.ne_of_lt present)]
  · intro ref name
    rw [Heap.object_addObject]
    by_cases isNew : ref.index = machine.heap.objects.size
    · rw [if_pos isNew, Heap.object_of_not_lt (Nat.not_lt.mpr (Nat.le_of_eq isNew.symm))]
      rfl
    · rw [if_neg isNew]
      rfl

theorem assigned_setField (machine : Machine) {ref : ObjectRef} (name : String) (value : Value)
    (present : ref.index < machine.heap.objects.size) :
    machine.Assigned [⟨ref, name, value⟩]
      { machine with heap := machine.heap.setField ref name value } := by
  have sameSize : (machine.heap.setField ref name value).objects.size =
      machine.heap.objects.size := Array.size_modify
  constructor
  · exact Nat.le_of_eq sameSize.symm
  · intro entry member
    rw [List.mem_singleton.mp member, sameSize]
    exact present
  · intro other _
    rw [Heap.object_setField _ present]
    by_cases same : ref = other
    · rw [if_pos same, same]
    · rw [if_neg same]
  · intro other sought
    rw [Heap.object_setField _ present, lastAssigned?_singleton]
    by_cases same : ref = other
    · rw [if_pos same, same, Table.getElem?_insert]
      by_cases named : name = sought
      · rw [if_pos named, if_pos ⟨rfl, named⟩]
        rfl
      · rw [if_neg named, if_neg fun both => named both.2]
        rfl
    · rw [if_neg same, if_neg fun both => same both.1]
      rfl

end Machine

theorem Quiet.assigned {α : Type} {action : Eval α} (quiet : Quiet true action)
    (machine : Machine) :
    machine.Assigned [] (endState (action machine)) := by
  induction quiet generalizing machine with
  | @bind _ _ first next _ _ firstHypothesis nextHypothesis =>
      have firstAssigned := firstHypothesis machine
      rw [bind_apply]
      cases result : first machine with
      | ok value middle =>
          rw [result] at firstAssigned
          exact firstAssigned.trans (nextHypothesis value middle)
      | error cause middle =>
          rw [result] at firstAssigned
          exact firstAssigned
  | get _ _ inductionHypothesis => exact inductionHypothesis machine machine
  | addObject ref => exact machine.assigned_addObject ref
  | readVariable id name =>
      simp only [Eval.readVariable]
      split
      all_goals exact .refl machine
  | _ => exact .of_objects rfl

/-! ## One evaluation after another -/

/-- The evaluations follow one another between the two machines: each makes its assignments,
and between them nothing is assigned. -/
inductive Follows : Machine → List Moment → Machine → Prop where
  | nil {machine later} : machine.Assigned [] later → Follows machine [] later
  | cons {machine part rest later} : machine.Assigned [] part.machine →
      part.machine.Assigned part.assignments part.final → Follows part.final rest later →
      Follows machine (part :: rest) later

namespace Follows

variable {machine middle later : Machine} {parts more : List Moment}

theorem prepend (first : machine.Assigned [] middle) (follows : Follows middle parts later) :
    Follows machine parts later := by
  cases follows with
  | nil assigned => exact .nil (first.trans assigned)
  | cons before within rest => exact .cons (first.trans before) within rest

theorem append (first : Follows machine parts middle) (second : Follows middle more later) :
    Follows machine (parts ++ more) later := by
  induction first with
  | nil assigned => exact second.prepend assigned
  | cons before within _ inductionHypothesis =>
      exact .cons before within (inductionHypothesis second)

theorem andThen (first : Follows machine parts middle) (last : middle.Assigned [] later) :
    Follows machine parts later := by
  have both := first.append (.nil last)
  rw [List.append_nil] at both
  exact both

theorem assigned (follows : Follows machine parts later) :
    machine.Assigned (parts.flatMap Moment.assignments) later := by
  induction follows with
  | nil assigned => exact assigned
  | cons before within _ inductionHypothesis =>
      exact (before.trans within).trans inductionHypothesis

/-- What has been assigned when one of the evaluations starts. -/
theorem assigned_before {before after : List Moment} {part : Moment}
    (follows : Follows machine (before ++ part :: after) later) :
    machine.Assigned (before.flatMap Moment.assignments) part.machine := by
  induction before generalizing machine with
  | nil =>
      cases follows with
      | cons before _ _ => exact before
  | cons first rest inductionHypothesis =>
      cases follows with
      | cons before within restFollows =>
          exact (before.trans within).trans (inductionHypothesis restFollows)

end Follows

namespace Moment

/-- Every object that the evaluation itself assigns a field of is there. -/
def Grounded (moment : Moment) : Prop :=
  ∀ entry ∈ moment.ownAssignments, entry.object.index < moment.final.heap.objects.size

/-- The parts of the evaluation follow one another, and last comes its own assignment. -/
def Chronicled (moment : Moment) : Prop :=
  ∃ last, Follows moment.machine moment.parts last ∧
    last.Assigned moment.ownAssignments moment.final

theorem Chronicled.assigned {moment : Moment} (chronicled : moment.Chronicled) :
    moment.machine.Assigned moment.assignments moment.final := by
  rcases chronicled with ⟨last, follows, own⟩
  rw [assignments_eq]
  exact follows.assigned.trans own

theorem ownAssignments_of_not_acts {fuel : Nat} {task : Task} (quiet : task.acts fuel = false)
    (machine : Machine) : ownAssignments ⟨fuel, task, machine⟩ = [] := by
  cases fuel with
  | zero => rfl
  | succ fuel =>
      cases task with
      | evaluate expr =>
          cases expr with
          | set object name value => cases quiet
          | _ => rfl
      | _ => rfl

end Moment

/-- If every object that is assigned to is there, the evaluations that the action starts
follow one another, and so do all further ones. -/
def Chronicles {α : Type} (timeline : Timeline) (action : Eval α) : Prop :=
  ∀ machine, (∀ moment ∈ (timeline machine).flatMap Moment.moments, moment.Grounded) →
    Follows machine (timeline machine) (endState (action machine)) ∧
      ∀ moment ∈ (timeline machine).flatMap Moment.moments, moment.Chronicled

namespace Chronicles

variable {α β : Type} {timeline : Timeline} {action : Eval α} {fuel : Nat}

/-- An action that starts nothing and assigns nothing. -/
theorem of_assigned
    (assigned : ∀ machine : Machine, machine.Assigned [] (endState (action machine))) :
    Chronicles idle action := by
  intro machine _
  exact ⟨.nil (assigned machine), fun _ member => absurd member List.not_mem_nil⟩

theorem of_quiet (quiet : Quiet true action) : Chronicles idle action :=
  .of_assigned quiet.assigned

theorem bind {next : α → Timeline} {continue_ : α → Eval β} (first : Chronicles timeline action)
    (rest : ∀ value, Chronicles (next value) (continue_ value)) :
    Chronicles (fun machine => timeline machine ++ after action next machine)
      (action >>= continue_) := by
  intro machine grounded
  dsimp only at grounded ⊢
  rw [List.flatMap_append] at grounded ⊢
  rcases first machine fun moment member => grounded moment (List.mem_append_left _ member) with
    ⟨follows, chronicled⟩
  cases result : action machine with
  | error cause middle =>
      rw [result] at follows
      rw [after_of_error result, bind_of_error result, List.append_nil, List.flatMap_nil,
        List.append_nil]
      exact ⟨follows, chronicled⟩
  | ok value middle =>
      rw [result] at follows
      rw [after_of_ok result] at grounded ⊢
      rw [bind_of_ok result]
      rcases rest value middle fun moment member =>
        grounded moment (List.mem_append_right _ member) with ⟨restFollows, restChronicled⟩
      refine ⟨follows.append restFollows, ?_⟩
      intro moment member
      rcases List.mem_append.mp member with earlier | later
      · exact chronicled moment earlier
      · exact restChronicled moment later

/-- What follows may start and assign nothing more. -/
theorem andThen {continue_ : α → Eval β} (first : Chronicles timeline action)
    (rest : ∀ value, Chronicles idle (continue_ value)) :
    Chronicles timeline (action >>= continue_) := by
  have both := first.bind rest
  rw [Stepwise.append_idle] at both
  exact both

theorem within (chronicles : Chronicles timeline action) (scope : ScopeRef) :
    Chronicles (fun machine => timeline { machine with current := scope })
      (within scope action) := by
  intro machine grounded
  rcases chronicles { machine with current := scope } grounded with ⟨follows, chronicled⟩
  have into : machine.Assigned [] { machine with current := scope } := .of_objects rfl
  refine ⟨?_, chronicled⟩
  rw [endState_within]
  apply (follows.prepend into).andThen
  exact .of_objects rfl

theorem counted (chronicles : Chronicles timeline action) :
    Chronicles (fun machine => timeline { machine with callDepth := machine.callDepth + 1 })
      (counted action) := by
  intro machine grounded
  rcases chronicles { machine with callDepth := machine.callDepth + 1 } grounded with
    ⟨follows, chronicled⟩
  have into : machine.Assigned [] { machine with callDepth := machine.callDepth + 1 } :=
    .of_objects rfl
  refine ⟨?_, chronicled⟩
  rw [endState_counted]
  apply (follows.prepend into).andThen
  exact .of_objects rfl

/-- An evaluation that starts at the moment, whose parts lead to its last step. -/
theorem of_moment {task : Task}
    (ends : ∀ machine, Moment.final ⟨fuel, task, machine⟩ = endState (action machine))
    (parts : ∀ machine, Moment.Grounded ⟨fuel, task, machine⟩ →
      (∀ moment ∈ (task.parts fuel machine).flatMap Moment.moments, moment.Grounded) →
      Moment.Chronicled ⟨fuel, task, machine⟩ ∧
        ∀ moment ∈ (task.parts fuel machine).flatMap Moment.moments, moment.Chronicled) :
    Chronicles (start fuel task) action := by
  intro machine grounded
  rw [start, List.flatMap_singleton, Moment.moments_eq] at grounded
  rcases parts machine (grounded _ List.mem_cons_self) fun moment member =>
    grounded moment (List.mem_cons_of_mem _ member) with ⟨chronicled, partsChronicled⟩
  constructor
  · rw [← ends]
    exact .cons (.refl machine) chronicled.assigned (.nil (.refl _))
  · intro moment member
    rw [start, List.flatMap_singleton, Moment.moments_eq] at member
    rcases List.mem_cons.mp member with rfl | inParts
    · exact chronicled
    · exact partsChronicled moment inParts

theorem of_parts {task : Task}
    (ends : ∀ machine, Moment.final ⟨fuel, task, machine⟩ = endState (action machine))
    (own : ∀ machine, Moment.ownAssignments ⟨fuel, task, machine⟩ = [])
    (chronicles : Chronicles (task.parts fuel) action) : Chronicles (start fuel task) action := by
  apply of_moment ends
  intro machine _ grounded
  rcases chronicles machine grounded with ⟨follows, chronicled⟩
  refine ⟨⟨_, follows, ?_⟩, chronicled⟩
  rw [own, ends]
  exact .refl _

end Chronicles

/-! ## Evaluation -/

/-- The part of a field assignment before the field is set: the object and the value. -/
def assignmentTarget (fuel : Nat) (object value : Expr) (name : Name) :
    Eval (ObjectRef × Value) := do
  match ← evaluate fuel object with
  | .object ref => return (ref, ← evaluate fuel value)
  | _ => fail name.line .fieldOfNonObject

section Set

variable {fuel : Nat} {object value : Expr} {name : Name}

theorem chronicles_assignmentTarget
    (objectChronicles : Chronicles (start fuel (.evaluate object)) (evaluate fuel object))
    (valueChronicles : Chronicles (start fuel (.evaluate value)) (evaluate fuel value)) :
    Chronicles ((Task.evaluate (.set object name value)).parts (fuel + 1))
      (assignmentTarget fuel object value name) := by
  apply objectChronicles.bind
  intro found
  cases found with
  | object ref =>
      apply valueChronicles.andThen
      intro assigned
      exact .of_quiet (Quiet.pure (ref, assigned))
  | _ => exact .of_quiet (Quiet.fail _ _)

theorem evaluate_set_apply (fuel : Nat) (object value : Expr) (name : Name) (machine : Machine) :
    evaluate (fuel + 1) (.set object name value) machine =
      match assignmentTarget fuel object value name machine with
      | .ok (ref, assigned) middle =>
          .ok assigned { middle with heap := middle.heap.setField ref name.text assigned }
      | .error cause middle => .error cause middle := by
  rw [evaluate, assignmentTarget, bind_apply, bind_apply]
  cases evaluate fuel object machine with
  | error cause middle => rfl
  | ok found middle =>
      cases found with
      | object ref =>
          dsimp only
          rw [bind_apply, bind_apply]
          cases evaluate fuel value middle <;> rfl
      | _ => rfl

theorem ownAssignments_set (fuel : Nat) (object value : Expr) (name : Name) (machine : Machine) :
    Moment.ownAssignments ⟨fuel + 1, .evaluate (.set object name value), machine⟩ =
      match assignmentTarget fuel object value name machine with
      | .ok (ref, assigned) _ => [⟨ref, name.text, assigned⟩]
      | .error _ _ => [] := by
  rw [Moment.ownAssignments, assignmentTarget, bind_apply]
  cases evaluate fuel object machine with
  | error cause middle => rfl
  | ok found middle =>
      cases found with
      | object ref =>
          dsimp only
          rw [bind_apply]
          cases evaluate fuel value middle <;> rfl
      | _ => rfl

/-- A field assignment is logged after what its operands assign. -/
theorem chronicles_set (name : Name)
    (objectChronicles : Chronicles (start fuel (.evaluate object)) (evaluate fuel object))
    (valueChronicles : Chronicles (start fuel (.evaluate value)) (evaluate fuel value)) :
    Chronicles (start (fuel + 1) (.evaluate (.set object name value)))
      (evaluate (fuel + 1) (.set object name value)) := by
  apply Chronicles.of_moment fun _ => rfl
  intro machine own grounded
  rcases chronicles_assignmentTarget objectChronicles valueChronicles machine grounded with
    ⟨follows, chronicled⟩
  refine ⟨⟨_, follows, ?_⟩, chronicled⟩
  unfold Moment.Grounded at own
  have ends : Moment.final ⟨fuel + 1, .evaluate (.set object name value), machine⟩ =
    endState (evaluate (fuel + 1) (.set object name value) machine) := rfl
  rw [ends, evaluate_set_apply, ownAssignments_set] at own
  rw [ends, evaluate_set_apply, ownAssignments_set]
  cases result : assignmentTarget fuel object value name machine with
  | error cause middle => exact .refl middle
  | ok target middle =>
      rw [result] at own
      have present := own _ List.mem_cons_self
      have sameSize : (middle.heap.setField target.1 name.text target.2).objects.size =
        middle.heap.objects.size := Array.size_modify
      exact Machine.assigned_setField _ _ _ (Nat.lt_of_lt_of_eq present sameSize)

end Set

theorem chronicles_print {fuel : Nat} {value : Expr}
    (chronicles : Chronicles (start fuel (.evaluate value)) (evaluate fuel value)) :
    Chronicles (start (fuel + 1) (.execute (.print value)))
      (execute (fuel + 1) (.print value)) := by
  apply Chronicles.of_parts (fun _ => rfl) (fun _ => rfl)
  apply chronicles.andThen
  intro result
  apply Chronicles.of_assigned
  intro machine
  exact .of_objects (congrArg Heap.objects (heap_printValue result machine))

theorem chronicles_call {fuel : Nat} {callee : Value} {arguments : List Value} {line : Nat}
    (called : Chronicles (start fuel (.callValue callee arguments line))
      (callValue fuel callee arguments line)) :
    Chronicles
      (after (checkCall callee line arguments.length) fun _ checked =>
        start fuel (.callValue callee arguments line)
          { checked with callDepth := checked.callDepth + 1 })
      (do
        checkCall callee line arguments.length
        counted (callValue fuel callee arguments line)) := by
  have checked : Chronicles idle (checkCall callee line arguments.length) := by
    apply Chronicles.of_assigned
    intro machine
    rw [checkCall_still]
    exact .refl machine
  exact checked.bind fun _ => called.counted

/-- In every evaluation, the parts follow one another. -/
theorem stepwise_chronicles : Stepwise Chronicles where
  quiet quiet := .of_quiet quiet.allow
  flush := .of_assigned fun machine => .of_objects (by rw [flush_still])
  bind first _ rest := first.bind rest
  get starts _ _ rest := fun machine => rest machine machine
  within scope chronicles := chronicles.within scope
  call called := chronicles_call called
  set name objectChronicles valueChronicles := chronicles_set name objectChronicles valueChronicles
  print chronicles := chronicles_print chronicles
  declare evaluated := .of_parts (fun _ => rfl) (fun _ => rfl)
    (Stepwise.declared Chronicles .of_quiet (fun first _ rest => first.bind rest) evaluated)
  whole quiet ends chronicles :=
    .of_parts ends (Moment.ownAssignments_of_not_acts quiet) chronicles

end Lox
