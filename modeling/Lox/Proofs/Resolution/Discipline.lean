import Lox.Proofs.Resolution.Meetings
import Lox.Proofs.Resolution.Violations

/-!
# Scopes are kept in order

Whatever statement is resolved, and whatever it violates, the scopes around the
innermost one are in the end what they were, and the innermost one has only gained
names.  A name waits for its definition only while its own initializer is resolved,
and it waits in the innermost scope, so that a use never meets more than one such
name.
-/

namespace Lox

open ResolverState (distance? SameNames)

/-! ## Names that wait -/

/-- The variable that waits for its definition while an expression in this role is
resolved. -/
def Role.pending : Role → Option String
  | .initializer name => some name
  | _ => none

namespace ResolverState

/-- Every known name is defined. -/
structure AllDefined (state : ResolverState) : Prop where
  scopes : ∀ table ∈ state.scopes, ∀ name ∈ table, table[name]? = some .defined
  globals : ∀ name ∈ state.globals, state.globals[name]? = some .defined

/-- Every known name is defined but the given one, if there is one, which may wait in
the innermost scope, or among the globals where no scope is open. -/
structure DefinedBut (pending : Option String) (state : ResolverState) : Prop where
  outer : ∀ table ∈ state.scopes.tail, ∀ name : String, table[name]? ≠ some Status.declared
  innermost : ∀ table ∈ state.scopes.head?, ∀ name : String,
    table[name]? = some Status.declared → pending = some name
  globals : ∀ name : String, state.globals[name]? = some Status.declared →
    pending = some name ∧ state.scopes = []

theorem forall_defined_iff {table : NameTable} :
    (∀ name ∈ table, table[name]? = some .defined) ↔
      ∀ name : String, table[name]? ≠ some .declared := by
  constructor
  · intro defined name waits
    have known : name ∈ table := Std.TreeMap.mem_iff_isSome_getElem?.mpr (by simp [waits])
    rw [defined name known] at waits
    cases waits
  · intro noneWaits name known
    have isSome := Std.TreeMap.mem_iff_isSome_getElem?.mp known
    obtain ⟨status, entry⟩ := Option.isSome_iff_exists.mp isSome
    cases status with
    | declared => exact absurd entry (noneWaits name)
    | defined => exact entry

theorem allDefined_iff {state : ResolverState} :
    state.AllDefined ↔ state.DefinedBut none := by
  constructor
  · rintro ⟨scopes, globals⟩
    have noneWaits : ∀ table ∈ state.scopes, ∀ name : String, table[name]? ≠ some .declared :=
      fun table member => forall_defined_iff.mp (scopes table member)
    refine ⟨fun table member => noneWaits table (List.mem_of_mem_tail member), ?_, ?_⟩
    · intro table member name waits
      exact absurd waits (noneWaits table (List.mem_of_mem_head? member) name)
    · intro name waits
      exact absurd waits (forall_defined_iff.mp globals name)
  · rintro ⟨outer, innermost, globals⟩
    refine ⟨?_, forall_defined_iff.mpr fun name waits => nomatch (globals name waits).1⟩
    intro table member
    rw [forall_defined_iff]
    intro name waits
    cases opened : state.scopes with
    | nil =>
        rw [opened] at member
        cases member
    | cons first rest =>
        rw [opened] at member outer innermost
        rcases List.mem_cons.mp member with rfl | inRest
        · cases innermost table rfl name waits
        · exact outer table inRest name waits

section DefinedBut

variable {state final : ResolverState} {pending : Option String} {name : Name}

theorem DefinedBut.congr (defined : state.DefinedBut pending)
    (scopes : final.scopes = state.scopes) (globals : final.globals = state.globals) :
    final.DefinedBut pending := by
  constructor
  · rw [scopes]
    exact defined.outer
  · rw [scopes]
    exact defined.innermost
  · rw [globals, scopes]
    exact defined.globals

theorem DefinedBut.same (defined : state.DefinedBut pending) (same : SameNames state final) :
    final.DefinedBut pending :=
  defined.congr same.scopes same.globals

theorem DefinedBut.weaken (defined : state.DefinedBut none) (pending : Option String) :
    state.DefinedBut pending where
  outer := defined.outer
  innermost table member name waits := nomatch defined.innermost table member name waits
  globals name waits := nomatch (defined.globals name waits).1

theorem DefinedBut.enter (defined : state.DefinedBut none) : state.enter.DefinedBut none := by
  refine ⟨?_, ?_, fun name waits => nomatch (defined.globals name waits).1⟩
  · have all := (allDefined_iff.mpr defined).scopes
    exact fun table member => forall_defined_iff.mp (all table member)
  · rintro table ⟨⟩ name waits
    simp at waits

/-- Only the name that is declared may wait. -/
theorem DefinedBut.declare (defined : state.DefinedBut none) (name : Name) :
    (state.declare name).DefinedBut (some name.text) := by
  have weaker := defined.weaken (some name.text)
  unfold ResolverState.declare
  split
  next opened =>
    refine ⟨weaker.outer, weaker.innermost, ?_⟩
    intro other waits
    refine ⟨?_, opened⟩
    by_cases same : name.text = other
    · rw [same]
    · have apart : compare name.text other ≠ .eq :=
        fun equal => same (Std.LawfulEqCmp.eq_of_compare equal)
      simp only [Std.TreeMap.getElem?_insertIfNew, apart, false_and, if_false] at waits
      cases (defined.globals other waits).1
  next table outer opened =>
    split
    next => exact weaker.same (.report state name .alreadyDeclared)
    next =>
      have outerDefined := defined.outer
      have innermostDefined := defined.innermost
      rw [opened] at outerDefined innermostDefined
      refine ⟨outerDefined, ?_, fun other waits => nomatch (defined.globals other waits).1⟩
      rintro inserted ⟨⟩ other waits
      by_cases same : name.text = other
      · rw [same]
      · rw [Table.getElem?_insert, if_neg same] at waits
        cases innermostDefined table rfl other waits

/-- Once it is defined, the name does not wait any more. -/
theorem DefinedBut.define {name : String} (defined : state.DefinedBut (some name)) :
    (state.define name).DefinedBut none := by
  have outer := defined.outer
  have innermost := defined.innermost
  unfold ResolverState.define
  split
  next opened =>
    rw [opened] at outer innermost
    refine ⟨by simp [opened], by simp [opened], ?_⟩
    intro other waits
    rw [Table.getElem?_insert] at waits
    split at waits
    next => cases waits
    next different =>
      exact absurd (Option.some.inj (defined.globals other waits).1) different
  next table rest opened =>
    rw [opened] at outer innermost
    refine ⟨outer, ?_, ?_⟩
    · rintro inserted ⟨⟩ other waits
      rw [Table.getElem?_insert] at waits
      split at waits
      next => cases waits
      next different =>
        exact absurd (Option.some.inj (innermost table rfl other waits)) different
    · intro other waits
      have closed := (defined.globals other waits).2
      rw [opened] at closed
      cases closed

theorem DefinedBut.introduce (defined : state.DefinedBut none) (name : Name) :
    (state.introduce name).DefinedBut none :=
  (defined.declare name).define

end DefinedBut

/-! ## Scopes that grow -/

/-- From the first scopes and globals to the second, the innermost scope, or the table
of globals where no scope is open, has gained names, and nothing else is different. -/
inductive Gained : List NameTable → NameTable → List NameTable → NameTable → Prop where
  | global {globals final : NameTable} :
      (∀ name ∈ globals, name ∈ final) → Gained [] globals [] final
  | local {table grown globals : NameTable} {outer : List NameTable} :
      (∀ name ∈ table, name ∈ grown) → Gained (table :: outer) globals (grown :: outer) globals

theorem Gained.refl (scopes : List NameTable) (globals : NameTable) :
    Gained scopes globals scopes globals := by
  cases scopes with
  | nil => exact .global fun _ member => member
  | cons table outer => exact .local fun _ member => member

theorem Gained.trans {scopes middle final : List NameTable} {globals between last : NameTable}
    (first : Gained scopes globals middle between) (second : Gained middle between final last) :
    Gained scopes globals final last := by
  cases first with
  | global gained =>
      cases second with
      | global more => exact .global fun name member => more name (gained name member)
  | «local» gained =>
      cases second with
      | «local» more => exact .local fun name member => more name (gained name member)

theorem Gained.tail {scopes final : List NameTable} {globals last : NameTable}
    (gained : Gained scopes globals final last) : final.tail = scopes.tail := by
  cases gained <;> rfl

theorem Gained.length {scopes final : List NameTable} {globals last : NameTable}
    (gained : Gained scopes globals final last) : final.length = scopes.length := by
  cases gained <;> rfl

theorem mem_insert {table : NameTable} {name : String} (member : name ∈ table) (key : String)
    (status : Status) : name ∈ table.insert key status :=
  Std.TreeMap.mem_insert.mpr (.inr member)

/-- From one state to the other, only names were gained, all of them are defined, and
the contexts are the same. -/
structure Keeps (state final : ResolverState) : Prop where
  gained : Gained state.scopes state.globals final.scopes final.globals
  defined : final.DefinedBut none
  functionContext : final.functionContext = state.functionContext
  classContext : final.classContext = state.classContext

section Keeps

variable {state middle final : ResolverState}

theorem SameNames.gained (same : SameNames state final) :
    Gained state.scopes state.globals final.scopes final.globals := by
  rw [same.scopes, same.globals]
  exact .refl _ _

theorem SameNames.keeps (same : SameNames state final) (defined : state.DefinedBut none) :
    Keeps state final :=
  ⟨same.gained, defined.same same, same.functionContext, same.classContext⟩

theorem Keeps.trans (first : Keeps state middle) (second : Keeps middle final) :
    Keeps state final :=
  ⟨first.gained.trans second.gained, second.defined,
    second.functionContext.trans first.functionContext,
    second.classContext.trans first.classContext⟩

theorem declare_gained (state : ResolverState) (name : Name) :
    Gained state.scopes state.globals (state.declare name).scopes (state.declare name).globals := by
  unfold declare
  split
  next opened =>
    dsimp only
    rw [opened]
    exact .global fun other member => Std.TreeMap.mem_insertIfNew.mpr (.inr member)
  next table outer opened =>
    split
    next => exact .refl _ _
    next =>
      dsimp only
      rw [opened]
      exact .local fun other member => mem_insert member name.text .declared

theorem define_gained (state : ResolverState) (name : String) :
    Gained state.scopes state.globals (state.define name).scopes (state.define name).globals := by
  unfold define
  split
  next opened =>
    dsimp only
    rw [opened]
    exact .global fun other member => mem_insert member name .defined
  next table outer opened =>
    dsimp only
    rw [opened]
    exact .local fun other member => mem_insert member name .defined

theorem declare_functionContext (state : ResolverState) (name : Name) :
    (state.declare name).functionContext = state.functionContext := by
  unfold declare
  repeat' split
  all_goals rfl

theorem define_functionContext (state : ResolverState) (name : String) :
    (state.define name).functionContext = state.functionContext := by
  unfold define
  split <;> rfl

theorem define_classContext (state : ResolverState) (name : String) :
    (state.define name).classContext = state.classContext := by
  unfold define
  split <;> rfl

theorem Keeps.define (defined : state.DefinedBut none) (name : String) :
    Keeps state (state.define name) where
  gained := state.define_gained name
  defined := (defined.weaken (some name)).define
  functionContext := define_functionContext state name
  classContext := define_classContext state name

theorem Keeps.introduce (defined : state.DefinedBut none) (name : Name) :
    Keeps state (state.introduce name) where
  gained := (state.declare_gained name).trans ((state.declare name).define_gained name.text)
  defined := defined.introduce name
  functionContext :=
    (define_functionContext _ name.text).trans (declare_functionContext state name)
  classContext := (define_classContext _ name.text).trans (declare_classContext state name)

theorem Keeps.params (defined : state.DefinedBut none) (params : List Name) :
    Keeps state (params.foldl ResolverState.introduce state) := by
  induction params generalizing state with
  | nil => exact (SameNames.refl state).keeps defined
  | cons first rest inductionHypothesis =>
      have introduced := Keeps.introduce defined first
      exact introduced.trans (inductionHypothesis introduced.defined)

/-- A scope that was opened for a while leaves no trace in the scopes and globals. -/
theorem Keeps.leave (walked : Keeps state.enter final) : SameNames state final.leave := by
  have gained := walked.gained
  refine ⟨gained.tail, ?_, walked.functionContext, walked.classContext⟩
  change final.globals = state.globals
  change Gained (∅ :: state.scopes) state.globals final.scopes final.globals at gained
  generalize final.globals = globals at gained ⊢
  generalize final.scopes = scopes at gained
  cases gained with
  | «local» => rfl

end Keeps

end ResolverState

/-! ## Meetings -/

namespace Meeting

/-- What is recorded at the meeting.  Where `this` or `super` is not allowed, nothing
is looked up. -/
def recorded? (meeting : Meeting) : Option Use :=
  match meeting.node with
  | .this id _ =>
      if meeting.state.classContext = .outside then none
      else some ⟨id, "this", distance? "this" .read meeting.state.scopes⟩
  | .super id _ _ =>
      if meeting.state.classContext = .derived then
        some ⟨id, "super", distance? "super" .read meeting.state.scopes⟩
      else none
  | node => node.use?.map fun (id, name, access) =>
      ⟨id, name, distance? name access meeting.state.scopes⟩

end Meeting

namespace ResolverState

/-- From one state to the other, resolution has had the given meetings.  Each of them is
in a state in which those before it are recorded, and only the variable in whose
initializer it is may wait for its definition. -/
structure Meets (state final : ResolverState) (meetings : List Meeting) : Prop where
  defined : ∀ meeting ∈ meetings, meeting.state.DefinedBut meeting.role.pending
  before : ∀ earlier meeting later, meetings = earlier ++ meeting :: later →
    meeting.state.uses.toList = state.uses.toList ++ earlier.filterMap Meeting.recorded?
  recorded : final.uses.toList = state.uses.toList ++ meetings.filterMap Meeting.recorded?

variable {state middle final start last : ResolverState} {meetings more : List Meeting}

theorem Meets.of_same (uses : final.uses = state.uses) : Meets state final [] := by
  refine ⟨nofun, ?_, by simp [uses]⟩
  intro earlier meeting later split
  simp at split

theorem Meets.trans (first : Meets state middle meetings) (second : Meets middle final more) :
    Meets state final (meetings ++ more) := by
  refine ⟨?_, ?_, ?_⟩
  · intro meeting member
    rcases List.mem_append.mp member with inFirst | inSecond
    · exact first.defined meeting inFirst
    · exact second.defined meeting inSecond
  · intro earlier meeting later split
    rcases List.append_eq_append_iff.mp split with
      ⟨between, rfl, inSecond⟩ | ⟨rest, inFirst, behind⟩
    · rw [second.before between meeting later inSecond, first.recorded, List.filterMap_append,
        List.append_assoc]
    · cases rest with
      | nil =>
          rw [List.append_nil] at inFirst
          rw [second.before [] meeting later behind.symm, first.recorded, inFirst]
          exact List.append_nil _
      | cons head tail =>
          obtain ⟨rfl, -⟩ := List.cons_eq_cons.mp behind
          exact first.before earlier meeting tail inFirst
  · rw [second.recorded, first.recorded, List.filterMap_append, List.append_assoc]

/-- States that differ in other things than what is recorded. -/
theorem Meets.congr (meets : Meets state final meetings) (uses : start.uses = state.uses)
    (lastUses : last.uses = final.uses) : Meets start last meetings := by
  refine ⟨meets.defined, ?_, ?_⟩
  · rw [uses]
    exact meets.before
  · rw [lastUses, uses, meets.recorded]

theorem Meets.single {meeting : Meeting}
    (defined : meeting.state.DefinedBut meeting.role.pending)
    (now : meeting.state.uses = state.uses)
    (recorded : final.uses.toList = state.uses.toList ++ meeting.recorded?.toList) :
    Meets state final [meeting] := by
  refine ⟨?_, ?_, ?_⟩
  · intro other member
    rw [List.mem_singleton.mp member]
    exact defined
  · intro earlier other later split
    cases earlier with
    | nil =>
        obtain ⟨rfl, -⟩ := List.cons_eq_cons.mp split
        simp [now]
    | cons head tail => simp at split
  · rw [recorded, List.filterMap_cons]
    cases meeting.recorded? <;> rfl

theorem declare_uses (state : ResolverState) (name : Name) :
    (state.declare name).uses = state.uses := by
  unfold declare
  repeat' split
  all_goals rfl

theorem define_uses (state : ResolverState) (name : String) :
    (state.define name).uses = state.uses := by
  unfold define
  split <;> rfl

theorem introduce_uses (state : ResolverState) (name : Name) :
    (state.introduce name).uses = state.uses :=
  (define_uses _ name.text).trans (declare_uses state name)

theorem params_uses (params : List Name) (state : ResolverState) :
    (params.foldl introduce state).uses = state.uses := by
  induction params generalizing state with
  | nil => rfl
  | cons first rest inductionHypothesis =>
      exact (inductionHypothesis (state.introduce first)).trans (introduce_uses state first)

theorem read_sameNames (state : ResolverState) (id : UseId) (name : Name) :
    SameNames state (state.read id name) := by
  unfold read
  dsimp only
  split <;> exact ⟨rfl, rfl, rfl, rfl⟩

theorem read_uses (state : ResolverState) (id : UseId) (name : Name) :
    (state.read id name).uses = (state.use id name.text .read).uses := by
  unfold read
  dsimp only
  split <;> rfl

end ResolverState

open ResolverState (DefinedBut Keeps Meets)

/-! ## Expressions -/

namespace Expr

mutual

/-- Expressions change no names, and what they meet is recorded. -/
theorem resolve_meets : ∀ (expr : Expr) (role : Role) (state : ResolverState),
    state.DefinedBut role.pending →
      SameNames state (expr.resolve state) ∧
        Meets state (expr.resolve state) (expr.meetings role state)
  | .literal _, _, state, _ => by
      rw [resolve, meetings]
      exact ⟨.refl state, .of_same rfl⟩
  | .group inner, role, state, defined => by
      rw [resolve, meetings]
      exact resolve_meets inner role state defined
  | .unary _ operand, role, state, defined => by
      rw [resolve, meetings]
      exact resolve_meets operand role state defined
  | .binary left _ right, role, state, defined => by
      rw [resolve, meetings]
      obtain ⟨same, meets⟩ := resolve_meets left role state defined
      obtain ⟨same', meets'⟩ := resolve_meets right role _ (defined.same same)
      exact ⟨same.trans same', meets.trans meets'⟩
  | .logical left _ right, role, state, defined => by
      rw [resolve, meetings]
      obtain ⟨same, meets⟩ := resolve_meets left role state defined
      obtain ⟨same', meets'⟩ := resolve_meets right role _ (defined.same same)
      exact ⟨same.trans same', meets.trans meets'⟩
  | .var id name, role, state, defined => by
      rw [resolve, meetings]
      refine ⟨state.read_sameNames id name, .single defined rfl ?_⟩
      rw [state.read_uses]
      exact Array.toList_push
  | .assign id name value, role, state, defined => by
      rw [resolve, meetings]
      obtain ⟨same, meets⟩ := resolve_meets value role state defined
      have written : Meets (value.resolve state) ((value.resolve state).use id name.text .write)
          [⟨.assign id name value, role, value.resolve state⟩] :=
        .single (defined.same same) rfl Array.toList_push
      exact ⟨⟨same.scopes, same.globals, same.functionContext, same.classContext⟩,
        meets.trans written⟩
  | .call callee _ arguments, role, state, defined => by
      rw [resolve, meetings]
      obtain ⟨same, meets⟩ := resolve_meets callee role state defined
      obtain ⟨same', meets'⟩ := resolveEach_meets arguments role _ (defined.same same)
      exact ⟨same.trans same', meets.trans meets'⟩
  | .get object _, role, state, defined => by
      rw [resolve, meetings]
      exact resolve_meets object role state defined
  | .set object _ value, role, state, defined => by
      rw [resolve, meetings]
      obtain ⟨same, meets⟩ := resolve_meets value role state defined
      obtain ⟨same', meets'⟩ := resolve_meets object role _ (defined.same same)
      exact ⟨same.trans same', meets.trans meets'⟩
  | .this id line, role, state, defined => by
      rw [resolve, meetings]
      by_cases outside : state.classContext = .outside
      · rw [if_pos outside]
        refine ⟨.report _ _ _, .single defined rfl ?_⟩
        simp [Meeting.recorded?, outside, ResolverState.report]
      · rw [if_neg outside]
        refine ⟨⟨rfl, rfl, rfl, rfl⟩, .single defined rfl ?_⟩
        simp [Meeting.recorded?, outside, ResolverState.use]
  | .super id line method, role, state, defined => by
      rw [resolve, meetings]
      split
      next outside =>
        refine ⟨.report _ _ _, .single defined rfl ?_⟩
        simp [Meeting.recorded?, outside, ResolverState.report]
      next plain =>
        refine ⟨.report _ _ _, .single defined rfl ?_⟩
        simp [Meeting.recorded?, plain, ResolverState.report]
      next derived =>
        refine ⟨⟨rfl, rfl, rfl, rfl⟩, .single defined rfl ?_⟩
        simp [Meeting.recorded?, derived, ResolverState.use]

theorem resolveEach_meets : ∀ (exprs : List Expr) (role : Role) (state : ResolverState),
    state.DefinedBut role.pending →
      SameNames state (resolveEach exprs state) ∧
        Meets state (resolveEach exprs state) (meetingsEach role exprs state)
  | [], _, state, _ => by
      rw [resolveEach, meetingsEach]
      exact ⟨.refl state, .of_same rfl⟩
  | first :: rest, role, state, defined => by
      rw [resolveEach, meetingsEach]
      obtain ⟨same, meets⟩ := resolve_meets first role state defined
      obtain ⟨same', meets'⟩ := resolveEach_meets rest role _ (defined.same same)
      exact ⟨same.trans same', meets.trans meets'⟩

end

theorem resolveOption_meets (expr : Option Expr) (role : Role) {state : ResolverState}
    (defined : state.DefinedBut role.pending) :
    SameNames state (resolveOption expr state) ∧
      Meets state (resolveOption expr state) (optionMeetings role expr state) := by
  cases expr with
  | none => exact ⟨.refl state, .of_same rfl⟩
  | some value => exact value.resolve_meets role state defined

end Expr

/-! ## Statements -/

namespace ResolverState

theorem checkReturn_same (state : ResolverState) (line : Nat) (hasValue : Bool) :
    SameNames state (state.checkReturn line hasValue) ∧
      (state.checkReturn line hasValue).uses = state.uses := by
  unfold checkReturn
  dsimp only
  repeat' split
  all_goals exact ⟨⟨rfl, rfl, rfl, rfl⟩, rfl⟩

theorem checkSuperclass_same (state : ResolverState) (name : Name) (superclass : Expr) :
    SameNames state (state.checkSuperclass name superclass) ∧
      (state.checkSuperclass name superclass).uses = state.uses := by
  unfold checkSuperclass
  repeat' split
  all_goals exact ⟨⟨rfl, rfl, rfl, rfl⟩, rfl⟩

end ResolverState

namespace Stmt

/-- A variable is the only one that waits while its own initializer is resolved. -/
theorem var_meets (name : Name) (initializer : Option Expr) {state : ResolverState}
    (defined : state.DefinedBut none) :
    Keeps state ((Stmt.var name initializer).resolve state) ∧
      Meets state ((Stmt.var name initializer).resolve state)
        ((Stmt.var name initializer).meetings state) := by
  rw [resolve, meetings]
  have declared := defined.declare name
  obtain ⟨same, meets⟩ :=
    Expr.resolveOption_meets initializer (.initializer name.text) declared
  have gained := ((state.declare_gained name).trans same.gained).trans
    (ResolverState.define_gained _ name.text)
  have functionContext := (ResolverState.define_functionContext _ name.text).trans
    (same.functionContext.trans (state.declare_functionContext name))
  have classContext := (ResolverState.define_classContext _ name.text).trans
    (same.classContext.trans (ResolverState.declare_classContext state name))
  exact ⟨⟨gained, (declared.same same).define, functionContext, classContext⟩,
    meets.congr (state.declare_uses name).symm (ResolverState.define_uses _ name.text)⟩

/-- What is resolved in the scope of `this` leaves the scopes as they were. -/
theorem classBody_meets {methods : List FunctionDecl}
    (inMethods : ∀ state : ResolverState, state.DefinedBut none →
      SameNames state (resolveMethods methods state) ∧
        Meets state (resolveMethods methods state) (methodMeetings methods state))
    {state : ResolverState} (defined : state.DefinedBut none) :
    SameNames state (resolveMethods methods (state.enter.define "this")).leave ∧
      Meets state (resolveMethods methods (state.enter.define "this")).leave
        (methodMeetings methods (state.enter.define "this")) := by
  have bound := Keeps.define defined.enter "this"
  obtain ⟨same, meets⟩ := inMethods _ bound.defined
  have walked := bound.trans (same.keeps bound.defined)
  exact ⟨walked.leave, meets.congr (state.enter.define_uses "this").symm rfl⟩

/-- The scopes of `super` and `this` are both closed again, and the class around is
the same behind them. -/
theorem class_meets {methods : List FunctionDecl}
    (inMethods : ∀ state : ResolverState, state.DefinedBut none →
      SameNames state (resolveMethods methods state) ∧
        Meets state (resolveMethods methods state) (methodMeetings methods state))
    (name : Name) (superclass : Option Expr) {state : ResolverState}
    (defined : state.DefinedBut none) :
    Keeps state ((Stmt.class_ name superclass methods).resolve state) ∧
      Meets state ((Stmt.class_ name superclass methods).resolve state)
        ((Stmt.class_ name superclass methods).meetings state) := by
  have inClass : { state with classContext := .plain }.DefinedBut none := defined.congr rfl rfl
  have introduced := Keeps.introduce inClass name
  have introducedUses := ({ state with classContext := .plain }).introduce_uses name
  cases superclass with
  | none =>
      rw [resolve, meetings]
      dsimp only [ResolverState.enterSuperclass, ResolverState.leaveSuperclass]
      obtain ⟨same, meets⟩ := classBody_meets inMethods introduced.defined
      have walked := introduced.trans (same.keeps introduced.defined)
      exact ⟨⟨walked.gained, walked.defined.congr rfl rfl, walked.functionContext, rfl⟩,
        meets.congr introducedUses.symm rfl⟩
  | some superclass =>
      rw [resolve, meetings]
      dsimp only [ResolverState.enterSuperclass, ResolverState.leaveSuperclass]
      generalize ({ state with classContext := .plain }).introduce name = declared at *
      obtain ⟨checkedSame, checkedUses⟩ := declared.checkSuperclass_same name superclass
      generalize declared.checkSuperclass name superclass = checked at *
      have derived : { checked with classContext := .derived }.DefinedBut none :=
        (introduced.defined.same checkedSame).congr rfl rfl
      obtain ⟨same, meets⟩ := superclass.resolve_meets (.superclass name.text) _ derived
      generalize superclass.resolve { checked with classContext := .derived } = resolved at *
      have bound := Keeps.define (derived.same same).enter "super"
      obtain ⟨bodySame, bodyMeets⟩ := classBody_meets inMethods bound.defined
      have back := same.trans (bound.trans (bodySame.keeps bound.defined)).leave
      generalize resolveMethods methods ((resolved.enter.define "super").enter.define "this") =
        final at *
      have restored : SameNames declared
          { final.leave.leave with classContext := declared.classContext } :=
        ⟨back.scopes.trans checkedSame.scopes, back.globals.trans checkedSame.globals,
          back.functionContext.trans checkedSame.functionContext, rfl⟩
      have walked := introduced.trans (restored.keeps introduced.defined)
      refine ⟨⟨walked.gained, walked.defined.congr rfl rfl, walked.functionContext, rfl⟩, ?_⟩
      have whole := (meets.congr (checkedUses.trans introducedUses).symm rfl).trans
        (bodyMeets.congr (resolved.enter.define_uses "super").symm rfl)
      exact whole.congr rfl rfl

mutual

/-- Whatever a statement violates, it leaves the scopes around it in order. -/
theorem resolve_meets : ∀ (stmt : Stmt) (state : ResolverState), state.DefinedBut none →
    Keeps state (stmt.resolve state) ∧ Meets state (stmt.resolve state) (stmt.meetings state)
  | .expression value, state, defined => by
      rw [resolve, meetings]
      obtain ⟨same, meets⟩ := value.resolve_meets .ordinary state defined
      exact ⟨same.keeps defined, meets⟩
  | .print value, state, defined => by
      rw [resolve, meetings]
      obtain ⟨same, meets⟩ := value.resolve_meets .ordinary state defined
      exact ⟨same.keeps defined, meets⟩
  | .var name initializer, state, defined => var_meets name initializer defined
  | .block body, state, defined => by
      rw [resolve, meetings]
      obtain ⟨keeps, meets⟩ := resolveEach_meets body state.enter defined.enter
      exact ⟨keeps.leave.keeps defined, meets.congr rfl rfl⟩
  | .if_ condition thenBranch none, state, defined => by
      rw [resolve, meetings]
      obtain ⟨same, meets⟩ := condition.resolve_meets .ordinary state defined
      have tested := same.keeps defined
      obtain ⟨keeps, meets'⟩ := resolve_meets thenBranch _ tested.defined
      exact ⟨tested.trans keeps, meets.trans meets'⟩
  | .if_ condition thenBranch (some elseBranch), state, defined => by
      rw [resolve, meetings]
      obtain ⟨same, meets⟩ := condition.resolve_meets .ordinary state defined
      have tested := same.keeps defined
      obtain ⟨keeps, meets'⟩ := resolve_meets thenBranch _ tested.defined
      obtain ⟨elseKeeps, elseMeets⟩ := resolve_meets elseBranch _ keeps.defined
      exact ⟨(tested.trans keeps).trans elseKeeps, (meets.trans meets').trans elseMeets⟩
  | .while_ condition body, state, defined => by
      rw [resolve, meetings]
      obtain ⟨same, meets⟩ := condition.resolve_meets .ordinary state defined
      have tested := same.keeps defined
      obtain ⟨keeps, meets'⟩ := resolve_meets body _ tested.defined
      exact ⟨tested.trans keeps, meets.trans meets'⟩
  | .function declaration, state, defined => by
      rw [resolve, meetings]
      have introduced := Keeps.introduce defined declaration.name
      obtain ⟨same, meets⟩ := resolveFunction_meets declaration .function _ introduced.defined
      exact ⟨introduced.trans (same.keeps introduced.defined),
        meets.congr (state.introduce_uses declaration.name).symm rfl⟩
  | .return_ line value, state, defined => by
      rw [resolve, meetings]
      obtain ⟨checkedSame, checkedUses⟩ := state.checkReturn_same line value.isSome
      obtain ⟨same, meets⟩ := Expr.resolveOption_meets value .ordinary (defined.same checkedSame)
      exact ⟨(checkedSame.trans same).keeps defined, meets.congr checkedUses.symm rfl⟩
  | .class_ name superclass methods, state, defined =>
      class_meets (fun state => resolveMethods_meets methods state) name superclass defined

theorem resolveEach_meets : ∀ (stmts : List Stmt) (state : ResolverState),
    state.DefinedBut none →
      Keeps state (resolveEach stmts state) ∧
        Meets state (resolveEach stmts state) (meetingsEach stmts state)
  | [], state, defined => by
      rw [resolveEach, meetingsEach]
      exact ⟨(SameNames.refl state).keeps defined, .of_same rfl⟩
  | first :: rest, state, defined => by
      rw [resolveEach, meetingsEach]
      obtain ⟨keeps, meets⟩ := resolve_meets first state defined
      obtain ⟨restKeeps, restMeets⟩ := resolveEach_meets rest _ keeps.defined
      exact ⟨keeps.trans restKeeps, meets.trans restMeets⟩

theorem resolveFunction_meets : ∀ (declaration : FunctionDecl) (context : FunctionContext)
    (state : ResolverState), state.DefinedBut none →
      SameNames state (resolveFunction context declaration state) ∧
        Meets state (resolveFunction context declaration state)
          (functionMeetings context declaration state)
  | ⟨name, params, body⟩, context, state, defined => by
      rw [resolveFunction, functionMeetings]
      have inBody : { state with functionContext := context }.DefinedBut none :=
        defined.congr rfl rfl
      have introduced := Keeps.params inBody.enter params
      obtain ⟨keeps, meets⟩ := resolveEach_meets body _ introduced.defined
      have left := (introduced.trans keeps).leave
      have uses := ResolverState.params_uses params { state with functionContext := context }.enter
      exact ⟨⟨left.scopes, left.globals, rfl, left.classContext⟩, meets.congr uses.symm rfl⟩

theorem resolveMethods_meets : ∀ (methods : List FunctionDecl) (state : ResolverState),
    state.DefinedBut none →
      SameNames state (resolveMethods methods state) ∧
        Meets state (resolveMethods methods state) (methodMeetings methods state)
  | [], state, _ => by
      rw [resolveMethods, methodMeetings]
      exact ⟨.refl state, .of_same rfl⟩
  | first :: rest, state, defined => by
      rw [resolveMethods, methodMeetings]
      obtain ⟨same, meets⟩ :=
        resolveFunction_meets first (methodContext first.name) state defined
      obtain ⟨restSame, restMeets⟩ := resolveMethods_meets rest _ (defined.same same)
      exact ⟨same.trans restSame, meets.trans restMeets⟩

end

end Stmt

/-! ## Any statement in any place -/

open ResolverState (Gained)

/-- Before a program, every known name is defined. -/
theorem ResolverState.initial_allDefined (globals : List String) :
    (ResolverState.initial globals).AllDefined := by
  refine ⟨nofun, ?_⟩
  rw [forall_defined_iff]
  intro name waits
  rw [ResolverState.initial, getElem?_foldl_insert] at waits
  split at waits
  · cases waits
  · simp at waits

/-- Where every known name is defined, a statement leaves as many scopes as there were,
all but the innermost one unchanged, and the same contexts, whatever it violates.  The
innermost scope, or the table of globals where no scope is open, has gained names, and all
of them are defined.  What is recorded on the way is what is looked up at the meetings,
and at each of them only the variable in whose initializer it is may be declared and not
defined: in the innermost scope, or among the globals if no scope is open. -/
theorem statement_keeps_scopes (stmt : Stmt) {state : ResolverState}
    (defined : state.AllDefined) :
    (stmt.resolve state).scopes.length = state.scopes.length ∧
      (stmt.resolve state).scopes.tail = state.scopes.tail ∧
      Gained state.scopes state.globals (stmt.resolve state).scopes
        (stmt.resolve state).globals ∧
      (stmt.resolve state).AllDefined ∧
      (stmt.resolve state).functionContext = state.functionContext ∧
      (stmt.resolve state).classContext = state.classContext ∧
      (stmt.resolve state).uses.toList =
        state.uses.toList ++ (stmt.meetings state).filterMap Meeting.recorded? ∧
      ∀ earlier meeting later, stmt.meetings state = earlier ++ meeting :: later →
        meeting.state.uses.toList = state.uses.toList ++ earlier.filterMap Meeting.recorded? ∧
          meeting.state.DefinedBut meeting.role.pending := by
  obtain ⟨keeps, meets⟩ := stmt.resolve_meets state (ResolverState.allDefined_iff.mp defined)
  refine ⟨keeps.gained.length, keeps.gained.tail, keeps.gained,
    ResolverState.allDefined_iff.mpr keeps.defined, keeps.functionContext, keeps.classContext,
    meets.recorded, ?_⟩
  intro earlier meeting later split
  exact ⟨meets.before earlier meeting later split, meets.defined meeting (by simp [split])⟩

/-- A scope that has a variable `a`. -/
def scopeOfA : ResolverState :=
  (ResolverState.initial ["clock"]).enter.introduce ⟨"a", 1⟩

theorem scopeOfA_allDefined : scopeOfA.AllDefined :=
  ResolverState.allDefined_iff.mpr
    ((ResolverState.allDefined_iff.mp (ResolverState.initial_allDefined _)).enter.introduce _)

/-- A class `a` below itself, whose initializer has two parameters of one name, a variable
that reads itself, and a value to return. -/
def misdeclaredClass : Stmt :=
  .class_ ⟨"a", 2⟩ (some (.var 0 ⟨"a", 2⟩))
    [⟨⟨"init", 3⟩, [⟨"x", 3⟩, ⟨"x", 3⟩],
      [.var ⟨"y", 4⟩ (some (.var 1 ⟨"y", 4⟩)), .return_ 5 (some (.this 2 5))]⟩]

theorem misdeclaredClass_keeps_scopes :
    scopeOfA.AllDefined ∧
      (misdeclaredClass.resolve scopeOfA).errors.toList.map ResolutionError.fault =
        [.alreadyDeclared, .inheritsFromItself, .alreadyDeclared, .readInOwnInitializer,
          .returnValueFromInitializer] ∧
      (misdeclaredClass.meetings scopeOfA).map (·.role.pending) = [none, some "y", none] ∧
      (misdeclaredClass.resolve scopeOfA).scopes.length = scopeOfA.scopes.length ∧
      (misdeclaredClass.resolve scopeOfA).AllDefined := by
  obtain ⟨length, -, -, defined, -⟩ := statement_keeps_scopes misdeclaredClass scopeOfA_allDefined
  exact ⟨scopeOfA_allDefined, by decide +kernel, by decide +kernel, length, defined⟩

end Lox
