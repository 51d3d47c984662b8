import Mathlib
import Lox.Proofs.Resolution.Meetings
import Lox.Proofs.Session.Histories

/-!
# Agreement of resolution and evaluation

Whenever a use of a variable is evaluated, in whatever unit of a session and
through whatever closure, the chain of scopes has the shape that resolution knew
when it met that use.  So a recorded distance always leads to the variable.
-/

namespace Lox

open ResolverState (distance?)
open Eval

/-! ## Chains -/

theorem distance?_eq_some {name : String} {access : Access} {scopes : List NameTable}
    {distance : Nat} (found : distance? name access scopes = some distance) :
    ∃ table : NameTable, scopes[distance]? = some table ∧
      ∃ status, table[name]? = some status ∧ (status = .defined ∨ access = .write) := by
  induction scopes generalizing distance with
  | nil => cases found
  | cons scope outer inductionHypothesis =>
      rw [distance?] at found
      split at found
      next here =>
        cases found
        refine ⟨scope, rfl, ?_⟩
        simp only [Bool.or_eq_true, Bool.and_eq_true, decide_eq_true_eq,
          Std.TreeMap.contains_eq_isSome_getElem?] at here
        rcases here with defined | ⟨known, written⟩
        · exact ⟨.defined, defined, .inl rfl⟩
        · rcases Option.isSome_iff_exists.mp known with ⟨status, entry⟩
          exact ⟨status, entry, .inr written⟩
      next =>
        rcases Option.map_eq_some_iff.mp found with ⟨inner, isInner, rfl⟩
        exact inductionHypothesis isInner

section Chains

variable {scopes : Scopes} {globals ref : ScopeRef} {tables : List NameTable}

theorem Realizes.ancestor_globals (realizes : Realizes scopes globals ref tables) :
    scopes.ancestor? ref tables.length = some globals := by
  induction tables generalizing ref with
  | nil => exact congrArg some realizes
  | cons table outer inductionHypothesis =>
      rcases realizes with ⟨-, -, parent, linked, rest⟩
      rw [List.length_cons, Scopes.ancestor?, linked]
      exact inductionHypothesis rest

theorem Realizes.ancestor (realizes : Realizes scopes globals ref tables) {distance : Nat}
    {table : NameTable} (present : tables[distance]? = some table) :
    ∃ scope, scopes.ancestor? ref distance = some scope ∧ scope ≠ globals ∧
      Binds scopes scope table := by
  induction tables generalizing ref distance with
  | nil => cases present
  | cons innermost outer inductionHypothesis =>
      rcases realizes with ⟨inner, binds, parent, linked, rest⟩
      cases distance with
      | zero =>
          cases present
          exact ⟨ref, rfl, inner, binds⟩
      | succ distance =>
          rw [Scopes.ancestor?, linked]
          exact inductionHypothesis rest present

end Chains

/-- The scopes of a place are those of the chain, but for a name that is just being
declared. -/
theorem Role.place_scopes (role : Role) (tables : List NameTable) (isInner : Bool)
    {distance : Nat} {table : NameTable}
    (present : (role.place tables isInner).scopes[distance]? = some table) :
    ∃ realized, tables[distance]? = some realized ∧
      ∀ (name : String) (status : Status), table[name]? = some status →
        realized[name]? = some status ∨ (distance = 0 ∧
          ((role = .initializer name ∧ status = .declared) ∨
            (role = .superclass name ∧ status = .defined))) := by
  cases role with
  | ordinary => exact ⟨table, present, fun _ _ known => .inl known⟩
  | initializer declared =>
      cases tables with
      | nil => cases present
      | cons innermost outer =>
          simp only [place, declareIn] at present
          split at present
          · exact ⟨table, present, fun _ _ known => .inl known⟩
          · cases distance with
            | zero =>
                cases present
                refine ⟨innermost, rfl, ?_⟩
                intro name status known
                rw [Table.getElem?_insert] at known
                split at known
                next same =>
                  cases known
                  exact .inr ⟨rfl, .inl ⟨congrArg _ same, rfl⟩⟩
                next => exact .inl known
            | succ distance => exact ⟨table, present, fun _ _ known => .inl known⟩
  | superclass declared =>
      cases tables with
      | nil => cases present
      | cons innermost outer =>
          rcases introduceIn_cons declared innermost outer with ⟨extended, introduced, defines⟩
          simp only [place, introduced] at present
          cases distance with
          | zero =>
              cases present
              refine ⟨innermost, rfl, ?_⟩
              intro name status known
              rcases defines name status known with ⟨rfl, rfl⟩ | old
              · exact .inr ⟨rfl, .inr ⟨rfl, rfl⟩⟩
              · exact .inl old
          | succ distance => exact ⟨table, present, fun _ _ known => .inl known⟩

theorem Role.length_place_scopes (role : Role) (tables : List NameTable) (isInner : Bool) :
    (role.place tables isInner).scopes.length = tables.length := by
  cases role with
  | ordinary => rfl
  | initializer declared =>
      cases tables with
      | nil => rfl
      | cons innermost outer =>
          simp only [place, declareIn]
          split <;> rfl
  | superclass declared =>
      cases tables with
      | nil => rfl
      | cons innermost outer =>
          rcases introduceIn_cons declared innermost outer with ⟨extended, introduced, -⟩
          simp only [place, introduced, List.length_cons]

/-- The chain of scopes from the current one on has exactly one scope for each
scope of resolution before it ends in the global scope, and what resolution
calls defined is bound.  Only a class whose superclass is being evaluated need not
be bound yet, and only a variable whose initializer is being evaluated is not yet
defined. -/
structure Meeting.Agrees (meeting : Meeting) (machine : Machine) : Prop where
  globals : machine.heap.scopes.ancestor? machine.current meeting.state.scopes.length =
    some machine.globals
  local_ : ∀ distance < meeting.state.scopes.length, ∃ ref,
    machine.heap.scopes.ancestor? machine.current distance = some ref ∧ ref ≠ machine.globals
  bound : ∀ (distance : Nat) (table : NameTable) (name : String),
    meeting.state.scopes[distance]? = some table → table[name]? = some .defined →
    ¬ (distance = 0 ∧ meeting.role = .superclass name) →
    (machine.heap.scopes.getAt? machine.current distance name).isSome
  pending : ∀ (distance : Nat) (table : NameTable) (name : String),
    meeting.state.scopes[distance]? = some table → table[name]? = some .declared →
    distance = 0 ∧ meeting.role = .initializer name

theorem Machine.Realizes.agrees {machine : Machine} {tables : List NameTable}
    (realizes : machine.Realizes tables) {role : Role} {isInner : Bool} {meeting : Meeting}
    (sameScopes : meeting.state.scopes = (role.place tables isInner).scopes)
    (sameRole : meeting.role = role) : meeting.Agrees machine := by
  refine ⟨?_, ?_, ?_, ?_⟩
  · rw [sameScopes, role.length_place_scopes]
    exact realizes.ancestor_globals
  · intro distance inside
    rw [sameScopes, role.length_place_scopes] at inside
    rcases realizes.ancestor (List.getElem?_eq_getElem inside) with ⟨ref, linked, inner, -⟩
    exact ⟨ref, linked, inner⟩
  · intro distance table name present defined notSuperclass
    rw [sameScopes] at present
    rw [sameRole] at notSuperclass
    rcases role.place_scopes tables isInner present with ⟨realized, inChain, entries⟩
    rcases realizes.ancestor inChain with ⟨ref, linked, -, binds⟩
    rcases entries name .defined defined with known | ⟨innermost, declaring⟩
    · rw [Scopes.getAt?, linked]
      exact (binds name .defined known).2
    · rcases declaring with ⟨-, impossible⟩ | ⟨isSuperclass, -⟩
      · cases impossible
      · exact absurd ⟨innermost, isSuperclass⟩ notSuperclass
  · intro distance table name present declared
    rw [sameScopes] at present
    rw [sameRole]
    rcases role.place_scopes tables isInner present with ⟨realized, inChain, entries⟩
    rcases realizes.ancestor inChain with ⟨ref, -, -, binds⟩
    rcases entries name .declared declared with known | ⟨innermost, declaring⟩
    · cases (binds name .declared known).1
    · rcases declaring with ⟨isInitializer, -⟩ | ⟨-, impossible⟩
      · exact ⟨innermost, isInitializer⟩
      · cases impossible

/-! ## Uses -/

theorem Expr.mem_visits_of_use {expr : Expr} {id : UseId} {name : String} {access : Access}
    (isUse : expr.use? = some (id, name, access)) (place : Place) :
    ⟨id, name, access, place⟩ ∈ expr.visits place := by
  cases expr with
  | var => cases isUse; simp [visits]
  | assign => cases isUse; simp [visits]
  | this => cases isUse; simp [visits]
  | super => cases isUse; simp [visits]
  | _ => cases isUse

/-- What holds when a use of a variable is evaluated. -/
structure Moment.Follows (moment : Moment) (expr : Expr) (id : UseId) (name : String)
    (access : Access) (meeting : Meeting) : Prop where
  node : meeting.node.use? = some (id, name, access)
  agrees : meeting.Agrees moment.machine
  /-- A class is not its own superclass. -/
  superclass : ∀ declared, meeting.role = .superclass declared → name ≠ declared
  /-- The recorded distance is the one that resolution found. -/
  recorded : moment.machine.distances[id]? = distance? name access meeting.state.scopes
  /-- A recorded distance leads to a local scope. -/
  reaches : ∀ distance, moment.machine.distances[id]? = some distance →
    ∃ ref, moment.machine.heap.scopes.ancestor? moment.machine.current distance = some ref ∧
      ref ≠ moment.machine.globals
  /-- A local that is read is bound. -/
  reads : access = .read → ∀ distance, moment.machine.distances[id]? = some distance →
    (moment.machine.heap.scopes.getAt? moment.machine.current distance name).isSome
  this : name = "this" → (moment.machine.distances[id]?).isSome
  super : name = "super" → (superTarget? moment.machine id).isSome
  /-- Only a global can be read in vain. -/
  readFails : access = .read → ∀ {line missing final},
    evaluate moment.fuel expr moment.machine =
      .error (.runtime ⟨line, .undefinedVariable missing⟩) final →
    moment.machine.distances[id]? = none
  /-- A local that is assigned is bound, but for an assignment in its own
  initializer. -/
  writes : ∀ {fuel target value result after}, expr = .assign id target value →
    moment.fuel = fuel + 1 → evaluate fuel value moment.machine = .ok result after →
    ∀ distance, after.distances[id]? = some distance →
      ∃ ref, after.heap.scopes.ancestor? after.current distance = some ref ∧
        ref ≠ after.globals ∧ ((after.heap.scopes.own? ref name).isSome ∨
          (distance = 0 ∧ meeting.role = .initializer name))
  /-- Only a global can be assigned in vain. -/
  writeFails : ∀ {fuel target value result after interrupt final},
    expr = .assign id target value → moment.fuel = fuel + 1 →
    evaluate fuel value moment.machine = .ok result after →
    writeVariable id target result after = .error interrupt final →
    after.distances[id]? = none

theorem Role.place_role (role : Role) (tables : List NameTable) (isInner : Bool) :
    (role.place tables isInner).role = role := by
  cases role <;> rfl

/-- Nothing is assigned under the names that methods see without a declaration. -/
theorem Expr.WellFormed.access {expr : Expr} (formed : expr.WellFormed) {id : UseId}
    {name : String} {access : Access} (isUse : expr.use? = some (id, name, access))
    (special : name = "this" ∨ name = "super") : access = .read := by
  cases expr with
  | assign target named value =>
      cases isUse
      rcases special with isThis | isSuper
      · exact absurd isThis formed.1.1
      · exact absurd isSuper formed.1.2
  | var => cases isUse; rfl
  | this => cases isUse; rfl
  | super => cases isUse; rfl
  | _ => cases isUse

section Follows

variable {machine : Machine} {meeting : Meeting} {id : UseId} {name : String} {access : Access}

/-- The distance that resolution found leads to a local scope, in which the name is
bound unless it is being declared. -/
theorem Meeting.Agrees.found (agrees : meeting.Agrees machine)
    (notSuperclass : meeting.role ≠ .superclass name) {distance : Nat}
    (found : distance? name access meeting.state.scopes = some distance) :
    ∃ ref, machine.heap.scopes.ancestor? machine.current distance = some ref ∧
      ref ≠ machine.globals ∧ ((machine.heap.scopes.own? ref name).isSome ∨
        (access = .write ∧ distance = 0 ∧ meeting.role = .initializer name)) := by
  rcases distance?_eq_some found with ⟨table, present, status, entry, accessible⟩
  rcases agrees.local_ distance (List.getElem?_eq_some_iff.mp present).1 with
    ⟨ref, linked, inner⟩
  refine ⟨ref, linked, inner, ?_⟩
  cases status with
  | defined =>
      have bound := agrees.bound distance table name present entry
        fun declaring => notSuperclass declaring.2
      rw [Scopes.getAt?, linked] at bound
      exact .inl bound
  | declared =>
      rcases accessible with impossible | written
      · cases impossible
      · exact .inr ⟨written, agrees.pending distance table name present entry⟩

theorem Meeting.Agrees.read (agrees : meeting.Agrees machine)
    (notSuperclass : meeting.role ≠ .superclass name) {distance : Nat}
    (found : distance? name .read meeting.state.scopes = some distance) :
    (machine.heap.scopes.getAt? machine.current distance name).isSome := by
  rcases agrees.found notSuperclass found with ⟨ref, linked, -, bound | pending⟩
  · rw [Scopes.getAt?, linked]
    exact bound
  · cases pending.1

/-- A name that resolution found is bound at that distance. -/
theorem Machine.Realizes.isSome_getAt? {machine : Machine} {tables : List NameTable}
    (realizes : machine.Realizes tables) {role : Role} {isInner : Bool} {name : String}
    {distance : Nat} (notSuperclass : role ≠ .superclass name)
    (found : ResolverState.distance? name .read (role.place tables isInner).scopes =
      some distance) :
    (machine.heap.scopes.getAt? machine.current distance name).isSome := by
  let meeting : Meeting :=
    ⟨.literal .nil, role, { ResolverState.initial [] with
      scopes := (role.place tables isInner).scopes }⟩
  have agrees : meeting.Agrees machine := realizes.agrees rfl rfl
  exact agrees.read notSuperclass found

/-- In a method, `super` leads to a class and `this` to an object. -/
theorem Meeting.Agrees.superTarget {known : Visit → Prop} (agrees : meeting.Agrees machine)
    (faithful : machine.Faithful known) (within : ∀ declared, meeting.role ≠ .superclass declared)
    {distance : Nat} (recorded : machine.distances[id]? = some (distance + 1))
    (this : distance? "this" .read meeting.state.scopes = some distance)
    (super : distance? "super" .read meeting.state.scopes = some (distance + 1)) :
    (superTarget? machine id).isSome := by
  rcases Option.isSome_iff_exists.mp (agrees.read (within _) this) with ⟨object, boundThis⟩
  rcases agrees.found (within _) super with ⟨ref, linked, -, bound | pending⟩
  · rcases Option.isSome_iff_exists.mp bound with ⟨value, isBound⟩
    rcases faithful.super ref value isBound with ⟨superclass, rfl⟩
    have boundSuper : machine.heap.scopes.getAt? machine.current (distance + 1) "super" =
        some (.classRef superclass) := by
      rw [Scopes.getAt?, linked]
      exact isBound
    simp [superTarget?, recorded, boundSuper, boundThis]
  · cases pending.1

end Follows

/-- A read of a local variable that is bound does not fail. -/
theorem readVariable_ne_error {machine final : Machine} {id : UseId} {name : Name}
    {interrupt : Interrupt}
    (bound : ∀ distance, machine.distances[id]? = some distance →
      (machine.heap.scopes.getAt? machine.current distance name.text).isSome)
    (failed : readVariable id name machine = .error interrupt final) :
    machine.distances[id]? = none := by
  cases recorded : machine.distances[id]? with
  | none => rfl
  | some distance =>
      rcases Option.isSome_iff_exists.mp (bound distance recorded) with ⟨value, found⟩
      simp [readVariable, recorded, found] at failed

theorem getSuper_ne_undefined {machine final : Machine} {id : UseId} {line : Nat}
    {method : Name} (target : (superTarget? machine id).isSome) {faultLine : Nat}
    {missing : String} :
    getSuper id line method machine ≠
      .error (.runtime ⟨faultLine, .undefinedVariable missing⟩) final := by
  intro failed
  rcases Option.isSome_iff_exists.mp target with ⟨⟨superclass, this⟩, isTarget⟩
  have started : (get : Eval Machine) machine = .ok machine machine := rfl
  rw [getSuper, Actions.bind_of_ok started, isTarget] at failed
  dsimp only at failed
  cases found : machine.heap.findMethod? superclass method.text with
  | none =>
      rw [found] at failed
      cases failed
  | some method =>
      rw [found] at failed
      cases failed

/-- Only a global is read in vain. -/
theorem evaluate_read_fails {fuel : Nat} {expr : Expr} {machine final : Machine} {id : UseId}
    {name : String} (isUse : expr.use? = some (id, name, .read))
    (bound : ∀ distance, machine.distances[id]? = some distance →
      (machine.heap.scopes.getAt? machine.current distance name).isSome)
    (target : name = "super" → (superTarget? machine id).isSome) {line : Nat} {missing : String}
    (failed : evaluate fuel expr machine =
      .error (.runtime ⟨line, .undefinedVariable missing⟩) final) :
    machine.distances[id]? = none := by
  cases fuel with
  | zero => cases failed
  | succ fuel =>
      cases expr with
      | var read named =>
          cases isUse
          exact readVariable_ne_error bound failed
      | this read keyword =>
          cases isUse
          exact readVariable_ne_error bound failed
      | super read keyword method =>
          cases isUse
          exact absurd failed (getSuper_ne_undefined (target rfl))
      | _ => cases isUse

/-- Only a global is assigned in vain. -/
theorem writeVariable_ne_error {machine final : Machine} {id : UseId} {target : Name}
    {value : Value} {interrupt : Interrupt}
    (reaches : ∀ distance, machine.distances[id]? = some distance →
      ∃ ref, machine.heap.scopes.ancestor? machine.current distance = some ref)
    (failed : writeVariable id target value machine = .error interrupt final) :
    machine.distances[id]? = none := by
  cases recorded : machine.distances[id]? with
  | none => rfl
  | some distance =>
      rcases reaches distance recorded with ⟨ref, linked⟩
      have assigned : assignedScope? machine id target.text = some ref := by
        simp only [assignedScope?, recorded, linked]
      have started : (get : Eval Machine) machine = .ok machine machine := rfl
      rw [writeVariable, Actions.bind_of_ok started, assigned] at failed
      cases failed

/-- A use that is evaluated where resolution met it finds its variable. -/
theorem follows_of_matches {known : Visit → Prop} {moment : Moment} {expr : Expr} {id : UseId}
    {name : String} {access : Access} {tables : List NameTable} {isInner : Bool} {role : Role}
    {meeting : Meeting} (faithful : moment.machine.Faithful known) (formed : expr.WellFormed)
    (isUse : expr.use? = some (id, name, access)) (realizes : moment.machine.Realizes tables)
    (legal : Visit.Legal ⟨id, name, access, role.place tables isInner⟩)
    (recorded : moment.machine.distances[id]? =
      distance? name access (role.place tables isInner).scopes)
    (isMatch : meeting.Matches ⟨id, name, access, role.place tables isInner⟩) :
    moment.Follows expr id name access meeting := by
  have sameRole : meeting.role = role := isMatch.role.trans (role.place_role tables isInner)
  have agrees := realizes.agrees isMatch.scopes sameRole
  have superclass : ∀ declared, meeting.role = .superclass declared → name ≠ declared :=
    fun declared isSuperclass => legal.superclass declared (isMatch.role ▸ isSuperclass)
  have notSuperclass : meeting.role ≠ .superclass name := fun same => superclass name same rfl
  rw [← isMatch.scopes] at recorded
  have reads : access = .read → ∀ distance, moment.machine.distances[id]? = some distance →
      (moment.machine.heap.scopes.getAt? moment.machine.current distance name).isSome := by
    rintro rfl distance isRecorded
    exact agrees.read notSuperclass (recorded.symm.trans isRecorded)
  have super : name = "super" → (superTarget? moment.machine id).isSome := by
    rintro rfl
    have isRead := formed.access isUse (.inr rfl)
    subst isRead
    rcases legal.super rfl with ⟨distance, foundThis, foundSuper⟩
    rw [← isMatch.scopes] at foundThis foundSuper
    exact agrees.superTarget faithful (fun declared => isMatch.role ▸ legal.within rfl declared)
      (recorded.trans foundSuper) foundThis foundSuper
  -- The value of an assignment has been evaluated when the variable is changed.
  have writes : ∀ {fuel : Nat} {value : Expr} {result : Value} {after : Machine},
      evaluate fuel value moment.machine = .ok result after →
      ∀ distance, after.distances[id]? = some distance →
        ∃ ref, after.heap.scopes.ancestor? after.current distance = some ref ∧
          ref ≠ after.globals ∧ ((after.heap.scopes.own? ref name).isSome ∨
            (access = .write ∧ distance = 0 ∧ meeting.role = .initializer name)) := by
    intro fuel value result after evaluated distance isRecorded
    have grows := ((framedAt fuel).evaluate value).of_ok evaluated
    rw [grows.distances] at isRecorded
    have still := (realizes.mono grows).agrees isMatch.scopes sameRole
    exact still.found notSuperclass (recorded.symm.trans isRecorded)
  refine ⟨isMatch.use, agrees, superclass, recorded, ?_, reads, ?_, super, ?_, ?_, ?_⟩
  · intro distance isRecorded
    rcases agrees.found notSuperclass (recorded.symm.trans isRecorded) with
      ⟨ref, linked, inner, -⟩
    exact ⟨ref, linked, inner⟩
  · rintro rfl
    have isRead := formed.access isUse (.inl rfl)
    subst isRead
    rcases legal.this rfl with ⟨distance, found⟩
    rw [← isMatch.scopes] at found
    rw [recorded, found]
    rfl
  · rintro rfl line missing final failed
    exact evaluate_read_fails isUse (reads rfl) super failed
  · intro fuel target value result after _ _ evaluated distance isRecorded
    rcases writes evaluated distance isRecorded with ⟨ref, linked, inner, bound | pending⟩
    · exact ⟨ref, linked, inner, .inl bound⟩
    · exact ⟨ref, linked, inner, .inr pending.2⟩
  · intro fuel target value result after interrupt final _ _ evaluated failed
    apply writeVariable_ne_error _ failed
    intro distance isRecorded
    rcases writes evaluated distance isRecorded with ⟨ref, linked, -⟩
    exact ⟨ref, linked⟩

/-! ## Sessions -/

namespace Session

/-- The visit is one of an accepted unit among the given ones, which are run one
after another from a new session on. -/
def VisitedIn (sink : Sink) (clock : Clock) (units : List (Nat × String)) (visit : Visit) : Prop :=
  ∃ before unit program, before ++ [unit] <+: units ∧
    ((initial sink clock).runAll before).Accepts unit.2 program ∧
    visit ∈ Stmt.visitsEach [] false program

theorem VisitedIn.mono {sink : Sink} {clock : Clock} {units : List (Nat × String)} {visit : Visit}
    (visited : VisitedIn sink clock units visit) (unit : Nat × String) :
    VisitedIn sink clock (units ++ [unit]) visit := by
  rcases visited with ⟨before, earlier, program, isPrefix, accepted, visited⟩
  exact ⟨before, earlier, program, isPrefix.trans (List.prefix_append _ _), accepted, visited⟩

/-- Between its units, every session is settled. -/
theorem settled_runAll (sink : Sink) (clock : Clock) (units : List (Nat × String)) :
    ((initial sink clock).runAll units).Settled (VisitedIn sink clock units) := by
  induction units using List.reverseRecOn with
  | nil => exact settled_initial sink clock
  | append_singleton units unit inductionHypothesis =>
      rw [runAll_append_singleton]
      apply inductionHypothesis.run
      · intro visit visited
        exact visited.mono unit
      · intro program accepted visit visited
        exact ⟨units, unit, program, List.prefix_refl _, accepted, visited⟩

end Session

/-- Resolution and evaluation agree: whenever a unit of a session evaluates a use of
a variable, resolution met that use in an accepted unit, and the use finds there
what resolution knew. -/
theorem uses_follow_resolution (sink : Sink) (clock : Clock) (units : List (Nat × String))
    (fuel : Nat) (source : String) (program : List Stmt)
    (accepted : ((Session.initial sink clock).runAll units).Accepts source program)
    {moment : Moment}
    (reached : Reaches ⟨fuel, .executeProgram program,
      ((Session.initial sink clock).runAll units).resolved program⟩ moment)
    {expr : Expr} {id : UseId} {name : String} {access : Access}
    (evaluates : moment.task = .evaluate expr) (isUse : expr.use? = some (id, name, access)) :
    ∃ (before : List (Nat × String)) (unit : Nat × String) (unitProgram : List Stmt),
      before ++ [unit] <+: units ++ [(fuel, source)] ∧
      ((Session.initial sink clock).runAll before).Accepts unit.2 unitProgram ∧
      ∃ meeting ∈ Stmt.meetingsEach unitProgram
          (.initial ((Session.initial sink clock).runAll before).machine.globalNames),
        moment.Follows expr id name access meeting := by
  rcases accepted with ⟨⟨nextId, reads⟩, clean⟩
  have settled := Session.settled_runAll sink clock units
  have ready := reached.ready (reads.takes.ready settled clean fuel)
  have sameDistances := reached.distances
  rcases moment with ⟨fuelThere, task, machine⟩
  subst evaluates
  rcases ready with ⟨faithful, formed, tables, isInner, role, realizes, visited⟩
  have knows := visited _ (expr.mem_visits_of_use isUse _)
  have origin : Session.VisitedIn sink clock (units ++ [(fuel, source)])
      ⟨id, name, access, role.place tables isInner⟩ := by
    rcases knows.origin with isOld | isNew
    · exact isOld.1.mono _
    · exact ⟨units, (fuel, source), program, List.prefix_refl _, ⟨⟨nextId, reads⟩, clean⟩, isNew⟩
  rcases origin with ⟨before, unit, unitProgram, isPrefix, unitAccepted, isVisit⟩
  refine ⟨before, unit, unitProgram, isPrefix, unitAccepted, ?_⟩
  rcases unitAccepted with ⟨⟨unitNextId, unitReads⟩, -⟩
  rcases exists_meeting _ unitReads.takes.wellFormed isVisit with ⟨meeting, member, isMatch⟩
  refine ⟨meeting, member, follows_of_matches faithful formed isUse realizes knows.legal ?_ isMatch⟩
  exact (congrArg (·[id]?) sameDistances).trans knows.recorded

/-- A function that reads a variable of the block around it, and a call of it. -/
def capturingSource : String :=
  "\x7b var a; fun f() \x7b a; \x7d f(); \x7d"

/-- The tree of `capturingSource`. -/
def capturingProgram : List Stmt :=
  [.block [.var ⟨"a", 1⟩ none, .function ⟨⟨"f", 1⟩, [], [.expression (.var 0 ⟨"a", 1⟩)]⟩,
    .expression (.call (.var 1 ⟨"f", 1⟩) 1 [])]]

/-- The tokens of `capturingSource`. -/
def capturingTokens : List Token :=
  [ ⟨.punct .leftBrace, "\x7b", 1⟩, ⟨.keyword .var_, "var", 1⟩, ⟨.identifier, "a", 1⟩,
    ⟨.punct .semicolon, ";", 1⟩, ⟨.keyword .fun_, "fun", 1⟩, ⟨.identifier, "f", 1⟩,
    ⟨.punct .leftParen, "(", 1⟩, ⟨.punct .rightParen, ")", 1⟩, ⟨.punct .leftBrace, "\x7b", 1⟩,
    ⟨.identifier, "a", 1⟩, ⟨.punct .semicolon, ";", 1⟩, ⟨.punct .rightBrace, "\x7d", 1⟩,
    ⟨.identifier, "f", 1⟩, ⟨.punct .leftParen, "(", 1⟩, ⟨.punct .rightParen, ")", 1⟩,
    ⟨.punct .semicolon, ";", 1⟩, ⟨.punct .rightBrace, "\x7d", 1⟩, ⟨.endOfInput, "", 1⟩ ]

theorem capturingTokens_parsed : parseProgram 0 capturingTokens = (.ok capturingProgram, 2) := by
  cbv

theorem capturingProgram_accepted :
    (Session.initial .unlimited (.startingAt 0)).Accepts capturingSource capturingProgram := by
  have scanned : scanTokens capturingSource = capturingTokens := by decide +kernel
  refine ⟨⟨2, by decide +kernel, ?_⟩, by decide +kernel⟩
  rw [scanned]
  exact capturingTokens_parsed

theorem capturingProgram_reaches : ∃ machine,
    Reaches ⟨12, .executeProgram capturingProgram,
        (Session.initial .unlimited (.startingAt 0)).resolved capturingProgram⟩
      ⟨2, .evaluate (.var 0 ⟨"a", 1⟩), machine⟩ := by
  refine ⟨?_, ?_⟩
  rotate_left
  · refine .head .firstOfProgram ?_
    refine .head (.block rfl) ?_
    refine .head (.restStmts rfl) ?_
    refine .head (.restStmts rfl) ?_
    refine .head .firstStmt ?_
    refine .head .expression ?_
    refine .head (.call rfl rfl rfl) ?_
    refine .head .function ?_
    refine .head (.functionBody rfl) ?_
    refine .head .firstStmt ?_
    refine .head .expression ?_
    exact .refl

theorem captured_use_follows :
    (Session.initial .unlimited (.startingAt 0)).Accepts capturingSource capturingProgram ∧
      ∃ machine,
        Reaches ⟨12, .executeProgram capturingProgram,
            (Session.initial .unlimited (.startingAt 0)).resolved capturingProgram⟩
          ⟨2, .evaluate (.var 0 ⟨"a", 1⟩), machine⟩ ∧
        ∃ (before : List (Nat × String)) (unit : Nat × String) (unitProgram : List Stmt),
          before ++ [unit] <+: [(12, capturingSource)] ∧
          ((Session.initial .unlimited (.startingAt 0)).runAll before).Accepts unit.2 unitProgram ∧
          ∃ meeting ∈ Stmt.meetingsEach unitProgram (.initial
              ((Session.initial .unlimited (.startingAt 0)).runAll before).machine.globalNames),
            Moment.Follows ⟨2, .evaluate (.var 0 ⟨"a", 1⟩), machine⟩ (.var 0 ⟨"a", 1⟩) 0 "a"
              .read meeting := by
  rcases capturingProgram_reaches with ⟨machine, reached⟩
  exact ⟨capturingProgram_accepted, machine, reached,
    uses_follow_resolution .unlimited (.startingAt 0) [] 12 capturingSource capturingProgram
      capturingProgram_accepted reached rfl rfl⟩

end Lox
