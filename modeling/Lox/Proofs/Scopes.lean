import Lox.Proofs.Evaluation.Frame

/-!
# Searching and jumping

A family of scopes is built by requests, each of which uses scopes that are already
there.  So every scope is created after the one around it, every chain of scopes ends
in a root, and a search reaches the nearest scope that binds the name.  Whoever knows
how many links away that scope is can jump there instead, with the same answer and the
same effect.
-/

namespace Lox

namespace Scopes

/-! ## Requests -/

/-- What can be asked of a family of scopes. -/
inductive Request where
  | root
  | child (ref : ScopeRef)
  | define (ref : ScopeRef) (name : String) (value : Value)
  | get (ref : ScopeRef) (name : String)
  | assign (ref : ScopeRef) (name : String) (value : Value)
  | ancestor (ref : ScopeRef) (distance : Nat)
  | getAt (ref : ScopeRef) (distance : Nat) (name : String)
  | assignAt (ref : ScopeRef) (distance : Nat) (name : String) (value : Value)

/-- How a request is answered. -/
inductive Answer where
  | scope (ref : ScopeRef)
  | value (value : Value)
  | done
  | failed
  deriving DecidableEq

/-- The scope that a request starts from. -/
def Request.start? : Request → Option ScopeRef
  | .root => none
  | .child ref => some ref
  | .define ref _ _ => some ref
  | .get ref _ => some ref
  | .assign ref _ _ => some ref
  | .ancestor ref _ => some ref
  | .getAt ref _ _ => some ref
  | .assignAt ref _ _ _ => some ref

/-- A value that was looked for. -/
def Answer.ofValue? : Option Value → Answer
  | some found => .value found
  | none => .failed

/-- A scope that was looked for. -/
def Answer.ofScope? : Option ScopeRef → Answer
  | some found => .scope found
  | none => .failed

/-- A family that was to be changed; if that failed, it is still the old one. -/
def changed (scopes : Scopes) : Option Scopes → Answer × Scopes
  | some later => (.done, later)
  | none => (.failed, scopes)

/-- The answer to a request, and the family after it. -/
def serve (scopes : Scopes) : Request → Answer × Scopes
  | .root => (.scope scopes.nextRef, scopes.pushEmpty none)
  | .child ref => (.scope scopes.nextRef, scopes.pushEmpty (some ref))
  | .define ref name value => (.done, scopes.define ref name value)
  | .get ref name => (.ofValue? (scopes.get? ref name), scopes)
  | .assign ref name value => scopes.changed (scopes.assign? ref name value)
  | .ancestor ref distance => (.ofScope? (scopes.ancestor? ref distance), scopes)
  | .getAt ref distance name => (.ofValue? (scopes.getAt? ref distance name), scopes)
  | .assignAt ref distance name value =>
      scopes.changed (scopes.assignAt? ref distance name value)

/-- The family was built by requests, each of which starts from a scope that is there. -/
inductive Built : Scopes → Prop where
  | empty : Built .empty
  | serve {scopes : Scopes} {request : Request} : Built scopes →
      (∀ ref ∈ request.start?, ref.index < scopes.cells.size) → Built (scopes.serve request).2

/-- A request that fails changes nothing. -/
theorem serve_failed {scopes : Scopes} {request : Request}
    (failed : (scopes.serve request).1 = .failed) : (scopes.serve request).2 = scopes := by
  have keeps : ∀ result, (scopes.changed result).1 = .failed →
      (scopes.changed result).2 = scopes := by
    intro result isFailure
    cases result with
    | none => rfl
    | some later => cases isFailure
  cases request with
  | root => cases failed
  | child ref => cases failed
  | define ref name value => cases failed
  | get ref name => rfl
  | assign ref name value => exact keeps _ failed
  | ancestor ref distance => rfl
  | getAt ref distance name => rfl
  | assignAt ref distance name value => exact keeps _ failed

/-! ## Every scope is newer than the one around it -/

/-- Every scope was created after the scope around it. -/
def Ordered (scopes : Scopes) : Prop :=
  ∀ ref parent, scopes.parent? ref = some parent → parent.index < ref.index

variable {scopes : Scopes}

theorem ordered_empty : Ordered .empty := by
  intro ref parent linked
  simp [empty, parent?] at linked

theorem Ordered.define (ordered : scopes.Ordered) (ref : ScopeRef) (name : String)
    (value : Value) : (scopes.define ref name value).Ordered := by
  intro inner outer linked
  rw [parent?_define] at linked
  exact ordered inner outer linked

theorem Ordered.pushEmpty (ordered : scopes.Ordered) {parent : Option ScopeRef}
    (present : ∀ ref ∈ parent, ref.index < scopes.cells.size) :
    (scopes.pushEmpty parent).Ordered := by
  intro ref outer linked
  by_cases isNew : ref = scopes.nextRef
  · subst isNew
    rw [Scopes.pushEmpty, parent?_push_nextRef] at linked
    exact present outer linked
  · have inside := lt_of_parent linked
    rw [Scopes.pushEmpty, push_size] at inside
    have apart : ref.index ≠ scopes.cells.size := fun same => isNew (congrArg ScopeRef.mk same)
    rw [Scopes.pushEmpty, parent?_push_of_lt _ _ (by omega)] at linked
    exact ordered ref outer linked

theorem Ordered.changed (ordered : scopes.Ordered) {result : Option Scopes}
    (later : ∀ family ∈ result, family.Ordered) : (scopes.changed result).2.Ordered := by
  cases result with
  | none => exact ordered
  | some family => exact later family rfl

theorem Ordered.assign (ordered : scopes.Ordered) {ref : ScopeRef} {name : String}
    {value : Value} : ∀ later ∈ scopes.assign? ref name value, later.Ordered := by
  intro later assigned
  unfold assign? at assigned
  cases found : scopes.find? ref name with
  | none => simp [found] at assigned
  | some scope =>
      rw [found] at assigned
      cases assigned
      exact ordered.define scope name value

theorem Ordered.assignAt (ordered : scopes.Ordered) {ref : ScopeRef} {distance : Nat}
    {name : String} {value : Value} :
    ∀ later ∈ scopes.assignAt? ref distance name value, later.Ordered := by
  intro later assigned
  unfold assignAt? at assigned
  cases reached : scopes.ancestor? ref distance with
  | none => simp [reached] at assigned
  | some scope =>
      rw [reached] at assigned
      cases assigned
      exact ordered.define scope name value

/-- One request keeps the order. -/
theorem Ordered.serve (ordered : scopes.Ordered) {request : Request}
    (present : ∀ ref ∈ request.start?, ref.index < scopes.cells.size) :
    (scopes.serve request).2.Ordered := by
  cases request with
  | root => exact ordered.pushEmpty nofun
  | child ref => exact ordered.pushEmpty present
  | define ref name value => exact ordered.define ref name value
  | get ref name => exact ordered
  | assign ref name value => exact ordered.changed ordered.assign
  | ancestor ref distance => exact ordered
  | getAt ref distance name => exact ordered
  | assignAt ref distance name value => exact ordered.changed ordered.assignAt

theorem Built.ordered (built : scopes.Built) : scopes.Ordered := by
  induction built with
  | empty => exact ordered_empty
  | serve _ present inductionHypothesis => exact inductionHypothesis.serve present

/-! ## Chains -/

/-- The second scope is the given number of links outward of the first one. -/
inductive Links (scopes : Scopes) : ScopeRef → Nat → ScopeRef → Prop where
  | here {ref : ScopeRef} : Links scopes ref 0 ref
  | outward {ref parent outer : ScopeRef} {distance : Nat} :
      scopes.parent? ref = some parent → Links scopes parent distance outer →
      Links scopes ref (distance + 1) outer

/-- Jumping follows the links. -/
theorem ancestor?_eq_some_iff {ref outer : ScopeRef} {distance : Nat} :
    scopes.ancestor? ref distance = some outer ↔ scopes.Links ref distance outer := by
  induction distance generalizing ref with
  | zero =>
      constructor
      · rintro ⟨⟩
        exact .here
      · rintro ⟨⟩
        rfl
  | succ distance inductionHypothesis =>
      rw [ancestor?]
      constructor
      · intro reached
        cases linked : scopes.parent? ref with
        | none => simp [linked] at reached
        | some parent =>
            rw [linked] at reached
            exact .outward linked (inductionHypothesis.mp reached)
      · rintro (_ | ⟨linked, rest⟩)
        rw [linked]
        exact inductionHypothesis.mpr rest

/-- A scope without a scope around it that is the given number of links away. -/
structure HasRoot (scopes : Scopes) (ref : ScopeRef) (links : Nat) (root : ScopeRef) : Prop where
  reached : scopes.Links ref links root
  outermost : scopes.parent? root = none

/-- Every chain ends, since references become ever smaller along it. -/
theorem Ordered.exists_root (ordered : scopes.Ordered) (ref : ScopeRef) :
    ∃ links root, scopes.HasRoot ref links root := by
  cases linked : scopes.parent? ref with
  | none => exact ⟨0, ref, .here, linked⟩
  | some parent =>
      have smaller := ordered ref parent linked
      rcases ordered.exists_root parent with ⟨links, root, reached, outermost⟩
      exact ⟨links + 1, root, .outward linked reached, outermost⟩
termination_by ref.index

/-- There is no scope exactly at the distances beyond the root. -/
theorem HasRoot.ancestor?_eq_none_iff {ref root : ScopeRef} {links : Nat}
    (hasRoot : scopes.HasRoot ref links root) (distance : Nat) :
    scopes.ancestor? ref distance = none ↔ links < distance := by
  rcases hasRoot with ⟨reached, outermost⟩
  induction reached generalizing distance with
  | here =>
      cases distance with
      | zero => simp [ancestor?]
      | succ distance => simp [ancestor?, outermost]
  | outward linked _ inductionHypothesis =>
      cases distance with
      | zero => simp [ancestor?]
      | succ distance =>
          rw [ancestor?, linked]
          exact (inductionHypothesis distance outermost).trans Nat.add_lt_add_iff_right.symm

/-! ## The nearest binding -/

/-- The scope is the first one outward that binds the name. -/
structure IsNearest (scopes : Scopes) (ref : ScopeRef) (name : String) (distance : Nat)
    (scope : ScopeRef) : Prop where
  reached : scopes.Links ref distance scope
  binds : (scopes.own? scope name).isSome
  first : ∀ nearer < distance, ∀ other, scopes.Links ref nearer other →
    scopes.own? other name = none

theorem isNearest_here {ref : ScopeRef} {name : String} (binds : (scopes.own? ref name).isSome) :
    scopes.IsNearest ref name 0 ref :=
  ⟨.here, binds, fun nearer impossible => absurd impossible (Nat.not_lt_zero nearer)⟩

theorem IsNearest.outward {ref parent scope : ScopeRef} {name : String} {distance : Nat}
    (nearest : scopes.IsNearest parent name distance scope)
    (linked : scopes.parent? ref = some parent) (unbound : scopes.own? ref name = none) :
    scopes.IsNearest ref name (distance + 1) scope where
  reached := .outward linked nearest.reached
  binds := nearest.binds
  first := by
    intro nearer less other links
    cases links with
    | here => exact unbound
    | outward toParent rest =>
        cases linked.symm.trans toParent
        exact nearest.first _ (Nat.lt_of_succ_lt_succ less) other rest

/-- If a scope of the chain binds the name, then one is the nearest. -/
theorem Links.exists_nearest {ref outer : ScopeRef} {distance : Nat} {name : String}
    (links : scopes.Links ref distance outer) (binds : (scopes.own? outer name).isSome) :
    ∃ nearer scope, scopes.IsNearest ref name nearer scope := by
  induction links with
  | @here ref => exact ⟨0, ref, isNearest_here binds⟩
  | @outward ref parent outer distance linked _ inductionHypothesis =>
      by_cases bound : (scopes.own? ref name).isSome
      · exact ⟨0, ref, isNearest_here bound⟩
      · rcases inductionHypothesis binds with ⟨nearer, scope, nearest⟩
        exact ⟨nearer + 1, scope, nearest.outward linked (Option.not_isSome_iff_eq_none.mp bound)⟩

/-- Searching reaches the nearest scope that binds the name. -/
theorem Ordered.find?_of_nearest (ordered : scopes.Ordered) {ref scope : ScopeRef} {name : String}
    {distance : Nat} (nearest : scopes.IsNearest ref name distance scope) :
    scopes.find? ref name = some scope := by
  rcases nearest with ⟨reached, binds, first⟩
  induction reached with
  | here => rw [find?, if_pos binds]
  | @outward ref parent outer distance linked _ inductionHypothesis =>
      have unbound := first 0 (Nat.succ_pos distance) ref .here
      rw [find?, unbound, linked]
      simp only [Option.isSome_none, Bool.false_eq_true, if_false, ordered ref parent linked,
        if_true]
      exact inductionHypothesis binds fun nearer less other links =>
        first (nearer + 1) (Nat.succ_lt_succ less) other (.outward linked links)

/-- What a search reaches is the nearest scope that binds the name. -/
theorem exists_nearest_of_find? {ref scope : ScopeRef} {name : String}
    (found : scopes.find? ref name = some scope) :
    ∃ distance, scopes.IsNearest ref name distance scope := by
  fun_induction scopes.find? ref name with
  | case1 ref bound =>
      cases found
      exact ⟨0, isNearest_here bound⟩
  | case2 ref unbound parent linked _ inductionHypothesis =>
      rcases inductionHypothesis found with ⟨distance, nearest⟩
      exact ⟨distance + 1, nearest.outward linked (Option.not_isSome_iff_eq_none.mp unbound)⟩
  | case3 => cases found
  | case4 => cases found

/-! ## Reading -/

/-- Some scope of the chain binds the name. -/
def BindsOutward (scopes : Scopes) (ref : ScopeRef) (name : String) : Prop :=
  ∃ distance scope, scopes.Links ref distance scope ∧ (scopes.own? scope name).isSome

theorem Ordered.isSome_find?_iff (ordered : scopes.Ordered) {ref : ScopeRef} {name : String} :
    (scopes.find? ref name).isSome ↔ scopes.BindsOutward ref name := by
  constructor
  · intro isSome
    rcases Option.isSome_iff_exists.mp isSome with ⟨scope, found⟩
    rcases exists_nearest_of_find? found with ⟨distance, nearest⟩
    exact ⟨distance, scope, nearest.reached, nearest.binds⟩
  · rintro ⟨distance, scope, links, binds⟩
    rcases links.exists_nearest binds with ⟨nearer, nearest, isNearest⟩
    rw [ordered.find?_of_nearest isNearest]
    rfl

theorem isSome_get? (scopes : Scopes) (ref : ScopeRef) (name : String) :
    (scopes.get? ref name).isSome = (scopes.find? ref name).isSome := by
  unfold get?
  cases found : scopes.find? ref name with
  | none => rfl
  | some scope =>
      rcases exists_nearest_of_find? found with ⟨distance, nearest⟩
      exact nearest.binds

theorem isSome_assign? (scopes : Scopes) (ref : ScopeRef) (name : String) (value : Value) :
    (scopes.assign? ref name value).isSome = (scopes.find? ref name).isSome := by
  unfold assign?
  cases scopes.find? ref name <;> rfl

/-! ## Writing -/

/-- The later family differs in one binding of one scope only: so it is scope by scope, and
so it is for whoever searches from any scope. -/
structure Rebinds (scopes : Scopes) (scope : ScopeRef) (name : String) (value : Value)
    (later : Scopes) : Prop where
  size : later.cells.size = scopes.cells.size
  parent : ∀ ref, later.parent? ref = scopes.parent? ref
  own : ∀ ref sought, later.own? ref sought =
    if ref = scope ∧ sought = name then some value else scopes.own? ref sought
  seen : ∀ ref sought, later.get? ref sought =
    if scopes.find? ref sought = some scope ∧ sought = name then some value
    else scopes.get? ref sought

/-- A search ends where it ended before, if names stay bound where they were. -/
theorem find?_congr {later : Scopes} (parent : ∀ ref, later.parent? ref = scopes.parent? ref)
    {name : String} (bound : ∀ ref, (later.own? ref name).isSome = (scopes.own? ref name).isSome)
    (ref : ScopeRef) : later.find? ref name = scopes.find? ref name := by
  fun_induction scopes.find? ref name with
  | case1 ref isBound => rw [find?, bound, if_pos isBound]
  | case2 ref unbound outer linked smaller inductionHypothesis =>
      rw [find?, bound, if_neg unbound, parent, linked]
      simp only [smaller, if_true]
      exact inductionHypothesis
  | case3 ref unbound outer linked notSmaller =>
      rw [find?, bound, if_neg unbound, parent, linked]
      simp only [notSmaller, if_false]
  | case4 ref unbound linked => rw [find?, bound, if_neg unbound, parent, linked]

/-- A name that a scope binds is bound anew. -/
theorem rebinds_define {scope : ScopeRef} {name : String}
    (binds : (scopes.own? scope name).isSome) (value : Value) :
    scopes.Rebinds scope name value (scopes.define scope name value) := by
  have own := fun ref sought =>
    own?_define scopes scope ref name sought value (lt_of_own binds)
  have bound : ∀ ref sought, ((scopes.define scope name value).own? ref sought).isSome =
      (scopes.own? ref sought).isSome := by
    intro ref sought
    rw [own]
    split
    next same => rw [same.1, same.2, binds, Option.isSome_some]
    next => rfl
  have found := fun ref sought =>
    find?_congr (fun other => parent?_define scopes scope other name value)
      (fun other => bound other sought) ref
  refine ⟨define_size scopes scope name value,
    fun ref => parent?_define scopes scope ref name value, own, ?_⟩
  intro ref sought
  rw [get?, found, get?]
  cases reached : scopes.find? ref sought with
  | none => simp
  | some other =>
      dsimp only
      rw [own]
      by_cases same : other = scope ∧ sought = name
      · rw [if_pos same, if_pos ⟨congrArg some same.1, same.2⟩]
      · rw [if_neg same, if_neg fun both => same ⟨Option.some.inj both.1, both.2⟩]

/-- Searching and jumping agree on every family of scopes that requests can build.  Reads and
assignments that search succeed exactly if some scope outward binds the name; then they are
the read and the assignment at the distance of the nearest such scope, and the assignment
changes that one binding.  Requests that fail change nothing.  Every chain ends in a root,
and a jump lacks a scope exactly if it goes beyond. -/
theorem searching_agrees_with_jumping (built : scopes.Built) (ref : ScopeRef) (name : String) :
    ((scopes.get? ref name).isSome ↔ scopes.BindsOutward ref name) ∧
      (∀ value, (scopes.assign? ref name value).isSome ↔ scopes.BindsOutward ref name) ∧
      (scopes.BindsOutward ref name → ∃ distance scope,
        scopes.IsNearest ref name distance scope) ∧
      (∀ distance scope, scopes.IsNearest ref name distance scope →
        scopes.get? ref name = scopes.getAt? ref distance name ∧
        ∀ value, scopes.assign? ref name value = scopes.assignAt? ref distance name value ∧
          ∃ later, scopes.assign? ref name value = some later ∧
            scopes.Rebinds scope name value later) ∧
      (∀ request, (scopes.serve request).1 = .failed → (scopes.serve request).2 = scopes) ∧
      ∃ links root, scopes.HasRoot ref links root ∧ ∀ distance,
        (scopes.ancestor? ref distance = none ↔ links < distance) ∧
        (∀ value, scopes.assignAt? ref distance name value = none ↔ links < distance) ∧
        (links < distance → scopes.getAt? ref distance name = none) ∧
        (distance ≤ links → ∃ outer, scopes.Links ref distance outer ∧
          scopes.getAt? ref distance name = scopes.own? outer name) := by
  have ordered := built.ordered
  refine ⟨?_, ?_, ?_, ?_, fun request => serve_failed, ?_⟩
  · rw [isSome_get?]
    exact ordered.isSome_find?_iff
  · intro value
    rw [isSome_assign?]
    exact ordered.isSome_find?_iff
  · rintro ⟨distance, scope, links, binds⟩
    exact links.exists_nearest binds
  · intro distance scope nearest
    have found := ordered.find?_of_nearest nearest
    have jumped := ancestor?_eq_some_iff.mpr nearest.reached
    refine ⟨by rw [get?, getAt?, found, jumped], fun value => ?_⟩
    refine ⟨by rw [assign?, assignAt?, found, jumped], scopes.define scope name value, ?_, ?_⟩
    · rw [assign?, found]
    · exact rebinds_define nearest.binds value
  · rcases ordered.exists_root ref with ⟨links, root, hasRoot⟩
    refine ⟨links, root, hasRoot, fun distance => ?_⟩
    have missing := hasRoot.ancestor?_eq_none_iff distance
    refine ⟨missing, fun value => ?_, fun beyond => ?_, fun inside => ?_⟩
    · rw [← missing, assignAt?]
      cases scopes.ancestor? ref distance <;> simp
    · rw [getAt?, missing.mpr beyond]
    · cases reached : scopes.ancestor? ref distance with
      | none => exact absurd (missing.mp reached) (Nat.not_lt.mpr inside)
      | some outer => exact ⟨outer, ancestor?_eq_some_iff.mp reached, by rw [getAt?, reached]⟩

/-! ### Two scopes inside one -/

/-- A root that binds `x`, and two scopes inside it, of which the first binds `x` as well. -/
def forked : Scopes :=
  [.root, .child ⟨0⟩, .child ⟨0⟩, .define ⟨0⟩ "x" .nil, .define ⟨1⟩ "x" (.bool true)].foldl
    (fun scopes request => (scopes.serve request).2) .empty

theorem forked_built : forked.Built := by
  refine .serve (.serve (.serve (.serve (.serve .empty nofun) ?_) ?_) ?_) ?_
  all_goals
    rintro ref ⟨⟩
    decide

theorem forked_nearest : forked.IsNearest ⟨2⟩ "x" 1 ⟨0⟩ := by
  refine ⟨.outward rfl .here, rfl, ?_⟩
  intro nearer less other links
  obtain rfl : nearer = 0 := Nat.lt_one_iff.mp less
  cases links
  rfl

/-- From the second scope inside, the binding of the root is assigned. -/
theorem forked_agrees :
    forked.get? ⟨2⟩ "x" = forked.getAt? ⟨2⟩ 1 "x" ∧
      ∃ later, forked.assign? ⟨2⟩ "x" (.bool false) = some later ∧
        forked.assignAt? ⟨2⟩ 1 "x" (.bool false) = some later ∧
        forked.Rebinds ⟨0⟩ "x" (.bool false) later := by
  rcases (searching_agrees_with_jumping forked_built ⟨2⟩ "x").2.2.2.1 1 ⟨0⟩ forked_nearest with
    ⟨reads, writes⟩
  rcases writes (.bool false) with ⟨same, later, assigned, rebinds⟩
  exact ⟨reads, later, assigned, same.symm.trans assigned, rebinds⟩

end Scopes

end Lox
