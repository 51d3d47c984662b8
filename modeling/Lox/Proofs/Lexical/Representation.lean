import Lox.Proofs.Evaluation.Scoping
import Lox.Proofs.Lexical.Semantics
import Lox.Proofs.Resolution.Distinct

/-!
# Scopes and maps

Each cell of the lexical semantics is a name in one scope of the machine.  A chain
of scopes and a map represent the same tables if the map sends every name to the
cell of the scope in which resolution finds it.
-/

namespace Lox

namespace Lexical

open ResolverState (distance?)

/-! ## Sites -/

/-- A name in a scope of the machine. -/
structure Site where
  scope : ScopeRef
  name : String
  deriving DecidableEq

/-- The sites of the cells, in order. -/
abbrev World :=
  List Site

/-- The site of a cell. -/
def World.site? (world : World) (cell : CellRef) : Option Site :=
  world[cell.index]?

/-- Sites were added in scopes that are newer than the given one and, if that is
open, in it. -/
def World.Extends (isOpen : Bool) (current : ScopeRef) (world later : World) : Prop :=
  ∃ added : List Site, later = world ++ added ∧
    ∀ site ∈ added, current.index < site.scope.index ∨ (isOpen = true ∧ site.scope = current)

namespace World

variable {isOpen : Bool} {current : ScopeRef} {world middle later : World} {cell : CellRef}
  {site : Site}

theorem Extends.refl (isOpen : Bool) (current : ScopeRef) (world : World) :
    world.Extends isOpen current world :=
  ⟨[], (List.append_nil world).symm, nofun⟩

theorem Extends.trans (first : world.Extends isOpen current middle)
    (second : middle.Extends isOpen current later) : world.Extends isOpen current later := by
  rcases first with ⟨added, rfl, firstInside⟩
  rcases second with ⟨more, rfl, secondInside⟩
  refine ⟨added ++ more, List.append_assoc _ _ _, ?_⟩
  intro site member
  rcases List.mem_append.mp member with inFirst | inSecond
  · exact firstInside site inFirst
  · exact secondInside site inSecond

theorem Extends.site?_eq (extension : world.Extends isOpen current later)
    (known : world.site? cell = some site) : later.site? cell = some site := by
  rcases extension with ⟨added, rfl, -⟩
  unfold site? at known ⊢
  rw [List.getElem?_append_left (List.getElem?_eq_some_iff.mp known).1, known]

/-- A scope that is newer than the current one may be open meanwhile. -/
theorem Extends.leave {inner : ScopeRef} (extension : world.Extends true inner later)
    (newer : current.index < inner.index) : world.Extends isOpen current later := by
  rcases extension with ⟨added, rfl, inside⟩
  refine ⟨added, rfl, ?_⟩
  intro site member
  rcases inside site member with beyond | ⟨-, rfl⟩
  · exact .inl (Nat.lt_trans newer beyond)
  · exact .inl newer

/-- A scope that gets no sites may be open. -/
theorem Extends.opened (extension : world.Extends false current later) :
    world.Extends isOpen current later := by
  rcases extension with ⟨added, rfl, inside⟩
  refine ⟨added, rfl, ?_⟩
  intro site member
  rcases inside site member with beyond | ⟨impossible, -⟩
  · exact .inl beyond
  · cases impossible

theorem extends_singleton {isOpen : Bool} {current : ScopeRef} (world : World) {site : Site}
    (inside : current.index < site.scope.index ∨ (isOpen = true ∧ site.scope = current)) :
    world.Extends isOpen current (world ++ [site]) := by
  refine ⟨[site], rfl, ?_⟩
  intro added member
  rw [List.mem_singleton.mp member]
  exact inside

theorem site?_append_singleton (world : World) (site : Site) :
    (world ++ [site]).site? ⟨world.length⟩ = some site := by
  simp [site?]

/-- All sites in the scope have names of the innermost table. -/
def Complete (world : World) (scope : ScopeRef) : List NameTable → Prop
  | [] => True
  | table :: _ => ∀ name : String, ⟨scope, name⟩ ∈ world → (table[name]?).isSome

/-- A scope that is not open gets no sites. -/
theorem Complete.extends {tables : List NameTable} (complete : world.Complete current tables)
    (extension : world.Extends false current later) : later.Complete current tables := by
  rcases extension with ⟨added, rfl, inside⟩
  cases tables with
  | nil => exact trivial
  | cons table outer =>
      intro name member
      rcases List.mem_append.mp member with isOld | isNew
      · exact complete name isOld
      · rcases inside _ isNew with beyond | ⟨isOpen, -⟩
        · exact absurd beyond (Nat.lt_irrefl _)
        · cases isOpen

end World

/-! ## Tables with one more name -/

/-- The table has the name as defined, and else the entries of another table. -/
def Adds (name : String) (table later : NameTable) : Prop :=
  ∀ sought : String, later[sought]? = if name = sought then some .defined else table[sought]?

theorem adds_insert (name : String) (table : NameTable) :
    Adds name table (table.insert name .defined) :=
  fun sought => Table.getElem?_insert table name sought .defined

theorem introduceIn_adds (name : String) (table : NameTable) (outer : List NameTable) :
    ∃ later, introduceIn name (table :: outer) = later :: outer ∧ Adds name table later := by
  rw [introduceIn, declareIn]
  split
  · exact ⟨_, rfl, adds_insert name table⟩
  · refine ⟨(table.insert name .declared).insert name .defined, rfl, ?_⟩
    intro sought
    rw [Table.getElem?_insert, Table.getElem?_insert]
    split <;> rfl

/-! ## Representation -/

section Representation

variable {world later : World} {scopes grown : Scopes} {globals ref : ScopeRef}
  {tables : List NameTable} {locals : Locals}

/-- The map sends the names of the table to their cells in the scope, and the others
where the enclosing map sends them. -/
structure Layer (world : World) (scopes : Scopes) (ref : ScopeRef) (table : NameTable)
    (enclosing locals : Locals) : Prop where
  outer : ∀ name : String, table[name]? = none → locals[name]? = enclosing[name]?
  own : ∀ (name : String) (status : Status), table[name]? = some status →
    status = .defined ∧ (scopes.own? ref name).isSome ∧
      ∃ cell, locals[name]? = some cell ∧ world.site? cell = some ⟨ref, name⟩

/-- The chain of scopes from `ref` on has a scope for each of the tables before it
ends in the global scope, and the map sends each name to its cell in the scope of
the first table that has it. -/
def Represents (world : World) (scopes : Scopes) (globals : ScopeRef) :
    ScopeRef → List NameTable → Locals → Prop
  | ref, [], locals => ref = globals ∧ ∀ name : String, locals[name]? = none
  | ref, table :: outer, locals =>
      ref ≠ globals ∧ ∃ parent enclosing, scopes.parent? ref = some parent ∧
        Represents world scopes globals parent outer enclosing ∧
        Layer world scopes ref table enclosing locals

theorem Layer.mono {table : NameTable} {enclosing : Locals} {isOpen : Bool} {current : ScopeRef}
    (layer : Layer world scopes ref table enclosing locals) (grows : scopes.Grows grown)
    (extension : world.Extends isOpen current later) :
    Layer later grown ref table enclosing locals where
  outer := layer.outer
  own := by
    intro name status known
    rcases layer.own name status known with ⟨defined, bound, cell, found, site⟩
    exact ⟨defined, grows.bound bound, cell, found, extension.site?_eq site⟩

theorem Represents.mono {isOpen : Bool} {current : ScopeRef}
    (represents : Represents world scopes globals ref tables locals)
    (grows : scopes.Grows grown) (extension : world.Extends isOpen current later) :
    Represents later grown globals ref tables locals := by
  induction tables generalizing ref locals with
  | nil => exact represents
  | cons table outer inductionHypothesis =>
      rcases represents with ⟨inner, parent, enclosing, linked, rest, layer⟩
      exact ⟨inner, parent, enclosing, grows.parent_some linked, inductionHypothesis rest,
        layer.mono grows extension⟩

theorem Represents.ne_globals {table : NameTable}
    (represents : Represents world scopes globals ref (table :: tables) locals) :
    ref ≠ globals :=
  represents.1

theorem Represents.lt_size {table : NameTable}
    (represents : Represents world scopes globals ref (table :: tables) locals) :
    ref.index < scopes.cells.size := by
  rcases represents with ⟨-, parent, enclosing, linked, -, -⟩
  exact Scopes.lt_of_parent linked

/-- A new scope without names changes nothing. -/
theorem Represents.push (represents : Represents world scopes globals ref tables locals)
    (present : globals.index < scopes.cells.size) :
    Represents world (scopes.push { bindings := ∅, parent := some ref }) globals scopes.nextRef
      (∅ :: tables) locals := by
  refine ⟨?_, ref, locals, ?_, ?_, ?_⟩
  · intro same
    rw [← same] at present
    exact Nat.lt_irrefl _ present
  · rw [Scopes.parent?_push_nextRef]
  · exact represents.mono (Scopes.grows_push scopes _) (World.Extends.refl false globals world)
  · refine ⟨fun _ _ => rfl, ?_⟩
    intro name status known
    simp at known

/-- A name that gets a cell of its own in the innermost scope. -/
theorem Represents.define {table extended : NameTable} {name : String} {cell : CellRef}
    (represents : Represents world scopes globals ref (table :: tables) locals)
    (adds : Adds name table extended) (site : world.site? cell = some ⟨ref, name⟩)
    (value : Value) :
    Represents world (scopes.define ref name value) globals ref (extended :: tables)
      (locals.insert name cell) := by
  have grows := Scopes.grows_define scopes ref name value
  have present := represents.lt_size
  have same := World.Extends.refl false ref world
  rcases represents with ⟨inner, parent, enclosing, linked, rest, layer⟩
  refine ⟨inner, parent, enclosing, grows.parent_some linked, rest.mono grows same, ?_, ?_⟩
  · intro sought unknown
    rw [adds sought] at unknown
    split at unknown
    next => cases unknown
    next different =>
      rw [Table.getElem?_insert, if_neg different]
      exact layer.outer sought unknown
  · intro sought status known
    rw [adds sought] at known
    rw [Table.getElem?_insert, Scopes.own?_define scopes ref ref name sought value present]
    split at known
    next equal =>
      cases known
      subst equal
      rw [if_pos rfl, if_pos ⟨rfl, rfl⟩]
      exact ⟨rfl, rfl, cell, rfl, site⟩
    next different =>
      rw [if_neg different, if_neg fun equal => different equal.2.symm]
      exact layer.own sought status known

end Representation

/-! ## What resolution finds -/

section Finding

variable {world later : World} {scopes grown : Scopes} {globals ref : ScopeRef}
  {tables : List NameTable} {locals : Locals}

/-- The map sends the name to the cell of the scope at the distance, and nowhere if
there is no distance. -/
def Finds (world : World) (scopes : Scopes) (ref : ScopeRef) (locals : Locals) (name : String) :
    Option Nat → Prop
  | none => locals[name]? = none
  | some distance => ∃ scope cell, scopes.ancestor? ref distance = some scope ∧
      locals[name]? = some cell ∧ world.site? cell = some ⟨scope, name⟩

/-- The scope at the distance, if there is one, binds the name. -/
def IsBound (scopes : Scopes) (ref : ScopeRef) (name : String) (distance : Option Nat) : Prop :=
  ∀ hops ∈ distance, (scopes.getAt? ref hops name).isSome

theorem Finds.mono {isOpen : Bool} {current : ScopeRef} {name : String} {distance : Option Nat}
    (finds : Finds world scopes ref locals name distance) (grows : scopes.Grows grown)
    (extension : world.Extends isOpen current later) :
    Finds later grown ref locals name distance := by
  cases distance with
  | none => exact finds
  | some hops =>
      rcases finds with ⟨scope, cell, reached, found, site⟩
      exact ⟨scope, cell, grows.ancestor reached, found, extension.site?_eq site⟩

theorem IsBound.mono {name : String} {distance : Option Nat}
    (bound : IsBound scopes ref name distance) (grows : scopes.Grows grown) :
    IsBound grown ref name distance := by
  intro hops known
  have isSome := bound hops known
  unfold Scopes.getAt? at isSome ⊢
  cases reached : scopes.ancestor? ref hops with
  | none => simp [reached] at isSome
  | some scope =>
      rw [reached] at isSome
      rw [grows.ancestor reached]
      exact grows.bound isSome

theorem finds_succ {parent : ScopeRef} {enclosing : Locals} {name : String}
    {distance : Option Nat} (linked : scopes.parent? ref = some parent)
    (same : locals[name]? = enclosing[name]?)
    (finds : Finds world scopes parent enclosing name distance) :
    Finds world scopes ref locals name (distance.map (· + 1)) := by
  cases distance with
  | none => exact same.trans finds
  | some hops =>
      rcases finds with ⟨scope, cell, reached, found, site⟩
      refine ⟨scope, cell, ?_, same.trans found, site⟩
      rw [Scopes.ancestor?, linked]
      exact reached

theorem isBound_succ {parent : ScopeRef} {name : String} {distance : Option Nat}
    (linked : scopes.parent? ref = some parent) (bound : IsBound scopes parent name distance) :
    IsBound scopes ref name (distance.map (· + 1)) := by
  intro hops known
  cases distance with
  | none => cases known
  | some inner =>
      cases known
      rw [Scopes.getAt?, Scopes.ancestor?, linked]
      exact bound inner rfl

/-- In a chain that represents tables, names are where resolution finds them. -/
theorem Represents.finds (represents : Represents world scopes globals ref tables locals)
    (name : String) (access : Access) :
    Finds world scopes ref locals name (distance? name access tables) ∧
      IsBound scopes ref name (distance? name access tables) := by
  induction tables generalizing ref locals with
  | nil => exact ⟨represents.2 name, nofun⟩
  | cons table outer inductionHypothesis =>
      rcases represents with ⟨inner, parent, enclosing, linked, rest, layer⟩
      cases entry : table[name]? with
      | none =>
          have passes : distance? name access (table :: outer) =
              (distance? name access outer).map (· + 1) := by
            simp [distance?, Std.TreeMap.contains_eq_isSome_getElem?, entry]
          rw [passes]
          rcases inductionHypothesis rest with ⟨finds, bound⟩
          exact ⟨finds_succ linked (layer.outer name entry) finds, isBound_succ linked bound⟩
      | some status =>
          rcases layer.own name status entry with ⟨rfl, isSome, cell, found, site⟩
          have stops : distance? name access (table :: outer) = some 0 := by
            simp [distance?, entry]
          rw [stops]
          refine ⟨⟨ref, cell, rfl, found, site⟩, ?_⟩
          rintro hops ⟨⟩
          exact isSome

/-- What the names of an expression stand for is what resolution finds at the place.
The name of a class is not looked for in its superclass. -/
structure Sees (world : World) (scopes : Scopes) (ref : ScopeRef) (names : Names)
    (place : Place) : Prop where
  reads : ∀ name : String, (∀ declared, place.role = .superclass declared → name ≠ declared) →
    Finds world scopes ref names.reads name (distance? name .read place.scopes) ∧
      IsBound scopes ref name (distance? name .read place.scopes)
  writes : ∀ name : String, (∀ declared, place.role = .superclass declared → name ≠ declared) →
    Finds world scopes ref names.writes name (distance? name .write place.scopes)

theorem Sees.mono {isOpen : Bool} {current : ScopeRef} {names : Names} {place : Place}
    (sees : Sees world scopes ref names place) (grows : scopes.Grows grown)
    (extension : world.Extends isOpen current later) : Sees later grown ref names place where
  reads name allowed :=
    ⟨(sees.reads name allowed).1.mono grows extension, (sees.reads name allowed).2.mono grows⟩
  writes name allowed := (sees.writes name allowed).mono grows extension

theorem Represents.sees (represents : Represents world scopes globals ref tables locals)
    (isInner : Bool) (role : Role) :
    Sees world scopes ref { reads := locals, writes := locals } ⟨tables, isInner, role⟩ where
  reads name _ := represents.finds name .read
  writes name _ := (represents.finds name .write).1

theorem Represents.sees_superclass (represents : Represents world scopes globals ref tables locals)
    (isInner : Bool) (declared : String) :
    Sees world scopes ref { reads := locals, writes := locals }
      ⟨introduceIn declared tables, isInner, .superclass declared⟩ where
  reads name allowed := by
    rw [distance?_introduceIn_of_ne (Ne.symm (allowed declared rfl))]
    exact represents.finds name .read
  writes name allowed := by
    rw [distance?_introduceIn_of_ne (Ne.symm (allowed declared rfl))]
    exact (represents.finds name .write).1

/-- In its own initializer, a new local name is read further out but written in its
cell. -/
theorem Represents.sees_initializer {table : NameTable} {name : String} {cell : CellRef}
    (represents : Represents world scopes globals ref (table :: tables) locals)
    (isNew : table[name]? = none) (site : world.site? cell = some ⟨ref, name⟩) (isInner : Bool) :
    Sees world scopes ref { reads := locals, writes := locals.insert name cell }
      ⟨declareIn name (table :: tables), isInner, .initializer name⟩ := by
  have declared : declareIn name (table :: tables) = table.insert name .declared :: tables := by
    simp [declareIn, Std.TreeMap.contains_eq_isSome_getElem?, isNew]
  refine ⟨?_, ?_⟩
  · intro sought _
    have same : distance? sought .read (declareIn name (table :: tables)) =
        distance? sought .read (table :: tables) := by
      by_cases equal : name = sought
      · subst equal
        rw [declared]
        simp [distance?, isNew]
      · exact distance?_declareIn_of_ne equal .read (table :: tables)
    rw [same]
    exact represents.finds sought .read
  · intro sought _
    by_cases equal : name = sought
    · subst equal
      have nearest : distance? name .write (declareIn name (table :: tables)) = some 0 := by
        rw [declared]
        simp [distance?, Std.TreeMap.contains_eq_isSome_getElem?]
      rw [nearest]
      exact ⟨ref, cell, rfl, by rw [Table.getElem?_insert, if_pos rfl], site⟩
    · have finds := (represents.finds sought .write).1
      rw [← distance?_declareIn_of_ne equal .write (table :: tables)] at finds
      have kept : (locals.insert name cell)[sought]? = locals[sought]? := by
        rw [Table.getElem?_insert, if_neg equal]
      cases distance : distance? sought .write (declareIn name (table :: tables)) with
      | none =>
          rw [distance] at finds
          exact kept.trans finds
      | some hops =>
          rw [distance] at finds
          rcases finds with ⟨scope, found, reached, isFound, isSite⟩
          exact ⟨scope, found, reached, kept.trans isFound, isSite⟩

end Finding

end Lexical

end Lox
