import Mathlib
import Lox.Proofs.Lexical.Simulation
import Lox.Proofs.Session.Histories

/-!
# Scoping is lexical

A program that is parsed from a source text and accepted by resolution does, on a
new machine with the distances that resolution found, what it means without any
resolution.
-/

namespace Lox

namespace Lexical

/-- The visit is legal, and its distance is recorded. -/
def Recorded (distances : Std.TreeMap UseId Nat) (visit : Visit) : Prop :=
  visit.Legal ∧ distances[visit.id]? = visit.use.distance

theorem own?_initial {sink : Sink} {clock : Clock} {ref : ScopeRef} {name : String} {value : Value}
    (bound : (Machine.initial sink clock).heap.scopes.own? ref name = some value) :
    ref = ⟨0⟩ ∧ ((∅ : Bindings).insert "clock" (.native ⟨0⟩))[name]? = some value := by
  have present := Scopes.lt_of_own (Option.isSome_of_eq_some bound)
  have isGlobal : ref = ⟨0⟩ := congrArg ScopeRef.mk (Nat.lt_one_iff.mp present)
  subst isGlobal
  exact ⟨rfl, bound⟩

theorem variables_initial (sink : Sink) (clock : Clock) :
    Variables [] (Machine.initial sink clock).heap.scopes ⟨0⟩ #[]
      ((∅ : Bindings).insert "clock" (.native ⟨0⟩)) where
  present := Nat.zero_lt_one
  size := rfl
  nodup := List.nodup_nil
  sites _ member := by cases member
  covered ref name isLocal bound := by
    rcases Option.isSome_iff_exists.mp bound with ⟨value, isValue⟩
    exact absurd (own?_initial isValue).1 isLocal
  contents _ _ _ known := by cases known
  table _ := rfl
  super ref value bound := by
    have entry := (own?_initial bound).2
    rw [Table.getElem?_insert, if_neg (by decide)] at entry
    cases entry

/-- A new store mirrors a new machine, whatever distances that has. -/
theorem mirrors_new (sink : Sink) (clock : Clock) (uses : List Use) {known : Visit → Prop}
    (recorded : ∀ visit, known visit → visit.Legal ∧
      ((Machine.initial sink clock).record uses).distances[visit.id]? = visit.use.distance) :
    Mirrors known [] ((Machine.initial sink clock).record uses) (.initial sink clock) where
  current := Nat.zero_lt_one
  stored := variables_initial sink clock
  functionCount := rfl
  functions ref := by
    have absent : ((Machine.initial sink clock).record uses).heap.function ref = default := by
      simp [Heap.function, Machine.record, Machine.initial, Heap.empty]
    have absent' : (Store.initial sink clock).function ref = default := by
      simp [Store.function, Store.initial]
    rw [absent, absent']
    refine ⟨rfl, rfl, [], ⟨rfl, ?_⟩, ⟨⟨by decide, by decide⟩, ?_, trivial⟩, ⟨trivial, trivial⟩,
      ?_, ?_⟩
    · intro name
      exact Std.TreeMap.getElem?_emptyc
    · intro param member
      cases member
    · intro visit member
      cases member
    · intro impossible
      cases impossible
  classCount := rfl
  classes ref := by
    have absent : ((Machine.initial sink clock).record uses).heap.classInfo ref = default := by
      simp [Heap.classInfo, Machine.record, Machine.initial, Heap.empty]
    have absent' : (Store.initial sink clock).classInfo ref = default := by
      simp [Store.classInfo, Store.initial]
    rw [absent, absent']
    exact ⟨rfl, rfl, fun _ => .none⟩
  natives := rfl
  objects := rfl
  callDepth := rfl
  callLimit := rfl
  sink := rfl
  clock := rfl
  recorded := recorded

theorem mirrors_initial (sink : Sink) (clock : Clock) (uses : List Use) :
    Mirrors (Recorded ((Machine.initial sink clock).record uses).distances) []
      ((Machine.initial sink clock).record uses) (.initial sink clock) :=
  mirrors_new sink clock uses fun _ recorded => recorded

/-- Outside all functions and blocks there are no local names. -/
theorem fits_globals {world : World} {machine : Machine}
    (atGlobals : machine.current = machine.globals) :
    Fits world machine [] { locals := ∅, isLocal := false } :=
  ⟨⟨atGlobals, fun _ => Std.TreeMap.getElem?_emptyc⟩, rfl, trivial⟩

/-- The visits of an accepted program are recorded. -/
theorem recorded_of_accepted {sink : Sink} {clock : Clock} {source : String}
    {firstId nextId : UseId} {program : List Stmt}
    (parsed : parseProgram firstId (scanTokens source) = (.ok program, nextId))
    (accepted : (resolveProgram (Machine.initial sink clock).globalNames program).errors = [])
    {visit : Visit} (visited : visit ∈ Stmt.visitsEach [] false program) :
    Recorded ((Machine.initial sink clock).record
      (resolveProgram (Machine.initial sink clock).globalNames program).uses).distances visit := by
  have formed := wellFormed_of_parse (scanned_scanTokens _) parsed
  rcases resolveProgram_visits formed accepted with ⟨uses, legal⟩
  refine ⟨legal visit visited, ?_⟩
  rw [uses]
  have nodup : (((Stmt.visitsEach [] false program).map Visit.use).map Use.id).Nodup := by
    rw [List.map_map]
    exact (fresh_of_parse parsed).nodup
  exact (Machine.initial sink clock).getElem?_record nodup (List.mem_map_of_mem visited) rfl

end Lexical

open Lexical in
/-- Scoping is lexical: a program does on a new machine, with the distances that
resolution found, what it does by the lexical semantics.  It ends in the same way,
with the same output. -/
theorem accepted_program_is_lexical (sink : Sink) (clock : Clock) (fuel : Nat) {source : String}
    {firstId nextId : UseId} {program : List Stmt}
    (parsed : parseProgram firstId (scanTokens source) = (.ok program, nextId))
    (accepted : (resolveProgram (Machine.initial sink clock).globalNames program).errors = []) :
    ((Machine.initial sink clock).runProgram fuel program).1 =
        (Lexical.run fuel sink clock program).1 ∧
      ((Machine.initial sink clock).runProgram fuel program).2.sink =
        (Lexical.run fuel sink clock program).2 := by
  have formed := wellFormed_of_parse (scanned_scanTokens _) parsed
  have mirrors := mirrors_initial sink clock
    (resolveProgram (Machine.initial sink clock).globalNames program).uses
  have noLocals : ∀ name : String, (∅ : Locals)[name]? = none := fun _ =>
    Std.TreeMap.getElem?_emptyc
  have agrees : Agrees _ true [] _ _ (Lox.executeProgram fuel program)
      (Lexical.executeProgram fuel program) :=
    executeProgram_agrees mirrors ⟨⟨rfl, noLocals⟩, rfl, trivial⟩ formed
      (resolveProgram_distinct formed accepted)
      (fun visit visited => recorded_of_accepted parsed accepted visited)
  unfold Agrees Simulates at agrees
  rw [Machine.runProgram, accepted, Lexical.run]
  generalize Lox.executeProgram fuel program _ = result at agrees ⊢
  generalize Lexical.executeProgram fuel program _ = result' at agrees ⊢
  cases result with
  | ok value final =>
      cases result' with
      | ok value' final' =>
          rcases agrees with ⟨later, -, -, last, -⟩
          exact ⟨rfl, last.sink.symm⟩
      | error cause' final' => exact agrees.elim
  | error cause final =>
      cases result' with
      | ok value' final' => exact agrees.elim
      | error cause' final' =>
          rcases agrees with ⟨rfl, later, -, -, last⟩
          exact ⟨rfl, last.sink.symm⟩

/-- A function that reads a variable of an outer block, and is called before and
after a variable of that name is declared around it. -/
def shadowingSource : String :=
  "\x7b var a = \"outer\"; \x7b fun show() \x7b print a; \x7d show(); var a = \"inner\"; show(); \x7d \x7d"

/-- The tree of `shadowingSource`. -/
def shadowingProgram : List Stmt :=
  [.block [.var ⟨"a", 1⟩ (some (.literal (.string "outer"))),
    .block [.function ⟨⟨"show", 1⟩, [], [.print (.var 0 ⟨"a", 1⟩)]⟩,
      .expression (.call (.var 1 ⟨"show", 1⟩) 1 []),
      .var ⟨"a", 1⟩ (some (.literal (.string "inner"))),
      .expression (.call (.var 2 ⟨"show", 1⟩) 1 [])]]]

theorem shadowingSource_parsed :
    parseProgram 0 (scanTokens shadowingSource) = (.ok shadowingProgram, 3) := by
  rw [scanTokens_eq]
  cbv

theorem shadowing_is_lexical :
    parseProgram 0 (scanTokens shadowingSource) = (.ok shadowingProgram, 3) ∧
      ((Machine.initial .unlimited (.startingAt 0)).runProgram 20 shadowingProgram).2.sink =
        (Lexical.run 20 .unlimited (.startingAt 0) shadowingProgram).2 ∧
      (Lexical.run 20 .unlimited (.startingAt 0) shadowingProgram).2.written =
        "outer\nouter\n".toUTF8 :=
  ⟨shadowingSource_parsed,
    (accepted_program_is_lexical .unlimited (.startingAt 0) 20 shadowingSource_parsed
      (by decide +kernel)).2,
    by decide +kernel⟩

end Lox
