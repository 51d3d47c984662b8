import Lox.Heap
import Lox.Interrupt
import Lox.Resolution.State
import Lox.Syntax.Uses

/-!
# The machine

The state in which programs run: the heap, the global and the current scope, the
number of calls in progress, the distances found by resolution, the output and
the clock.  Steps of a program are actions on this state that may be
interrupted.
-/

namespace Lox

/-- A clock: its readings in seconds, and how many have been taken. -/
structure Clock where
  reading : Nat → Float
  taken : Nat

namespace Clock

/-- A clock whose first reading is the given number of microseconds; each further
reading is a microsecond later. -/
def startingAt (microseconds : Nat) : Clock :=
  { reading := fun n => Float.ofScientific (microseconds + n) true 6
    taken := 0 }

end Clock

/-- The state in which programs run. -/
structure Machine where
  heap : Heap
  globals : ScopeRef
  current : ScopeRef
  /-- The number of calls in progress. -/
  callDepth : Nat
  /-- The most calls that may be in progress at once; `none` stands for no limit. -/
  callLimit : Option Nat
  /-- The distance from a use to its local variable; globals have none. -/
  distances : Std.TreeMap UseId Nat
  sink : Sink
  clock : Clock

/-- An action on the machine that yields a value or is interrupted. -/
abbrev Eval (α : Type) :=
  EStateM Interrupt Machine α

namespace Machine

/-- The most calls that may be in progress at once in an ordinary machine. -/
def maxCallDepth : Nat :=
  256

/-- The native function that reads the clock. -/
def clockNative : Native :=
  { name := "clock", arity := 0, action := .readClock }

/-- A machine that has run nothing; its one global is `clock`. -/
def initial (sink : Sink) (clock : Clock) : Machine where
  heap :=
    { Heap.empty with
      scopes := .push .empty
        { bindings := (∅ : Bindings).insert "clock" (.native ⟨0⟩), parent := none }
      natives := #[clockNative] }
  globals := ⟨0⟩
  current := ⟨0⟩
  callDepth := 0
  callLimit := some maxCallDepth
  distances := ∅
  sink
  clock

/-- The names of the globals, in ascending order. -/
def globalNames (machine : Machine) : List String :=
  machine.heap.scopes.names machine.globals

/-! ## Distances -/

/-- Record the distance of a use, if it has one. -/
def recordUse (distances : Std.TreeMap UseId Nat) (use : Use) : Std.TreeMap UseId Nat :=
  match use.distance with
  | some distance => distances.insert use.id distance
  | none => distances

/-- Record the distances that resolution found. -/
def record (machine : Machine) (uses : List Use) : Machine :=
  { machine with distances := uses.foldl recordUse machine.distances }

/-- Forget the distances of uses outside function bodies. -/
def release (machine : Machine) (program : List Stmt) : Machine :=
  { machine with
    distances := (Stmt.outerUsesEach program).foldl (·.erase ·) machine.distances }

end Machine

end Lox
