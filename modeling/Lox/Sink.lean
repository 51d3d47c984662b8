/-!
# Output

A sink takes the bytes that a program prints.  It may have room for a limited
number of bytes only, and it may fail when it is flushed.
-/

namespace Lox

/-- Why output failed. -/
inductive OutputError where
  | sinkFull
  | flushFailed
  deriving DecidableEq, Repr

namespace OutputError

/-- The wording of the failure. -/
def message : OutputError → String
  | .sinkFull => "sink full"
  | .flushFailed => "flush failed"

end OutputError

/-- Where printed bytes go. -/
structure Sink where
  /-- All bytes taken so far. -/
  written : ByteArray
  /-- The most bytes the sink takes; `none` stands for no limit. -/
  capacity : Option Nat
  flushFails : Bool

namespace Sink

/-- A sink that takes everything. -/
def unlimited : Sink :=
  { written := .empty, capacity := none, flushFails := false }

/-- Whether all of the given bytes fit. -/
def hasRoom (sink : Sink) (bytes : ByteArray) : Bool :=
  match sink.capacity with
  | none => true
  | some capacity => sink.written.size + bytes.size ≤ capacity

/-- Take as many of the given bytes as fit. -/
def write (sink : Sink) (bytes : ByteArray) : Sink :=
  match sink.capacity with
  | none => { sink with written := sink.written ++ bytes }
  | some capacity =>
      { sink with
        written := sink.written ++ bytes.extract 0 (capacity - sink.written.size) }

end Sink

end Lox
