/-!
# Shortest decimals

A finite double stands for an interval of reals: those that round to it.
This module decodes the double into `mantissa * 2 ^ exponent`, tests decimals
against that interval with natural-number arithmetic only, and selects the
decimal with the fewest digits that lies in it.
-/

namespace Lox

/-- A decimal `significand * 10 ^ exponent`. -/
structure Decimal where
  significand : Nat
  exponent : Int
  deriving DecidableEq, Repr

/-- Which of two equally close decimals is taken. -/
inductive Tie where
  | up
  | toEven
  deriving DecidableEq, Repr

/-- The size of a finite double as `mantissa * 2 ^ exponent`.  The gap to the
next smaller double is half the gap to the next larger one exactly when
`narrowBelow` holds. -/
structure Binary where
  mantissa : Nat
  exponent : Int
  narrowBelow : Bool
  deriving DecidableEq, Repr

namespace Binary

/-- Read the fields of a double's bits, ignoring its sign. -/
def ofBits (bits : UInt64) : Binary :=
  let fraction := (bits &&& 0xFFFFFFFFFFFFF).toNat
  let biased := ((bits >>> 52) &&& 0x7FF).toNat
  if biased = 0 then
    { mantissa := fraction, exponent := -1074, narrowBelow := false }
  else
    { mantissa := (1 <<< 52) + fraction
      exponent := (biased : Int) - 1075
      narrowBelow := fraction = 0 && 1 < biased }

/-- The size of a finite double. -/
def ofFloat (x : Float) : Binary :=
  ofBits x.toBits

/-- Whether the size is a whole number. -/
def isIntegral (b : Binary) : Bool :=
  b.mantissa % (1 <<< (-b.exponent).toNat) = 0

/-- The whole part of the size. -/
def floor (b : Binary) : Nat :=
  (b.mantissa <<< b.exponent.toNat) >>> (-b.exponent).toNat

/-- `quarters` quarter units of the last mantissa place, measured so that it
can be compared with `decimalSide` of the same grid. -/
def binarySide (b : Binary) (grid : Int) (quarters : Nat) : Nat :=
  (quarters <<< (b.exponent - 2).toNat) * Nat.pow 10 (-grid).toNat

/-- `count` steps of `10 ^ grid`, measured so that it can be compared with
`binarySide`. -/
def decimalSide (b : Binary) (grid : Int) (count : Nat) : Nat :=
  (count <<< (2 - b.exponent).toNat) * Nat.pow 10 grid.toNat

/-- Whether the decimal `count * 10 ^ grid` rounds to this double: it lies
between the midpoints to both neighbours, the midpoints themselves included
exactly when the mantissa is even. -/
def covers (b : Binary) (grid : Int) (count : Nat) : Bool :=
  let low := b.binarySide grid (4 * b.mantissa - if b.narrowBelow then 1 else 2)
  let high := b.binarySide grid (4 * b.mantissa + 2)
  let point := b.decimalSide grid count
  if b.mantissa % 2 = 0 then low ≤ point && point ≤ high
  else low < point && point < high

/-- Whether the size is below `10 ^ scale`. -/
def isBelowPower (b : Binary) (scale : Int) : Bool :=
  b.binarySide scale (4 * b.mantissa) < b.decimalSide scale 1

/-- The least `scale` with the size below `10 ^ scale`, found from the binary
logarithm and at most two exact comparisons. -/
def scale (b : Binary) : Int :=
  let estimate := ((b.mantissa.log2 : Int) + b.exponent) * 30103 / 100000
  if b.isBelowPower estimate then estimate
  else if b.isBelowPower (estimate + 1) then estimate + 1
  else estimate + 2

/-- The multiple of `10 ^ grid` next to the size that rounds to this double,
the nearer one if both neighbours do. -/
def onGrid (b : Binary) (tie : Tie) (grid : Int) : Option Nat :=
  let size := b.binarySide grid (4 * b.mantissa)
  let below := size / b.decimalSide grid 1
  let above := below + 1
  match b.covers grid below, b.covers grid above with
  | false, false => none
  | true, false => some below
  | false, true => some above
  | true, true =>
      let doubled := 2 * size
      let sum := b.decimalSide grid (below + above)
      if doubled < sum then some below
      else if sum < doubled then some above
      else
        match tie with
        | .up => some above
        | .toEven => if below % 2 = 0 then some below else some above

/-- The decimal on the coarsest of the given grids that rounds to this double. -/
def firstOnGrids (b : Binary) (tie : Tie) : List Int → Option Decimal
  | [] => none
  | grid :: finer =>
      match b.onGrid tie grid with
      | some significand => some { significand, exponent := grid }
      | none => b.firstOnGrids tie finer

/-- The exact value as a decimal. -/
def exact (b : Binary) : Decimal :=
  { significand := (b.mantissa <<< b.exponent.toNat) * Nat.pow 5 (-b.exponent).toNat
    exponent := -((-b.exponent).toNat : Int) }

end Binary

namespace Decimal

/-- Move up to `fuel` trailing zeros of a significand into the exponent. -/
def stripZeros : Nat → Nat → Int → Decimal
  | 0, significand, exponent => { significand, exponent }
  | fuel + 1, significand, exponent =>
      if significand ≠ 0 ∧ significand % 10 = 0 then
        stripZeros fuel (significand / 10) (exponent + 1)
      else
        { significand, exponent }

/-- Drop the trailing zeros of the significand; its value is kept. -/
def normalize (d : Decimal) : Decimal :=
  stripZeros (d.significand.log2 + 1) d.significand d.exponent

/-- The decimal with the fewest digits that rounds to the given size, the
nearest one of those.  Seventeen digits always suffice. -/
def shortest (tie : Tie) (b : Binary) : Decimal :=
  if b.mantissa = 0 then
    { significand := 0, exponent := 0 }
  else
    let scale := b.scale
    let grids := (List.range 17).map fun (places : Nat) => scale - 1 - (places : Int)
    ((b.firstOnGrids tie grids).getD b.exact).normalize

end Decimal

end Lox
