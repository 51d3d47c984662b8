import Lox.Decimal.Shortest

/-!
# Texts of numbers

How a double is laid out as text.  The digits come from `Decimal.shortest`;
a `NumberFormat` says how they are arranged.
-/

namespace Lox

/-- The layout decisions of one way to write numbers. -/
structure NumberFormat where
  /-- Which digits are taken when two shortest decimals are equally close. -/
  tie : Tie
  /-- Whether a whole number is written with all digits of its exact value
  instead of the shortest digits. -/
  exactWholes : Bool
  /-- What follows a whole number in positional notation. -/
  wholeSuffix : String
  /-- The positions of the decimal point, counted from the first digit, for
  which positional notation is used; `none` stands for all of them. -/
  positional : Option (Int × Int)
  /-- What introduces a positive exponent. -/
  exponentMark : String
  nan : String
  infinity : String
  negativeInfinity : String

namespace Decimal

/-- The digits of the significand. -/
def digits (d : Decimal) : List Char :=
  Nat.toDigits 10 d.significand

/-- The position of the decimal point, counted from the first digit. -/
def point (d : Decimal) : Int :=
  d.digits.length + d.exponent

/-- The decimal without an exponent; `wholeSuffix` follows a whole number. -/
def positional (wholeSuffix : String) (d : Decimal) : String :=
  let digits := d.digits
  let places := (-d.exponent).toNat
  if places = 0 then
    String.ofList (digits ++ List.replicate d.exponent.toNat '0') ++ wholeSuffix
  else if places < digits.length then
    String.ofList (digits.take (digits.length - places)) ++ "." ++
      String.ofList (digits.drop (digits.length - places))
  else
    "0." ++ String.ofList (List.replicate (places - digits.length) '0' ++ digits)

/-- The decimal as one digit, a fraction and an exponent. -/
def scientific (exponentMark : String) (d : Decimal) : String :=
  let exponent := d.point - 1
  let fraction := d.digits.drop 1
  String.ofList (d.digits.take 1) ++
    (if fraction.isEmpty then "" else "." ++ String.ofList fraction) ++
    (if exponent < 0 then "e-" else exponentMark) ++
    toString exponent.natAbs

end Decimal

namespace NumberFormat

/-- The text of the size of a finite double. -/
def renderSize (format : NumberFormat) (b : Binary) : String :=
  if format.exactWholes && b.isIntegral then
    toString b.floor ++ format.wholeSuffix
  else
    let decimal := Decimal.shortest format.tie b
    match format.positional with
    | none => decimal.positional format.wholeSuffix
    | some (least, greatest) =>
        if b.mantissa = 0 || (least ≤ decimal.point && decimal.point ≤ greatest) then
          decimal.positional format.wholeSuffix
        else
          decimal.scientific format.exponentMark

/-- The text of a double.  A minus sign stands before every negative number,
negative zero included, but never before a value that is not a number. -/
def render (format : NumberFormat) (x : Float) : String :=
  if x.isNaN then
    format.nan
  else
    let isNegative := x.toBits >>> 63 = 1
    if x.isInf then
      if isNegative then format.negativeInfinity else format.infinity
    else
      (if isNegative then "-" else "") ++ format.renderSize (Binary.ofFloat x)

/-- Numbers as a program prints them: whole numbers in full, all others with
the fewest digits that read back, never with an exponent. -/
def printed : NumberFormat where
  tie := .up
  exactWholes := true
  wholeSuffix := ""
  positional := none
  exponentMark := "e"
  nan := "NaN"
  infinity := "inf"
  negativeInfinity := "-inf"

/-- Numbers as literals in listings of tokens and trees: as `printed`, but
with a fraction on whole numbers. -/
def literal : NumberFormat :=
  { printed with wholeSuffix := ".0" }

/-- Numbers in JSON texts: positional from `0.00001` up to sixteen digits,
otherwise with a signed exponent.  Infinity has no JSON text. -/
def json : NumberFormat where
  tie := .toEven
  exactWholes := false
  wholeSuffix := ".0"
  positional := some (-4, 16)
  exponentMark := "e+"
  nan := "null"
  infinity := "null"
  negativeInfinity := "null"

/-- Numbers in descriptions of values: positional from `0.0001` up to sixteen
digits, otherwise with an exponent. -/
def described : NumberFormat where
  tie := .up
  exactWholes := false
  wholeSuffix := ".0"
  positional := some (-3, 16)
  exponentMark := "e"
  nan := "NaN"
  infinity := "inf"
  negativeInfinity := "-inf"

end NumberFormat

end Lox
