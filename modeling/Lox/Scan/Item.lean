import Lox.Scan.Span

/-!
# Items

Scanning yields items: tokens, and lexical errors in the place of the tokens they
spoiled.  Every item carries the line on which its text ends, and exactly one
end-of-input token closes the list.
-/

namespace Lox

/-- A lexical fault and the line on which the faulty text ends. -/
structure LexError where
  line : Nat
  cause : LexicalFault
  deriving DecidableEq, Repr

namespace LexicalFault

/-- The wording of the fault. -/
def message : LexicalFault → String
  | .unterminatedString => "Unterminated string."
  | .unexpectedCharacter c => "Unexpected character: " ++ c.toString

end LexicalFault

namespace LexError

/-- The report of the error. -/
def message (error : LexError) : String :=
  "[line " ++ toString error.line ++ "] Error: " ++ error.cause.message

end LexError

/-- A token, or the error in its place. -/
abbrev ScanItem :=
  Except LexError Token

/-- The number of line breaks in a text. -/
def lineBreaks (text : List Char) : Nat :=
  text.count '\n'

namespace Span

/-- The item that a span ending on `line` yields, if it is not skipped. -/
def item? (span : Span) (line : Nat) : Option ScanItem :=
  match span.piece with
  | .blank => none
  | .token kind => some (.ok { kind, lexeme := String.ofList span.text, line })
  | .fault cause => some (.error { line, cause })

end Span

/-- The items of spans that start on `line`, put behind `done` in reverse
order. -/
def itemsOnto (done : List ScanItem) (line : Nat) : List Span → List ScanItem
  | [] => .ok (Token.endOfInput line) :: done
  | span :: rest =>
      let last := line + lineBreaks span.text
      itemsOnto ((span.item? last).toList ++ done) last rest

/-- The items of spans that start on `line`, from left to right. -/
def items (line : Nat) (spans : List Span) : List ScanItem :=
  (itemsOnto [] line spans).reverse

/-- The token of an item. -/
def token? : ScanItem → Option Token
  | .ok token => some token
  | .error _ => none

/-- The error of an item. -/
def lexError? : ScanItem → Option LexError
  | .ok _ => none
  | .error error => some error

/-! ## Items from left to right -/

theorem itemsOnto_eq (done : List ScanItem) (line : Nat) (spans : List Span) :
    itemsOnto done line spans = itemsOnto [] line spans ++ done := by
  induction spans generalizing done line with
  | nil => simp [itemsOnto]
  | cons span rest ih =>
      simp only [itemsOnto]
      rw [ih, ih ((span.item? _).toList ++ [])]
      simp

@[simp]
theorem items_nil (line : Nat) :
    items line [] = [.ok (Token.endOfInput line)] := by
  simp [items, itemsOnto]

theorem items_cons (line : Nat) (span : Span) (rest : List Span) :
    items line (span :: rest) =
      (span.item? (line + lineBreaks span.text)).toList ++
        items (line + lineBreaks span.text) rest := by
  simp only [items, itemsOnto]
  rw [itemsOnto_eq]
  cases span.item? (line + lineBreaks span.text) <;> simp

end Lox
