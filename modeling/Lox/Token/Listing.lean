import Lox.Decimal.Format
import Lox.Token

/-!
# Listings of tokens

Two ways to show a token on one line: three columns separated by spaces, and a
JSON object.
-/

namespace Lox

namespace JsonText

/-- A digit below sixteen in lower-case hexadecimal. -/
def hexDigit (n : Nat) : Char :=
  Nat.digitChar (n % 16)

/-- A character inside a JSON string.  Quotes, backslashes and control
characters are escaped, all others stand for themselves. -/
def escapeChar (c : Char) : List Char :=
  if c = '"' then ['\\', '"']
  else if c = '\\' then ['\\', '\\']
  else if c.toNat = 8 then ['\\', 'b']
  else if c.toNat = 9 then ['\\', 't']
  else if c.toNat = 10 then ['\\', 'n']
  else if c.toNat = 12 then ['\\', 'f']
  else if c.toNat = 13 then ['\\', 'r']
  else if c.toNat < 32 then
    ['\\', 'u', '0', '0', hexDigit (c.toNat / 16), hexDigit c.toNat]
  else [c]

/-- A text as a JSON string with its quotes. -/
def quote (text : String) : String :=
  "\"" ++ String.ofList (text.toList.flatMap escapeChar) ++ "\""

end JsonText

namespace TokenKind

/-- The kind as JSON: its name, or an object from its name to its value. -/
def json (kind : TokenKind) : String :=
  match kind with
  | .string contents =>
      "\x7b" ++ JsonText.quote kind.name ++ ":" ++ JsonText.quote contents ++ "\x7d"
  | .number value =>
      "\x7b" ++ JsonText.quote kind.name ++ ":" ++ NumberFormat.json.render value ++ "\x7d"
  | _ => JsonText.quote kind.name

/-- The literal column: the contents of a string, a number with a fraction,
and `null` for everything else. -/
def literalText : TokenKind → String
  | .string contents => contents
  | .number value => NumberFormat.literal.render value
  | _ => "null"

end TokenKind

namespace Token

/-- The columns kind, text and literal. -/
def columns (token : Token) : String :=
  token.kind.name ++ " " ++ token.lexeme ++ " " ++ token.kind.literalText

/-- The token as a JSON object. -/
def json (token : Token) : String :=
  "\x7b\"token_type\":" ++ token.kind.json ++
    ",\"lexeme\":" ++ JsonText.quote token.lexeme ++
    ",\"line\":" ++ toString token.line ++ "\x7d"

end Token

end Lox
