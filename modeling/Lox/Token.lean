/-!
# Tokens

The words of the language: punctuation and operators, reserved words, names,
and literals.  A token keeps the text it was written as and the line on which
that text ends.
-/

namespace Lox

/-- Punctuation and operators. -/
inductive Punct where
  | leftParen
  | rightParen
  | leftBrace
  | rightBrace
  | comma
  | dot
  | minus
  | plus
  | semicolon
  | slash
  | star
  | bang
  | bangEqual
  | equal
  | equalEqual
  | greater
  | greaterEqual
  | less
  | lessEqual
  deriving DecidableEq, Repr

namespace Punct

/-- The one-character operator or punctuation mark written as `c`. -/
def single? : Char → Option Punct
  | '(' => some .leftParen
  | ')' => some .rightParen
  | '\x7b' => some .leftBrace
  | '\x7d' => some .rightBrace
  | ',' => some .comma
  | '.' => some .dot
  | '-' => some .minus
  | '+' => some .plus
  | ';' => some .semicolon
  | '/' => some .slash
  | '*' => some .star
  | '!' => some .bang
  | '=' => some .equal
  | '>' => some .greater
  | '<' => some .less
  | _ => none

/-- The two-character operator that a following `=` makes of this one. -/
def withEqual? : Punct → Option Punct
  | .bang => some .bangEqual
  | .equal => some .equalEqual
  | .greater => some .greaterEqual
  | .less => some .lessEqual
  | _ => none

/-- The name under which listings show the mark. -/
def name : Punct → String
  | .leftParen => "LEFT_PAREN"
  | .rightParen => "RIGHT_PAREN"
  | .leftBrace => "LEFT_BRACE"
  | .rightBrace => "RIGHT_BRACE"
  | .comma => "COMMA"
  | .dot => "DOT"
  | .minus => "MINUS"
  | .plus => "PLUS"
  | .semicolon => "SEMICOLON"
  | .slash => "SLASH"
  | .star => "STAR"
  | .bang => "BANG"
  | .bangEqual => "BANG_EQUAL"
  | .equal => "EQUAL"
  | .equalEqual => "EQUAL_EQUAL"
  | .greater => "GREATER"
  | .greaterEqual => "GREATER_EQUAL"
  | .less => "LESS"
  | .lessEqual => "LESS_EQUAL"

/-- Every mark, in the order of their declaration. -/
def all : List Punct :=
  [.leftParen, .rightParen, .leftBrace, .rightBrace, .comma, .dot, .minus, .plus,
    .semicolon, .slash, .star, .bang, .bangEqual, .equal, .equalEqual, .greater,
    .greaterEqual, .less, .lessEqual]

end Punct

/-- Reserved words. -/
inductive Keyword where
  | and_
  | class_
  | else_
  | false_
  | fun_
  | for_
  | if_
  | nil_
  | or_
  | print_
  | return_
  | super_
  | this_
  | true_
  | var_
  | while_
  deriving DecidableEq, Repr

namespace Keyword

/-- How the reserved word is spelled. -/
def text : Keyword → String
  | .and_ => "and"
  | .class_ => "class"
  | .else_ => "else"
  | .false_ => "false"
  | .fun_ => "fun"
  | .for_ => "for"
  | .if_ => "if"
  | .nil_ => "nil"
  | .or_ => "or"
  | .print_ => "print"
  | .return_ => "return"
  | .super_ => "super"
  | .this_ => "this"
  | .true_ => "true"
  | .var_ => "var"
  | .while_ => "while"

/-- The name under which listings show the word. -/
def name : Keyword → String
  | .and_ => "AND"
  | .class_ => "CLASS"
  | .else_ => "ELSE"
  | .false_ => "FALSE"
  | .fun_ => "FUN"
  | .for_ => "FOR"
  | .if_ => "IF"
  | .nil_ => "NIL"
  | .or_ => "OR"
  | .print_ => "PRINT"
  | .return_ => "RETURN"
  | .super_ => "SUPER"
  | .this_ => "THIS"
  | .true_ => "TRUE"
  | .var_ => "VAR"
  | .while_ => "WHILE"

/-- Every reserved word. -/
def all : List Keyword :=
  [.and_, .class_, .else_, .false_, .fun_, .for_, .if_, .nil_, .or_, .print_,
    .return_, .super_, .this_, .true_, .var_, .while_]

/-- The reserved word spelled exactly `word`. -/
def ofText? (word : String) : Option Keyword :=
  all.find? fun keyword => keyword.text == word

end Keyword

/-- What a token is.  Literals carry their value. -/
inductive TokenKind where
  | punct (mark : Punct)
  | keyword (word : Keyword)
  | identifier
  | string (contents : String)
  | number (value : Float)
  | endOfInput
  deriving DecidableEq

namespace TokenKind

/-- The name under which listings show the kind; literals of one type share it. -/
def name : TokenKind → String
  | .punct mark => mark.name
  | .keyword word => word.name
  | .identifier => "IDENTIFIER"
  | .string _ => "STRING"
  | .number _ => "NUMBER"
  | .endOfInput => "EOF"

end TokenKind

/-- A word of the source text. -/
structure Token where
  kind : TokenKind
  /-- The text as written, quotes of a string included. -/
  lexeme : String
  /-- The line on which the text ends, counted from one. -/
  line : Nat
  deriving DecidableEq

namespace Token

/-- The token that closes every token list. -/
def endOfInput (line : Nat) : Token :=
  { kind := .endOfInput, lexeme := "", line }

end Token

end Lox
