import Lox.Token

/-!
# Cutting source text into spans

A span is a stretch of source text that is one token, one lexical fault, or
text to skip.  `Span.next` takes the longest span at the front of a text, and
`spans` repeats it until nothing is left.  The spans put together are the text
again: `flatMap_text_spans`.
-/

namespace Lox

/-- Why a stretch of text is no token. -/
inductive LexicalFault where
  | unterminatedString
  | unexpectedCharacter (c : Char)
  deriving DecidableEq, Repr

/-- What a stretch of source text is. -/
inductive Piece where
  | blank
  | token (kind : TokenKind)
  | fault (cause : LexicalFault)
  deriving DecidableEq

/-- A stretch of source text and what it is. -/
structure Span where
  text : List Char
  piece : Piece
  deriving DecidableEq

/-! ## Character classes -/

/-- White space between tokens. -/
def isBlank (c : Char) : Bool :=
  c = ' ' || c = '\r' || c = '\t' || c = '\n'

/-- A character that can start a word: an ASCII letter or an underscore. -/
def isWordStart (c : Char) : Bool :=
  c.isAlpha || c = '_'

/-- A character inside a word: an ASCII letter or digit or an underscore. -/
def isWordChar (c : Char) : Bool :=
  c.isAlpha || c.isDigit || c = '_'

/-- The number written by decimal digits, read from left to right. -/
def digitsValue (digits : List Char) : Nat :=
  digits.foldl (fun value c => 10 * value + (c.toNat - '0'.toNat)) 0

/-- The double nearest to `whole.fraction`. -/
def numberValue (whole fraction : List Char) : Float :=
  Float.ofScientific (digitsValue (whole ++ fraction)) true fraction.length

/-- A word is reserved if it is spelled exactly like a reserved word. -/
def wordKind (word : String) : TokenKind :=
  match Keyword.ofText? word with
  | some keyword => .keyword keyword
  | none => .identifier

namespace Span

/-! ## One span -/

/-- A line comment, up to the end of the line; `rest` follows its first slash. -/
def comment (rest : List Char) : Span × List Char :=
  ({ text := '/' :: rest.takeWhile (· ≠ '\n'), piece := .blank },
    rest.dropWhile (· ≠ '\n'))

/-- An operator or punctuation mark, taking a following `=` where it can. -/
def mark (c : Char) (punct : Punct) (rest : List Char) : Span × List Char :=
  match punct.withEqual?, rest with
  | some double, '=' :: tail =>
      ({ text := [c, '='], piece := .token (.punct double) }, tail)
  | _, _ => ({ text := [c], piece := .token (.punct punct) }, rest)

/-- A string literal; `rest` follows its opening quote.  Without a closing
quote the fault takes all that is left. -/
def quoted (rest : List Char) : Span × List Char :=
  match rest.dropWhile (· ≠ '"') with
  | [] => ({ text := '"' :: rest, piece := .fault .unterminatedString }, [])
  | quote :: tail =>
      let contents := rest.takeWhile (· ≠ '"')
      ({ text := '"' :: contents ++ [quote]
         piece := .token (.string (String.ofList contents)) }, tail)

/-- A number literal: digits, and a fraction if a point and a digit follow. -/
def number (c : Char) (rest : List Char) : Span × List Char :=
  let whole := c :: rest.takeWhile Char.isDigit
  match rest.dropWhile Char.isDigit with
  | '.' :: digit :: tail =>
      if digit.isDigit then
        let fraction := digit :: tail.takeWhile Char.isDigit
        ({ text := whole ++ '.' :: fraction
           piece := .token (.number (numberValue whole fraction)) },
          tail.dropWhile Char.isDigit)
      else
        ({ text := whole, piece := .token (.number (numberValue whole [])) },
          '.' :: digit :: tail)
  | tail =>
      ({ text := whole, piece := .token (.number (numberValue whole [])) }, tail)

/-- A name or a reserved word. -/
def word (c : Char) (rest : List Char) : Span × List Char :=
  let text := c :: rest.takeWhile isWordChar
  ({ text, piece := .token (wordKind (String.ofList text)) },
    rest.dropWhile isWordChar)

/-- The span at the front of `c :: rest`, and what follows it. -/
def next (c : Char) (rest : List Char) : Span × List Char :=
  if isBlank c then
    ({ text := [c], piece := .blank }, rest)
  else if c = '/' && rest.head? = some '/' then
    comment rest
  else
    match Punct.single? c with
    | some punct => mark c punct rest
    | none =>
        if c = '"' then quoted rest
        else if c.isDigit then number c rest
        else if isWordStart c then word c rest
        else
          ({ text := [c], piece := .fault (.unexpectedCharacter c) }, rest)

/-! ## Nothing is lost -/

theorem comment_append (rest : List Char) :
    (comment rest).1.text ++ (comment rest).2 = '/' :: rest := by
  simp [comment]

theorem mark_append (c : Char) (punct : Punct) (rest : List Char) :
    (mark c punct rest).1.text ++ (mark c punct rest).2 = c :: rest := by
  unfold mark
  split <;> simp

theorem quoted_append (rest : List Char) :
    (quoted rest).1.text ++ (quoted rest).2 = '"' :: rest := by
  unfold quoted
  split
  · simp
  · next quote tail remaining =>
      have rebuilt := List.takeWhile_append_dropWhile (p := (· ≠ '"')) (l := rest)
      rw [remaining] at rebuilt
      simpa using rebuilt

theorem number_append (c : Char) (rest : List Char) :
    (number c rest).1.text ++ (number c rest).2 = c :: rest := by
  have rebuilt := List.takeWhile_append_dropWhile (p := Char.isDigit) (l := rest)
  unfold number
  dsimp only
  split
  · next digit tail remaining =>
      rw [remaining] at rebuilt
      split <;> simpa using rebuilt
  · simp

theorem word_append (c : Char) (rest : List Char) :
    (word c rest).1.text ++ (word c rest).2 = c :: rest := by
  simp [word]

/-- A span and what follows it are the text that was cut. -/
theorem next_append (c : Char) (rest : List Char) :
    (next c rest).1.text ++ (next c rest).2 = c :: rest := by
  unfold next
  split
  · simp
  · split
    · next slashes =>
        have first : c = '/' := by simp_all
        rw [comment_append, first]
    · split
      · exact mark_append c _ rest
      · split
        · next quote => rw [quoted_append, quote]
        · split
          · exact number_append c rest
          · split
            · exact word_append c rest
            · simp

/-- A span takes at least the first character. -/
theorem next_text_ne_nil (c : Char) (rest : List Char) :
    (next c rest).1.text ≠ [] := by
  unfold next
  repeat' split
  all_goals simp [comment, mark, quoted, number, word]
  all_goals (repeat' split) <;> simp

/-- What follows a span is shorter than the text that was cut. -/
theorem length_next_lt (c : Char) (rest : List Char) :
    (next c rest).2.length < (c :: rest).length := by
  have rebuilt := congrArg List.length (next_append c rest)
  have nonempty := List.length_pos_iff.2 (next_text_ne_nil c rest)
  simp only [List.length_append] at rebuilt
  omega

end Span

/-! ## All spans -/

/-- Cut a text into spans, put behind `done` in reverse order. -/
def spansOnto (done : List Span) : List Char → List Span
  | [] => done
  | c :: rest => spansOnto ((Span.next c rest).1 :: done) (Span.next c rest).2
termination_by text => text.length
decreasing_by exact Span.length_next_lt c rest

/-- The spans of a text, from left to right. -/
def spans (text : List Char) : List Span :=
  (spansOnto [] text).reverse

theorem spansOnto_eq (done : List Span) (text : List Char) :
    spansOnto done text = spansOnto [] text ++ done := by
  match text with
  | [] => simp [spansOnto]
  | c :: rest =>
      rw [spansOnto, spansOnto, spansOnto_eq (_ :: done), spansOnto_eq [_]]
      simp
termination_by text.length
decreasing_by all_goals exact Span.length_next_lt c rest

@[simp]
theorem spans_nil : spans [] = [] := by
  simp [spans, spansOnto]

theorem spans_cons (c : Char) (rest : List Char) :
    spans (c :: rest) = (Span.next c rest).1 :: spans (Span.next c rest).2 := by
  rw [spans, spansOnto, spansOnto_eq]
  simp [spans]

/-- The spans of a text put together are the text. -/
theorem flatMap_text_spans (text : List Char) :
    (spans text).flatMap Span.text = text := by
  match text with
  | [] => simp
  | c :: rest =>
      rw [spans_cons, List.flatMap_cons, flatMap_text_spans, Span.next_append]
termination_by text.length
decreasing_by exact Span.length_next_lt c rest

end Lox
