import Lox.Scan.Cursor

/-!
# Scanning

Scanning turns source text into items, from the start of the text to its end.
-/

namespace Lox

/-- Scan a source text.  No slice of it is missing, so that the default is not
used. -/
def scan (source : String) : List ScanItem :=
  (Cursor.initial.collect? source []).getD []

/-- The tokens of a source text, end of input included. -/
def scanTokens (source : String) : List Token :=
  (scan source).filterMap token?

/-- The lexical errors of a source text. -/
def scanErrors (source : String) : List LexError :=
  (scan source).filterMap lexError?

end Lox
