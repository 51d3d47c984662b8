import Lox.Scan.Item

/-!
# Reading source text byte by byte

A cursor stands at a byte of a source text.  It looks at the bytes ahead, where
a zero stands for all that is past the end, and it moves on; the text that it has
passed is a slice of the source, which there is only between two characters.
Whatever needs a slice that there is not, yields nothing at all.
-/

namespace Lox

/-- A place in a source text, counted in bytes. -/
structure Cursor where
  /-- The first byte of the lexeme that is being read. -/
  start : Nat
  /-- The next byte to be read. -/
  position : Nat
  /-- The line of the next byte. -/
  line : Nat
  /-- The end of input has been given out. -/
  finished : Bool
  deriving DecidableEq, Repr

/-- The text between two places.  There is none if the places are in the wrong
order, past the end of the source or inside a character of it. -/
def slice? (source : String) (start stop : Nat) : Option String :=
  if valid : start ≤ stop ∧ String.Pos.Raw.IsValid source ⟨start⟩ ∧
      String.Pos.Raw.IsValid source ⟨stop⟩ then
    some (source.extract ⟨⟨start⟩, valid.2.1⟩ ⟨⟨stop⟩, valid.2.2⟩)
  else
    none

/-- The double nearest to a decimal: digits, and perhaps a point and more digits. -/
def decimalValue? (text : List Char) : Option Float :=
  let whole := text.takeWhile Char.isDigit
  match text.dropWhile Char.isDigit with
  | [] => if whole.isEmpty then none else some (numberValue whole [])
  | '.' :: fraction =>
      if whole.isEmpty || !fraction.all Char.isDigit then none
      else some (numberValue whole fraction)
  | _ => none

namespace Cursor

/-- The start of a text. -/
def initial : Cursor :=
  { start := 0, position := 0, line := 1, finished := false }

variable (source : String) (cursor : Cursor)

/-! ## Moving -/

/-- All bytes have been read. -/
def atEnd : Bool :=
  source.utf8ByteSize ≤ cursor.position

/-- The byte that many places ahead, as the character with its code; past the
end, the character with code zero. -/
def look (ahead : Nat) : Char :=
  let place : String.Pos.Raw := ⟨cursor.position + ahead⟩
  if inside : place < source.rawEndPos then
    Char.ofUInt8 (source.getUTF8Byte place inside)
  else
    '\x00'

/-- The cursor behind the next byte. -/
def step : Cursor :=
  { cursor with position := cursor.position + 1 }

/-- The cursor behind the next byte, counting line breaks. -/
def stepCounting : Cursor :=
  if cursor.look source 0 = '\n' then { cursor.step with line := cursor.line + 1 }
  else cursor.step

theorem stepCounting_position :
    (cursor.stepCounting source).position = cursor.position + 1 := by
  unfold stepCounting
  split <;> rfl

/-- The text of the lexeme that has been read. -/
def lexeme? : Option String :=
  slice? source cursor.start cursor.position

variable {source cursor} in
/-- Only bytes of the text are not zero. -/
theorem lt_of_look_ne (nonzero : cursor.look source 0 ≠ '\x00') :
    cursor.position < source.utf8ByteSize := by
  apply Decidable.byContradiction
  intro outside
  exact nonzero (dif_neg outside)

/-- Move on as long as the next byte passes a test, which zero does not. -/
def skipWhile (passes : Char → Bool) (zero : passes '\x00' = false) (cursor : Cursor) : Cursor :=
  if passes (cursor.look source 0) then skipWhile passes zero cursor.step else cursor
termination_by source.utf8ByteSize - cursor.position
decreasing_by
  rename_i passed
  have inside : cursor.position < source.utf8ByteSize := lt_of_look_ne fun same => by
    rw [same, zero] at passed
    cases passed
  exact Nat.sub_succ_lt_self _ _ inside

/-- Move on to the next quote, counting line breaks. -/
def skipToQuote (cursor : Cursor) : Cursor :=
  if cursor.atEnd source = false ∧ cursor.look source 0 ≠ '"' then
    skipToQuote (cursor.stepCounting source)
  else
    cursor
termination_by source.utf8ByteSize - cursor.position
decreasing_by
  rename_i goesOn
  have inside : cursor.position < source.utf8ByteSize :=
    Nat.lt_of_not_le (of_decide_eq_false goesOn.1)
  rw [stepCounting_position]
  exact Nat.sub_succ_lt_self _ _ inside

/-- The first line break from the given byte on. -/
def lineBreak? (source : String) (place : Nat) : Option Nat :=
  if inside : (⟨place⟩ : String.Pos.Raw) < source.rawEndPos then
    if Char.ofUInt8 (source.getUTF8Byte ⟨place⟩ inside) = '\n' then some place
    else lineBreak? source (place + 1)
  else
    none
termination_by source.utf8ByteSize - place
decreasing_by
  have bounded : place < source.utf8ByteSize := inside
  omega

/-! ## Lexemes -/

/-- Jump to the line break that ends a comment, or to the end. -/
def skipComment : Cursor :=
  { cursor with
    position := (lineBreak? source cursor.position).getD source.utf8ByteSize }

/-- An operator or punctuation mark, taking a following `=` where it can. -/
def mark (punct : Punct) : Piece × Cursor :=
  match punct.withEqual? with
  | some double =>
      if cursor.look source 0 = '=' then (.token (.punct double), cursor.step)
      else (.token (.punct punct), cursor)
  | none => (.token (.punct punct), cursor)

/-- A string literal behind its opening quote. -/
def quoted? : Option (Piece × Cursor) :=
  let stopped := cursor.skipToQuote source
  if stopped.atEnd source then
    some (.fault .unterminatedString, stopped)
  else do
    let closed := stopped.step
    let contents ← slice? source (closed.start + 1) (closed.position - 1)
    return (.token (.string contents), closed)

/-- Digits. -/
def skipDigits : Cursor :=
  cursor.skipWhile source Char.isDigit (by decide)

/-- A number literal behind its first digit. -/
def number? : Option (Piece × Cursor) := do
  let whole := cursor.skipDigits source
  let read :=
    if whole.look source 0 = '.' ∧ (whole.look source 1).isDigit then
      whole.step.skipDigits source
    else
      whole
  let text ← read.lexeme? source
  return (.token (.number ((decimalValue? text.toList).getD 0)), read)

/-- A name or a reserved word behind its first character. -/
def word? : Option (Piece × Cursor) := do
  let read := cursor.skipWhile source isWordChar (by decide)
  let text ← read.lexeme? source
  return (.token (wordKind text), read)

/-- A character that starts no lexeme.  It may have more bytes than the one that was
read. -/
def unexpected? : Option (Piece × Cursor) := do
  let rest ← slice? source cursor.start source.utf8ByteSize
  let c := rest.front?.getD '\uFFFD'
  return (.fault (.unexpectedCharacter c),
    { cursor with position := cursor.start + c.utf8Size })

/-- Read one lexeme, or skip a stretch of text. -/
def scanPiece? : Option (Piece × Cursor) :=
  let first := cursor.look source 0
  let behind := cursor.step
  if first = '\n' then
    some (.blank, { behind with line := behind.line + 1 })
  else if isBlank first then
    some (.blank, behind)
  else if first = '/' ∧ behind.look source 0 = '/' then
    some (.blank, behind.skipComment source)
  else
    match Punct.single? first with
    | some punct => some (behind.mark source punct)
    | none =>
        if first = '"' then behind.quoted? source
        else if first.isDigit then behind.number? source
        else if isWordStart first then behind.word? source
        else behind.unexpected? source

/-- One round: the next stretch of text, from where the cursor stands. -/
def round? : Option (Piece × Cursor) :=
  scanPiece? source { cursor with start := cursor.position }

/-! ## Items -/

section Progress

variable {source cursor} {piece : Piece} {after : Cursor}

theorem position_le_skipWhile {passes : Char → Bool} (zero : passes '\x00' = false) :
    cursor.position ≤ (cursor.skipWhile source passes zero).position := by
  fun_induction skipWhile source passes zero cursor with
  | case1 cursor passed inductionHypothesis => exact Nat.le_of_succ_le inductionHypothesis
  | case2 => exact Nat.le_refl _

theorem position_le_skipToQuote : cursor.position ≤ (cursor.skipToQuote source).position := by
  fun_induction skipToQuote source cursor with
  | case1 cursor goesOn inductionHypothesis =>
      rw [stepCounting_position] at inductionHypothesis
      exact Nat.le_of_succ_le inductionHypothesis
  | case2 => exact Nat.le_refl _

theorem le_of_lineBreak? {place found : Nat} (isFound : lineBreak? source place = some found) :
    place ≤ found := by
  fun_induction lineBreak? source place with
  | case1 place inside isBreak =>
      cases isFound
      exact Nat.le_refl _
  | case2 place inside notBreak inductionHypothesis =>
      exact Nat.le_of_succ_le (inductionHypothesis isFound)
  | case3 => cases isFound

theorem position_le_skipComment (inside : cursor.position ≤ source.utf8ByteSize) :
    cursor.position ≤ (cursor.skipComment source).position := by
  rw [skipComment]
  cases found : lineBreak? source cursor.position with
  | none => exact inside
  | some place => exact le_of_lineBreak? found

theorem position_le_mark (punct : Punct) :
    cursor.position ≤ (cursor.mark source punct).2.position := by
  unfold mark
  split
  · split
    · exact Nat.le_succ _
    · exact Nat.le_refl _
  · exact Nat.le_refl _

theorem position_le_quoted? (read : cursor.quoted? source = some (piece, after)) :
    cursor.position ≤ after.position := by
  have stopped : cursor.position ≤ (cursor.skipToQuote source).position :=
    position_le_skipToQuote
  unfold quoted? at read
  dsimp only at read
  split at read
  · cases read
    exact stopped
  · rcases Option.bind_eq_some_iff.mp read with ⟨contents, -, yielded⟩
    cases yielded
    exact Nat.le_succ_of_le stopped

theorem position_le_number? (read : cursor.number? source = some (piece, after)) :
    cursor.position ≤ after.position := by
  have digits : ∀ cursor : Cursor, cursor.position ≤ (cursor.skipDigits source).position :=
    fun _ => position_le_skipWhile _
  rcases Option.bind_eq_some_iff.mp read with ⟨text, -, yielded⟩
  cases yielded
  split
  · exact Nat.le_trans (digits cursor) (Nat.le_of_succ_le (digits (cursor.skipDigits source).step))
  · exact digits cursor

theorem position_le_word? (read : cursor.word? source = some (piece, after)) :
    cursor.position ≤ after.position := by
  rcases Option.bind_eq_some_iff.mp read with ⟨text, -, yielded⟩
  cases yielded
  exact position_le_skipWhile _

theorem start_lt_unexpected? (read : cursor.unexpected? source = some (piece, after)) :
    cursor.start < after.position := by
  rcases Option.bind_eq_some_iff.mp read with ⟨rest, -, yielded⟩
  cases yielded
  exact Nat.lt_add_of_pos_right (Char.utf8Size_pos _)

/-- Every round moves on. -/
theorem position_lt_of_round? (inside : cursor.atEnd source = false)
    (read : cursor.round? source = some (piece, after)) : cursor.position < after.position := by
  have bounded : cursor.position < source.utf8ByteSize :=
    Nat.lt_of_not_le (of_decide_eq_false inside)
  unfold round? scanPiece? at read
  dsimp only at read
  split at read
  · cases read
    exact Nat.lt_succ_self _
  split at read
  · cases read
    exact Nat.lt_succ_self _
  split at read
  · cases read
    have behind : (step { cursor with start := cursor.position }).position ≤
      source.utf8ByteSize := bounded
    exact position_le_skipComment behind
  split at read
  · next punct _ =>
    let behind := step { cursor with start := cursor.position }
    have marked : behind.position ≤ (behind.mark source punct).2.position := position_le_mark punct
    rw [Option.some.inj read] at marked
    exact marked
  split at read
  · exact position_le_quoted? read
  split at read
  · exact position_le_number? read
  split at read
  · exact position_le_word? read
  · exact start_lt_unexpected? read

end Progress

variable (source : String)

/-- The next item, or none when the end of input has been given out. -/
def next? (cursor : Cursor) : Option (Option ScanItem × Cursor) :=
  if cursor.finished then
    some (none, cursor)
  else if _ : cursor.atEnd source = true then
    some (some (.ok (Token.endOfInput cursor.line)), { cursor with finished := true })
  else
    match _ : cursor.round? source with
    | none => none
    | some (.blank, after) => next? after
    | some (.token kind, after) => do
        let text ← after.lexeme? source
        return (some (.ok { kind, lexeme := text, line := after.line }), after)
    | some (.fault cause, after) => some (some (.error { line := after.line, cause }), after)
termination_by source.utf8ByteSize - cursor.position
decreasing_by
  rename_i inside read
  have moves := position_lt_of_round? (Bool.eq_false_iff.mpr inside) read
  have bounded : cursor.position < source.utf8ByteSize :=
    Nat.lt_of_not_le (of_decide_eq_false (Bool.eq_false_iff.mpr inside))
  omega

/-- A bound for the number of items that are left. -/
def remaining (cursor : Cursor) : Nat :=
  if cursor.finished then 0 else source.utf8ByteSize - cursor.position + 1

variable {source} in
theorem remaining_lt_of_round? {cursor after : Cursor} {piece : Piece}
    (goesOn : ¬ cursor.finished = true) (inside : ¬ cursor.atEnd source = true)
    (read : cursor.round? source = some (piece, after)) :
    after.remaining source < cursor.remaining source := by
  have moves := position_lt_of_round? (Bool.eq_false_iff.mpr inside) read
  have bounded : cursor.position < source.utf8ByteSize :=
    Nat.lt_of_not_le (of_decide_eq_false (Bool.eq_false_iff.mpr inside))
  rw [remaining, remaining, if_neg goesOn]
  split
  · exact Nat.succ_pos _
  · omega

variable {source} in
theorem remaining_lt_of_next? {cursor after : Cursor} {item : ScanItem}
    (yielded : cursor.next? source = some (some item, after)) :
    after.remaining source < cursor.remaining source := by
  fun_induction next? source cursor with
  | case1 => cases yielded
  | case2 cursor goesOn atEnd =>
      cases yielded
      rw [remaining, remaining, if_pos rfl, if_neg goesOn]
      exact Nat.succ_pos _
  | case3 => cases yielded
  | case4 cursor goesOn inside middle read inductionHypothesis =>
      exact Nat.lt_trans (inductionHypothesis yielded) (remaining_lt_of_round? goesOn inside read)
  | case5 cursor goesOn inside kind middle read =>
      rcases Option.bind_eq_some_iff.mp yielded with ⟨text, -, isItem⟩
      cases isItem
      exact remaining_lt_of_round? goesOn inside read
  | case6 cursor goesOn inside cause middle read =>
      cases yielded
      exact remaining_lt_of_round? goesOn inside read

/-- All items from a cursor on, behind `done` in reverse order. -/
def collect? (done : List ScanItem) (cursor : Cursor) : Option (List ScanItem) :=
  match _ : cursor.next? source with
  | none => none
  | some (none, _) => some done.reverse
  | some (some item, after) => collect? (item :: done) after
termination_by cursor.remaining source
decreasing_by
  rename_i yielded
  exact remaining_lt_of_next? yielded

end Cursor

end Lox
