import Lox.Proofs.Scan.Bytes

/-!
# What a cursor reads

A cursor between two characters of its source takes the next span of the text behind
it, and moves on by as many bytes and line breaks as the span has.
-/

namespace Lox

theorem lineBreaks_append (text more : List Char) :
    lineBreaks (text ++ more) = lineBreaks text + lineBreaks more :=
  List.count_append

theorem lineBreaks_eq_zero {text : List Char} (inside : '\n' ∉ text) : lineBreaks text = 0 :=
  List.count_eq_zero_of_not_mem inside

namespace Cursor

/-- The cursor behind a text that follows. -/
def pass (cursor : Cursor) (text : List Char) : Cursor :=
  { cursor with
    position := cursor.position + byteCount text
    line := cursor.line + lineBreaks text }

theorem pass_nil (cursor : Cursor) : cursor.pass [] = cursor :=
  rfl

theorem pass_append (cursor : Cursor) (text more : List Char) :
    cursor.pass (text ++ more) = (cursor.pass text).pass more := by
  rw [pass, pass, pass, byteCount_append, lineBreaks_append, Nat.add_assoc, Nat.add_assoc]

/-- The source consists of two texts, and the cursor stands between them. -/
structure Between (source : String) (cursor : Cursor) (before rest : List Char) : Prop where
  text : source.toList = before ++ rest
  place : cursor.position = byteCount before

theorem between_initial (source : String) : Between source .initial [] source.toList :=
  ⟨rfl, rfl⟩

variable {source : String} {cursor : Cursor} {before text rest : List Char}

theorem Between.pass (between : Between source cursor before (text ++ rest)) :
    Between source (cursor.pass text) (before ++ text) rest where
  text := by rw [between.text, List.append_assoc]
  place := by rw [Cursor.pass, between.place, byteCount_append]

theorem Between.isValid (between : Between source cursor before rest) :
    String.Pos.Raw.IsValid source ⟨cursor.position⟩ := by
  rw [between.place]
  exact isValid_byteCount between.text

/-- The text that a cursor has passed is a slice. -/
theorem Between.slice? (between : Between source cursor before (text ++ rest)) :
    slice? source cursor.position (cursor.pass text).position = some (String.ofList text) := by
  rw [Cursor.pass, between.place]
  apply slice?_eq
  rw [between.text, List.append_assoc]

/-! ## Looking ahead -/

/-- The bytes from the cursor on. -/
def bytesAhead (source : String) (cursor : Cursor) : List UInt8 :=
  (bytesOf source.toList).drop cursor.position

theorem Between.bytesAhead (between : Between source cursor before rest) :
    bytesAhead source cursor = bytesOf rest := by
  rw [Cursor.bytesAhead, between.text, bytesOf_append, between.place, byteCount, List.drop_left]

theorem drop_bytesOf (source : String) (place : Nat)
    (inside : (⟨place⟩ : String.Pos.Raw) < source.rawEndPos) :
    (bytesOf source.toList).drop place =
      source.getUTF8Byte ⟨place⟩ inside :: (bytesOf source.toList).drop (place + 1) := by
  have bounded : place < source.toByteArray.data.toList.length := inside
  rw [← toList_toByteArray, List.drop_eq_getElem_cons bounded, Array.getElem_toList]
  rfl

theorem drop_bytesOf_of_not_lt {source : String} {place : Nat}
    (outside : ¬ (⟨place⟩ : String.Pos.Raw) < source.rawEndPos) :
    (bytesOf source.toList).drop place = [] := by
  have size := utf8ByteSize_eq source
  rw [byteCount] at size
  apply List.drop_eq_nil_of_le
  rw [← size]
  exact Nat.le_of_not_lt outside

theorem look_eq (source : String) (cursor : Cursor) :
    cursor.look source 0 = ((bytesAhead source cursor).head?.map Char.ofUInt8).getD '\x00' := by
  rw [bytesAhead, look]
  split
  · next inside =>
    rw [Nat.add_zero] at inside
    rw [drop_bytesOf source _ inside]
    rfl
  · next outside =>
    rw [Nat.add_zero] at outside
    rw [drop_bytesOf_of_not_lt outside]
    rfl

theorem look_of_cons {byte : UInt8} {more : List UInt8}
    (bytes : bytesAhead source cursor = byte :: more) :
    cursor.look source 0 = Char.ofUInt8 byte := by
  rw [look_eq, bytes]
  rfl

theorem atEnd_iff : cursor.atEnd source = true ↔ bytesAhead source cursor = [] := by
  rw [← List.length_eq_zero_iff, bytesAhead, List.length_drop, ← byteCount, ← utf8ByteSize_eq,
    atEnd, decide_eq_true_iff, Nat.sub_eq_zero_iff_le]

theorem Between.atEnd_iff (between : Between source cursor before rest) :
    cursor.atEnd source = true ↔ rest = [] := by
  rw [atEnd, decide_eq_true_iff, utf8ByteSize_eq, between.text, byteCount_append, between.place,
    ← byteCount_eq_zero]
  omega

/-- The cursor looks at the first byte of the next character. -/
theorem Between.look_cons {c : Char} (between : Between source cursor before (c :: rest)) :
    ∃ byte ∈ String.utf8EncodeChar c, cursor.look source 0 = Char.ofUInt8 byte := by
  rw [look_eq, between.bytesAhead, bytesOf, List.flatMap_cons]
  cases bytes : String.utf8EncodeChar c with
  | nil => exact absurd bytes String.utf8EncodeChar_ne_nil
  | cons byte more => exact ⟨byte, List.mem_cons_self, rfl⟩

theorem Between.look_ascii {c : Char} (between : Between source cursor before (c :: rest))
    (ascii : c.toNat < 128) : cursor.look source 0 = c := by
  rcases between.look_cons with ⟨byte, member, isLook⟩
  rw [isLook, ofUInt8_of_mem_encode ascii member]

theorem Between.look_wide {c : Char} (between : Between source cursor before (c :: rest))
    (wide : 128 ≤ c.toNat) : 128 ≤ (cursor.look source 0).toNat := by
  rcases between.look_cons with ⟨byte, member, isLook⟩
  rw [isLook, ofUInt8_toNat]
  exact le_of_mem_encode wide member

theorem Between.look_nil (between : Between source cursor before []) :
    cursor.look source 0 = '\x00' := by
  rw [look_eq, between.bytesAhead]
  rfl

/-- The cursor sees an ASCII character, but for the zero, where it is next. -/
theorem Between.look_iff {c : Char} (between : Between source cursor before rest)
    (ascii : c.toNat < 128) (nonzero : c ≠ '\x00') :
    cursor.look source 0 = c ↔ rest.head? = some c := by
  cases rest with
  | nil =>
      rw [between.look_nil]
      exact ⟨fun isZero => absurd isZero.symm nonzero, nofun⟩
  | cons first tail =>
      rw [List.head?_cons, Option.some_inj]
      by_cases firstAscii : first.toNat < 128
      · rw [between.look_ascii firstAscii]
      · have wide := Nat.le_of_not_lt firstAscii
        have lookWide := between.look_wide wide
        constructor
        · intro isLook
          rw [isLook] at lookWide
          exact absurd ascii (Nat.not_lt.mpr lookWide)
        · intro isFirst
          rw [isFirst] at wide
          exact absurd ascii (Nat.not_lt.mpr wide)

/-- A test that a zero does not pass, and no character of more than one byte. -/
structure OfAscii (passes : Char → Bool) : Prop where
  zero : passes '\x00' = false
  wide : ∀ c : Char, 128 ≤ c.toNat → passes c = false

theorem OfAscii.uniform {passes : Char → Bool} (ascii : OfAscii passes) : Uniform passes := by
  intro c d wideC wideD
  rw [ascii.wide c wideC, ascii.wide d wideD]

theorem OfAscii.lt_of_passes {passes : Char → Bool} (ascii : OfAscii passes) {c : Char}
    (passed : passes c = true) : c.toNat < 128 := by
  apply Nat.lt_of_not_le
  intro wide
  rw [ascii.wide c wide] at passed
  cases passed

/-- What the cursor sees passes a test where the next character does. -/
theorem Between.look_passes {passes : Char → Bool} (between : Between source cursor before rest)
    (ascii : OfAscii passes) :
    passes (cursor.look source 0) = (rest.head?.map passes).getD false := by
  cases rest with
  | nil =>
      rw [between.look_nil, ascii.zero]
      rfl
  | cons c tail =>
      rcases between.look_cons with ⟨byte, member, isLook⟩
      rw [isLook, ascii.uniform.of_mem member]
      rfl

/-! ## Moving over text -/

theorem step_eq {c : Char} (cursor : Cursor) (ascii : c.toNat < 128) (inLine : c ≠ '\n') :
    cursor.step = cursor.pass [c] := by
  have breaks : lineBreaks [c] = 0 :=
    lineBreaks_eq_zero fun member => inLine (List.mem_singleton.mp member).symm
  rw [Cursor.pass, byteCount, bytesOf, List.flatMap_singleton, encode_ascii ascii, breaks]
  rfl

/-- A test for ASCII characters is met by the characters that follow, one byte each. -/
theorem Between.skipWhile {passes : Char → Bool} (between : Between source cursor before rest)
    (ascii : OfAscii passes) (inLine : passes '\n' = false) :
    cursor.skipWhile source passes ascii.zero = cursor.pass (rest.takeWhile passes) := by
  induction rest generalizing cursor before with
  | nil =>
      rw [Cursor.skipWhile, between.look_passes ascii]
      rfl
  | cons c tail inductionHypothesis =>
      rw [Cursor.skipWhile, between.look_passes ascii]
      change (if passes c = true then _ else _) = _
      by_cases passed : passes c = true
      · have small := ascii.lt_of_passes passed
        have noBreak : c ≠ '\n' := by
          rintro rfl
          rw [inLine] at passed
          cases passed
        rw [if_pos passed, List.takeWhile_cons_of_pos passed, ← List.singleton_append, pass_append,
          step_eq cursor small noBreak]
        rw [← List.singleton_append] at between
        exact inductionHypothesis between.pass
      · rw [if_neg passed, List.takeWhile_cons_of_neg passed, pass_nil]

/-- The cursor behind bytes that follow. -/
def passBytes (cursor : Cursor) (bytes : List UInt8) : Cursor :=
  { cursor with
    position := cursor.position + bytes.length
    line := cursor.line + bytes.countP fun byte => Char.ofUInt8 byte = '\n' }

theorem passBytes_bytesOf (cursor : Cursor) (text : List Char) :
    cursor.passBytes (bytesOf text) = cursor.pass text := by
  rw [passBytes, pass, countP_bytesOf, byteCount]

theorem passBytes_cons (cursor : Cursor) (byte : UInt8) (bytes : List UInt8) :
    cursor.passBytes (byte :: bytes) = (cursor.passBytes [byte]).passBytes bytes := by
  rw [← List.singleton_append, passBytes, passBytes, passBytes, List.length_append,
    List.countP_append, Nat.add_assoc, Nat.add_assoc]

theorem stepCounting_eq {byte : UInt8} {more : List UInt8}
    (bytes : bytesAhead source cursor = byte :: more) :
    cursor.stepCounting source = cursor.passBytes [byte] := by
  rw [stepCounting, look_of_cons bytes, passBytes, List.countP_singleton]
  by_cases isBreak : Char.ofUInt8 byte = '\n'
  · rw [if_pos isBreak, if_pos (decide_eq_true isBreak)]
    rfl
  · rw [if_neg isBreak, if_neg (by simpa using isBreak)]
    rfl

/-- The bytes up to the next quote are passed. -/
theorem skipToQuote_eq {bytes : List UInt8} (isAhead : bytesAhead source cursor = bytes) :
    cursor.skipToQuote source = cursor.passBytes (bytes.takeWhile (Char.ofUInt8 · ≠ '"')) := by
  induction bytes generalizing cursor with
  | nil =>
      have atEnd := atEnd_iff.mpr isAhead
      rw [skipToQuote, if_neg]
      · rfl
      · rw [atEnd]
        exact nofun
  | cons byte more inductionHypothesis =>
      have inside : cursor.atEnd source = false := by
        rw [Bool.eq_false_iff, ne_eq, atEnd_iff, isAhead]
        exact nofun
      rw [skipToQuote, look_of_cons isAhead]
      by_cases isQuote : Char.ofUInt8 byte = '"'
      · rw [if_neg fun goesOn => goesOn.2 isQuote, List.takeWhile_cons_of_neg]
        · rfl
        · simpa using isQuote
      · have stepped : bytesAhead source (cursor.stepCounting source) = more := by
          rw [bytesAhead, stepCounting_position, ← List.tail_drop, ← bytesAhead, isAhead,
            List.tail_cons]
        rw [if_pos ⟨inside, isQuote⟩, inductionHypothesis stepped, stepCounting_eq isAhead,
          ← passBytes_cons, List.takeWhile_cons_of_pos]
        simpa using isQuote

/-- The bytes up to the next line break. -/
theorem lineBreak?_eq (source : String) (place : Nat) (reached : place ≤ source.utf8ByteSize) :
    (lineBreak? source place).getD source.utf8ByteSize =
      place + (((bytesOf source.toList).drop place).takeWhile
        fun byte => Char.ofUInt8 byte ≠ '\n').length := by
  fun_induction lineBreak? source place with
  | case1 place inside isBreak =>
      rw [drop_bytesOf source place inside, List.takeWhile_cons_of_neg]
      · rfl
      · simpa using isBreak
  | case2 place bounded notBreak inductionHypothesis =>
      rw [inductionHypothesis bounded, drop_bytesOf source place bounded,
        List.takeWhile_cons_of_pos, List.length_cons]
      · omega
      · simpa using notBreak
  | case3 place outside =>
      rw [drop_bytesOf_of_not_lt outside]
      exact Nat.le_antisymm (Nat.le_of_not_lt outside) reached

theorem Between.skipToQuote (between : Between source cursor before rest) :
    cursor.skipToQuote source = cursor.pass (rest.takeWhile (· ≠ '"')) := by
  rw [skipToQuote_eq between.bytesAhead, takeWhile_bytesOf (uniform_ne (by decide)),
    passBytes_bytesOf]

theorem not_mem_takeWhile_ne (c : Char) (text : List Char) : c ∉ text.takeWhile (· ≠ c) := by
  intro member
  have passed := List.all_takeWhile (p := (· ≠ c)) (l := text)
  rw [List.all_eq_true] at passed
  exact of_decide_eq_true (passed c member) rfl

theorem Between.skipComment (between : Between source cursor before rest) :
    cursor.skipComment source = cursor.pass (rest.takeWhile (· ≠ '\n')) := by
  have inside : cursor.position ≤ source.utf8ByteSize := by
    rw [utf8ByteSize_eq, between.text, byteCount_append, between.place]
    exact Nat.le_add_right _ _
  rw [Cursor.skipComment, lineBreak?_eq source _ inside, ← Cursor.bytesAhead, between.bytesAhead,
    takeWhile_bytesOf (uniform_ne (by decide)), Cursor.pass, byteCount,
    lineBreaks_eq_zero (not_mem_takeWhile_ne _ _)]
  rfl

/-! ## One lexeme -/

theorem Between.lexeme? (between : Between source cursor before (text ++ rest))
    (isStart : cursor.start = cursor.position) :
    (cursor.pass text).lexeme? source = some (String.ofList text) := by
  rw [Cursor.lexeme?, ← between.slice?, ← isStart]
  rfl

theorem Between.mark {c : Char} (between : Between source cursor before (c :: rest))
    (punct : Punct) :
    (cursor.pass [c]).mark source punct =
      ((Span.mark c punct rest).1.piece, cursor.pass (Span.mark c punct rest).1.text) := by
  rw [← List.singleton_append] at between
  have behind := between.pass
  unfold Cursor.mark Span.mark
  cases punct.withEqual? with
  | none => rfl
  | some double =>
      have isLook := behind.look_iff (c := '=') (by decide) (by decide)
      by_cases follows : rest.head? = some '='
      · rcases List.head?_eq_some_iff.mp follows with ⟨tail, rfl⟩
        dsimp only
        rw [if_pos (isLook.mpr follows), step_eq _ (c := '=') (by decide) (by decide),
          ← pass_append]
        rfl
      · dsimp only
        rw [if_neg fun isEqual => follows (isLook.mp isEqual)]
        split
        · next tail _ => exact absurd rfl follows
        · rfl

theorem Between.quoted? (between : Between source cursor before ('"' :: rest))
    (isStart : cursor.start = cursor.position) :
    (cursor.pass ['"']).quoted? source =
      some ((Span.quoted rest).1.piece, cursor.pass (Span.quoted rest).1.text) := by
  have parts := List.takeWhile_append_dropWhile (p := (· ≠ '"')) (l := rest)
  rw [← List.singleton_append] at between
  have behind := between.pass
  have stop := behind.skipToQuote
  rw [← parts] at behind
  have stopped := behind.pass
  unfold Cursor.quoted? Span.quoted
  dsimp only
  rw [stop]
  cases remaining : rest.dropWhile (· ≠ '"') with
  | nil =>
      rw [remaining] at stopped parts
      rw [List.append_nil] at parts
      rw [if_pos (stopped.atEnd_iff.mpr rfl), parts, ← pass_append]
      rfl
  | cons quote tail =>
      have isQuote : quote = '"' := by
        have notPassed := List.head?_dropWhile_not (· ≠ '"') rest
        rw [remaining] at notPassed
        simpa using notPassed
      subst isQuote
      rw [remaining] at stopped
      have inside : ¬ ((cursor.pass ['"']).pass (rest.takeWhile (· ≠ '"'))).atEnd source = true := by
        rw [stopped.atEnd_iff]
        exact nofun
      have contents := behind.slice?
      have opened : (cursor.pass ['"']).position = cursor.start + 1 := by
        rw [isStart]
        rfl
      rw [opened] at contents
      rw [if_neg inside]
      change (Lox.slice? source (cursor.start + 1) _).bind _ = _
      rw [Cursor.step, Nat.add_sub_cancel, contents, ← Cursor.step,
        step_eq _ (c := '"') (by decide) (by decide), ← pass_append, ← pass_append]
      rfl

theorem ofAscii_isDigit : OfAscii Char.isDigit where
  zero := by decide
  wide := by
    intro c wide
    have large : 128 ≤ c.val.toNat := wide
    simp only [Char.isDigit, Bool.and_eq_false_iff, decide_eq_false_iff_not, ge_iff_le,
      UInt32.le_iff_toNat_le]
    refine .inr ?_
    change ¬ c.val.toNat ≤ 57
    omega

theorem isAlpha_of_wide {c : Char} (wide : 128 ≤ c.toNat) : c.isAlpha = false := by
  have large : 128 ≤ c.val.toNat := wide
  delta Char.isAlpha Char.isUpper Char.isLower
  simp only [Bool.or_eq_false_iff, Bool.and_eq_false_iff, decide_eq_false_iff_not, ge_iff_le,
    UInt32.le_iff_toNat_le]
  constructor
  · rintro ⟨-, upper⟩
    have small : c.val.toNat ≤ 90 := upper
    omega
  · refine .inr ?_
    change ¬ c.val.toNat ≤ 122
    omega

theorem ne_of_wide {c d : Char} (wide : 128 ≤ c.toNat) (ascii : d.toNat < 128) : c ≠ d := by
  rintro rfl
  exact absurd ascii (Nat.not_lt.mpr wide)

theorem ofAscii_isWordChar : OfAscii isWordChar where
  zero := by decide
  wide := by
    intro c wide
    rw [isWordChar, isAlpha_of_wide wide, ofAscii_isDigit.wide c wide,
      decide_eq_false (ne_of_wide wide (by decide))]
    rfl

/-- Digits alone are a decimal. -/
theorem decimalValue?_whole {whole : List Char} (nonempty : whole ≠ [])
    (digits : ∀ c ∈ whole, c.isDigit = true) :
    decimalValue? whole = some (numberValue whole []) := by
  have taken : (whole ++ []).takeWhile Char.isDigit = whole ++ [] :=
    List.takeWhile_append_of_pos digits
  have dropped : (whole ++ []).dropWhile Char.isDigit = [] := List.dropWhile_append_of_pos digits
  rw [List.append_nil] at taken dropped
  rw [decimalValue?, taken, dropped, List.isEmpty_eq_false_iff.mpr nonempty]
  rfl

/-- Digits, a point and digits are a decimal. -/
theorem decimalValue?_fraction {whole fraction : List Char} (nonempty : whole ≠ [])
    (digits : ∀ c ∈ whole, c.isDigit = true) (more : ∀ c ∈ fraction, c.isDigit = true) :
    decimalValue? (whole ++ '.' :: fraction) = some (numberValue whole fraction) := by
  have taken : (whole ++ '.' :: fraction).takeWhile Char.isDigit = whole := by
    rw [List.takeWhile_append_of_pos digits, List.takeWhile_cons_of_neg (by decide),
      List.append_nil]
  have dropped : (whole ++ '.' :: fraction).dropWhile Char.isDigit = '.' :: fraction := by
    rw [List.dropWhile_append_of_pos digits, List.dropWhile_cons_of_neg (by decide)]
  rw [decimalValue?, taken, dropped, List.isEmpty_eq_false_iff.mpr nonempty]
  split
  · next isNil => cases isNil
  · next digits isCons =>
    cases isCons
    rw [List.all_eq_true.mpr more]
    rfl
  · next notPoint => exact absurd rfl (notPoint fraction)

/-- A point and a digit are next. -/
theorem Between.look_fraction (between : Between source cursor before rest) :
    (cursor.look source 0 = '.' ∧ (cursor.look source 1).isDigit = true) ↔
      ∃ digit tail, rest = '.' :: digit :: tail ∧ digit.isDigit = true := by
  rw [between.look_iff (by decide) (by decide)]
  have behindPoint : ∀ tail, rest = '.' :: tail →
      (cursor.look source 1).isDigit = (tail.head?.map Char.isDigit).getD false := by
    rintro tail rfl
    rw [← List.singleton_append] at between
    have stepped := step_eq cursor (c := '.') (by decide) (by decide)
    rw [← between.pass.look_passes ofAscii_isDigit, ← stepped]
    rfl
  constructor
  · rintro ⟨isPoint, isDigit⟩
    rcases List.head?_eq_some_iff.mp isPoint with ⟨tail, rfl⟩
    rw [behindPoint tail rfl] at isDigit
    cases tail with
    | nil => cases isDigit
    | cons digit tail => exact ⟨digit, tail, rfl, isDigit⟩
  · rintro ⟨digit, tail, rfl, isDigit⟩
    exact ⟨rfl, (behindPoint _ rfl).trans isDigit⟩

/-- A number without a fraction. -/
theorem number_eq_whole {c : Char} {rest : List Char}
    (noFraction : ¬ ∃ digit tail,
      rest.dropWhile Char.isDigit = '.' :: digit :: tail ∧ digit.isDigit = true) :
    (Span.number c rest).1 =
      { text := c :: rest.takeWhile Char.isDigit
        piece := .token (.number (numberValue (c :: rest.takeWhile Char.isDigit) [])) } := by
  unfold Span.number
  dsimp only
  split
  · next digit tail remaining =>
    rw [if_neg fun isDigit => noFraction ⟨digit, tail, remaining, isDigit⟩]
  · rfl

theorem number_eq_fraction {c first : Char} {rest tail : List Char}
    (remaining : rest.dropWhile Char.isDigit = '.' :: first :: tail)
    (isDigit : first.isDigit = true) :
    (Span.number c rest).1 =
      { text := c :: rest.takeWhile Char.isDigit ++ '.' :: (first :: tail).takeWhile Char.isDigit
        piece := .token (.number (numberValue (c :: rest.takeWhile Char.isDigit)
          ((first :: tail).takeWhile Char.isDigit))) } := by
  unfold Span.number
  rw [remaining]
  dsimp only
  split
  · next isCons =>
    cases isCons
    rw [if_pos isDigit, List.takeWhile_cons_of_pos isDigit]
  · next notFraction => exact absurd rfl (notFraction first tail)

theorem Between.skipFraction {whole tail : List Char}
    (between : Between source cursor before (whole ++ '.' :: tail)) :
    (cursor.pass whole).step.skipDigits source =
      cursor.pass (whole ++ '.' :: tail.takeWhile Char.isDigit) := by
  have split : Between source cursor before (whole ++ ['.'] ++ tail) := by
    rw [List.append_assoc]
    exact between
  have read := split.pass.skipWhile ofAscii_isDigit (by decide)
  rw [step_eq _ (c := '.') (by decide) (by decide), ← pass_append, skipDigits, read,
    ← pass_append, List.append_assoc]
  rfl

theorem Between.number? {c : Char} (between : Between source cursor before (c :: rest))
    (isStart : cursor.start = cursor.position) (digit : c.isDigit = true) :
    (cursor.pass [c]).number? source =
      some ((Span.number c rest).1.piece, cursor.pass (Span.number c rest).1.text) := by
  have parts := List.takeWhile_append_dropWhile (p := Char.isDigit) (l := rest)
  have allDigits : ∀ d ∈ c :: rest.takeWhile Char.isDigit, d.isDigit = true := by
    intro d member
    rcases List.mem_cons.mp member with rfl | inRest
    · exact digit
    · exact List.all_eq_true.mp List.all_takeWhile d inRest
  rw [← List.singleton_append] at between
  have wholeRead := between.pass.skipWhile ofAscii_isDigit (by decide)
  rw [← parts, ← List.append_assoc] at between
  have whole := between.pass
  rw [← skipDigits, ← pass_append] at wholeRead
  unfold Cursor.number?
  rw [wholeRead]
  by_cases fraction : ∃ digit tail,
      rest.dropWhile Char.isDigit = '.' :: digit :: tail ∧ digit.isDigit = true
  · have isLook := whole.look_fraction.mpr fraction
    rcases fraction with ⟨first, tail, remaining, isDigit⟩
    have more := List.takeWhile_append_dropWhile (p := Char.isDigit) (l := first :: tail)
    have allMore : ∀ d ∈ (first :: tail).takeWhile Char.isDigit, d.isDigit = true := fun d =>
      List.all_eq_true.mp List.all_takeWhile d
    rw [remaining] at between
    have digitsRead := between.skipFraction
    rw [← more, ← List.cons_append, ← List.append_assoc] at between
    dsimp only
    rw [if_pos isLook, digitsRead, between.lexeme? isStart]
    change some (Piece.token (.number ((decimalValue? (String.toList (String.ofList
      (c :: rest.takeWhile Char.isDigit ++ '.' :: _)))).getD 0)), _) = _
    rw [String.toList_ofList, decimalValue?_fraction (List.cons_ne_nil _ _) allDigits allMore,
      number_eq_fraction remaining isDigit]
    rfl
  · have isLook := mt whole.look_fraction.mp fraction
    dsimp only
    rw [if_neg isLook, between.lexeme? isStart]
    change some (Piece.token (.number ((decimalValue? (String.toList (String.ofList
      (c :: rest.takeWhile Char.isDigit)))).getD 0)), _) = _
    rw [String.toList_ofList, decimalValue?_whole (List.cons_ne_nil _ _) allDigits,
      number_eq_whole fraction]
    rfl

theorem Between.word? {c : Char} (between : Between source cursor before (c :: rest))
    (isStart : cursor.start = cursor.position) :
    (cursor.pass [c]).word? source =
      some ((Span.word c rest).1.piece, cursor.pass (Span.word c rest).1.text) := by
  have parts := List.takeWhile_append_dropWhile (p := isWordChar) (l := rest)
  rw [← List.singleton_append] at between
  have read := between.pass.skipWhile ofAscii_isWordChar (by decide)
  rw [← parts, ← List.append_assoc] at between
  rw [Cursor.word?, read, ← pass_append, between.lexeme? isStart]
  rfl

theorem Between.unexpected? {c : Char} (between : Between source cursor before (c :: rest))
    (isStart : cursor.start = cursor.position) (inLine : c ≠ '\n') :
    cursor.step.unexpected? source =
      some (.fault (.unexpectedCharacter c), cursor.pass [c]) := by
  have breaks : lineBreaks [c] = 0 :=
    lineBreaks_eq_zero fun member => inLine (List.mem_singleton.mp member).symm
  have isEnd : source.utf8ByteSize = (cursor.pass (c :: rest)).position := by
    rw [utf8ByteSize_eq, between.text, byteCount_append, ← between.place, Cursor.pass]
  rw [← List.append_nil (c :: rest)] at between
  have toEnd := between.slice?
  rw [← isEnd, ← isStart] at toEnd
  unfold Cursor.unexpected?
  change (Lox.slice? source cursor.start _).bind _ = _
  rw [toEnd]
  change some (_, _) = _
  rw [String.front?_eq, String.toList_ofList]
  change some (_, { cursor.step with position := cursor.start + c.utf8Size }) = _
  rw [isStart, ← byteCount_singleton, Cursor.pass, breaks]
  rfl

/-! ## One round -/

theorem isBlank_of_wide {c : Char} (wide : 128 ≤ c.toNat) : isBlank c = false := by
  have differs : ∀ d : Char, d.toNat < 128 → decide (c = d) = false := fun d ascii =>
    decide_eq_false (ne_of_wide wide ascii)
  rw [isBlank, differs ' ' (by decide), differs '\r' (by decide), differs '\t' (by decide),
    differs '\n' (by decide)]
  rfl

theorem isWordStart_of_wide {c : Char} (wide : 128 ≤ c.toNat) : isWordStart c = false := by
  rw [isWordStart, isAlpha_of_wide wide, decide_eq_false (ne_of_wide wide (by decide))]
  rfl

theorem single?_of_wide {c : Char} (wide : 128 ≤ c.toNat) : Punct.single? c = none := by
  unfold Punct.single?
  split
  case h_16 => rfl
  all_goals exact absurd wide (by decide)

/-- No lexeme starts with a character of more than one byte. -/
theorem next_of_wide {c : Char} (wide : 128 ≤ c.toNat) (rest : List Char) :
    Span.next c rest = ({ text := [c], piece := .fault (.unexpectedCharacter c) }, rest) := by
  have notSlash : ¬ (decide (c = '/') && decide (rest.head? = some '/')) = true := by
    rw [decide_eq_false (ne_of_wide wide (by decide))]
    exact nofun
  rw [Span.next, if_neg (Bool.eq_false_iff.mp (isBlank_of_wide wide)), if_neg notSlash,
    single?_of_wide wide]
  dsimp only
  rw [if_neg (ne_of_wide wide (by decide)),
    if_neg (Bool.eq_false_iff.mp (ofAscii_isDigit.wide c wide)),
    if_neg (Bool.eq_false_iff.mp (isWordStart_of_wide wide))]

theorem scanPiece?_of_wide (wide : 128 ≤ (cursor.look source 0).toNat) :
    cursor.scanPiece? source = cursor.step.unexpected? source := by
  rw [scanPiece?, if_neg (ne_of_wide wide (by decide)),
    if_neg (Bool.eq_false_iff.mp (isBlank_of_wide wide)),
    if_neg fun slashes => ne_of_wide wide (by decide) slashes.1, single?_of_wide wide]
  dsimp only
  rw [if_neg (ne_of_wide wide (by decide)),
    if_neg (Bool.eq_false_iff.mp (ofAscii_isDigit.wide _ wide)),
    if_neg (Bool.eq_false_iff.mp (isWordStart_of_wide wide))]

/-- What is read is the next span of the text, and nothing more. -/
theorem Between.scanPiece? {c : Char} (between : Between source cursor before (c :: rest))
    (isStart : cursor.start = cursor.position) :
    cursor.scanPiece? source =
      some ((Span.next c rest).1.piece, cursor.pass (Span.next c rest).1.text) := by
  by_cases ascii : c.toNat < 128
  · have isLook := between.look_ascii ascii
    unfold Cursor.scanPiece? Span.next
    rw [isLook]
    dsimp only
    by_cases isBreak : c = '\n'
    · subst isBreak
      rfl
    rw [if_neg isBreak, step_eq cursor ascii isBreak]
    by_cases blank : isBlank c = true
    · rw [if_pos blank, if_pos blank]
    rw [if_neg blank, if_neg blank]
    have behind : Between source (cursor.pass [c]) (before ++ [c]) rest := by
      rw [← List.singleton_append] at between
      exact between.pass
    have isSlash := behind.look_iff (c := '/') (by decide) (by decide)
    by_cases slashes : c = '/' ∧ rest.head? = some '/'
    · rcases slashes with ⟨rfl, follows⟩
      rw [if_pos ⟨rfl, isSlash.mpr follows⟩, behind.skipComment, ← pass_append,
        decide_eq_true follows]
      rfl
    have notSlashes : ¬ (decide (c = '/') && decide (rest.head? = some '/')) = true := by
      rw [Bool.and_eq_true, decide_eq_true_iff, decide_eq_true_iff]
      exact slashes
    rw [if_neg fun both => slashes ⟨both.1, isSlash.mp both.2⟩, if_neg notSlashes]
    cases isPunct : Punct.single? c with
    | some punct =>
        dsimp only
        rw [between.mark punct]
    | none =>
        dsimp only
        by_cases quote : c = '"'
        · subst quote
          rw [if_pos rfl, if_pos rfl, between.quoted? isStart]
        rw [if_neg quote, if_neg quote]
        by_cases digit : c.isDigit = true
        · rw [if_pos digit, if_pos digit, between.number? isStart digit]
        rw [if_neg digit, if_neg digit]
        by_cases letter : isWordStart c = true
        · rw [if_pos letter, if_pos letter, between.word? isStart]
        rw [if_neg letter, if_neg letter, ← step_eq cursor ascii isBreak,
          between.unexpected? isStart isBreak, step_eq cursor ascii isBreak]
  · have wide := Nat.le_of_not_lt ascii
    have inLine := ne_of_wide (d := '\n') wide (by decide)
    rw [scanPiece?_of_wide (between.look_wide wide), between.unexpected? isStart inLine,
      next_of_wide wide]

/-- The cursor of the next round. -/
def behindNext (cursor : Cursor) (c : Char) (rest : List Char) : Cursor :=
  { cursor with start := cursor.position }.pass (Span.next c rest).1.text

section Next

variable {c : Char} (between : Between source cursor before (c :: rest))
include between

theorem Between.inside : cursor.atEnd source = false := by
  rw [Bool.eq_false_iff, ne_eq, between.atEnd_iff]
  exact List.cons_ne_nil _ _

/-- One round takes the next span of the text. -/
theorem Between.round? :
    cursor.round? source = some ((Span.next c rest).1.piece, cursor.behindNext c rest) := by
  have marked : Between source { cursor with start := cursor.position } before (c :: rest) :=
    ⟨between.text, between.place⟩
  exact marked.scanPiece? rfl

theorem Between.behindNext :
    Between source (cursor.behindNext c rest) (before ++ (Span.next c rest).1.text)
      (Span.next c rest).2 := by
  have marked : Between source { cursor with start := cursor.position } before (c :: rest) :=
    ⟨between.text, between.place⟩
  rw [← Span.next_append] at marked
  exact marked.pass

theorem Between.slice?_next :
    Lox.slice? source cursor.position (cursor.behindNext c rest).position =
      some (String.ofList (Span.next c rest).1.text) := by
  rw [← Span.next_append] at between
  exact between.slice?

end Next

end Cursor

end Lox
