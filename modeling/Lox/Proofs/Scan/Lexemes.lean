import Mathlib.Data.List.TakeWhile
import Lox.Scan

/-!
# Lexemes

Which texts are tokens, and of which kind.  `Span.next_cases` says what a span at
the front of a text can be; a lexeme at the front of a text is part of a token there,
and it is that token if nothing or a space follows.
-/

namespace Lox

/-! ## Characters and marks -/

/-- A decimal digit. -/
def IsDigit (c : Char) : Prop :=
  '0' ≤ c ∧ c ≤ '9'

/-- A letter of the Latin alphabet or an underscore. -/
def IsLetter (c : Char) : Prop :=
  ('A' ≤ c ∧ c ≤ 'Z') ∨ ('a' ≤ c ∧ c ≤ 'z') ∨ c = '_'

theorem isDigit_iff {c : Char} : c.isDigit = true ↔ IsDigit c := by
  simp [Char.isDigit, IsDigit, Char.le_def]

theorem isWordStart_iff {c : Char} : isWordStart c = true ↔ IsLetter c := by
  change (decide ('A' ≤ c ∧ c ≤ 'Z') || (decide ('a' ≤ c) && decide (c ≤ 'z')) ||
    decide (c = '_')) = true ↔ IsLetter c
  simp [IsLetter, or_assoc]

theorem isWordChar_iff {c : Char} : isWordChar c = true ↔ IsLetter c ∨ IsDigit c := by
  rw [← isWordStart_iff, ← isDigit_iff]
  simp only [isWordChar, isWordStart, Bool.or_eq_true]
  exact or_right_comm

/-- No word starts with a digit. -/
theorem isDigit_of_isWordStart {c : Char} (letter : isWordStart c = true) :
    c.isDigit = false := by
  rw [← Bool.not_eq_true, isDigit_iff]
  rintro ⟨-, upper⟩
  rcases isWordStart_iff.mp letter with ⟨lower, -⟩ | ⟨lower, -⟩ | rfl
  · exact absurd (Char.le_trans lower upper) (by decide)
  · exact absurd (Char.le_trans lower upper) (by decide)
  · exact absurd upper (by decide)

namespace Punct

/-- How the mark is written. -/
def text : Punct → String
  | .leftParen => "("
  | .rightParen => ")"
  | .leftBrace => "\x7b"
  | .rightBrace => "\x7d"
  | .comma => ","
  | .dot => "."
  | .minus => "-"
  | .plus => "+"
  | .semicolon => ";"
  | .slash => "/"
  | .star => "*"
  | .bang => "!"
  | .bangEqual => "!="
  | .equal => "="
  | .equalEqual => "=="
  | .greater => ">"
  | .greaterEqual => ">="
  | .less => "<"
  | .lessEqual => "<="

theorem text_of_single? {c : Char} {punct : Punct} (single : single? c = some punct) :
    punct.text.toList = [c] := by
  unfold single? at single
  split at single
  all_goals cases single
  all_goals rfl

theorem text_of_withEqual? {punct double : Punct} (combined : punct.withEqual? = some double) :
    double.text.toList = punct.text.toList ++ ['='] := by
  cases punct
  all_goals cases combined
  all_goals rfl

end Punct

/-- A character of a word is no mark, no quote and no white space. -/
theorem plain_of_isWordChar {c : Char} (inWord : isWordChar c = true) :
    isBlank c = false ∧ c ≠ '/' ∧ Punct.single? c = none ∧ c ≠ '"' := by
  refine ⟨?_, ?_, ?_, ?_⟩
  · rw [← Bool.not_eq_true]
    intro blank
    simp only [isBlank, Bool.or_eq_true, decide_eq_true_eq] at blank
    rcases blank with ((rfl | rfl) | rfl) | rfl
    all_goals exact absurd inWord (by decide)
  · rintro rfl
    exact absurd inWord (by decide)
  · cases single : Punct.single? c with
    | none => rfl
    | some punct =>
        have text := Punct.text_of_single? single
        cases punct
        all_goals cases text
        all_goals exact absurd inWord (by decide)
  · rintro rfl
    exact absurd inWord (by decide)

/-! ## Lexemes -/

/-- The text is a token of the given kind: an operator or punctuation mark, a number,
a closed string, a reserved word, or another word. -/
inductive Lexeme : List Char → TokenKind → Prop where
  | mark (punct : Punct) : Lexeme punct.text.toList (.punct punct)
  | whole {digits} : digits ≠ [] → (∀ c ∈ digits, IsDigit c) →
      Lexeme digits (.number (numberValue digits []))
  | decimal {whole fraction} : whole ≠ [] → (∀ c ∈ whole, IsDigit c) →
      fraction ≠ [] → (∀ c ∈ fraction, IsDigit c) →
      Lexeme (whole ++ '.' :: fraction) (.number (numberValue whole fraction))
  | string {contents} : '"' ∉ contents →
      Lexeme ('"' :: contents ++ ['"']) (.string (String.ofList contents))
  | keyword (word : Keyword) : Lexeme word.text.toList (.keyword word)
  | name {first rest} : IsLetter first → (∀ c ∈ rest, IsLetter c ∨ IsDigit c) →
      (∀ word : Keyword, word.text ≠ String.ofList (first :: rest)) →
      Lexeme (first :: rest) .identifier

/-- A reserved word starts with a letter and goes on with letters. -/
theorem Keyword.text_isWord (word : Keyword) :
    ∃ first rest, word.text.toList = first :: rest ∧ isWordStart first = true ∧
      ∀ c ∈ rest, isWordChar c = true := by
  cases word
  all_goals
    refine ⟨_, _, rfl, rfl, ?_⟩
    exact List.all_eq_true.mp rfl

theorem Keyword.ofText?_text (word : Keyword) : Keyword.ofText? word.text = some word := by
  cases word
  all_goals rfl

theorem Lexeme.exists_cons {text : List Char} {kind : TokenKind} (lexeme : Lexeme text kind) :
    ∃ first rest, text = first :: rest := by
  cases lexeme with
  | mark punct =>
      cases punct
      all_goals exact ⟨_, _, rfl⟩
  | whole nonempty _ => exact List.exists_cons_of_ne_nil nonempty
  | decimal nonempty =>
      rcases List.exists_cons_of_ne_nil nonempty with ⟨first, rest, rfl⟩
      exact ⟨first, _, rfl⟩
  | string => exact ⟨_, _, rfl⟩
  | keyword word =>
      rcases word.text_isWord with ⟨first, rest, isText, -⟩
      exact ⟨first, rest, isText⟩
  | name => exact ⟨_, _, rfl⟩

/-- The kind of a word is settled by its spelling. -/
theorem lexeme_wordKind {first : Char} {rest : List Char} (letter : isWordStart first = true)
    (inner : ∀ c ∈ rest, isWordChar c = true) :
    Lexeme (first :: rest) (wordKind (String.ofList (first :: rest))) := by
  unfold wordKind
  cases found : Keyword.ofText? (String.ofList (first :: rest)) with
  | some word =>
      have spelled : word.text = String.ofList (first :: rest) := by
        simpa using List.find?_some found
      have text : word.text.toList = first :: rest := by rw [spelled, String.toList_ofList]
      rw [← text]
      exact .keyword word
  | none =>
      apply Lexeme.name (isWordStart_iff.mp letter)
      · intro c member
        exact isWordChar_iff.mp (inner c member)
      · intro word spelled
        rw [← spelled, word.ofText?_text] at found
        cases found

/-! ## Spans that are lexemes -/

namespace Span

/-- The span is a token, and its text is a lexeme of that kind. -/
def IsLexeme (span : Span) : Prop :=
  ∃ kind, span.piece = .token kind ∧ Lexeme span.text kind

theorem mark_isLexeme {c : Char} {punct : Punct} (single : Punct.single? c = some punct)
    (rest : List Char) : (mark c punct rest).1.IsLexeme := by
  have text := Punct.text_of_single? single
  unfold mark
  split
  next double tail combined =>
    refine ⟨_, rfl, ?_⟩
    have doubled : double.text.toList = [c, '='] := by
      rw [Punct.text_of_withEqual? combined, text]
      rfl
    exact doubled ▸ Lexeme.mark double
  next =>
    refine ⟨_, rfl, ?_⟩
    exact text ▸ Lexeme.mark punct

theorem quoted_of_not_mem {rest : List Char} (unclosed : '"' ∉ rest) :
    quoted rest = (⟨'"' :: rest, .fault .unterminatedString⟩, []) := by
  have remaining : rest.dropWhile (· ≠ '"') = [] := by
    rw [List.dropWhile_eq_nil_iff]
    intro c member
    have different : c ≠ '"' := fun same => unclosed (same ▸ member)
    simpa using different
  rw [quoted, remaining]

theorem quoted_append_quote {contents : List Char} (inside : '"' ∉ contents) (rest : List Char) :
    quoted (contents ++ '"' :: rest) =
      (⟨'"' :: contents ++ ['"'], .token (.string (String.ofList contents))⟩, rest) := by
  have kept : ∀ c ∈ contents, decide (c ≠ '"') = true := by
    intro c member
    have different : c ≠ '"' := fun same => inside (same ▸ member)
    simpa using different
  rw [quoted, List.dropWhile_append_of_pos kept, List.takeWhile_append_of_pos kept]
  simp

theorem quoted_isLexeme {rest : List Char} (closed : '"' ∈ rest) :
    (quoted rest).1.IsLexeme := by
  -- The contents end at the first quote.
  rcases List.eq_append_cons_of_mem closed with ⟨contents, tail, rfl, inside⟩
  rw [quoted_append_quote inside]
  exact ⟨_, rfl, .string inside⟩

theorem forall_isDigit_takeWhile {c : Char} (digit : c.isDigit = true) (rest : List Char) :
    ∀ d ∈ c :: rest.takeWhile Char.isDigit, IsDigit d := by
  intro d member
  rcases List.mem_cons.mp member with rfl | inRest
  · exact isDigit_iff.mp digit
  · exact isDigit_iff.mp (List.mem_takeWhile_imp inRest)

theorem number_isLexeme {c : Char} (digit : c.isDigit = true) (rest : List Char) :
    (number c rest).1.IsLexeme := by
  have digits := forall_isDigit_takeWhile digit rest
  have nonempty : ∀ others : List Char, c :: others ≠ [] := fun _ => List.cons_ne_nil _ _
  unfold number
  dsimp only
  split
  next first tail remaining =>
    split
    next firstDigit =>
      exact ⟨_, rfl, .decimal (nonempty _) digits (List.cons_ne_nil _ _)
        (forall_isDigit_takeWhile firstDigit tail)⟩
    next => exact ⟨_, rfl, .whole (nonempty _) digits⟩
  next => exact ⟨_, rfl, .whole (nonempty _) digits⟩

theorem word_isLexeme {c : Char} (letter : isWordStart c = true) (rest : List Char) :
    (word c rest).1.IsLexeme :=
  ⟨_, rfl, lexeme_wordKind letter fun _ member => List.mem_takeWhile_imp member⟩

/-! ## What a span can be -/

/-- White space or a comment stands at the front of the text. -/
def Skipped (c : Char) (rest : List Char) : Prop :=
  isBlank c = true ∨ (c = '/' ∧ rest.head? = some '/')

theorem next_blank {c : Char} (blank : isBlank c = true) (rest : List Char) :
    next c rest = (⟨[c], .blank⟩, rest) := by
  rw [next, if_pos blank]

theorem next_quote (rest : List Char) : next '"' rest = quoted rest :=
  rfl

theorem next_mark {c : Char} {punct : Punct} {rest : List Char} (kept : ¬ Skipped c rest)
    (single : Punct.single? c = some punct) : next c rest = mark c punct rest := by
  have kept' : isBlank c = false ∧ (c = '/' && rest.head? = some '/') = false := by
    simpa [Skipped] using kept
  simp only [next, kept'.1, kept'.2, single]
  rfl

theorem next_digit {c : Char} (digit : c.isDigit = true) (rest : List Char) :
    next c rest = number c rest := by
  rcases plain_of_isWordChar (isWordChar_iff.mpr (.inr (isDigit_iff.mp digit))) with
    ⟨notBlank, notSlash, notMark, notQuote⟩
  simp [next, notBlank, notSlash, notMark, notQuote, digit]

theorem next_letter {c : Char} (letter : isWordStart c = true) (rest : List Char) :
    next c rest = word c rest := by
  rcases plain_of_isWordChar (isWordChar_iff.mpr (.inl (isWordStart_iff.mp letter))) with
    ⟨notBlank, notSlash, notMark, notQuote⟩
  have notDigit := isDigit_of_isWordStart letter
  simp [next, notBlank, notSlash, notMark, notQuote, notDigit, letter]

/-- The span at the front of a text is skipped, a token, or a fault. -/
theorem next_cases (c : Char) (rest : List Char) :
    (isBlank c = true ∧ next c rest = (⟨[c], .blank⟩, rest)) ∨
      (∃ tail, c = '/' ∧ rest = '/' :: tail) ∨
      (¬ Skipped c rest ∧ (next c rest).1.IsLexeme) ∨
      (c = '"' ∧ '"' ∉ rest) ∨
      (¬ Skipped c rest ∧ c ≠ '"' ∧
        next c rest = (⟨[c], .fault (.unexpectedCharacter c)⟩, rest)) := by
  by_cases blank : isBlank c = true
  · exact .inl ⟨blank, next_blank blank rest⟩
  by_cases slashes : c = '/' ∧ rest.head? = some '/'
  · rcases List.head?_eq_some_iff.mp slashes.2 with ⟨tail, isTail⟩
    exact .inr (.inl ⟨tail, slashes.1, isTail⟩)
  have kept : ¬ Skipped c rest := by
    rintro (isBlank | isComment)
    · exact blank isBlank
    · exact slashes isComment
  right
  right
  cases single : Punct.single? c with
  | some punct =>
      refine .inl ⟨kept, ?_⟩
      rw [next_mark kept single]
      exact mark_isLexeme single rest
  | none =>
      by_cases quote : c = '"'
      · subst quote
        by_cases closed : '"' ∈ rest
        · refine .inl ⟨kept, ?_⟩
          rw [next_quote]
          exact quoted_isLexeme closed
        · exact .inr (.inl ⟨rfl, closed⟩)
      by_cases digit : c.isDigit = true
      · refine .inl ⟨kept, ?_⟩
        rw [next_digit digit]
        exact number_isLexeme digit rest
      by_cases letter : isWordStart c = true
      · refine .inl ⟨kept, ?_⟩
        rw [next_letter letter]
        exact word_isLexeme letter rest
      refine .inr (.inr ⟨kept, quote, ?_⟩)
      have notComment : (c = '/' && rest.head? = some '/') = false := by simpa using slashes
      simp [next, blank, notComment, single, quote, digit, letter]

end Span

/-! ## Lexemes at the front of a text -/

/-- A mark is written with one character, or with `=` behind another mark. -/
theorem Punct.text_cases (punct : Punct) :
    (∃ c, punct.text.toList = [c] ∧ Punct.single? c = some punct) ∨
      ∃ c single, punct.text.toList = [c, '='] ∧ Punct.single? c = some single ∧
        single.withEqual? = some punct := by
  cases punct
  all_goals first
    | exact .inl ⟨_, rfl, rfl⟩
    | exact .inr ⟨_, _, rfl, rfl, rfl⟩

namespace Span

theorem mark_equal {c : Char} {punct double : Punct} (combined : punct.withEqual? = some double)
    (rest : List Char) :
    mark c punct ('=' :: rest) = (⟨[c, '='], .token (.punct double)⟩, rest) := by
  simp [mark, combined]

theorem number_covers (c : Char) (rest : List Char) :
    c :: rest.takeWhile Char.isDigit <+: (number c rest).1.text := by
  unfold number
  dsimp only
  split
  · split
    · exact List.prefix_append _ _
    · exact List.prefix_refl _
  · exact List.prefix_refl _

theorem number_decimal {c digit : Char} {whole rest : List Char}
    (wholeDigits : ∀ d ∈ whole, d.isDigit = true) (isDigit : digit.isDigit = true) :
    number c (whole ++ '.' :: digit :: rest) =
      (⟨c :: whole ++ '.' :: digit :: rest.takeWhile Char.isDigit,
        .token (.number (numberValue (c :: whole) (digit :: rest.takeWhile Char.isDigit)))⟩,
        rest.dropWhile Char.isDigit) := by
  have taken : (whole ++ '.' :: digit :: rest).takeWhile Char.isDigit = whole := by
    rw [List.takeWhile_append_of_pos wholeDigits, List.takeWhile_cons, if_neg (by decide),
      List.append_nil]
  have dropped : (whole ++ '.' :: digit :: rest).dropWhile Char.isDigit =
      '.' :: digit :: rest := by
    rw [List.dropWhile_append_of_pos wholeDigits, List.dropWhile_cons, if_neg (by decide)]
  simp [number, taken, dropped, isDigit]

end Span

theorem wordKind_keyword (word : Keyword) : wordKind word.text = .keyword word := by
  rw [wordKind, word.ofText?_text]

theorem wordKind_name {word : String} (unreserved : ∀ keyword : Keyword, keyword.text ≠ word) :
    wordKind word = .identifier := by
  have absent : Keyword.ofText? word = none := by
    rw [Keyword.ofText?, List.find?_eq_none]
    intro keyword _ spelled
    exact unreserved keyword (by simpa using spelled)
  rw [wordKind, absent]

/-- What a lexeme can be, by its first character. -/
theorem Lexeme.front_cases {text : List Char} {kind : TokenKind} (lexeme : Lexeme text kind)
    {c : Char} {tail : List Char} (front : text = c :: tail) :
    (∃ punct, Punct.single? c = some punct ∧ tail = [] ∧ kind = .punct punct) ∨
      (∃ half double, Punct.single? c = some half ∧ half.withEqual? = some double ∧
        tail = ['='] ∧ kind = .punct double) ∨
      (c.isDigit = true ∧ (∀ d ∈ tail, d.isDigit = true) ∧
        kind = .number (numberValue (c :: tail) [])) ∨
      (∃ whole digit fraction, c.isDigit = true ∧ (∀ d ∈ whole, d.isDigit = true) ∧
        digit.isDigit = true ∧ (∀ d ∈ fraction, d.isDigit = true) ∧
        tail = whole ++ '.' :: digit :: fraction ∧
        kind = .number (numberValue (c :: whole) (digit :: fraction))) ∨
      (∃ contents, c = '"' ∧ '"' ∉ contents ∧ tail = contents ++ ['"'] ∧
        kind = .string (String.ofList contents)) ∨
      (isWordStart c = true ∧ (∀ d ∈ tail, isWordChar d = true) ∧
        kind = wordKind (String.ofList (c :: tail))) := by
  cases lexeme with
  | mark punct =>
      rcases punct.text_cases with ⟨first, isText, single⟩ | ⟨first, half, isText, single, combined⟩
      · rw [isText] at front
        cases front
        exact .inl ⟨punct, single, rfl, rfl⟩
      · rw [isText] at front
        cases front
        exact .inr (.inl ⟨half, punct, single, combined, rfl, rfl⟩)
  | whole _ digits =>
      subst front
      have isDigits : ∀ d ∈ c :: tail, d.isDigit = true := fun d member =>
        isDigit_iff.mpr (digits d member)
      exact .inr (.inr (.inl ⟨isDigits c List.mem_cons_self,
        fun d member => isDigits d (List.mem_cons_of_mem _ member), rfl⟩))
  | @decimal whole fraction nonempty digits fractionNonempty fractionDigits =>
      rcases List.exists_cons_of_ne_nil nonempty with ⟨first, whole, rfl⟩
      rcases List.exists_cons_of_ne_nil fractionNonempty with ⟨digit, fraction, rfl⟩
      rw [List.cons_append] at front
      obtain ⟨rfl, rfl⟩ := List.cons.inj front
      have isDigits : ∀ d ∈ first :: whole, d.isDigit = true := fun d member =>
        isDigit_iff.mpr (digits d member)
      have areDigits : ∀ d ∈ digit :: fraction, d.isDigit = true := fun d member =>
        isDigit_iff.mpr (fractionDigits d member)
      exact .inr (.inr (.inr (.inl ⟨whole, digit, fraction, isDigits first List.mem_cons_self,
        fun d member => isDigits d (List.mem_cons_of_mem _ member),
        areDigits digit List.mem_cons_self,
        fun d member => areDigits d (List.mem_cons_of_mem _ member), rfl, rfl⟩)))
  | @string contents inside =>
      rw [List.cons_append] at front
      obtain ⟨rfl, rfl⟩ := List.cons.inj front
      exact .inr (.inr (.inr (.inr (.inl ⟨contents, rfl, inside, rfl, rfl⟩))))
  | keyword word =>
      rcases word.text_isWord with ⟨first, others, isText, letter, inner⟩
      have spelled : String.ofList (first :: others) = word.text := by
        rw [← isText, String.ofList_toList]
      rw [isText] at front
      cases front
      rw [spelled, wordKind_keyword]
      exact .inr (.inr (.inr (.inr (.inr ⟨letter, inner, rfl⟩))))
  | name letter inner unreserved =>
      cases front
      exact .inr (.inr (.inr (.inr (.inr ⟨isWordStart_iff.mpr letter,
        fun d member => isWordChar_iff.mpr (inner d member), (wordKind_name unreserved).symm⟩))))

open Lox.Span

/-- Where a lexeme stands at the front of a text, the span there is a token that is at
least as long. -/
theorem Lexeme.next_covers {c : Char} {tail : List Char} {kind : TokenKind}
    (lexeme : Lexeme (c :: tail) kind) {more : List Char} (kept : ¬ Skipped c (tail ++ more)) :
    (next c (tail ++ more)).1.IsLexeme ∧
      (c :: tail).length ≤ (next c (tail ++ more)).1.text.length := by
  rcases lexeme.front_cases rfl with ⟨punct, single, rfl, -⟩ |
    ⟨half, double, single, combined, rfl, -⟩ | ⟨first, digits, -⟩ |
    ⟨whole, digit, fraction, first, digits, isDigit, fractionDigits, rfl, -⟩ |
    ⟨contents, rfl, inside, rfl, -⟩ | ⟨letter, inner, -⟩
  · refine ⟨?_, List.length_pos_iff.mpr (next_text_ne_nil _ _)⟩
    rw [next_mark kept single]
    exact mark_isLexeme single _
  · rw [next_mark kept single]
    refine ⟨mark_isLexeme single _, ?_⟩
    rw [List.singleton_append, mark_equal combined]
  · rw [next_digit first]
    refine ⟨number_isLexeme first _, ?_⟩
    have longer := (number_covers c (tail ++ more)).length_le
    rw [List.takeWhile_append_of_pos digits] at longer
    simp only [List.length_cons, List.length_append] at longer ⊢
    omega
  · rw [next_digit first]
    refine ⟨number_isLexeme first _, ?_⟩
    rw [List.append_assoc, List.cons_append, List.cons_append, number_decimal digits isDigit,
      List.takeWhile_append_of_pos fractionDigits]
    simp only [List.length_cons, List.length_append]
    omega
  · rw [next_quote, List.append_assoc, List.singleton_append, quoted_append_quote inside]
    exact ⟨⟨_, rfl, .string inside⟩, Nat.le_refl _⟩
  · rw [next_letter letter]
    refine ⟨word_isLexeme letter _, ?_⟩
    rw [word, List.takeWhile_append_of_pos inner]
    simp

/-! ## Lexemes before a space -/

/-- Nothing follows, or a space. -/
def Stops (rest : List Char) : Prop :=
  rest = [] ∨ ∃ tail, rest = ' ' :: tail

namespace Stops

variable {rest : List Char} (stops : Stops rest)

include stops

theorem takeWhile {keeps : Char → Bool} (space : keeps ' ' = false) :
    rest.takeWhile keeps = [] := by
  rcases stops with rfl | ⟨tail, rfl⟩
  · rfl
  · simp [space]

theorem dropWhile {keeps : Char → Bool} (space : keeps ' ' = false) :
    rest.dropWhile keeps = rest := by
  rcases stops with rfl | ⟨tail, rfl⟩
  · rfl
  · simp [space]

theorem not_skipped {c : Char} (visible : isBlank c = false) : ¬ Skipped c rest := by
  rintro (blank | ⟨-, slash⟩)
  · rw [visible] at blank
    cases blank
  · rcases stops with rfl | ⟨tail, rfl⟩
    · cases slash
    · simp at slash

theorem mark_eq (c : Char) (punct : Punct) :
    mark c punct rest = (⟨[c], .token (.punct punct)⟩, rest) := by
  rcases stops with rfl | ⟨tail, rfl⟩
  · simp [mark]
  · simp [mark]

theorem number_eq (c : Char) {tail : List Char} (digits : ∀ d ∈ tail, d.isDigit = true) :
    number c (tail ++ rest) =
      (⟨c :: tail, .token (.number (numberValue (c :: tail) []))⟩, rest) := by
  have taken : (tail ++ rest).takeWhile Char.isDigit = tail := by
    rw [List.takeWhile_append_of_pos digits, stops.takeWhile (by decide), List.append_nil]
  have dropped : (tail ++ rest).dropWhile Char.isDigit = rest := by
    rw [List.dropWhile_append_of_pos digits, stops.dropWhile (by decide)]
  unfold number
  rw [taken, dropped]
  rcases stops with rfl | ⟨after, rfl⟩
  · rfl
  · simp

theorem word_eq (c : Char) {tail : List Char} (inner : ∀ d ∈ tail, isWordChar d = true) :
    word c (tail ++ rest) =
      (⟨c :: tail, .token (wordKind (String.ofList (c :: tail)))⟩, rest) := by
  rw [word, List.takeWhile_append_of_pos inner, List.dropWhile_append_of_pos inner,
    stops.takeWhile (by decide), stops.dropWhile (by decide), List.append_nil]

end Stops

theorem isBlank_of_single? {c : Char} {punct : Punct} (single : Punct.single? c = some punct) :
    isBlank c = false := by
  have text := Punct.text_of_single? single
  cases punct
  all_goals cases text
  all_goals rfl

/-- A lexeme before a space or the end is a token of its own. -/
theorem Lexeme.next_eq {c : Char} {tail : List Char} {kind : TokenKind}
    (lexeme : Lexeme (c :: tail) kind) {rest : List Char} (stops : Stops rest) :
    next c (tail ++ rest) = (⟨c :: tail, .token kind⟩, rest) := by
  rcases lexeme.front_cases rfl with ⟨punct, single, rfl, rfl⟩ |
    ⟨half, double, single, combined, rfl, rfl⟩ | ⟨first, digits, rfl⟩ |
    ⟨whole, digit, fraction, first, digits, isDigit, fractionDigits, rfl, rfl⟩ |
    ⟨contents, rfl, inside, rfl, rfl⟩ | ⟨letter, inner, rfl⟩
  · have kept := stops.not_skipped (isBlank_of_single? single)
    rw [List.nil_append, next_mark kept single, stops.mark_eq]
  · have kept : ¬ Skipped c (['='] ++ rest) := by
      simp [Skipped, isBlank_of_single? single]
    rw [next_mark kept single, List.singleton_append, mark_equal combined]
  · rw [next_digit first, stops.number_eq c digits]
  · rw [next_digit first, List.append_assoc, List.cons_append, List.cons_append,
      number_decimal digits isDigit, List.takeWhile_append_of_pos fractionDigits,
      List.dropWhile_append_of_pos fractionDigits, stops.takeWhile (by decide),
      stops.dropWhile (by decide), List.append_nil]
    rfl
  · rw [next_quote, List.append_assoc, List.singleton_append, quoted_append_quote inside]
    rfl
  · rw [next_letter letter, stops.word_eq c inner]

/-- A text is a lexeme of at most one kind. -/
theorem Lexeme.kind_unique {text : List Char} {kind other : TokenKind}
    (lexeme : Lexeme text kind) (lexeme' : Lexeme text other) : kind = other := by
  rcases lexeme.exists_cons with ⟨first, rest, rfl⟩
  have taken := lexeme.next_eq (.inl rfl)
  rw [lexeme'.next_eq (.inl rfl)] at taken
  have pieces : Piece.token other = Piece.token kind :=
    congrArg (fun cut : Span × List Char => cut.1.piece) taken
  exact (Piece.token.inj pieces).symm

end Lox
