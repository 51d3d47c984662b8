import Lox.Proofs.Scan.Rounds
import Lox.Proofs.Syntax.WellFormed

/-!
# Scanned tokens

The tokens of a source text end with the only end of input among them, and no
name among them is spelled like a reserved word.
-/

namespace Lox

open Grammar

/-- A token kind that a span can have: not the end of input, and a name only if the
text is no reserved word. -/
def Span.AllowedKind (text : List Char) (kind : TokenKind) : Prop :=
  kind ≠ .endOfInput ∧
    (kind = .identifier → Keyword.ofText? (String.ofList text) = none)

theorem Span.allowed_of_ne {text : List Char} {kind : TokenKind} (inside : kind ≠ .endOfInput)
    (noName : kind ≠ .identifier) : AllowedKind text kind :=
  ⟨inside, fun isName => absurd isName noName⟩

theorem Span.mark_allowed (c : Char) (punct : Punct) (rest : List Char) {kind : TokenKind}
    (isToken : (mark c punct rest).1.piece = .token kind) :
    AllowedKind (mark c punct rest).1.text kind := by
  unfold mark at isToken ⊢
  split at isToken
  all_goals
    obtain rfl := Piece.token.inj isToken
    exact allowed_of_ne (by simp) (by simp)

theorem Span.quoted_allowed (rest : List Char) {kind : TokenKind}
    (isToken : (quoted rest).1.piece = .token kind) :
    AllowedKind (quoted rest).1.text kind := by
  unfold quoted at isToken ⊢
  split at isToken
  · cases isToken
  · obtain rfl := Piece.token.inj isToken
    exact allowed_of_ne (by simp) (by simp)

theorem Span.number_allowed (c : Char) (rest : List Char) {kind : TokenKind}
    (isToken : (number c rest).1.piece = .token kind) :
    AllowedKind (number c rest).1.text kind := by
  unfold number at isToken
  dsimp only at isToken
  split at isToken
  · split at isToken
    all_goals
      obtain rfl := Piece.token.inj isToken
      exact allowed_of_ne (by simp) (by simp)
  · obtain rfl := Piece.token.inj isToken
    exact allowed_of_ne (by simp) (by simp)

theorem Span.word_allowed (c : Char) (rest : List Char) {kind : TokenKind}
    (isToken : (word c rest).1.piece = .token kind) :
    AllowedKind (word c rest).1.text kind := by
  unfold word wordKind at isToken
  dsimp only at isToken
  cases found : Keyword.ofText? (String.ofList (c :: rest.takeWhile isWordChar)) with
  | none =>
      rw [found] at isToken
      obtain rfl := Piece.token.inj isToken
      exact ⟨by simp, fun _ => found⟩
  | some keyword =>
      rw [found] at isToken
      obtain rfl := Piece.token.inj isToken
      exact allowed_of_ne (by simp) (by simp)

theorem Span.next_allowed (c : Char) (rest : List Char) {kind : TokenKind}
    (isToken : (next c rest).1.piece = .token kind) :
    AllowedKind (next c rest).1.text kind := by
  unfold next at isToken ⊢
  by_cases blank : isBlank c = true
  · simp [blank] at isToken
  by_cases slashes : (c = '/' && rest.head? = some '/') = true
  · simp [blank, slashes, comment] at isToken
  rw [if_neg blank, if_neg slashes] at isToken ⊢
  cases single : Punct.single? c with
  | some punct =>
      rw [single] at isToken
      exact mark_allowed c punct rest isToken
  | none =>
      rw [single] at isToken
      dsimp only at isToken ⊢
      by_cases quote : c = '"'
      · rw [if_pos quote] at isToken ⊢
        exact quoted_allowed rest isToken
      by_cases digit : c.isDigit = true
      · rw [if_neg quote, if_pos digit] at isToken ⊢
        exact number_allowed c rest isToken
      by_cases start : isWordStart c = true
      · rw [if_neg quote, if_neg digit, if_pos start] at isToken ⊢
        exact word_allowed c rest isToken
      · rw [if_neg quote, if_neg digit, if_neg start] at isToken
        cases isToken

theorem spans_allowed (text : List Char) {span : Span} (member : span ∈ spans text)
    {kind : TokenKind} (isToken : span.piece = .token kind) :
    Span.AllowedKind span.text kind := by
  match text with
  | [] => simp at member
  | c :: rest =>
      rw [spans_cons] at member
      rcases List.mem_cons.mp member with rfl | later
      · exact Span.next_allowed c rest isToken
      · exact spans_allowed (Span.next c rest).2 later isToken
termination_by text.length
decreasing_by exact Span.length_next_lt c rest

/-- A name that is no reserved word is plain. -/
theorem isPlain_of_unreserved {name : Name} (unreserved : Keyword.ofText? name.text = none) :
    name.IsPlain := by
  constructor <;>
  · intro same
    rw [same] at unreserved
    exact absurd unreserved (by decide)

theorem items_tokens (line : Nat) (spans : List Span)
    (allowed : ∀ span ∈ spans, ∀ kind, span.piece = .token kind →
      Span.AllowedKind span.text kind) :
    ∃ tokens last, (items line spans).filterMap token? = tokens ++ [Token.endOfInput last] ∧
      Inside tokens ∧ PlainNames tokens := by
  induction spans generalizing line with
  | nil => exact ⟨[], line, by simp [token?], by simp, by simp⟩
  | cons span rest inductionHypothesis =>
      have restAllowed : ∀ other ∈ rest, ∀ kind, other.piece = .token kind →
          Span.AllowedKind other.text kind :=
        fun other member => allowed other (List.mem_cons_of_mem _ member)
      have spanAllowed := allowed span List.mem_cons_self
      rcases inductionHypothesis (line + lineBreaks span.text) restAllowed with
        ⟨tokens, last, restTokens, inside, plain⟩
      rw [items_cons, List.filterMap_append, restTokens]
      cases piece : span.piece with
      | blank => exact ⟨tokens, last, by simp [Span.item?, piece], inside, plain⟩
      | fault cause => exact ⟨tokens, last, by simp [Span.item?, piece, token?], inside, plain⟩
      | token kind =>
          have kindAllowed := spanAllowed kind piece
          refine ⟨⟨kind, String.ofList span.text, line + lineBreaks span.text⟩ :: tokens, last,
            by simp [Span.item?, piece, token?], ?_, ?_⟩
          · exact inside_cons.mpr ⟨kindAllowed.1, inside⟩
          · refine plainNames_cons.mpr ⟨?_, plain⟩
            intro isName
            exact isPlain_of_unreserved (kindAllowed.2 isName)

/-- The tokens of a source text before its end. -/
theorem scanTokens_split (source : String) :
    ∃ tokens last, scanTokens source = tokens ++ [Token.endOfInput last] ∧ Inside tokens ∧
      PlainNames tokens := by
  rw [scanTokens_eq]
  exact items_tokens 1 (spans source.toList) fun _ member _ isToken =>
    spans_allowed source.toList member isToken

/-- Tokens as a source text has them: the end of input comes last and nowhere else, and
no name is a reserved word. -/
def Scanned (tokens : List Token) : Prop :=
  ∃ before last, tokens = before ++ [last] ∧ last.kind = .endOfInput ∧ Inside before ∧
    PlainNames before

theorem scanned_scanTokens (source : String) : Scanned (scanTokens source) := by
  rcases scanTokens_split source with ⟨tokens, last, split, inside, plain⟩
  exact ⟨tokens, _, split, rfl, inside, plain⟩

end Lox
