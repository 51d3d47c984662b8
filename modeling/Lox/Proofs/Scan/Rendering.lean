import Lox.Proofs.Scan.MaximalMunch
import Lox.Proofs.Scan.Tokens

/-!
# Rendering

Tokens are rendered by writing their lexemes with single spaces between them.
Scanning the tokens of any source text, rendered in this way, gives them back.
-/

namespace Lox

open Grammar

/-- The lexemes of tokens, joined by spaces. -/
def rendered (tokens : List Token) : String :=
  " ".intercalate (tokens.map Token.lexeme)

/-- A token up to the line on which it stands. -/
def Token.content (token : Token) : TokenKind × String :=
  (token.kind, token.lexeme)

/-- The token is written as its kind asks. -/
def Token.IsWritten (token : Token) : Prop :=
  Lexeme token.lexeme.toList token.kind

/-! ## Tokens of a source text -/

theorem Lexes.isWritten_of_mem {read input : List Char} {cut : List Span}
    {found : List ScanItem} (lexes : Lexes read input cut found) {token : Token}
    (member : .ok token ∈ found) (inside : token.kind ≠ .endOfInput) : token.IsWritten := by
  induction lexes with
  | done =>
      cases List.mem_singleton.mp member
      exact absurd rfl inside
  | skip _ _ inductionHypothesis => exact inductionHypothesis member
  | token takes _ inductionHypothesis =>
      rcases List.mem_cons.mp member with isFirst | inRest
      · cases isFirst
        rw [Token.IsWritten, String.toList_ofList]
        exact takes.lexeme
      · exact inductionHypothesis inRest
  | fault _ _ inductionHypothesis =>
      rcases List.mem_cons.mp member with isFirst | inRest
      · cases isFirst
      · exact inductionHypothesis inRest

theorem isWritten_of_mem_scanTokens {source : String} {token : Token}
    (member : token ∈ scanTokens source) (inside : token.kind ≠ .endOfInput) :
    token.IsWritten := by
  have lexes : Lexes [] source.toList (spans source.toList) (scan source) :=
    lexes_iff.mpr ⟨rfl, rfl⟩
  rcases List.mem_filterMap.mp member with ⟨item, inScan, isToken⟩
  cases item with
  | ok other =>
      cases isToken
      exact lexes.isWritten_of_mem inScan inside
  | error error => cases isToken

/-! ## Scanning rendered tokens -/

/-- A token before a space or the end is scanned as itself, on the line on which it ends. -/
theorem Token.IsWritten.items_append {token : Token} (written : token.IsWritten)
    {rest : List Char} (stops : Stops rest) (line : Nat) :
    items line (spans (token.lexeme.toList ++ rest)) =
      .ok { token with line := line + lineBreaks token.lexeme.toList } ::
        items (line + lineBreaks token.lexeme.toList) (spans rest) := by
  rw [Token.IsWritten] at written
  rcases written.exists_cons with ⟨first, tail, isText⟩
  have isLexeme : token.lexeme = String.ofList (first :: tail) := by
    rw [← isText, String.ofList_toList]
  rw [isText] at written ⊢
  rw [List.cons_append, spans_cons, written.next_eq stops, items_cons, isLexeme]
  rfl

theorem items_space (line : Nat) (rest : List Char) :
    items line (spans (' ' :: rest)) = items line (spans rest) := by
  rw [spans_cons, Span.next_blank rfl, items_cons]
  rfl

theorem rendered_cons_cons (token second : Token) (rest : List Token) :
    (rendered (token :: second :: rest)).toList =
      token.lexeme.toList ++ ' ' :: (rendered (second :: rest)).toList := by
  simp [rendered, String.toList_intercalate]

/-- The items of rendered tokens are these tokens, on lines of their own, and the end. -/
theorem items_rendered {tokens : List Token} (written : ∀ token ∈ tokens, token.IsWritten)
    (line : Nat) :
    ∃ (again : List Token) (last : Nat), items line (spans (rendered tokens).toList) =
        again.map Except.ok ++ [.ok (Token.endOfInput last)] ∧
      again.map Token.content = tokens.map Token.content := by
  induction tokens generalizing line with
  | nil =>
      have empty : (rendered []).toList = [] := rfl
      rw [empty, spans_nil, items_nil]
      exact ⟨[], line, rfl, rfl⟩
  | cons token rest inductionHypothesis =>
      have first : token.IsWritten := written token List.mem_cons_self
      cases rest with
      | nil =>
          have single : (rendered [token]).toList = token.lexeme.toList ++ [] := by
            simp [rendered]
          rw [single, first.items_append (.inl rfl), spans_nil, items_nil]
          exact ⟨[_], _, rfl, rfl⟩
      | cons second others =>
          rw [rendered_cons_cons, first.items_append (.inr ⟨_, rfl⟩), items_space]
          have later : ∀ other ∈ second :: others, other.IsWritten := fun other member =>
            written other (List.mem_cons_of_mem _ member)
          rcases inductionHypothesis later (line + lineBreaks token.lexeme.toList) with
            ⟨again, last, found, contents⟩
          rw [found]
          refine ⟨{ token with line := _ } :: again, last, rfl, ?_⟩
          rw [List.map_cons, List.map_cons, contents]
          rfl

theorem rendered_eq_of_content_eq {tokens others : List Token}
    (contents : tokens.map Token.content = others.map Token.content) :
    rendered tokens = rendered others := by
  have lexemes := congrArg (List.map Prod.snd) contents
  rw [List.map_map, List.map_map] at lexemes
  exact congrArg " ".intercalate lexemes

/-- Scanning undoes rendering.  The tokens of a source text before its end, rendered, are
scanned without an error, and scanning yields tokens of the same kinds and payloads with the
same lexemes, and the end; rendering these gives the same text again. -/
theorem scan_undoes_rendering (source : String) :
    ∃ tokens last, scanTokens source = tokens ++ [Token.endOfInput last] ∧ Inside tokens ∧
      scanErrors (rendered tokens) = [] ∧
      ∃ again last', scanTokens (rendered tokens) = again ++ [Token.endOfInput last'] ∧
        again.map Token.content = tokens.map Token.content ∧
        rendered again = rendered tokens := by
  rcases scanTokens_split source with ⟨tokens, last, split, inside, -⟩
  have written : ∀ token ∈ tokens, token.IsWritten := by
    intro token member
    have scanned : token ∈ scanTokens source := by
      rw [split]
      exact List.mem_append_left _ member
    exact isWritten_of_mem_scanTokens scanned (inside token member)
  rcases items_rendered written 1 with ⟨again, last', found, contents⟩
  refine ⟨tokens, last, split, inside, ?_, again, last', ?_, contents,
    rendered_eq_of_content_eq contents⟩
  · rw [scanErrors_eq, found, List.filterMap_append, List.filterMap_map]
    simp [lexError?, Function.comp_def]
  · rw [scanTokens_eq, found, List.filterMap_append, List.filterMap_map]
    simp [token?, Function.comp_def]

end Lox
