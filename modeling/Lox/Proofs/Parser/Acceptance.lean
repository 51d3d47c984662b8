import Lox.Proofs.Grammar.DanglingElse
import Lox.Proofs.Parser.StatementCompleteness

/-!
# The parser accepts the grammar

Parsing succeeds exactly on the programs of the grammar, and gives the one tree,
up to the identities of uses, in which every `else` belongs to the nearest `if`.
-/

namespace Lox

open Grammar

/-- Tokens that end with their only end of input can be split before an end of
input in one way only. -/
theorem eq_of_append_atEnd {tokens before rest : List Token} {last : Token}
    (inside : Inside tokens) (beforeInside : Inside before) (lastKind : last.kind = .endOfInput)
    (atEnd : Parser.AtEnd rest) (split : tokens ++ [last] = before ++ rest) :
    tokens = before := by
  rcases List.append_eq_append_iff.mp split with ⟨middle, rfl, lastEquality⟩ |
    ⟨middle, rfl, restEquality⟩
  · cases middle with
    | nil => simp
    | cons token others =>
        obtain ⟨rfl, -⟩ := List.cons.inj lastEquality
        exact absurd lastKind (beforeInside last (by simp))
  · cases middle with
    | nil => simp
    | cons token others =>
        rw [restEquality] at atEnd
        exact absurd (atEnd token rfl) (inside token (by simp))

theorem Grammar.DerivesProgram.inside {nearest : Bool} {tokens : List Token} {program : List Stmt}
    (derived : DerivesProgram nearest tokens program) : Inside tokens := by
  obtain ⟨derived⟩ := derived
  rw [inside_flatMap]
  exact fun part member => (derived part member).inside

/-- What the parser reads of tokens that end with their only end of input is all
but that end. -/
theorem derivesProgram_of_parse {nextId finalId : UseId} {tokens : List Token} {last : Token}
    {program : List Stmt} (inside : Inside tokens) (lastKind : last.kind = .endOfInput)
    (parsed : parseProgram nextId (tokens ++ [last]) = (.ok program, finalId)) :
    DerivesProgram true tokens program := by
  obtain ⟨before, rest, split, atEnd, derived⟩ := parseProgram_sound parsed
  obtain rfl := eq_of_append_atEnd inside derived.inside lastKind atEnd split
  exact derived

/-- For tokens whose only end of input is the last one, parsing succeeds exactly
if the tokens before it derive from the grammar, and its result is then the tree
of the derivation with every `else` at the nearest `if`, which is unique up to the
identities of uses. -/
theorem parseProgram_ok_iff_derives (nextId : UseId) (tokens : List Token) (last : Token)
    (inside : ∀ token ∈ tokens, token.kind ≠ .endOfInput) (lastKind : last.kind = .endOfInput) :
    ((∃ program finalId, parseProgram nextId (tokens ++ [last]) = (.ok program, finalId)) ↔
        ∃ tree, DerivesProgram false tokens tree) ∧
      ∀ program finalId, parseProgram nextId (tokens ++ [last]) = (.ok program, finalId) →
        DerivesProgram true tokens program ∧
          ∀ tree, DerivesProgram true tokens tree →
            program.map Stmt.shape = tree.map Stmt.shape := by
  refine ⟨⟨?_, ?_⟩, ?_⟩
  · rintro ⟨program, finalId, parsed⟩
    exact exists_derivesProgram_iff.mpr ⟨program, derivesProgram_of_parse inside lastKind parsed⟩
  · intro derivable
    obtain ⟨tree, derived⟩ := exists_derivesProgram_iff.mp derivable
    obtain ⟨program, finalId, parsed, -⟩ := parseProgram_complete derived lastKind nextId
    exact ⟨program, finalId, parsed⟩
  · intro program finalId parsed
    refine ⟨derivesProgram_of_parse inside lastKind parsed, ?_⟩
    intro tree derived
    obtain ⟨found, foundId, foundParsed, shapes⟩ := parseProgram_complete derived lastKind nextId
    rw [parsed] at foundParsed
    obtain rfl := Except.ok.inj (Prod.mk.inj foundParsed).1
    exact shapes

/-- The tokens of `if (a) if (b) c.d = e; else return;` on one line. -/
def nestedIfTokens : List Token :=
  [ ⟨.keyword .if_, "if", 1⟩, ⟨.punct .leftParen, "(", 1⟩, ⟨.identifier, "a", 1⟩,
    ⟨.punct .rightParen, ")", 1⟩, ⟨.keyword .if_, "if", 1⟩, ⟨.punct .leftParen, "(", 1⟩,
    ⟨.identifier, "b", 1⟩, ⟨.punct .rightParen, ")", 1⟩, ⟨.identifier, "c", 1⟩,
    ⟨.punct .dot, ".", 1⟩, ⟨.identifier, "d", 1⟩, ⟨.punct .equal, "=", 1⟩,
    ⟨.identifier, "e", 1⟩, ⟨.punct .semicolon, ";", 1⟩, ⟨.keyword .else_, "else", 1⟩,
    ⟨.keyword .return_, "return", 1⟩, ⟨.punct .semicolon, ";", 1⟩ ]

/-- The tree of these tokens, whose `else` belongs to the inner `if`. -/
def nestedIfTree : Stmt :=
  .if_ (.var 0 ⟨"a", 1⟩)
    (.if_ (.var 1 ⟨"b", 1⟩) (.expression (.set (.var 2 ⟨"c", 1⟩) ⟨"d", 1⟩ (.var 3 ⟨"e", 1⟩)))
      (some (.return_ 1 none)))
    none

theorem nestedIfTree_derived : DerivesProgram true nestedIfTokens [nestedIfTree] := by
  have inner : DerivesStmt true .statement (nestedIfTokens.drop 4) _ false :=
    .ifThenElse rfl rfl (Derives.of_call (.noSuffix (.identifier 1 rfl))) rfl
      (.expression (.mk (.set (.noSuffix (.identifier 2 rfl)) rfl rfl rfl
        (Derives.of_call (.noSuffix (.identifier 3 rfl)))) rfl))
      (fun _ => rfl) rfl (.return_ rfl .absent rfl)
  have outer : DerivesStmt true .statement nestedIfTokens nestedIfTree true :=
    .ifThen rfl rfl (Derives.of_call (.noSuffix (.identifier 0 rfl))) rfl inner
  have program : DerivesProgram true ([⟨nestedIfTokens, nestedIfTree, true⟩].flatMap
      Sentence.tokens) [nestedIfTree] :=
    .mk (by
      intro part member
      rw [List.mem_singleton.mp member]
      exact .noDeclaration outer)
  simpa using program

theorem nestedIfTree_parsed :
    (∀ token ∈ nestedIfTokens, token.kind ≠ .endOfInput) ∧
      (Token.endOfInput 1).kind = .endOfInput ∧
      ∃ program finalId,
        parseProgram 0 (nestedIfTokens ++ [Token.endOfInput 1]) = (.ok program, finalId) ∧
          program.map Stmt.shape = [nestedIfTree.shape] := by
  have inside : ∀ token ∈ nestedIfTokens, token.kind ≠ .endOfInput := by decide
  refine ⟨inside, rfl, ?_⟩
  obtain ⟨accepted, built⟩ :=
    parseProgram_ok_iff_derives 0 nestedIfTokens (Token.endOfInput 1) inside rfl
  obtain ⟨program, finalId, parsed⟩ :=
    accepted.mpr (exists_derivesProgram_iff.mpr ⟨_, nestedIfTree_derived⟩)
  exact ⟨program, finalId, parsed, (built program finalId parsed).2 _ nestedIfTree_derived⟩

end Lox
