import Mathlib
import Lox.Proofs.Syntax.Printing

/-!
# Printing is unambiguous

The forms of statements, and the result for all trees: statements and expressions that
were parsed from source texts and have one text differ at most in identities and lines.
-/

namespace Lox

open Form

namespace Stmt

/-! ## Forms of statements -/

/-- The forms of a superclass clause. -/
def superclassForm : Option Expr → List Form
  | none => []
  | some parent => [.word "<", parent.form]

mutual

/-- The form whose text is the prefix form of the statement. -/
def form : Stmt → Form
  | .expression value => .list [.word ";", value.form]
  | .print value => .list [.word "print", value.form]
  | .var name initializer =>
      .list (.word "var" :: .word name.text :: Expr.optionForm initializer)
  | .block body => .list (.word "block" :: formEach body)
  | .if_ condition thenBranch none => .list [.word "if", condition.form, thenBranch.form]
  | .if_ condition thenBranch (some elseBranch) =>
      .list [.word "if", condition.form, thenBranch.form, elseBranch.form]
  | .while_ condition body => .list [.word "while", condition.form, body.form]
  | .function declaration => functionForm "fun" declaration
  | .return_ _ value => .list (.word "return" :: Expr.optionForm value)
  | .class_ name superclass methods =>
      .list (.word "class" :: .word name.text :: (superclassForm superclass ++ methodForms methods))

/-- The forms of statements. -/
def formEach : List Stmt → List Form
  | [] => []
  | first :: rest => first.form :: formEach rest

/-- The form of a function under the given tag. -/
def functionForm (tag : String) : FunctionDecl → Form
  | ⟨name, params, body⟩ =>
      .list (.word tag :: .word name.text :: .list ((params.map Name.text).map .word) ::
        formEach body)

/-- The forms of methods. -/
def methodForms : List FunctionDecl → List Form
  | [] => []
  | first :: rest => functionForm "method" first :: methodForms rest

end

mutual

/-- The prefix form of a well spelled statement is the text of its form. -/
theorem prints_form : ∀ stmt : Stmt, stmt.Spelled Literal.IsPlain →
    stmt.form.Prints stmt.text.toList
  | .expression value, spelled => by
      have printed := (value.prints_form spelled).each_cons printsEach_nil
      simpa [form, text] using prints_list (by decide : IsUnbroken ";") printed
  | .print value, spelled => by
      have printed := (value.prints_form spelled).each_cons printsEach_nil
      simpa [form, text] using prints_list (by decide : IsUnbroken "print") printed
  | .var name initializer, spelled => by
      have printed := (prints_word spelled.1.unbroken).each_cons
        (Expr.prints_optionForm spelled.2)
      simpa [form, text] using prints_list (by decide : IsUnbroken "var") printed
  | .block body, spelled => by
      have printed := prints_formEach body spelled
      simpa [form, text] using prints_list (by decide : IsUnbroken "block") printed
  | .if_ condition thenBranch none, spelled => by
      have printed := (condition.prints_form spelled.1).each_cons
        ((prints_form thenBranch spelled.2).each_cons printsEach_nil)
      simpa [form, text] using prints_list (by decide : IsUnbroken "if") printed
  | .if_ condition thenBranch (some elseBranch), spelled => by
      have printed := (condition.prints_form spelled.1).each_cons
        ((prints_form thenBranch spelled.2.1).each_cons
          ((prints_form elseBranch spelled.2.2).each_cons printsEach_nil))
      simpa [form, text] using prints_list (by decide : IsUnbroken "if") printed
  | .while_ condition body, spelled => by
      have printed := (condition.prints_form spelled.1).each_cons
        ((prints_form body spelled.2).each_cons printsEach_nil)
      simpa [form, text] using prints_list (by decide : IsUnbroken "while") printed
  | .function declaration, spelled => by
      rw [form, text]
      exact prints_functionForm (by decide) declaration spelled
  | .return_ _ value, spelled => by
      have printed := Expr.prints_optionForm spelled
      simpa [form, text] using prints_list (by decide : IsUnbroken "return") printed
  | .class_ name none methods, spelled => by
      have printed := (prints_word spelled.1.unbroken).each_cons
        (prints_methodForms methods spelled.2.2)
      simpa [form, text, superclassForm] using
        prints_list (by decide : IsUnbroken "class") printed
  | .class_ name (some parent) methods, spelled => by
      have clause := (prints_word (by decide : IsUnbroken "<")).each_cons
        ((parent.prints_form (spelled.2.1 parent rfl)).each_cons
          (prints_methodForms methods spelled.2.2))
      have printed := (prints_word spelled.1.unbroken).each_cons clause
      simpa [form, text, superclassForm] using
        prints_list (by decide : IsUnbroken "class") printed

theorem prints_formEach : ∀ stmts : List Stmt, SpelledEach Literal.IsPlain stmts →
    PrintsEach (formEach stmts) (textEach stmts).toList
  | [], _ => by
      rw [formEach, textEach]
      exact printsEach_nil
  | first :: rest, spelled => by
      have printed := (prints_form first spelled.1).each_cons (prints_formEach rest spelled.2)
      simpa [formEach, textEach] using printed

theorem prints_functionForm {tag : String} (unbroken : IsUnbroken tag) :
    ∀ declaration : FunctionDecl, FunctionSpelled Literal.IsPlain declaration →
      (functionForm tag declaration).Prints (functionText tag declaration).toList
  | ⟨name, params, body⟩, spelled => by
      have paramsUnbroken : ∀ text ∈ params.map Name.text, IsUnbroken text := by
        intro text member
        rcases List.mem_map.mp member with ⟨param, isParam, rfl⟩
        exact (spelled.2.1 param isParam).unbroken
      have printed := (prints_word spelled.1.unbroken).each_cons
        (printsEach_words_cons paramsUnbroken (prints_formEach body spelled.2.2))
      simpa [functionForm, functionText, Name.spaced] using prints_list unbroken printed

theorem prints_methodForms : ∀ methods : List FunctionDecl,
    MethodsSpelled Literal.IsPlain methods →
      PrintsEach (methodForms methods) (methodsText methods).toList
  | [], _ => by
      rw [methodForms, methodsText]
      exact printsEach_nil
  | first :: rest, spelled => by
      have printed := (prints_functionForm (by decide : IsUnbroken "method") first
        spelled.1).each_cons (prints_methodForms rest spelled.2)
      simpa [methodForms, methodsText] using printed

end

/-! ## Statements with one form -/

/-- The statement without identities and lines. -/
def bare (stmt : Stmt) : Stmt :=
  stmt.relabel (fun _ => 0) fun _ => 0

theorem params_moved_eq {params others : List Name}
    (same : (params.map Name.text).map Form.word = (others.map Name.text).map Form.word) :
    params.map (Name.moved fun _ => 0) = others.map (Name.moved fun _ => 0) := by
  induction params generalizing others with
  | nil =>
      cases others with
      | nil => rfl
      | cons => cases same
  | cons first rest inductionHypothesis =>
      cases others with
      | nil => cases same
      | cons first' rest' =>
          simp only [List.map_cons, List.cons.injEq, Form.word.injEq] at same
          rw [List.map_cons, List.map_cons, Name.moved_eq same.1, inductionHypothesis same.2]

/-- A superclass starts with a word, and no method does, so a class with a superclass is
not taken for one without. -/
theorem superclassForm_append_inj {superclass other : Option Expr}
    {methods methods' : List FunctionDecl}
    (same : superclassForm superclass ++ methodForms methods =
      superclassForm other ++ methodForms methods') :
    Expr.optionForm superclass = Expr.optionForm other ∧
      methodForms methods = methodForms methods' := by
  have noWord : ∀ {forms : List Form} {methods : List FunctionDecl} {text : String},
      methodForms methods ≠ .word text :: forms := by
    intro forms methods text isWord
    cases methods with
    | nil => cases isWord
    | cons first rest =>
        cases first
        rw [methodForms, functionForm] at isWord
        cases isWord
  cases superclass with
  | none =>
      cases other with
      | none => exact ⟨rfl, same⟩
      | some parent' => exact absurd same noWord
  | some parent =>
      cases other with
      | none => exact absurd same.symm noWord
      | some parent' =>
          simp only [superclassForm, List.cons_append, List.nil_append, List.cons.injEq,
            true_and] at same
          rw [Expr.optionForm, Expr.optionForm, same.1]
          exact ⟨rfl, same.2⟩

/-- The word with which the prefix form of the statement starts. -/
def tag : Stmt → String
  | .expression _ => ";"
  | .print _ => "print"
  | .var _ _ => "var"
  | .block _ => "block"
  | .if_ _ _ _ => "if"
  | .while_ _ _ => "while"
  | .function _ => "fun"
  | .return_ _ _ => "return"
  | .class_ _ _ _ => "class"

theorem exists_form_eq (stmt : Stmt) : ∃ forms, stmt.form = .list (.word stmt.tag :: forms) := by
  cases stmt with
  | if_ condition thenBranch elseBranch =>
      cases elseBranch
      all_goals
        rw [form]
        exact ⟨_, rfl⟩
  | function declaration =>
      cases declaration
      rw [form, functionForm]
      exact ⟨_, rfl⟩
  | _ =>
      rw [form]
      exact ⟨_, rfl⟩

theorem tag_eq_of_form_eq {stmt other : Stmt} (same : stmt.form = other.form) :
    stmt.tag = other.tag := by
  rcases stmt.exists_form_eq with ⟨forms, isForm⟩
  rcases other.exists_form_eq with ⟨others, isOther⟩
  rw [isForm, isOther, Form.list.injEq, List.cons.injEq, Form.word.injEq] at same
  exact same.1

mutual

/-- Well spelled statements with one form differ at most in identities and lines. -/
theorem bare_eq_of_form_eq : ∀ (stmt other : Stmt), stmt.Spelled Literal.IsPlain →
    other.Spelled Literal.IsPlain → stmt.form = other.form → stmt.bare = other.bare
  | .expression value, other, spelled, otherSpelled, same => by
      have sameTag := tag_eq_of_form_eq same
      cases other with
      | expression value' =>
          simp only [form, Form.list.injEq, List.cons.injEq, true_and, and_true] at same
          have sameValue := value.bare_eq_of_form_eq value' spelled otherSpelled same
          unfold Expr.bare at sameValue
          rw [bare, bare, relabel, relabel, sameValue]
      | _ => simp [tag] at sameTag
  | .print value, other, spelled, otherSpelled, same => by
      have sameTag := tag_eq_of_form_eq same
      cases other with
      | print value' =>
          simp only [form, Form.list.injEq, List.cons.injEq, true_and, and_true] at same
          have sameValue := value.bare_eq_of_form_eq value' spelled otherSpelled same
          unfold Expr.bare at sameValue
          rw [bare, bare, relabel, relabel, sameValue]
      | _ => simp [tag] at sameTag
  | .var name initializer, other, spelled, otherSpelled, same => by
      have sameTag := tag_eq_of_form_eq same
      cases other with
      | var name' initializer' =>
          simp only [form, Form.list.injEq, List.cons.injEq, Form.word.injEq, true_and] at same
          have sameInitializer :=
            Expr.optionBare_eq_of_form_eq spelled.2 otherSpelled.2 same.2
          rw [bare, bare, relabel, relabel, Name.moved_eq same.1, sameInitializer]
      | _ => simp [tag] at sameTag
  | .block body, other, spelled, otherSpelled, same => by
      have sameTag := tag_eq_of_form_eq same
      cases other with
      | block body' =>
          simp only [form, Form.list.injEq, List.cons.injEq, true_and] at same
          rw [bare, bare, relabel, relabel,
            bareEach_eq_of_formEach_eq body body' spelled otherSpelled same]
      | _ => simp [tag] at sameTag
  | .if_ condition thenBranch none, other, spelled, otherSpelled, same => by
      have sameTag := tag_eq_of_form_eq same
      cases other with
      | if_ condition' thenBranch' elseBranch' =>
          cases elseBranch' with
          | none =>
              simp only [form, Form.list.injEq, List.cons.injEq, true_and, and_true] at same
              have sameCondition :=
                condition.bare_eq_of_form_eq condition' spelled.1 otherSpelled.1 same.1
              have sameBranch :=
                bare_eq_of_form_eq thenBranch thenBranch' spelled.2 otherSpelled.2 same.2
              unfold Expr.bare at sameCondition
              unfold bare at sameBranch ⊢
              rw [relabel, relabel, sameCondition, sameBranch]
          | some elseBranch' => simp [form] at same
      | _ => simp [tag] at sameTag
  | .if_ condition thenBranch (some elseBranch), other, spelled, otherSpelled, same => by
      have sameTag := tag_eq_of_form_eq same
      cases other with
      | if_ condition' thenBranch' elseBranch' =>
          cases elseBranch' with
          | none => simp [form] at same
          | some elseBranch' =>
              simp only [form, Form.list.injEq, List.cons.injEq, true_and, and_true] at same
              have sameCondition :=
                condition.bare_eq_of_form_eq condition' spelled.1 otherSpelled.1 same.1
              have sameBranch := bare_eq_of_form_eq thenBranch thenBranch' spelled.2.1
                otherSpelled.2.1 same.2.1
              have sameElse := bare_eq_of_form_eq elseBranch elseBranch' spelled.2.2
                otherSpelled.2.2 same.2.2
              unfold Expr.bare at sameCondition
              unfold bare at sameBranch sameElse ⊢
              rw [relabel, relabel, sameCondition, sameBranch, sameElse]
      | _ => simp [tag] at sameTag
  | .while_ condition body, other, spelled, otherSpelled, same => by
      have sameTag := tag_eq_of_form_eq same
      cases other with
      | while_ condition' body' =>
          simp only [form, Form.list.injEq, List.cons.injEq, true_and, and_true] at same
          have sameCondition :=
            condition.bare_eq_of_form_eq condition' spelled.1 otherSpelled.1 same.1
          have sameBody := bare_eq_of_form_eq body body' spelled.2 otherSpelled.2 same.2
          unfold Expr.bare at sameCondition
          unfold bare at sameBody ⊢
          rw [relabel, relabel, sameCondition, sameBody]
      | _ => simp [tag] at sameTag
  | .function declaration, other, spelled, otherSpelled, same => by
      have sameTag := tag_eq_of_form_eq same
      cases other with
      | function declaration' =>
          rw [form, form] at same
          rw [bare, bare, relabel, relabel,
            bareFunction_eq_of_form_eq declaration declaration' spelled otherSpelled same]
      | _ => simp [tag] at sameTag
  | .return_ _ value, other, spelled, otherSpelled, same => by
      have sameTag := tag_eq_of_form_eq same
      cases other with
      | return_ line' value' =>
          simp only [form, Form.list.injEq, List.cons.injEq, true_and] at same
          rw [bare, bare, relabel, relabel,
            Expr.optionBare_eq_of_form_eq spelled otherSpelled same]
      | _ => simp [tag] at sameTag
  | .class_ name superclass methods, other, spelled, otherSpelled, same => by
      have sameTag := tag_eq_of_form_eq same
      cases other with
      | class_ name' superclass' methods' =>
          simp only [form, Form.list.injEq, List.cons.injEq, Form.word.injEq, true_and] at same
          rcases superclassForm_append_inj same.2 with ⟨sameClause, sameForms⟩
          have sameSuperclass :=
            Expr.optionBare_eq_of_form_eq spelled.2.1 otherSpelled.2.1 sameClause
          have sameMethods := bareMethods_eq_of_forms_eq methods methods' spelled.2.2
            otherSpelled.2.2 sameForms
          rw [bare, bare, relabel, relabel, Name.moved_eq same.1, sameSuperclass, sameMethods]
      | _ => simp [tag] at sameTag
termination_by structural stmt => stmt

theorem bareEach_eq_of_formEach_eq : ∀ stmts others : List Stmt,
    SpelledEach Literal.IsPlain stmts → SpelledEach Literal.IsPlain others →
    formEach stmts = formEach others →
      relabelEach (fun _ => 0) (fun _ => 0) stmts = relabelEach (fun _ => 0) (fun _ => 0) others
  | [], [], _, _, _ => rfl
  | first :: rest, first' :: rest', spelled, otherSpelled, same => by
      rw [formEach, formEach, List.cons.injEq] at same
      have sameFirst := bare_eq_of_form_eq first first' spelled.1 otherSpelled.1 same.1
      unfold bare at sameFirst
      rw [relabelEach, relabelEach, sameFirst,
        bareEach_eq_of_formEach_eq rest rest' spelled.2 otherSpelled.2 same.2]
  | [], _ :: _, _, _, same => by
      rw [formEach, formEach] at same
      cases same
  | _ :: _, [], _, _, same => by
      rw [formEach, formEach] at same
      cases same
termination_by structural stmts => stmts

theorem bareFunction_eq_of_form_eq {tag : String} : ∀ declaration other : FunctionDecl,
    FunctionSpelled Literal.IsPlain declaration → FunctionSpelled Literal.IsPlain other →
    functionForm tag declaration = functionForm tag other →
      relabelFunction (fun _ => 0) (fun _ => 0) declaration =
        relabelFunction (fun _ => 0) (fun _ => 0) other
  | ⟨name, params, body⟩, ⟨name', params', body'⟩, spelled, otherSpelled, same => by
      simp only [functionForm, Form.list.injEq, List.cons.injEq, Form.word.injEq,
        true_and] at same
      rw [relabelFunction, relabelFunction, Name.moved_eq same.1, params_moved_eq same.2.1,
        bareEach_eq_of_formEach_eq body body' spelled.2.2 otherSpelled.2.2 same.2.2]
termination_by structural declaration => declaration

theorem bareMethods_eq_of_forms_eq : ∀ methods others : List FunctionDecl,
    MethodsSpelled Literal.IsPlain methods → MethodsSpelled Literal.IsPlain others →
    methodForms methods = methodForms others →
      relabelMethods (fun _ => 0) (fun _ => 0) methods =
        relabelMethods (fun _ => 0) (fun _ => 0) others
  | [], [], _, _, _ => rfl
  | first :: rest, first' :: rest', spelled, otherSpelled, same => by
      rw [methodForms, methodForms, List.cons.injEq] at same
      rw [relabelMethods, relabelMethods,
        bareFunction_eq_of_form_eq first first' spelled.1 otherSpelled.1 same.1,
        bareMethods_eq_of_forms_eq rest rest' spelled.2 otherSpelled.2 same.2]
  | [], _ :: _, _, _, same => by
      rw [methodForms, methodForms] at same
      cases same
  | _ :: _, [], _, _, same => by
      rw [methodForms, methodForms] at same
      cases same
termination_by structural methods => methods

end

/-- The statement was parsed from a source text, and it has no string literal and only finite
number literals. -/
def IsLegible (stmt : Stmt) : Prop :=
  stmt.IsParsed ∧ ∀ literal ∈ stmt.literals, literal.IsPlain

theorem IsLegible.spelled {stmt : Stmt} (legible : stmt.IsLegible) :
    stmt.Spelled Literal.IsPlain :=
  stmt.spelled_of_literals legible.1.spelled legible.2

end Stmt

namespace Expr

/-- The expression was parsed from a source text, and it has no string literal and only
finite number literals. -/
def IsLegible (expr : Expr) : Prop :=
  expr.IsParsed ∧ ∀ literal ∈ expr.literals, literal.IsPlain

theorem IsLegible.spelled {expr : Expr} (legible : expr.IsLegible) :
    expr.Spelled Literal.IsPlain :=
  expr.spelled_of_literals legible.1.spelled legible.2

end Expr

/-- Printing is unambiguous.  If two statements that were parsed from source texts, without
string literals and with finite number literals only, have the same text, they are equal up
to the identities of uses and the lines; and so are two such expressions. -/
theorem text_determines_tree :
    (∀ stmt other : Stmt, stmt.IsLegible → other.IsLegible → stmt.text = other.text →
      stmt.bare = other.bare) ∧
    ∀ expr other : Expr, expr.IsLegible → other.IsLegible → expr.text = other.text →
      expr.bare = other.bare := by
  constructor
  · intro stmt other legible otherLegible same
    have printed := stmt.prints_form legible.spelled
    rw [same] at printed
    have sameForm := printed.unique (other.prints_form otherLegible.spelled)
    exact stmt.bare_eq_of_form_eq other legible.spelled otherLegible.spelled sameForm
  · intro expr other legible otherLegible same
    have printed := expr.prints_form legible.spelled
    rw [same] at printed
    have sameForm := printed.unique (other.prints_form otherLegible.spelled)
    exact expr.bare_eq_of_form_eq other legible.spelled otherLegible.spelled sameForm

namespace Difference

/-- The number two. -/
def two : Float :=
  numberValue ['2'] []

/-- The tokens of `print -a.b(2) - c;` on one line. -/
def tokens (line : Nat) (value : Float) : List Token :=
  [⟨.keyword .print_, "print", line⟩, ⟨.punct .minus, "-", line⟩, ⟨.identifier, "a", line⟩,
    ⟨.punct .dot, ".", line⟩, ⟨.identifier, "b", line⟩, ⟨.punct .leftParen, "(", line⟩,
    ⟨.number value, "2", line⟩, ⟨.punct .rightParen, ")", line⟩, ⟨.punct .minus, "-", line⟩,
    ⟨.identifier, "c", line⟩, ⟨.punct .semicolon, ";", line⟩, Token.endOfInput line]

/-- The expression that is printed. -/
def expr (nextId : UseId) (line : Nat) (value : Float) : Expr :=
  .binary
    (.unary ⟨.punct .minus, "-", line⟩
      (.call (.get (.var nextId ⟨"a", line⟩) ⟨"b", line⟩) line [.literal (.number value)]))
    ⟨.punct .minus, "-", line⟩ (.var (nextId + 1) ⟨"c", line⟩)

theorem tokens_parsed (nextId : UseId) (line : Nat) (value : Float) :
    parseProgram nextId (tokens line value) =
      (.ok [.print (expr nextId line value)], nextId + 2) := by
  cbv

theorem isLegible {source : String} {line : Nat} (scanned : scanTokens source = tokens line two)
    (nextId : UseId) : (Stmt.print (expr nextId line two)).IsLegible := by
  constructor
  · have parsed := tokens_parsed nextId line two
    rw [← scanned] at parsed
    exact .declaration parsed List.mem_cons_self
  · intro literal member
    cases List.mem_singleton.mp member
    change two.isFinite = true
    decide +kernel

theorem expr_isLegible {source : String} {line : Nat}
    (scanned : scanTokens source = tokens line two) (nextId : UseId) :
    (expr nextId line two).IsLegible :=
  have legible := isLegible scanned nextId
  ⟨.statement legible.1 List.mem_cons_self, legible.2⟩

end Difference

/-- A statement parsed twice, from source texts in which it stands on different lines and
with different identities. -/
theorem difference_determined :
    (Stmt.print (Difference.expr 0 1 Difference.two)).text =
        "(print (- (- (call (. a b) 2.0)) c))" ∧
      (Stmt.print (Difference.expr 0 1 Difference.two)).bare =
        (Stmt.print (Difference.expr 7 2 Difference.two)).bare ∧
      (Difference.expr 0 1 Difference.two).bare = (Difference.expr 7 2 Difference.two).bare := by
  have first : scanTokens "print -a.b(2) - c;" = Difference.tokens 1 Difference.two := by
    decide +kernel
  have second : scanTokens "\nprint -a.b(2)-c;" = Difference.tokens 2 Difference.two := by
    decide +kernel
  refine ⟨by decide +kernel, ?_, ?_⟩
  · exact text_determines_tree.1 _ _ (Difference.isLegible first 0)
      (Difference.isLegible second 7) rfl
  · exact text_determines_tree.2 _ _ (Difference.expr_isLegible first 0)
      (Difference.expr_isLegible second 7) rfl

end Lox
