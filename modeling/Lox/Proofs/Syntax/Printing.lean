import Lox.Proofs.Decimal.Texts
import Lox.Proofs.Syntax.Forms
import Lox.Proofs.Syntax.Spelling

/-!
# The text of an expression determines the expression

The prefix form of an expression is the text of a `Form`.  What stands at its root
can be told from the form, so expressions with one text differ at most in identities
and lines.
-/

namespace Lox

/-! ## Words -/

theorem isDelimiter_of_isWordChar {c : Char} (inWord : isWordChar c = true) :
    isDelimiter c = false := by
  rw [← Bool.not_eq_true]
  intro delimits
  simp only [isDelimiter, Bool.or_eq_true, decide_eq_true_eq] at delimits
  rcases delimits with (rfl | rfl) | rfl
  all_goals exact absurd inWord (by decide)

/-- Whether a text starts as a word of the language does. -/
def startsWord (text : String) : Bool :=
  text.toList.head?.any isWordStart

/-- The constant that a word stands for. -/
def Literal.constant? (word : String) : Option Literal :=
  if word = "nil" then some .nil
  else if word = "true" then some (.bool true)
  else if word = "false" then some (.bool false)
  else none

namespace Name.IsSpelled

variable {name : Name}

theorem exists_cons (spelled : name.IsSpelled) :
    ∃ first rest, name.text.toList = first :: rest ∧ isWordStart first = true ∧
      ∀ c ∈ rest, isWordChar c = true := by
  unfold IsSpelled at spelled
  generalize isText : name.text.toList = text at spelled
  cases spelled with
  | name letter inner =>
      refine ⟨_, _, rfl, isWordStart_iff.mpr letter, ?_⟩
      exact fun c member => isWordChar_iff.mpr (inner c member)

theorem unbroken (spelled : name.IsSpelled) : IsUnbroken name.text := by
  rcases spelled.exists_cons with ⟨first, rest, isText, letter, inner⟩
  rw [isUnbroken_iff, isText]
  refine ⟨List.cons_ne_nil _ _, List.forall_mem_cons.mpr ⟨?_, ?_⟩⟩
  · apply isDelimiter_of_isWordChar
    exact isWordChar_iff.mpr (.inl (isWordStart_iff.mp letter))
  · exact fun c member => isDelimiter_of_isWordChar (inner c member)

theorem startsWord (spelled : name.IsSpelled) : startsWord name.text = true := by
  rcases spelled.exists_cons with ⟨first, rest, isText, letter, -⟩
  rw [Lox.startsWord, isText]
  exact letter

theorem ne_keyword (spelled : name.IsSpelled) (word : Keyword) : name.text ≠ word.text := by
  unfold IsSpelled at spelled
  intro reserved
  generalize isText : name.text.toList = text at spelled
  cases spelled with
  | name _ _ notReserved =>
      apply notReserved word
      rw [← isText, String.ofList_toList, reserved]

theorem no_constant (spelled : name.IsSpelled) : Literal.constant? name.text = none := by
  have notNil : name.text ≠ "nil" := spelled.ne_keyword .nil_
  have notTrue : name.text ≠ "true" := spelled.ne_keyword .true_
  have notFalse : name.text ≠ "false" := spelled.ne_keyword .false_
  rw [Literal.constant?, if_neg notNil, if_neg notTrue, if_neg notFalse]

end Name.IsSpelled

namespace Token

theorem IsWritten.lexeme_of_punct {token : Token} (written : token.IsWritten) {mark : Punct}
    (kind : token.kind = .punct mark) : token.lexeme = mark.text := by
  rw [IsWritten, kind] at written
  generalize isText : token.lexeme.toList = text at written
  cases written with
  | mark => exact String.toList_inj.mp isText

theorem IsWritten.lexeme_of_keyword {token : Token} (written : token.IsWritten) {word : Keyword}
    (kind : token.kind = .keyword word) : token.lexeme = word.text := by
  rw [IsWritten, kind] at written
  generalize isText : token.lexeme.toList = text at written
  cases written with
  | keyword => exact String.toList_inj.mp isText

/-- How the operators before an operand are written. -/
def signTexts : List String :=
  ["!", "-"]

/-- How the operators between two operands that are always both evaluated are written. -/
def binaryTexts : List String :=
  ["!=", "==", ">", ">=", "<", "<=", "-", "+", "/", "*"]

/-- How the operators between two operands of which the second may be skipped are written. -/
def connectiveTexts : List String :=
  ["or", "and"]

theorem IsOneOf.mem_signTexts {token : Token} (isSign : token.IsOneOf signs) :
    token.lexeme ∈ signTexts := by
  rcases isSign with ⟨written, member⟩
  simp only [signs, List.mem_cons, List.not_mem_nil, or_false] at member
  rcases member with kind | kind
  all_goals
    rw [written.lexeme_of_punct kind]
    decide

theorem IsOneOf.mem_binaryTexts {token : Token} (isBinary : token.IsOneOf binaries) :
    token.lexeme ∈ binaryTexts := by
  rcases isBinary with ⟨written, member⟩
  simp only [binaries, List.mem_cons, List.not_mem_nil, or_false] at member
  rcases member with kind | kind | kind | kind | kind | kind | kind | kind | kind | kind
  all_goals
    rw [written.lexeme_of_punct kind]
    decide

theorem IsOneOf.mem_connectiveTexts {token : Token} (isConnective : token.IsOneOf connectives) :
    token.lexeme ∈ connectiveTexts := by
  rcases isConnective with ⟨written, member⟩
  simp only [connectives, List.mem_cons, List.not_mem_nil, or_false] at member
  rcases member with kind | kind
  all_goals
    rw [written.lexeme_of_keyword kind]
    decide

theorem unbroken_of_mem {text : String}
    (member : text ∈ signTexts ++ binaryTexts ++ connectiveTexts) : IsUnbroken text := by
  revert text
  decide

/-- The lexeme of a written token determines it up to its line. -/
theorem IsWritten.moved_eq {token other : Token} (written : token.IsWritten)
    (otherWritten : other.IsWritten) (same : token.lexeme = other.lexeme) (line : Nat) :
    token.moved (fun _ => line) = other.moved (fun _ => line) := by
  rw [IsWritten, same] at written
  have sameKind := written.kind_unique otherWritten
  cases token
  cases other
  cases same
  cases sameKind
  rfl

end Token

theorem Name.moved_eq {name other : Name} (same : name.text = other.text) (line : Nat) :
    name.moved (fun _ => line) = other.moved (fun _ => line) := by
  cases name
  cases other
  cases same
  rfl

namespace Literal

/-- A finite number is shown by a word that is neither a name nor a constant. -/
theorem number_text_spec {value : Float} (finite : value.isFinite = true) :
    IsUnbroken (number value).text ∧ startsWord (number value).text = false := by
  rcases render_isNumeral finite with ⟨first, rest, isText, characters⟩
  rw [isUnbroken_iff, startsWord, text, isText]
  refine ⟨⟨List.cons_ne_nil _ _, ?_⟩, ?_⟩
  · intro c member
    rcases characters c member with isDigit | rfl | rfl
    · apply isDelimiter_of_isWordChar
      exact isWordChar_iff.mpr (.inr (isDigit_iff.mp isDigit))
    · rfl
    · rfl
  · rcases characters first List.mem_cons_self with isDigit | rfl | rfl
    · rw [List.head?_cons, Option.any_some, ← Bool.not_eq_true]
      intro letter
      rw [isDigit_of_isWordStart letter] at isDigit
      cases isDigit
    · rfl
    · rfl

theorem startsWord_of_constant {word : String} {literal : Literal}
    (constant : constant? word = some literal) : startsWord word = true := by
  unfold constant? at constant
  split at constant
  · next isNil =>
      rw [isNil]
      decide
  · split at constant
    · next isTrue =>
        rw [isTrue]
        decide
    · split at constant
      · next isFalse =>
          rw [isFalse]
          decide
      · cases constant

/-- A plain literal is a constant, or a finite number, which is not shown as a constant. -/
theorem IsPlain.cases {literal : Literal} (plain : literal.IsPlain) :
    constant? literal.text = some literal ∨
      ∃ value, literal = .number value ∧ value.isFinite = true ∧
        constant? literal.text = none := by
  cases literal with
  | nil => exact .inl rfl
  | bool value =>
      cases value
      all_goals exact .inl rfl
  | string value => exact plain.elim
  | number value =>
      refine .inr ⟨value, rfl, plain, ?_⟩
      rw [Option.eq_none_iff_forall_ne_some]
      intro literal constant
      have notWord := (number_text_spec plain).2
      rw [startsWord_of_constant constant] at notWord
      cases notWord

theorem IsPlain.unbroken {literal : Literal} (plain : literal.IsPlain) :
    IsUnbroken literal.text := by
  cases literal with
  | nil => decide
  | bool value =>
      cases value
      all_goals decide
  | string value => exact plain.elim
  | number value => exact (number_text_spec plain).1

/-- The text of a plain literal determines the literal. -/
theorem IsPlain.eq_of_text_eq {literal other : Literal} (plain : literal.IsPlain)
    (otherPlain : other.IsPlain) (same : literal.text = other.text) : literal = other := by
  rcases plain.cases with constant | ⟨value, rfl, finite, noConstant⟩
  · rcases otherPlain.cases with otherConstant | ⟨value, rfl, finite, noConstant⟩
    · rw [same, otherConstant] at constant
      exact (Option.some.inj constant).symm
    · rw [same, noConstant] at constant
      cases constant
  · rcases otherPlain.cases with otherConstant | ⟨value', rfl, finite', -⟩
    · rw [same, otherConstant] at noConstant
      cases noConstant
    · rw [eq_of_render_eq finite finite' same]

end Literal

/-! ## Forms of expressions -/

namespace Expr

mutual

/-- The form whose text is the prefix form of the expression. -/
def form : Expr → Form
  | .literal value => .word value.text
  | .group inner => .list [.word "group", inner.form]
  | .unary operator operand => .list [.word operator.lexeme, operand.form]
  | .binary left operator right => .list [.word operator.lexeme, left.form, right.form]
  | .logical left operator right => .list [.word operator.lexeme, left.form, right.form]
  | .var _ name => .word name.text
  | .assign _ name value => .list [.word "=", .word name.text, value.form]
  | .call callee _ arguments => .list (.word "call" :: callee.form :: formEach arguments)
  | .get object name => .list [.word ".", object.form, .word name.text]
  | .set object name value =>
      .list [.word "=", .list [.word ".", object.form, .word name.text], value.form]
  | .this _ _ => .word "this"
  | .super _ _ method => .list [.word "super", .word method.text]

/-- The forms of expressions. -/
def formEach : List Expr → List Form
  | [] => []
  | first :: rest => first.form :: formEach rest

end

/-- The form of an optional expression, if there is one. -/
def optionForm : Option Expr → List Form
  | none => []
  | some value => [value.form]

open Form

mutual

/-- The prefix form of a well spelled expression is the text of its form. -/
theorem prints_form : ∀ expr : Expr, expr.Spelled Literal.IsPlain →
    expr.form.Prints expr.text.toList
  | .literal value, spelled => by
      rw [form, text]
      exact prints_word (Literal.IsPlain.unbroken spelled)
  | .group inner, spelled => by
      have printed := (prints_form inner spelled).each_cons printsEach_nil
      simpa [form, text] using prints_list (by decide : IsUnbroken "group") printed
  | .unary operator operand, spelled => by
      have printed := (prints_form operand spelled.2).each_cons printsEach_nil
      have unbroken := Token.unbroken_of_mem (List.mem_append_left _
        (List.mem_append_left _ spelled.1.mem_signTexts))
      simpa [form, text] using prints_list unbroken printed
  | .binary left operator right, spelled => by
      have printed := (prints_form left spelled.2.1).each_cons
        ((prints_form right spelled.2.2).each_cons printsEach_nil)
      have unbroken := Token.unbroken_of_mem (List.mem_append_left _
        (List.mem_append_right _ spelled.1.mem_binaryTexts))
      simpa [form, text] using prints_list unbroken printed
  | .logical left operator right, spelled => by
      have printed := (prints_form left spelled.2.1).each_cons
        ((prints_form right spelled.2.2).each_cons printsEach_nil)
      have unbroken := Token.unbroken_of_mem (List.mem_append_right _
        spelled.1.mem_connectiveTexts)
      simpa [form, text] using prints_list unbroken printed
  | .var _ name, spelled => by
      rw [form, text]
      exact prints_word (Name.IsSpelled.unbroken spelled)
  | .assign _ name value, spelled => by
      have printed := (prints_word spelled.1.unbroken).each_cons
        ((prints_form value spelled.2).each_cons printsEach_nil)
      simpa [form, text] using prints_list (by decide : IsUnbroken "=") printed
  | .call callee _ arguments, spelled => by
      have printed := (prints_form callee spelled.1).each_cons
        (prints_formEach arguments spelled.2)
      simpa [form, text] using prints_list (by decide : IsUnbroken "call") printed
  | .get object name, spelled => by
      have printed := (prints_form object spelled.2).each_cons
        ((prints_word spelled.1.unbroken).each_cons printsEach_nil)
      simpa [form, text] using prints_list (by decide : IsUnbroken ".") printed
  | .set object name value, spelled => by
      have property := prints_list (by decide : IsUnbroken ".")
        ((prints_form object spelled.2.1).each_cons
          ((prints_word spelled.1.unbroken).each_cons printsEach_nil))
      have printed := property.each_cons
        ((prints_form value spelled.2.2).each_cons printsEach_nil)
      simpa [form, text] using prints_list (by decide : IsUnbroken "=") printed
  | .this _ _, _ => by
      rw [form, text]
      exact prints_word (by decide)
  | .super _ _ method, spelled => by
      have printed := (prints_word (Name.IsSpelled.unbroken spelled)).each_cons printsEach_nil
      simpa [form, text] using prints_list (by decide : IsUnbroken "super") printed

theorem prints_formEach : ∀ exprs : List Expr, SpelledEach Literal.IsPlain exprs →
    PrintsEach (formEach exprs) (textEach exprs).toList
  | [], _ => by
      rw [formEach, textEach]
      exact printsEach_nil
  | first :: rest, spelled => by
      have printed := (prints_form first spelled.1).each_cons (prints_formEach rest spelled.2)
      simpa [formEach, textEach] using printed

end

theorem prints_optionForm {expr : Option Expr} (spelled : OptionSpelled Literal.IsPlain expr) :
    PrintsEach (optionForm expr) (optionText expr).toList := by
  cases expr with
  | none => exact printsEach_nil
  | some value =>
      have printed := (prints_form value (spelled value rfl)).each_cons printsEach_nil
      simpa [optionForm, optionText] using printed

/-! ## The root of an expression -/

/-- What stands at the root of an expression, over the forms of its parts. -/
inductive Layer where
  | literal (text : String)
  | group (inner : Form)
  | unary (operator : String) (operand : Form)
  | binary (operator : String) (left right : Form)
  | logical (operator : String) (left right : Form)
  | var (name : String)
  | assign (name : String) (value : Form)
  | call (callee : Form) (arguments : List Form)
  | get (object name : Form)
  | set (object name value : Form)
  | this
  | super (method : Form)
  | other

/-- The root of an expression. -/
def layer : Expr → Layer
  | .literal value => .literal value.text
  | .group inner => .group inner.form
  | .unary operator operand => .unary operator.lexeme operand.form
  | .binary left operator right => .binary operator.lexeme left.form right.form
  | .logical left operator right => .logical operator.lexeme left.form right.form
  | .var _ name => .var name.text
  | .assign _ name value => .assign name.text value.form
  | .call callee _ arguments => .call callee.form (formEach arguments)
  | .get object name => .get object.form (.word name.text)
  | .set object name value => .set object.form (.word name.text) value.form
  | .this _ _ => .this
  | .super _ _ method => .super (.word method.text)

/-- The root of an expression that is one word. -/
def layerOfWord (text : String) : Layer :=
  if text = "this" then .this
  else if startsWord text = true ∧ Literal.constant? text = none then .var text
  else .literal text

/-- The root of an expression that has one part behind its head. -/
def layerOfOne (head : String) (part : Form) : Layer :=
  if head = "group" then .group part
  else if head = "call" then .call part []
  else if head = "super" then .super part
  else .unary head part

/-- The root of an assignment. -/
def layerOfAssignment (target value : Form) : Layer :=
  match target with
  | .word name => .assign name value
  | .list [_, object, name] => .set object name value
  | _ => .other

/-- The root of an expression that has two parts behind its head. -/
def layerOfTwo (head : String) (first second : Form) : Layer :=
  if head = "call" then .call first [second]
  else if head = "." then .get first second
  else if head = "=" then layerOfAssignment first second
  else if head ∈ Token.connectiveTexts then .logical head first second
  else .binary head first second

/-- The root of an expression, read off its form. -/
def layerOf : Form → Layer
  | .word text => layerOfWord text
  | .list [.word head, part] => layerOfOne head part
  | .list [.word head, first, second] => layerOfTwo head first second
  | .list (_ :: callee :: arguments) => .call callee arguments
  | _ => .other

theorem layerOf_call (callee : Form) (arguments : List Form) :
    layerOf (.list (.word "call" :: callee :: arguments)) = .call callee arguments := by
  match arguments with
  | [] => rfl
  | [_] => rfl
  | _ :: _ :: _ => rfl

theorem layerOfOne_sign {head : String} (member : head ∈ Token.signTexts) (part : Form) :
    layerOfOne head part = .unary head part := by
  have different : ∀ text ∈ Token.signTexts, text ≠ "group" ∧ text ≠ "call" ∧ text ≠ "super" := by
    decide
  rcases different head member with ⟨notGroup, notCall, notSuper⟩
  rw [layerOfOne, if_neg notGroup, if_neg notCall, if_neg notSuper]

theorem layerOfTwo_binary {head : String} (member : head ∈ Token.binaryTexts)
    (first second : Form) : layerOfTwo head first second = .binary head first second := by
  have different : ∀ text ∈ Token.binaryTexts,
      text ≠ "call" ∧ text ≠ "." ∧ text ≠ "=" ∧ text ∉ Token.connectiveTexts := by
    decide
  rcases different head member with ⟨notCall, notGet, notAssign, notLogical⟩
  rw [layerOfTwo, if_neg notCall, if_neg notGet, if_neg notAssign, if_neg notLogical]

theorem layerOfTwo_connective {head : String} (member : head ∈ Token.connectiveTexts)
    (first second : Form) : layerOfTwo head first second = .logical head first second := by
  have different : ∀ text ∈ Token.connectiveTexts, text ≠ "call" ∧ text ≠ "." ∧ text ≠ "=" := by
    decide
  rcases different head member with ⟨notCall, notGet, notAssign⟩
  rw [layerOfTwo, if_neg notCall, if_neg notGet, if_neg notAssign, if_pos member]

theorem layerOfWord_name {name : Name} (spelled : name.IsSpelled) :
    layerOfWord name.text = .var name.text := by
  have notThis : name.text ≠ "this" := spelled.ne_keyword .this_
  rw [layerOfWord, if_neg notThis, if_pos ⟨spelled.startsWord, spelled.no_constant⟩]

theorem layerOfWord_literal {literal : Literal} (plain : literal.IsPlain) :
    layerOfWord literal.text = .literal literal.text := by
  have isLiteral : ¬(startsWord literal.text = true ∧ Literal.constant? literal.text = none) := by
    rintro ⟨isWord, noConstant⟩
    rcases plain.cases with constant | ⟨value, rfl, finite, -⟩
    · rw [noConstant] at constant
      cases constant
    · rw [(Literal.number_text_spec finite).2] at isWord
      cases isWord
  have notThis : literal.text ≠ "this" := by
    intro isThis
    apply isLiteral
    rw [isThis]
    decide
  rw [layerOfWord, if_neg notThis, if_neg isLiteral]

/-- The root of a well spelled expression can be read off its form. -/
theorem layerOf_form {expr : Expr} (spelled : expr.Spelled Literal.IsPlain) :
    layerOf expr.form = expr.layer := by
  cases expr with
  | literal value =>
      rw [form, layerOf, layer]
      exact layerOfWord_literal spelled
  | unary operator operand =>
      rw [form, layerOf, layer]
      exact layerOfOne_sign spelled.1.mem_signTexts _
  | binary left operator right =>
      rw [form, layerOf, layer]
      exact layerOfTwo_binary spelled.1.mem_binaryTexts _ _
  | logical left operator right =>
      rw [form, layerOf, layer]
      exact layerOfTwo_connective spelled.1.mem_connectiveTexts _ _
  | var id name =>
      rw [form, layerOf, layer]
      exact layerOfWord_name spelled
  | call callee line arguments =>
      rw [form, layer]
      exact layerOf_call _ _
  | _ =>
      rw [form]
      rfl

/-! ## Expressions with one form -/

/-- The expression without identities and lines. -/
def bare (expr : Expr) : Expr :=
  expr.relabel (fun _ => 0) fun _ => 0

theorem layer_eq {expr other : Expr} (spelled : expr.Spelled Literal.IsPlain)
    (otherSpelled : other.Spelled Literal.IsPlain) (same : expr.form = other.form) :
    expr.layer = other.layer := by
  rw [← layerOf_form spelled, ← layerOf_form otherSpelled, same]

mutual

/-- Well spelled expressions with one form differ at most in identities and lines. -/
theorem bare_eq_of_form_eq : ∀ (expr other : Expr), expr.Spelled Literal.IsPlain →
    other.Spelled Literal.IsPlain → expr.form = other.form → expr.bare = other.bare
  | .literal value, other, spelled, otherSpelled, same => by
      have sameLayer := layer_eq spelled otherSpelled same
      cases other with
      | literal value' =>
          rw [layer, layer, Layer.literal.injEq] at sameLayer
          rw [Literal.IsPlain.eq_of_text_eq spelled otherSpelled sameLayer]
      | _ => cases sameLayer
  | .group inner, other, spelled, otherSpelled, same => by
      have sameLayer := layer_eq spelled otherSpelled same
      cases other with
      | group inner' =>
          rw [layer, layer, Layer.group.injEq] at sameLayer
          have sameInner := bare_eq_of_form_eq inner inner' spelled otherSpelled sameLayer
          unfold bare at sameInner ⊢
          rw [relabel, relabel, sameInner]
      | _ => cases sameLayer
  | .unary operator operand, other, spelled, otherSpelled, same => by
      have sameLayer := layer_eq spelled otherSpelled same
      cases other with
      | unary operator' operand' =>
          rw [layer, layer, Layer.unary.injEq] at sameLayer
          have sameOperand :=
            bare_eq_of_form_eq operand operand' spelled.2 otherSpelled.2 sameLayer.2
          unfold bare at sameOperand ⊢
          rw [relabel, relabel, sameOperand, spelled.1.1.moved_eq otherSpelled.1.1 sameLayer.1]
      | _ => cases sameLayer
  | .binary left operator right, other, spelled, otherSpelled, same => by
      have sameLayer := layer_eq spelled otherSpelled same
      cases other with
      | binary left' operator' right' =>
          rw [layer, layer, Layer.binary.injEq] at sameLayer
          have sameLeft :=
            bare_eq_of_form_eq left left' spelled.2.1 otherSpelled.2.1 sameLayer.2.1
          have sameRight :=
            bare_eq_of_form_eq right right' spelled.2.2 otherSpelled.2.2 sameLayer.2.2
          unfold bare at sameLeft sameRight ⊢
          rw [relabel, relabel, sameLeft, sameRight,
            spelled.1.1.moved_eq otherSpelled.1.1 sameLayer.1]
      | _ => cases sameLayer
  | .logical left operator right, other, spelled, otherSpelled, same => by
      have sameLayer := layer_eq spelled otherSpelled same
      cases other with
      | logical left' operator' right' =>
          rw [layer, layer, Layer.logical.injEq] at sameLayer
          have sameLeft :=
            bare_eq_of_form_eq left left' spelled.2.1 otherSpelled.2.1 sameLayer.2.1
          have sameRight :=
            bare_eq_of_form_eq right right' spelled.2.2 otherSpelled.2.2 sameLayer.2.2
          unfold bare at sameLeft sameRight ⊢
          rw [relabel, relabel, sameLeft, sameRight,
            spelled.1.1.moved_eq otherSpelled.1.1 sameLayer.1]
      | _ => cases sameLayer
  | .var _ name, other, spelled, otherSpelled, same => by
      have sameLayer := layer_eq spelled otherSpelled same
      cases other with
      | var id' name' =>
          rw [layer, layer, Layer.var.injEq] at sameLayer
          rw [bare, bare, relabel, relabel, Name.moved_eq sameLayer]
      | _ => cases sameLayer
  | .assign _ name value, other, spelled, otherSpelled, same => by
      have sameLayer := layer_eq spelled otherSpelled same
      cases other with
      | assign id' name' value' =>
          rw [layer, layer, Layer.assign.injEq] at sameLayer
          have sameValue := bare_eq_of_form_eq value value' spelled.2 otherSpelled.2 sameLayer.2
          unfold bare at sameValue ⊢
          rw [relabel, relabel, sameValue, Name.moved_eq sameLayer.1]
      | _ => cases sameLayer
  | .call callee _ arguments, other, spelled, otherSpelled, same => by
      have sameLayer := layer_eq spelled otherSpelled same
      cases other with
      | call callee' line' arguments' =>
          rw [layer, layer, Layer.call.injEq] at sameLayer
          have sameCallee :=
            bare_eq_of_form_eq callee callee' spelled.1 otherSpelled.1 sameLayer.1
          have sameArguments :=
            bareEach_eq_of_formEach_eq arguments arguments' spelled.2 otherSpelled.2 sameLayer.2
          unfold bare at sameCallee ⊢
          rw [relabel, relabel, sameCallee, sameArguments]
      | _ => cases sameLayer
  | .get object name, other, spelled, otherSpelled, same => by
      have sameLayer := layer_eq spelled otherSpelled same
      cases other with
      | get object' name' =>
          rw [layer, layer, Layer.get.injEq, Form.word.injEq] at sameLayer
          have sameObject :=
            bare_eq_of_form_eq object object' spelled.2 otherSpelled.2 sameLayer.1
          unfold bare at sameObject ⊢
          rw [relabel, relabel, sameObject, Name.moved_eq sameLayer.2]
      | _ => cases sameLayer
  | .set object name value, other, spelled, otherSpelled, same => by
      have sameLayer := layer_eq spelled otherSpelled same
      cases other with
      | set object' name' value' =>
          rw [layer, layer, Layer.set.injEq, Form.word.injEq] at sameLayer
          have sameObject :=
            bare_eq_of_form_eq object object' spelled.2.1 otherSpelled.2.1 sameLayer.1
          have sameValue :=
            bare_eq_of_form_eq value value' spelled.2.2 otherSpelled.2.2 sameLayer.2.2
          unfold bare at sameObject sameValue ⊢
          rw [relabel, relabel, sameObject, sameValue, Name.moved_eq sameLayer.2.1]
      | _ => cases sameLayer
  | .this _ _, other, spelled, otherSpelled, same => by
      have sameLayer := layer_eq spelled otherSpelled same
      cases other with
      | this id' line' => rw [bare, bare, relabel, relabel]
      | _ => cases sameLayer
  | .super _ _ method, other, spelled, otherSpelled, same => by
      have sameLayer := layer_eq spelled otherSpelled same
      cases other with
      | super id' line' method' =>
          rw [layer, layer, Layer.super.injEq, Form.word.injEq] at sameLayer
          rw [bare, bare, relabel, relabel, Name.moved_eq sameLayer]
      | _ => cases sameLayer

theorem bareEach_eq_of_formEach_eq : ∀ exprs others : List Expr,
    SpelledEach Literal.IsPlain exprs → SpelledEach Literal.IsPlain others →
    formEach exprs = formEach others →
      relabelEach (fun _ => 0) (fun _ => 0) exprs = relabelEach (fun _ => 0) (fun _ => 0) others
  | [], [], _, _, _ => rfl
  | first :: rest, first' :: rest', spelled, otherSpelled, same => by
      rw [formEach, formEach, List.cons.injEq] at same
      have sameFirst := bare_eq_of_form_eq first first' spelled.1 otherSpelled.1 same.1
      unfold bare at sameFirst
      rw [relabelEach, relabelEach, sameFirst,
        bareEach_eq_of_formEach_eq rest rest' spelled.2 otherSpelled.2 same.2]
  | [], _ :: _, _, _, same => by
      rw [formEach, formEach] at same
      cases same
  | _ :: _, [], _, _, same => by
      rw [formEach, formEach] at same
      cases same

end

theorem optionBare_eq_of_form_eq {expr other : Option Expr}
    (spelled : OptionSpelled Literal.IsPlain expr)
    (otherSpelled : OptionSpelled Literal.IsPlain other)
    (same : optionForm expr = optionForm other) :
    expr.map (·.relabel (fun _ => 0) fun _ => 0) =
      other.map (·.relabel (fun _ => 0) fun _ => 0) := by
  cases expr with
  | none =>
      cases other with
      | none => rfl
      | some value' => cases same
  | some value =>
      cases other with
      | none => cases same
      | some value' =>
          rw [optionForm, optionForm, List.cons.injEq] at same
          exact congrArg some (bare_eq_of_form_eq value value' (spelled value rfl)
            (otherSpelled value' rfl) same.1)

end Expr

end Lox
