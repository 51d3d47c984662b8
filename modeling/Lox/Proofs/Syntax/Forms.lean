import Mathlib.Data.List.Basic
import Lox.Syntax.Text

/-!
# Reading prefix forms

A text in prefix form is made of words and parentheses, with spaces where two words
would run together.  Cut into these pieces it can be read back in one way only: as one
word, or as a list of forms in parentheses.
-/

namespace Lox

/-! ## Pieces -/

/-- What a text in prefix form is made of. -/
inductive TextPiece where
  | opening
  | closing
  | word (text : List Char)

/-- A space or a parenthesis. -/
def isDelimiter (c : Char) : Bool :=
  c = ' ' || c = '(' || c = ')'

/-- Whether a text is not empty and has no spaces and parentheses. -/
def isUnbroken (text : String) : Bool :=
  !text.toList.isEmpty && text.toList.all fun c => !isDelimiter c

/-- The text is not empty and has no spaces and parentheses. -/
abbrev IsUnbroken (text : String) : Prop :=
  isUnbroken text = true

theorem isUnbroken_iff {text : String} :
    IsUnbroken text ↔ text.toList ≠ [] ∧ ∀ c ∈ text.toList, isDelimiter c = false := by
  simp [IsUnbroken, isUnbroken]

/-- Nothing, or a text that starts with a space or a parenthesis. -/
def Delimited (text : List Char) : Prop :=
  ∀ c ∈ text.head?, isDelimiter c = true

/-- A word, unless it is empty. -/
def wordPiece (text : List Char) : List TextPiece :=
  if text.isEmpty then [] else [.word text]

/-- The pieces of a text behind the beginning of a word. -/
def cut (word : List Char) : List Char → List TextPiece
  | [] => wordPiece word
  | c :: rest =>
      if c = ' ' then wordPiece word ++ cut [] rest
      else if c = '(' then wordPiece word ++ .opening :: cut [] rest
      else if c = ')' then wordPiece word ++ .closing :: cut [] rest
      else cut (word ++ [c]) rest

theorem Delimited.append {text rest : List Char} (delimited : Delimited text)
    (restDelimited : Delimited rest) : Delimited (text ++ rest) := by
  cases text with
  | nil => exact restDelimited
  | cons c later => exact delimited

theorem cut_unbroken {text : List Char} (unbroken : ∀ c ∈ text, isDelimiter c = false)
    (word rest : List Char) : cut word (text ++ rest) = cut (word ++ text) rest := by
  induction text generalizing word with
  | nil => rw [List.nil_append, List.append_nil]
  | cons c later inductionHypothesis =>
      have inside := unbroken c List.mem_cons_self
      simp only [isDelimiter, Bool.or_eq_false_iff, decide_eq_false_iff_not] at inside
      rw [List.cons_append, cut, if_neg inside.1.1, if_neg inside.1.2, if_neg inside.2,
        inductionHypothesis fun other member => unbroken other (List.mem_cons_of_mem _ member),
        List.append_assoc, List.singleton_append]

theorem cut_delimited {word rest : List Char} (nonempty : word ≠ []) (delimited : Delimited rest) :
    cut word rest = .word word :: cut [] rest := by
  have isPiece : wordPiece word = [.word word] := by simp [wordPiece, nonempty]
  have noPiece : wordPiece [] = [] := rfl
  cases rest with
  | nil =>
      rw [cut, cut, isPiece, noPiece]
  | cons c later =>
      have ends := delimited c rfl
      simp only [isDelimiter, Bool.or_eq_true, decide_eq_true_eq] at ends
      rw [cut, cut, isPiece, noPiece]
      rcases ends with (rfl | rfl) | rfl
      all_goals rfl

/-- The text has the given pieces, whatever follows behind a space or a parenthesis. -/
def Cuts (text : List Char) (pieces : List TextPiece) : Prop :=
  ∀ rest, Delimited rest → cut [] (text ++ rest) = pieces ++ cut [] rest

namespace Cuts

theorem nil : Cuts [] [] :=
  fun _ _ => rfl

theorem word {text : String} (unbroken : IsUnbroken text) :
    Cuts text.toList [.word text.toList] := by
  intro rest delimited
  rcases isUnbroken_iff.mp unbroken with ⟨nonempty, inside⟩
  rw [cut_unbroken inside, List.nil_append, cut_delimited nonempty delimited]
  rfl

theorem space {text : List Char} {pieces : List TextPiece} (cuts : Cuts text pieces) :
    Cuts (' ' :: text) pieces := by
  intro rest delimited
  exact cuts rest delimited

theorem append {text more : List Char} {pieces others : List TextPiece} (cuts : Cuts text pieces)
    (cutsMore : Cuts more others) (delimited : Delimited more) :
    Cuts (text ++ more) (pieces ++ others) := by
  intro rest restDelimited
  rw [List.append_assoc, cuts _ (delimited.append restDelimited), cutsMore rest restDelimited,
    List.append_assoc]

theorem parentheses {text : List Char} {pieces : List TextPiece} (cuts : Cuts text pieces) :
    Cuts ('(' :: (text ++ [')'])) (.opening :: (pieces ++ [.closing])) := by
  intro rest _
  have closed : Delimited (')' :: rest) := by
    rintro c ⟨⟩
    rfl
  have inner := cuts (')' :: rest) closed
  have outer : cut [] ('(' :: (text ++ ')' :: rest)) = .opening :: cut [] (text ++ ')' :: rest) :=
    rfl
  rw [List.cons_append, List.append_assoc, List.singleton_append, outer, inner]
  simp only [List.cons_append, List.append_assoc, List.nil_append]
  rfl

/-- The pieces of a whole text are determined by it. -/
theorem unique {text : List Char} {pieces others : List TextPiece} (cuts : Cuts text pieces)
    (cutsToo : Cuts text others) : pieces = others := by
  have first := cuts [] nofun
  rw [cutsToo [] nofun] at first
  exact (List.append_cancel_right first).symm

end Cuts

/-! ## Forms -/

/-- What a text in prefix form stands for: a word, or forms in parentheses. -/
inductive Form where
  | word (text : String)
  | list (parts : List Form)

namespace Form

mutual

/-- The pieces of a form. -/
def pieces : Form → List TextPiece
  | .word text => [.word text.toList]
  | .list parts => .opening :: (piecesEach parts ++ [.closing])

/-- The pieces of forms, one after another. -/
def piecesEach : List Form → List TextPiece
  | [] => []
  | first :: rest => first.pieces ++ piecesEach rest

end

/-- No form starts with a closing parenthesis. -/
theorem pieces_ne_closing (form : Form) (rest later : List TextPiece) :
    form.pieces ++ rest ≠ .closing :: later := by
  cases form with
  | word text =>
      rw [pieces]
      nofun
  | list parts =>
      rw [pieces]
      nofun

mutual

/-- A form at the front of pieces is determined by them, and so is what follows it. -/
theorem pieces_append_inj : ∀ (form other : Form) {rest later : List TextPiece},
    form.pieces ++ rest = other.pieces ++ later → form = other ∧ rest = later
  | .word text, .word other, rest, later, same => by
      simp only [pieces, List.singleton_append, List.cons.injEq, TextPiece.word.injEq,
        String.toList_inj] at same
      exact ⟨congrArg _ same.1, same.2⟩
  | .list parts, .list others, rest, later, same => by
      simp only [pieces, List.cons_append, List.append_assoc, List.cons.injEq, true_and,
        List.nil_append] at same
      rcases piecesEach_append_inj parts others same with ⟨rfl, sameRest⟩
      exact ⟨rfl, sameRest⟩
  | .word _, .list _, _, _, same => by
      simp [pieces] at same
  | .list _, .word _, _, _, same => by
      simp [pieces] at same

theorem piecesEach_append_inj : ∀ (forms others : List Form) {rest later : List TextPiece},
    piecesEach forms ++ .closing :: rest = piecesEach others ++ .closing :: later →
      forms = others ∧ rest = later
  | [], [], _, _, same => by
      rw [piecesEach] at same
      exact ⟨rfl, (List.cons.inj same).2⟩
  | form :: forms, other :: others, rest, later, same => by
      rw [piecesEach, piecesEach, List.append_assoc, List.append_assoc] at same
      rcases pieces_append_inj form other same with ⟨rfl, sameRest⟩
      rcases piecesEach_append_inj forms others sameRest with ⟨rfl, sameEnd⟩
      exact ⟨rfl, sameEnd⟩
  | [], other :: others, rest, later, same => by
      rw [piecesEach, piecesEach, List.append_assoc] at same
      exact absurd same.symm (other.pieces_ne_closing _ _)
  | form :: forms, [], rest, later, same => by
      rw [piecesEach, piecesEach, List.append_assoc] at same
      exact absurd same (form.pieces_ne_closing _ _)

end

/-! ## Texts of forms -/

/-- The text is one of the form. -/
def Prints (form : Form) (text : List Char) : Prop :=
  Cuts text form.pieces

/-- The text is one of the forms, one after another, and no word runs into what stands
before it. -/
def PrintsEach (forms : List Form) (text : List Char) : Prop :=
  Cuts text (piecesEach forms) ∧ Delimited text

/-- A text is one of at most one form. -/
theorem Prints.unique {form other : Form} {text : List Char} (prints : form.Prints text)
    (printsToo : other.Prints text) : form = other := by
  have same := Cuts.unique prints printsToo
  rw [← form.pieces.append_nil, ← other.pieces.append_nil] at same
  exact (pieces_append_inj form other same).1

theorem prints_word {text : String} (unbroken : IsUnbroken text) :
    (word text).Prints text.toList := by
  rw [Prints, pieces]
  exact Cuts.word unbroken

theorem printsEach_nil : PrintsEach [] [] := by
  rw [PrintsEach, piecesEach]
  exact ⟨Cuts.nil, nofun⟩

theorem Prints.each_cons {form : Form} {forms : List Form} {text more : List Char}
    (prints : form.Prints text) (printsMore : PrintsEach forms more) :
    PrintsEach (form :: forms) (' ' :: (text ++ more)) := by
  rw [PrintsEach, piecesEach]
  refine ⟨(Cuts.append prints printsMore.1 printsMore.2).space, ?_⟩
  rintro c ⟨⟩
  rfl

theorem prints_list {head : String} {forms : List Form} {text : List Char}
    (unbroken : IsUnbroken head) (prints : PrintsEach forms text) :
    (list (word head :: forms)).Prints ('(' :: (head.toList ++ text ++ [')'])) := by
  rw [Prints, pieces, piecesEach]
  exact (Cuts.append (prints_word unbroken) prints.1 prints.2).parentheses

/-- Words in parentheses may follow a word without a space. -/
theorem printsEach_words_cons {words : List String} {forms : List Form} {more : List Char}
    (unbroken : ∀ text ∈ words, IsUnbroken text) (printsMore : PrintsEach forms more) :
    PrintsEach (list (words.map word) :: forms)
      ('(' :: ((" ".intercalate words).toList ++ [')']) ++ more) := by
  have inner : Cuts (" ".intercalate words).toList (piecesEach (words.map word)) := by
    rw [String.toList_intercalate]
    induction words with
    | nil =>
        rw [List.map_nil, List.map_nil, piecesEach]
        exact Cuts.nil
    | cons first rest inductionHypothesis =>
        have firstPrints := prints_word (unbroken first List.mem_cons_self)
        have restCuts := inductionHypothesis fun text member =>
          unbroken text (List.mem_cons_of_mem _ member)
        rw [List.map_cons, List.map_cons, piecesEach]
        cases rest with
        | nil =>
            rw [List.map_nil, List.map_nil, piecesEach, List.append_nil,
              List.intercalate_singleton]
            exact firstPrints
        | cons second later =>
            simp only [List.map_cons] at restCuts ⊢
            rw [List.intercalate_cons_cons, List.append_assoc]
            apply Cuts.append firstPrints restCuts.space
            rintro c ⟨⟩
            rfl
  have listed : (list (words.map word)).Prints
      ('(' :: ((" ".intercalate words).toList ++ [')'])) := by
    rw [Prints, pieces]
    exact inner.parentheses
  rw [PrintsEach, piecesEach]
  refine ⟨Cuts.append listed printsMore.1 printsMore.2, ?_⟩
  rintro c ⟨⟩
  rfl

end Form

end Lox
