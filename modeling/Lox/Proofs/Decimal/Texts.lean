import Mathlib.Data.Nat.Cast.Field
import Lox.Decimal.Format
import Lox.Proofs.Decimal.Rounding
import Lox.Scan.Span

/-!
# Texts of number literals

The text of a finite literal is a point between digits, behind a minus sign if it is
negative.  The number that is written rounds to the literal, so the text determines it.
-/

namespace Lox

/-- The text writes the number with digits on both sides of one point. -/
def WritesNumber (text : List Char) (number : ℚ) : Prop :=
  ∃ whole fraction : List Char, text = whole ++ '.' :: fraction ∧
    whole ≠ [] ∧ fraction ≠ [] ∧ (∀ c ∈ whole ++ fraction, c.isDigit = true) ∧
    (digitsValue (whole ++ fraction) : ℚ) = number * 10 ^ fraction.length

theorem WritesNumber.unique {text : List Char} {number other : ℚ}
    (writes : WritesNumber text number) (writesOther : WritesNumber text other) :
    number = other := by
  rcases writes with ⟨whole, fraction, rfl, -, -, digits, value⟩
  rcases writesOther with ⟨whole', fraction', same, -, -, digits', value'⟩
  have before : ∀ c ∈ whole, c.isDigit = true := fun c member =>
    digits c (List.mem_append_left _ member)
  have before' : ∀ c ∈ whole', c.isDigit = true := fun c member =>
    digits' c (List.mem_append_left _ member)
  have point : Char.isDigit '.' ≠ true := by decide
  have sameWhole := congrArg (List.takeWhile Char.isDigit) same
  rw [List.takeWhile_append_of_pos before, List.takeWhile_append_of_pos before',
    List.takeWhile_cons_of_neg point, List.takeWhile_cons_of_neg point, List.append_nil,
    List.append_nil] at sameWhole
  subst sameWhole
  cases List.append_cancel_left same
  rw [value] at value'
  exact mul_right_cancel₀ (by positivity) value'

/-- A text that writes a number starts with a digit. -/
theorem WritesNumber.exists_cons {text : List Char} {number : ℚ}
    (writes : WritesNumber text number) :
    ∃ first rest, text = first :: rest ∧ first.isDigit = true := by
  rcases writes with ⟨whole, fraction, rfl, nonempty, -, digits, -⟩
  rcases List.exists_cons_of_ne_nil nonempty with ⟨first, rest, rfl⟩
  exact ⟨first, _, rfl, digits first (by simp)⟩

theorem WritesNumber.isDigit_or_point {text : List Char} {number : ℚ}
    (writes : WritesNumber text number) {c : Char} (member : c ∈ text) :
    c.isDigit = true ∨ c = '.' := by
  rcases writes with ⟨whole, fraction, rfl, -, -, digits, -⟩
  rcases List.mem_append.mp member with before | behind
  · exact .inl (digits c (List.mem_append_left _ before))
  · rcases List.mem_cons.mp behind with isPoint | after
    · exact .inr isPoint
    · exact .inl (digits c (List.mem_append_right _ after))

/-! ## The value of digits -/

theorem digitsValue_eq (digits : List Char) : digitsValue digits = Nat.ofDigitChars 10 digits 0 :=
  Nat.ofDigitChars_eq_foldl.symm

theorem digitsValue_append_zeros (digits : List Char) (count : Nat) :
    digitsValue (digits ++ List.replicate count '0') = digitsValue digits * 10 ^ count := by
  rw [digitsValue_eq, digitsValue_eq, Nat.ofDigitChars_append, Nat.ofDigitChars_replicate_zero,
    Nat.mul_comm]

theorem digitsValue_zeros_append (digits : List Char) (count : Nat) :
    digitsValue (List.replicate count '0' ++ digits) = digitsValue digits := by
  rw [digitsValue_eq, digitsValue_eq, Nat.ofDigitChars_append, Nat.ofDigitChars_replicate_zero,
    Nat.mul_zero]

theorem isDigit_of_mem_zeros {count : Nat} {c : Char} (member : c ∈ List.replicate count '0') :
    c.isDigit = true := by
  rw [List.eq_of_mem_replicate member]
  rfl

namespace Decimal

theorem digitsValue_digits (d : Decimal) : digitsValue d.digits = d.significand := by
  rw [digitsValue_eq, digits, Nat.ofDigitChars_ten_toDigits]

theorem isDigit_of_mem_digits {d : Decimal} {c : Char} (member : c ∈ d.digits) :
    c.isDigit = true :=
  Nat.isDigit_of_mem_toDigits (by decide) (by decide) member

theorem digits_ne_nil (d : Decimal) : d.digits ≠ [] :=
  Nat.toDigits_ne_nil

end Decimal

/-- Digits before `.0` write a whole number. -/
theorem writesNumber_whole {digits : List Char} (nonempty : digits ≠ [])
    (allDigits : ∀ c ∈ digits, c.isDigit = true) :
    WritesNumber (digits ++ ['.', '0']) (digitsValue digits) := by
  refine ⟨digits, ['0'], rfl, nonempty, List.cons_ne_nil _ _, ?_, ?_⟩
  · intro c member
    rcases List.mem_append.mp member with inDigits | isZero
    · exact allDigits c inDigits
    · cases List.mem_singleton.mp isZero
      rfl
  · have shifted := digitsValue_append_zeros digits 1
    rw [List.replicate_one] at shifted
    rw [shifted, List.length_singleton]
    push_cast
    ring

/-- Positional notation writes the value of the decimal. -/
theorem Decimal.writesNumber_positional (d : Decimal) :
    WritesNumber (d.positional ".0").toList d.value := by
  have significand := d.digitsValue_digits
  unfold positional
  dsimp only
  by_cases isWhole : (-d.exponent).toNat = 0
  · rw [if_pos isWhole]
    have scaled : d.value =
        (digitsValue (d.digits ++ List.replicate d.exponent.toNat '0') : ℚ) := by
      have exponent : d.exponent = (d.exponent.toNat : Int) := by omega
      rw [digitsValue_append_zeros, significand, value]
      push_cast
      rw [exponent, zpow_natCast, Int.toNat_natCast]
    rw [String.toList_append, String.toList_ofList, scaled]
    apply writesNumber_whole
    · exact List.append_ne_nil_of_left_ne_nil d.digits_ne_nil _
    · intro c member
      exact (List.mem_append.mp member).elim isDigit_of_mem_digits isDigit_of_mem_zeros
  · have exponent : d.exponent = -((-d.exponent).toNat : Int) := by omega
    have scaled : d.value * 10 ^ (-d.exponent).toNat = d.significand := by
      rw [value, exponent, zpow_neg, zpow_natCast, neg_neg, Int.toNat_natCast]
      field_simp
    rw [if_neg isWhole]
    by_cases inside : (-d.exponent).toNat < d.digits.length
    · rw [if_pos inside]
      refine ⟨d.digits.take (d.digits.length - (-d.exponent).toNat),
        d.digits.drop (d.digits.length - (-d.exponent).toNat), by simp, ?_, ?_, ?_, ?_⟩
      · rw [← List.length_pos_iff, List.length_take]
        omega
      · rw [← List.length_pos_iff, List.length_drop]
        omega
      · rw [List.take_append_drop]
        exact fun c => isDigit_of_mem_digits
      · have places : d.digits.length - (d.digits.length - (-d.exponent).toNat) =
            (-d.exponent).toNat := by omega
        rw [List.take_append_drop, List.length_drop, places, scaled, significand]
    · rw [if_neg inside]
      refine ⟨['0'],
        List.replicate ((-d.exponent).toNat - d.digits.length) '0' ++ d.digits, by simp,
        List.cons_ne_nil _ _, List.append_ne_nil_of_right_ne_nil _ d.digits_ne_nil, ?_, ?_⟩
      · intro c member
        rcases List.mem_append.mp member with isZero | later
        · cases List.mem_singleton.mp isZero
          rfl
        · exact (List.mem_append.mp later).elim isDigit_of_mem_zeros isDigit_of_mem_digits
      · have zeros := digitsValue_zeros_append
          (List.replicate ((-d.exponent).toNat - d.digits.length) '0' ++ d.digits) 1
        have places : (-d.exponent).toNat - d.digits.length + d.digits.length =
            (-d.exponent).toNat := by omega
        rw [List.replicate_one, digitsValue_zeros_append, significand] at zeros
        rw [zeros, List.length_append, List.length_replicate, places, scaled]

/-! ## Sizes -/

namespace Binary

theorem cast_floor {b : Binary} (integral : b.isIntegral = true) : (b.floor : ℚ) = b.value := by
  rw [isIntegral, decide_eq_true_eq, Nat.shiftLeft_eq, Nat.one_mul] at integral
  rw [floor, value, Nat.shiftLeft_eq, Nat.shiftRight_eq_div_pow]
  rcases Int.eq_nat_or_neg b.exponent with ⟨size, positive | negative⟩
  · rw [positive]
    simp
  · rw [negative, neg_neg, Int.toNat_natCast] at integral
    have unscaled : (-(size : Int)).toNat = 0 := by omega
    rw [negative, neg_neg, Int.toNat_natCast, unscaled, Nat.pow_zero, Nat.mul_one,
      Nat.cast_div (Nat.dvd_of_mod_eq_zero integral) (by positivity), zpow_neg, zpow_natCast]
    push_cast
    rw [div_eq_mul_inv]

/-- The text of a size writes a number that rounds to it. -/
theorem exists_writesNumber (b : Binary) :
    ∃ number, WritesNumber (NumberFormat.literal.renderSize b).toList number ∧
      b.Covers number := by
  unfold NumberFormat.renderSize
  by_cases integral : b.isIntegral = true
  · have exactly : (NumberFormat.literal.exactWholes && b.isIntegral) = true := integral
    have written := writesNumber_whole (Nat.toDigits_ne_nil (n := b.floor) (b := 10))
      fun c => Nat.isDigit_of_mem_toDigits (by decide) (by decide)
    rw [digitsValue_eq, Nat.ofDigitChars_ten_toDigits, cast_floor integral] at written
    rw [if_pos exactly, String.toList_append]
    refine ⟨b.value, ?_, b.covers_value⟩
    have digits : (toString b.floor).toList = Nat.toDigits 10 b.floor := Nat.toList_repr
    rw [digits]
    exact written
  · have notExactly : (NumberFormat.literal.exactWholes && b.isIntegral) ≠ true := integral
    rw [if_neg notExactly]
    exact ⟨_, Decimal.writesNumber_positional _, Decimal.covers_shortest _ b⟩

theorem toNat_fraction (bits : UInt64) :
    (bits &&& 0xFFFFFFFFFFFFF).toNat = bits.toNat % 2 ^ 52 := by
  rw [UInt64.toNat_and]
  exact Nat.and_two_pow_sub_one_eq_mod bits.toNat 52

theorem toNat_biased (bits : UInt64) :
    ((bits >>> 52) &&& 0x7FF).toNat = bits.toNat / 2 ^ 52 % 2 ^ 11 := by
  have mask : UInt64.toNat 0x7FF = 2 ^ 11 - 1 := rfl
  rw [UInt64.toNat_and, UInt64.toNat_shiftRight, mask, Nat.and_two_pow_sub_one_eq_mod,
    Nat.shiftRight_eq_div_pow]
  rfl

theorem proper_ofBits (bits : UInt64) : (ofBits bits).Proper := by
  have fraction : (bits &&& 0xFFFFFFFFFFFFF).toNat < 2 ^ 52 := by
    rw [toNat_fraction]
    exact Nat.mod_lt _ (by positivity)
  have unit : 1 <<< 52 = 2 ^ 52 := rfl
  unfold ofBits
  dsimp only
  by_cases subnormal : ((bits >>> 52) &&& 0x7FF).toNat = 0
  · rw [if_pos subnormal]
    constructor
    · dsimp only
      omega
    · rfl
    · exact fun above => absurd above (lt_irrefl _)
    · simp
  · rw [if_neg subnormal]
    constructor
    · dsimp only
      omega
    · dsimp only
      omega
    · intro _
      dsimp only
      omega
    · simp only [Bool.and_eq_true, decide_eq_true_eq]
      omega

/-- The size and the sign determine the bits. -/
theorem bits_eq {bits other : UInt64} (sameSize : ofBits bits = ofBits other)
    (sameSign : bits >>> 63 = 1 ↔ other >>> 63 = 1) : bits = other := by
  have sign (word : UInt64) : word >>> 63 = 1 ↔ word.toNat / 2 ^ 63 = 1 := by
    rw [← UInt64.toNat_inj, UInt64.toNat_shiftRight, Nat.shiftRight_eq_div_pow]
    rfl
  rw [sign, sign] at sameSign
  have sameMantissa := congrArg mantissa sameSize
  have sameExponent := congrArg exponent sameSize
  unfold ofBits at sameMantissa sameExponent
  dsimp only at sameMantissa sameExponent
  rw [toNat_fraction, toNat_biased, toNat_fraction, toNat_biased] at sameMantissa
  rw [toNat_fraction, toNat_biased, toNat_fraction, toNat_biased] at sameExponent
  have bound := bits.toNat_lt
  have otherBound := other.toNat_lt
  have unit : 1 <<< 52 = 2 ^ 52 := rfl
  rw [unit] at sameMantissa sameExponent
  apply UInt64.toNat_inj.mp
  split at sameMantissa <;> split at sameMantissa <;> simp_all <;> omega

end Binary

/-! ## Finite literals -/

theorem isFinite_spec {x : Float} (finite : x.isFinite = true) :
    x.isNaN = false ∧ x.isInf = false := by
  unfold Float.isFinite Float.Model.isFinite at finite
  unfold Float.isNaN Float.isInf Float.Model.isNaN Float.Model.isInf
  cases unpacked : x.toModel.unpack
  all_goals rw [unpacked] at finite
  all_goals first | exact ⟨rfl, rfl⟩ | cases finite

theorem float_eq_of_toBits_eq {x y : Float} (same : x.toBits = y.toBits) : x = y := by
  rcases x with ⟨⟨bits, valid⟩⟩
  rcases y with ⟨⟨other, otherValid⟩⟩
  cases (same : bits = other)
  rfl

/-- The minus sign of a negative double. -/
def signText (x : Float) : List Char :=
  if x.toBits >>> 63 = 1 then ['-'] else []

theorem toList_render {x : Float} (finite : x.isFinite = true) :
    (NumberFormat.literal.render x).toList =
      signText x ++ (NumberFormat.literal.renderSize (Binary.ofFloat x)).toList := by
  rcases isFinite_spec finite with ⟨isNumber, isBounded⟩
  rw [NumberFormat.render, isNumber, if_neg Bool.false_ne_true]
  dsimp only
  rw [isBounded, if_neg Bool.false_ne_true, String.toList_append, signText]
  split <;> rfl

/-- The text of a finite literal is not empty, does not start with a letter, and has only
digits, points and minus signs. -/
theorem render_isNumeral {x : Float} (finite : x.isFinite = true) :
    ∃ first rest, (NumberFormat.literal.render x).toList = first :: rest ∧
      ∀ c ∈ first :: rest, c.isDigit = true ∨ c = '.' ∨ c = '-' := by
  rcases (Binary.ofFloat x).exists_writesNumber with ⟨number, writes, -⟩
  have characters : ∀ c ∈ (NumberFormat.literal.render x).toList,
      c.isDigit = true ∨ c = '.' ∨ c = '-' := by
    intro c member
    rw [toList_render finite, signText] at member
    rcases List.mem_append.mp member with isSign | inSize
    · split at isSign
      · exact .inr (.inr (List.mem_singleton.mp isSign))
      · cases isSign
    · exact (writes.isDigit_or_point inSize).imp_right .inl
  rcases writes.exists_cons with ⟨digit, digits, size, -⟩
  have nonempty : (NumberFormat.literal.render x).toList ≠ [] := by
    rw [toList_render finite, size]
    exact List.append_ne_nil_of_right_ne_nil _ (List.cons_ne_nil _ _)
  rcases List.exists_cons_of_ne_nil nonempty with ⟨first, rest, isText⟩
  exact ⟨first, rest, isText, isText ▸ characters⟩

/-- The text of a finite literal determines the literal. -/
theorem eq_of_render_eq {x y : Float} (finite : x.isFinite = true) (finite' : y.isFinite = true)
    (same : NumberFormat.literal.render x = NumberFormat.literal.render y) : x = y := by
  have sameText := congrArg String.toList same
  rw [toList_render finite, toList_render finite'] at sameText
  rcases (Binary.ofFloat x).exists_writesNumber with ⟨number, writes, covers⟩
  rcases (Binary.ofFloat y).exists_writesNumber with ⟨number', writes', covers'⟩
  rcases writes.exists_cons with ⟨digit, digits, isText, isDigit⟩
  rcases writes'.exists_cons with ⟨digit', digits', isText', isDigit'⟩
  have noSign : Char.isDigit '-' ≠ true := by decide
  -- A size starts with a digit, so the sign can be read off the first character.
  have sameSign : x.toBits >>> 63 = 1 ↔ y.toBits >>> 63 = 1 := by
    unfold signText at sameText
    rw [isText, isText'] at sameText
    constructor
    · intro negative
      by_contra positive
      rw [if_pos negative, if_neg positive] at sameText
      cases sameText
      exact noSign isDigit'
    · intro negative
      by_contra positive
      rw [if_pos negative, if_neg positive] at sameText
      cases sameText
      exact noSign isDigit
  have sameSize : (NumberFormat.literal.renderSize (Binary.ofFloat x)).toList =
      (NumberFormat.literal.renderSize (Binary.ofFloat y)).toList := by
    unfold signText at sameText
    by_cases negative : x.toBits >>> 63 = 1
    · rw [if_pos negative, if_pos (sameSign.mp negative)] at sameText
      exact List.append_cancel_left sameText
    · rw [if_neg negative, if_neg (fun other => negative (sameSign.mpr other))] at sameText
      exact sameText
  rw [sameSize] at writes
  cases writes.unique writes'
  have sameBinary := (Binary.proper_ofBits x.toBits).eq_of_covers (Binary.proper_ofBits y.toBits)
    covers covers'
  exact float_eq_of_toBits_eq (Binary.bits_eq sameBinary sameSign)

end Lox
