import Lox.Scan.Cursor

/-!
# The bytes of a text

A text is a list of characters, and each of them is encoded by one byte or more.  What
is asked of a byte has the same answer for all bytes of a character, if it only tells
the characters apart that are encoded by one byte.
-/

namespace Lox

/-- The bytes that encode a text. -/
def bytesOf (text : List Char) : List UInt8 :=
  text.flatMap String.utf8EncodeChar

/-- The number of bytes that encode a text. -/
def byteCount (text : List Char) : Nat :=
  (bytesOf text).length

theorem bytesOf_append (text more : List Char) :
    bytesOf (text ++ more) = bytesOf text ++ bytesOf more :=
  List.flatMap_append

theorem byteCount_append (text more : List Char) :
    byteCount (text ++ more) = byteCount text + byteCount more := by
  rw [byteCount, bytesOf_append, List.length_append, byteCount, byteCount]

theorem byteCount_singleton (c : Char) : byteCount [c] = c.utf8Size := by
  rw [byteCount, bytesOf, List.flatMap_singleton, String.length_utf8EncodeChar]

theorem byteCount_eq_zero {text : List Char} : byteCount text = 0 ↔ text = [] := by
  cases text with
  | nil => exact ⟨fun _ => rfl, fun _ => rfl⟩
  | cons c rest =>
      constructor
      · intro empty
        have positive := c.utf8Size_pos
        rw [← List.singleton_append, byteCount_append, byteCount_singleton] at empty
        omega
      · intro isNil
        cases isNil

/-! ## Sources -/

theorem toList_toByteArray (source : String) :
    source.toByteArray.data.toList = bytesOf source.toList := by
  rw [← String.utf8Encode_toList, List.utf8Encode, List.data_toByteArray, bytesOf]

theorem utf8ByteSize_eq (source : String) : source.utf8ByteSize = byteCount source.toList := by
  rw [byteCount, ← toList_toByteArray, Array.length_toList]
  rfl

/-- Behind an initial part of its text, a source has a place between two characters. -/
theorem isValid_byteCount {source : String} {before after : List Char}
    (split : source.toList = before ++ after) :
    String.Pos.Raw.IsValid source ⟨byteCount before⟩ := by
  rw [String.Pos.Raw.isValid_iff_exists_append]
  refine ⟨String.ofList before, String.ofList after, ?_, ?_⟩
  · rw [← String.ofList_append, ← split, String.ofList_toList]
  · rw [String.rawEndPos, utf8ByteSize_eq, String.toList_ofList]

/-- The text between two such places is a slice. -/
theorem slice?_eq {source : String} {before text after : List Char}
    (split : source.toList = before ++ text ++ after) :
    slice? source (byteCount before) (byteCount before + byteCount text) =
      some (String.ofList text) := by
  have stopValid := isValid_byteCount split
  rw [byteCount_append] at stopValid
  have startValid : String.Pos.Raw.IsValid source ⟨byteCount before⟩ := by
    rw [List.append_assoc] at split
    exact isValid_byteCount split
  rw [slice?, dif_pos ⟨Nat.le_add_right _ _, startValid, stopValid⟩]
  congr 1
  rw [← String.toByteArray_inj, String.toByteArray_extract]
  apply ByteArray.ext
  rw [ByteArray.data_extract]
  apply Array.toList_inj.mp
  rw [Array.toList_extract, List.extract_eq_take_drop, toList_toByteArray, toList_toByteArray,
    String.toList_ofList, split, bytesOf_append, bytesOf_append, List.append_assoc]
  change List.take (byteCount before + byteCount text - byteCount before)
    (List.drop (byteCount before) _) = _
  rw [Nat.add_sub_cancel_left, byteCount, byteCount, List.drop_left, List.take_left]

/-! ## Questions to bytes -/

/-- The function does not tell characters apart that are encoded by more than one byte. -/
def Uniform {α : Type} (f : Char → α) : Prop :=
  ∀ c d : Char, 128 ≤ c.toNat → 128 ≤ d.toNat → f c = f d

theorem uniform_eq {c : Char} (ascii : c.toNat < 128) : Uniform fun d => decide (d = c) := by
  have notWide : ∀ d : Char, 128 ≤ d.toNat → decide (d = c) = false := by
    intro d wide
    rw [decide_eq_false_iff_not]
    rintro rfl
    exact absurd ascii (Nat.not_lt.mpr wide)
  intro d e wideD wideE
  exact (notWide d wideD).trans (notWide e wideE).symm

theorem uniform_ne {c : Char} (ascii : c.toNat < 128) : Uniform fun d => decide (d ≠ c) := by
  intro d e wideD wideE
  have same := uniform_eq ascii d e wideD wideE
  exact (decide_not).trans ((congrArg (! ·) same).trans decide_not.symm)

theorem ofUInt8_toNat (byte : UInt8) : (Char.ofUInt8 byte).toNat = byte.toNat :=
  UInt8.toNat_toUInt32 byte

theorem encode_ascii {c : Char} (ascii : c.toNat < 128) :
    String.utf8EncodeChar c = [UInt8.ofNat c.toNat] := by
  have small : c.val.toNat ≤ 127 := Nat.le_of_lt_succ ascii
  rw [String.utf8EncodeChar, if_pos small]
  rfl

theorem ofUInt8_of_mem_encode {c : Char} (ascii : c.toNat < 128) {byte : UInt8}
    (member : byte ∈ String.utf8EncodeChar c) : Char.ofUInt8 byte = c := by
  rw [encode_ascii ascii, List.mem_singleton] at member
  apply Char.toNat_inj.mp
  rw [ofUInt8_toNat, member, UInt8.toNat_ofNat']
  omega

theorem le_of_mem_encode {c : Char} (wide : 128 ≤ c.toNat) {byte : UInt8}
    (member : byte ∈ String.utf8EncodeChar c) : 128 ≤ byte.toNat := by
  have large : ¬ c.val.toNat ≤ 127 := Nat.not_le.mpr wide
  rw [String.utf8EncodeChar, if_neg large] at member
  have encoded : ∀ {value : Nat}, byte = UInt8.ofNat value → 128 ≤ value → value < 256 →
      128 ≤ byte.toNat := by
    intro value isByte low high
    rw [isByte, UInt8.toNat_ofNat', Nat.mod_eq_of_lt high]
    exact low
  split at member
  · simp only [List.mem_cons, List.not_mem_nil, or_false] at member
    rcases member with lead | tail
    · exact encoded lead (by omega) (by omega)
    · exact encoded tail (by omega) (by omega)
  split at member
  · simp only [List.mem_cons, List.not_mem_nil, or_false] at member
    rcases member with lead | middle | tail
    · exact encoded lead (by omega) (by omega)
    · exact encoded middle (by omega) (by omega)
    · exact encoded tail (by omega) (by omega)
  · simp only [List.mem_cons, List.not_mem_nil, or_false] at member
    rcases member with lead | second | third | tail
    · exact encoded lead (by omega) (by omega)
    · exact encoded second (by omega) (by omega)
    · exact encoded third (by omega) (by omega)
    · exact encoded tail (by omega) (by omega)

theorem Uniform.of_mem {α : Type} {f : Char → α} (uniform : Uniform f) {c : Char} {byte : UInt8}
    (member : byte ∈ String.utf8EncodeChar c) : f (Char.ofUInt8 byte) = f c := by
  by_cases ascii : c.toNat < 128
  · rw [ofUInt8_of_mem_encode ascii member]
  · have wide := Nat.le_of_not_lt ascii
    apply uniform
    · rw [ofUInt8_toNat]
      exact le_of_mem_encode wide member
    · exact wide

/-- The bytes that pass a test are those of the characters that do. -/
theorem takeWhile_bytesOf {passes : Char → Bool} (uniform : Uniform passes) (text : List Char) :
    (bytesOf text).takeWhile (fun byte => passes (Char.ofUInt8 byte)) =
      bytesOf (text.takeWhile passes) := by
  induction text with
  | nil => rfl
  | cons c rest inductionHypothesis =>
      rw [bytesOf, List.flatMap_cons]
      by_cases passed : passes c = true
      · have all : ∀ byte ∈ String.utf8EncodeChar c, passes (Char.ofUInt8 byte) = true := by
          intro byte member
          rw [uniform.of_mem member, passed]
        rw [List.takeWhile_append_of_pos all, List.takeWhile_cons_of_pos passed]
        exact congrArg (String.utf8EncodeChar c ++ ·) inductionHypothesis
      · rw [List.takeWhile_cons_of_neg passed]
        cases bytes : String.utf8EncodeChar c with
        | nil => exact absurd bytes String.utf8EncodeChar_ne_nil
        | cons byte more =>
            have member : byte ∈ String.utf8EncodeChar c := by
              rw [bytes]
              exact List.mem_cons_self
            rw [List.cons_append, List.takeWhile_cons_of_neg]
            · rfl
            · rw [uniform.of_mem member]
              exact passed

/-- The bytes of line breaks are the line breaks. -/
theorem countP_bytesOf (text : List Char) :
    (bytesOf text).countP (Char.ofUInt8 · = '\n') = lineBreaks text := by
  have uniform := uniform_eq (c := '\n') (by decide)
  induction text with
  | nil => rfl
  | cons c rest inductionHypothesis =>
      rw [bytesOf, List.flatMap_cons, List.countP_append, ← bytesOf, inductionHypothesis,
        lineBreaks, lineBreaks, List.count_cons, Nat.add_comm]
      congr 1
      by_cases isBreak : c = '\n'
      · rw [isBreak]
        rfl
      · rw [if_neg (by simpa using isBreak), List.countP_eq_zero]
        intro byte member
        rw [uniform.of_mem member]
        simpa using isBreak

end Lox
