import CcspCommon.AnscPlatform.AnscString
import CcspCommon.AnscPlatform.DList
import CcspCommon.DslhVarRecord.TstValue

set_option autoImplicit false

namespace CcspCommon.DslhWmpDatabase

open CcspCommon.Shared CcspCommon.AnscPlatform CcspCommon.DslhVarRecord

def dataTypeSeparators : Text := "()[]:".toList

def dataTypeAlphabet : Text := "abcdefghijklmnopqrstuvwxyzABCDEFGHIJKLMNOPQRSTUVWXYZ".toList

def limitAlphabet : Text := "+-0123456789Kk".toList

inductive ParseStatus
  | failure | badParameter
  deriving DecidableEq, Repr

structure ParamDataType where
  dataType : CwmpDataType
  formatValue1 : Nat
  formatValue2 : Nat
  enumTokens : Option Text
  deriving DecidableEq, Repr

section Parsing

variable (machine : Machine)

-- The limits of a number: a single one is the upper limit when the statement begins with `opening`.
def readLimits (pDataTypeName opening : Text) (min max : Nat) : Option (Nat × Nat) :=
  (tcAllocate2 dataTypeSeparators limitAlphabet pDataTypeName).map fun
    | [] => (min, max)
    | [pFormatValue1] =>
      if opening.isPrefixOf pDataTypeName then (min, ulongOfInt machine (atoiInt machine pFormatValue1))
      else (ulongOfInt machine (atoiInt machine pFormatValue1), max)
    | pFormatValue1 :: pFormatValue2 :: _ =>
      (ulongOfInt machine (atoiInt machine pFormatValue1), ulongOfInt machine (atoiInt machine pFormatValue2))

def readLength (pDataTypeName : Text) : Option Nat :=
  (tcAllocate2 dataTypeSeparators limitAlphabet pDataTypeName).map fun
    | [] => 0
    | pFormatValue1 :: _ =>
      if pFormatValue1.getLast? = some 'K' || pFormatValue1.getLast? = some 'k' then
        ulongOfInt machine (ulongOfInt machine (atoiInt machine pFormatValue1.dropLast) * 1024)
      else ulongOfInt machine (atoiInt machine pFormatValue1)

def readFormat (pDataTypeName pDataTypeToken : Text) (enumTokens : Option Text) : Option ParamDataType :=
  if pDataTypeToken = "string".toList then
    (readLength machine pDataTypeName).map fun length => ⟨.string, length, 0, enumTokens⟩
  else if pDataTypeToken = "int".toList then
    (readLimits machine pDataTypeName "int[:".toList (ulongOfInt machine (-2147483648)) 2147483647).map
      fun limits => ⟨.int, limits.1, limits.2, enumTokens⟩
  else if pDataTypeToken = "unsignedInt".toList then
    (readLimits machine pDataTypeName "unsignedInt[:".toList 0 0xFFFFFFFF).map
      fun limits => ⟨.unsignedInt, limits.1, limits.2, enumTokens⟩
  else if pDataTypeToken = "boolean".toList then some ⟨.boolean, 0, 0, enumTokens⟩
  else if pDataTypeToken = "dateTime".toList then
    some ⟨.dateTime, "0000-00-00T00:00:00".length, "0000-00-00T00:00:00-00:00".length, enumTokens⟩
  else some ⟨.string, 0, 0, enumTokens⟩

-- `base64` on its own is read behind its end.
def parseBase64 (pDataTypeName : Text) : Option (Except ParseStatus ParamDataType) :=
  if pDataTypeName.length = 6 then none
  else if pDataTypeName[6]? ≠ some '(' || pDataTypeName.getLast? ≠ some ')' then some (.error .failure)
  else some (.ok ⟨.base64, ulongOfInt machine (atoiInt machine (pDataTypeName.drop 7)), 0, none⟩)

-- `DslhWmpdoParseParamDataType`; no result when it reads or writes outside of a string.
def parseParamDataType (pDataTypeName : Text) : Option (Except ParseStatus ParamDataType) :=
  if "base64".toList.isPrefixOf pDataTypeName then parseBase64 machine pDataTypeName
  else do
    let enumTokens := (strstr "string:".toList pDataTypeName).map (List.drop 7)
    let pDataTypeName := if enumTokens.isSome then "string".toList else pDataTypeName
    let pDataTypeTokenChain ← tcAllocate2 dataTypeSeparators dataTypeAlphabet pDataTypeName
    -- the depth of the queue is a `USHORT`
    if ushort pDataTypeTokenChain.length ≠ 1 then some (.error .badParameter)
    else
      let pDataTypeToken ← pDataTypeTokenChain.head?
      (readFormat machine pDataTypeName pDataTypeToken enumTokens).map .ok

end Parsing

section Numerals

theorem digit_mem_limitAlphabet {c : Char} (digit : c.isDigit = true) : c ∈ limitAlphabet := by
  have least : 48 ≤ c.toNat := (Char.isDigit_iff_toNat.mp digit).1
  have most : c.toNat ≤ 57 := (Char.isDigit_iff_toNat.mp digit).2
  rw [← Char.ofNat_toNat c]
  interval_cases c.toNat <;> decide

structure Numeral where
  sign : Text
  digits : Text
  signed : sign = [] ∨ sign = ['+'] ∨ sign = ['-']
  nonempty : digits ≠ []
  areDigits : ∀ c ∈ digits, c.isDigit = true
  short : (sign ++ digits).length < uriPathSize

namespace Numeral

variable (numeral : Numeral)

def text : Text := numeral.sign ++ numeral.digits

def value : Int :=
  if numeral.sign = ['-'] then -(Nat.ofDigitChars 10 numeral.digits 0 : Int)
  else Nat.ofDigitChars 10 numeral.digits 0

theorem text_ne_nil : numeral.text ≠ [] := fun empty => numeral.nonempty (List.append_eq_nil_iff.mp empty).2

theorem mem_text {c : Char} (member : c ∈ numeral.text) : c = '+' ∨ c = '-' ∨ c.isDigit = true := by
  obtain sign | digit := List.mem_append.mp member
  next =>
    obtain unsigned | plus | minus := numeral.signed
    · rw [unsigned] at sign
      cases sign
    · exact .inl (List.mem_singleton.mp (plus ▸ sign))
    · exact .inr (.inl (List.mem_singleton.mp (minus ▸ sign)))
  next => exact .inr (.inr (numeral.areDigits c digit))

theorem leadingDigits_digits : leadingDigits numeral.digits = Nat.ofDigitChars 10 numeral.digits 0 := by
  rw [leadingDigits, List.takeWhile_eq_self_iff.mpr numeral.areDigits]

theorem atoi_text : atoi numeral.text = numeral.value := by
  have whole := numeral.leadingDigits_digits
  obtain unsigned | plus | minus := numeral.signed
  next =>
    cases digits : numeral.digits with
    | nil => exact absurd digits numeral.nonempty
    | cons c rest =>
      have digit := numeral.areDigits c (digits ▸ List.mem_cons_self)
      rw [digits] at whole
      simp only [text, value, unsigned, digits, List.nil_append, List.nil_eq, List.cons_ne_nil, if_false]
      rw [atoi_digit digit, whole]
  next =>
    have space : isSpace '+' = false := by decide
    have other : ¬ ['+'] = ['-'] := by decide
    simp only [atoi, text, value, plus, List.singleton_append, List.dropWhile_cons, space, Bool.false_eq_true,
      if_false, signedDigits, whole, other]
  next =>
    have space : isSpace '-' = false := by decide
    simp only [atoi, text, value, minus, List.singleton_append, List.dropWhile_cons, space, Bool.false_eq_true,
      if_false, if_true, signedDigits, whole]

theorem not_mem_separators : ∀ c ∈ numeral.text, c ∉ dataTypeSeparators := by
  intro c member separator
  have listed : c = '(' ∨ c = ')' ∨ c = '[' ∨ c = ']' ∨ c = ':' := by
    simpa [dataTypeSeparators] using separator
  have sort := numeral.mem_text member
  obtain rfl | rfl | rfl | rfl | rfl := listed <;> revert sort <;> decide

theorem mem_limitAlphabet : ∀ c ∈ numeral.text, c ∈ limitAlphabet := by
  intro c member
  obtain rfl | rfl | digit := numeral.mem_text member
  · decide
  · decide
  · exact digit_mem_limitAlphabet digit

theorem not_name : ¬ numeral.text.all (dataTypeAlphabet.contains ·) = true := by
  intro all
  obtain ⟨c, rest, digits⟩ := List.exists_cons_of_ne_nil numeral.nonempty
  have member : c ∈ numeral.digits := digits ▸ List.mem_cons_self
  have letter : c ∈ dataTypeAlphabet := by
    simpa using List.all_eq_true.mp all c (List.mem_append_right _ member)
  have small : c.toNat ≤ 57 := (Char.isDigit_iff_toNat.mp (numeral.areDigits c member)).2
  have large : (dataTypeAlphabet.all fun c => 57 < c.toNat) = true := by decide
  have above : 57 < c.toNat := by simpa using List.all_eq_true.mp large c letter
  omega

end Numeral

end Numerals

section Ranges

inductive RangeType
  | int | unsignedInt
  deriving DecidableEq, Repr

namespace RangeType

def name : RangeType → Text
  | .int => "int".toList
  | .unsignedInt => "unsignedInt".toList

def minimum : RangeType → Int
  | .int => -2147483648
  | .unsignedInt => 0

def maximum : RangeType → Int
  | .int => 2147483647
  | .unsignedInt => 4294967295

def dataType : RangeType → CwmpDataType
  | .int => .int
  | .unsignedInt => .unsignedInt

def slapVariable : RangeType → Int → SlapVariable
  | .int, v => .varInt v
  | .unsignedInt, v => .varUint32 v.toNat

def Admits (type : RangeType) (bound : Option Numeral) : Prop :=
  ∀ numeral ∈ bound, type.minimum ≤ numeral.value ∧ numeral.value ≤ 2147483647

end RangeType

def boundText (bound : Option Numeral) : Text := bound.elim [] Numeral.text

def rangeText (type : RangeType) (low high : Option Numeral) : Text :=
  type.name ++ '[' :: (boundText low ++ ':' :: (boundText high ++ [']']))

def Declared (low high : Option Numeral) (v : Int) : Prop :=
  (∀ numeral ∈ low, numeral.value ≤ v) ∧ ∀ numeral ∈ high, v ≤ numeral.value

def lowLimit (type : RangeType) (low : Option Numeral) : Int := low.elim type.minimum Numeral.value

def highLimit (type : RangeType) (high : Option Numeral) : Int := high.elim type.maximum Numeral.value

variable {type : RangeType} {low high : Option Numeral}

theorem declared_iff {v : Int} (least : type.minimum ≤ v) (most : v ≤ type.maximum) :
    Declared low high v ↔ lowLimit type low ≤ v ∧ v ≤ highLimit type high := by
  cases low <;> cases high <;> simp [Declared, lowLimit, highLimit, least, most]

theorem boundText_free (bound : Option Numeral) : ∀ c ∈ boundText bound, c ∉ dataTypeSeparators := by
  cases bound with
  | none => simp [boundText]
  | some numeral => exact numeral.not_mem_separators

theorem boundText_pieces (bound : Option Numeral) :
    (if boundText bound = [] then [] else [boundText bound]) = bound.toList.map Numeral.text := by
  cases bound with
  | none => rfl
  | some numeral => simp [boundText, numeral.text_ne_nil]

theorem name_free (type : RangeType) : ∀ c ∈ type.name, c ∉ dataTypeSeparators := by
  have free : (type.name.all fun c => !dataTypeSeparators.contains c) = true := by cases type <;> decide
  intro c member
  simpa using List.all_eq_true.mp free c member

theorem splitAny_rangeText (type : RangeType) (low high : Option Numeral) :
    splitAny dataTypeSeparators (rangeText type low high) =
      type.name :: (low.toList ++ high.toList).map Numeral.text := by
  have nonempty : type.name ≠ [] := by cases type <;> decide
  rw [rangeText, splitAny_piece (name_free type) (by decide), if_neg nonempty,
    splitAny_piece (boundText_free low) (by decide), boundText_pieces,
    splitAny_piece (boundText_free high) (by decide), boundText_pieces, splitAny_nil]
  simp

theorem tcAllocate2_name (type : RangeType) (low high : Option Numeral) :
    tcAllocate2 dataTypeSeparators dataTypeAlphabet (rangeText type low high) = some [type.name] := by
  have named : type.name.all (dataTypeAlphabet.contains ·) = true := by cases type <;> decide
  have fits : type.name.length < uriPathSize := by cases type <;> decide
  have dropped : ((low.toList ++ high.toList).map Numeral.text).filter
      (fun token => token.all (dataTypeAlphabet.contains ·)) = [] := by
    refine List.filter_eq_nil_iff.mpr fun token member all => ?_
    obtain ⟨numeral, _, rfl⟩ := List.mem_map.mp member
    exact numeral.not_name all
  simp only [tcAllocate2, splitAny_rangeText, List.filter_cons, named, dropped, if_true, List.all_cons, List.all_nil,
    fits, decide_true, Bool.and_self]

theorem tcAllocate2_limits (type : RangeType) (low high : Option Numeral) :
    tcAllocate2 dataTypeSeparators limitAlphabet (rangeText type low high) =
      some ((low.toList ++ high.toList).map Numeral.text) := by
  have named : type.name.all (limitAlphabet.contains ·) = false := by cases type <;> decide
  have kept : ((low.toList ++ high.toList).map Numeral.text).filter
      (fun token => token.all (limitAlphabet.contains ·)) = (low.toList ++ high.toList).map Numeral.text := by
    refine List.filter_eq_self.mpr fun token member => ?_
    obtain ⟨numeral, _, rfl⟩ := List.mem_map.mp member
    simpa using numeral.mem_limitAlphabet
  have fits : ((low.toList ++ high.toList).map Numeral.text).all (·.length < uriPathSize) = true := by
    refine List.all_eq_true.mpr fun token member => ?_
    obtain ⟨numeral, _, rfl⟩ := List.mem_map.mp member
    exact decide_eq_true numeral.short
  simp only [tcAllocate2, splitAny_rangeText, List.filter_cons, named, Bool.false_eq_true, if_false, kept, fits,
    if_true]

theorem not_mem_boundText {c : Char} (plus : c ≠ '+') (minus : c ≠ '-') (digit : c.isDigit = false)
    (bound : Option Numeral) : c ∉ boundText bound := by
  cases bound with
  | none => exact List.not_mem_nil
  | some numeral =>
    intro member
    obtain same | same | same := numeral.mem_text member
    · exact plus same
    · exact minus same
    · rw [digit] at same
      cases same

theorem strstr_string_rangeText (type : RangeType) (low high : Option Numeral) :
    strstr "string:".toList (rangeText type low high) = none := by
  have name : 'r' ∉ type.name := by cases type <;> decide
  have bound := not_mem_boundText (show 'r' ≠ '+' by decide) (by decide) (by decide)
  refine strstr_absent (show 'r' ∈ "string:".toList by decide) ?_
  simp [rangeText, name, bound low, bound high]

theorem opening_isPrefixOf (type : RangeType) (low high : Option Numeral) :
    (type.name ++ "[:".toList).isPrefixOf (rangeText type low high) = decide (low = none) := by
  have begins : (type.name ++ "[:".toList) <+: rangeText type low high ↔
      [':'] <+: boundText low ++ ':' :: (boundText high ++ [']']) := by
    rw [rangeText, List.prefix_append_right_inj]
    exact List.cons_prefix_cons.trans (and_iff_right rfl)
  rw [Bool.eq_iff_iff, List.isPrefixOf_iff_prefix, begins, decide_eq_true_iff]
  cases low with
  | none => simp [boundText]
  | some numeral =>
    obtain ⟨c, rest, text⟩ := List.exists_cons_of_ne_nil numeral.text_ne_nil
    have apart : ':' ≠ c := by
      rintro rfl
      exact numeral.not_mem_separators ':' (text ▸ List.mem_cons_self) (by decide)
    simp [boundText, text, List.cons_prefix_cons, apart]

theorem atoiInt_text (machine : Machine) {numeral : Numeral} (admits : type.Admits (some numeral)) :
    atoiInt machine numeral.text = numeral.value := by
  have range := admits numeral rfl
  have least : -2147483648 ≤ type.minimum := by cases type <;> decide
  rw [atoiInt_eq machine (by rw [numeral.atoi_text]; omega) (by rw [numeral.atoi_text]; omega), numeral.atoi_text]

theorem readLimits_rangeText (machine : Machine) (lowFits : type.Admits low) (highFits : type.Admits high) :
    readLimits machine (rangeText type low high) (type.name ++ "[:".toList) (ulongOfInt machine type.minimum)
      (ulongOfInt machine type.maximum) =
        some (ulongOfInt machine (lowLimit type low), ulongOfInt machine (highLimit type high)) := by
  rw [readLimits, tcAllocate2_limits, Option.map_some, Option.some.injEq]
  cases low with
  | none =>
    cases high with
    | none => rfl
    | some most =>
      simp only [Option.toList_none, Option.toList_some, List.nil_append, List.map_cons, List.map_nil,
        opening_isPrefixOf, decide_true, if_true, atoiInt_text machine highFits, lowLimit, highLimit, Option.elim]
  | some least =>
    cases high with
    | none =>
      simp only [Option.toList_none, Option.toList_some, List.append_nil, List.map_cons, List.map_nil,
        opening_isPrefixOf, reduceCtorEq, decide_false, Bool.false_eq_true, if_false, atoiInt_text machine lowFits,
        lowLimit, highLimit, Option.elim]
    | some most =>
      simp only [Option.toList_some, List.singleton_append, List.map_cons, List.map_nil,
        atoiInt_text machine lowFits, atoiInt_text machine highFits, lowLimit, highLimit, Option.elim]

def rangeDescriptor (machine : Machine) (type : RangeType) (low high : Option Numeral) : ParamDataType :=
  ⟨type.dataType, ulongOfInt machine (lowLimit type low), ulongOfInt machine (highLimit type high), none⟩

theorem readFormat_rangeText (machine : Machine) (lowFits : type.Admits low) (highFits : type.Admits high) :
    readFormat machine (rangeText type low high) type.name none = some (rangeDescriptor machine type low high) := by
  have limits := readLimits_rangeText machine lowFits highFits
  cases type with
  | int =>
    have maximum : ulongOfInt machine (RangeType.maximum .int) = 2147483647 := by
      cases machine with
      | mk size _ _ => cases size <;> rfl
    rw [maximum] at limits
    have other : ¬ RangeType.name .int = "string".toList := by decide
    have named : RangeType.name .int = "int".toList := rfl
    rw [readFormat, if_neg other, if_pos named]
    exact congrArg (Option.map _) limits
  | unsignedInt =>
    have minimum : ulongOfInt machine (RangeType.minimum .unsignedInt) = 0 := by
      cases machine with
      | mk size _ _ => cases size <;> rfl
    have maximum : ulongOfInt machine (RangeType.maximum .unsignedInt) = 0xFFFFFFFF := by
      cases machine with
      | mk size _ _ => cases size <;> rfl
    rw [minimum, maximum] at limits
    have string : ¬ RangeType.name .unsignedInt = "string".toList := by decide
    have int : ¬ RangeType.name .unsignedInt = "int".toList := by decide
    have named : RangeType.name .unsignedInt = "unsignedInt".toList := rfl
    rw [readFormat, if_neg string, if_neg int, if_pos named]
    exact congrArg (Option.map _) limits

theorem parseParamDataType_rangeText (machine : Machine) (lowFits : type.Admits low) (highFits : type.Admits high) :
    parseParamDataType machine (rangeText type low high) = some (.ok (rangeDescriptor machine type low high)) := by
  have base64 : ¬ "base64".toList.isPrefixOf (rangeText type low high) = true := by
    cases type <;> exact Bool.false_ne_true
  rw [parseParamDataType, if_neg base64]
  simp only [strstr_string_rangeText, Option.map_none, Option.isSome_none, Bool.false_eq_true, if_false,
    tcAllocate2_name, Option.bind_eq_bind, Option.bind_some, List.length_singleton, List.head?_cons,
    readFormat_rangeText machine lowFits highFits, Option.map_some]
  rfl

end Ranges

section Values

variable (machine : Machine)

def describedBy (entity : VarEntity) (descriptor : ParamDataType) : VarEntity :=
  { entity with
    dataType := descriptor.dataType
    formatValue1 := descriptor.formatValue1
    formatValue2 := descriptor.formatValue2 }

theorem asInt_ulongOfInt {v : Int} (least : -2147483648 ≤ v) (most : v ≤ 2147483647) :
    VarEntity.asInt (ulongOfInt machine v) = v := by
  have wide : ((v % 2 ^ machine.ulongSize.bits).toNat : Int) = v % 2 ^ machine.ulongSize.bits := by
    cases machine.ulongSize <;> simp only [UlongSize.bits] <;> omega
  rw [VarEntity.asInt, BitVec.toInt_ofNat', ulongOfInt, wide]
  cases machine.ulongSize <;> simp only [UlongSize.bits, Int.bmod_def] <;> omega

theorem ulongOfInt_unsigned {v : Int} (least : 0 ≤ v) (most : v ≤ 4294967295) : (ulongOfInt machine v : Int) = v := by
  unfold ulongOfInt
  cases machine.ulongSize <;> simp only [UlongSize.bits] <;> omega

variable {machine} {type : RangeType} {low high : Option Numeral}

theorem RangeType.Admits.lowLimit_mem (admits : type.Admits low) :
    type.minimum ≤ lowLimit type low ∧ lowLimit type low ≤ 2147483647 := by
  cases low with
  | none => cases type <;> decide
  | some numeral => exact admits numeral rfl

theorem RangeType.Admits.highLimit_mem (admits : type.Admits high) :
    type.minimum ≤ highLimit type high ∧ highLimit type high ≤ type.maximum := by
  cases high with
  | none => cases type <;> decide
  | some numeral =>
    have range := admits numeral rfl
    exact ⟨range.1, Int.le_trans range.2 (by cases type <;> decide)⟩

theorem rangeDescriptor_accepts (lowFits : type.Admits low) (highFits : type.Admits high) (converters : Converters)
    (entity : VarEntity) {v : Int} (least : type.minimum ≤ v) :
    (describedBy entity (rangeDescriptor machine type low high)).dataTypeAccepts converters (type.slapVariable v) =
      decide (lowLimit type low ≤ v ∧ v ≤ highLimit type high) := by
  obtain ⟨lowLeast, lowMost⟩ := lowFits.lowLimit_mem
  obtain ⟨highLeast, highMost⟩ := highFits.highLimit_mem
  cases type with
  | int =>
    have lower := asInt_ulongOfInt machine lowLeast lowMost
    have upper := asInt_ulongOfInt machine highLeast highMost
    simp only [VarEntity.dataTypeAccepts, describedBy, rangeDescriptor, RangeType.dataType, RangeType.slapVariable,
      lower, upper, Bool.decide_and]
  | unsignedInt =>
    have most : lowLimit .unsignedInt low ≤ 4294967295 := by omega
    have lower := ulongOfInt_unsigned machine lowLeast most
    have upper := ulongOfInt_unsigned machine highLeast highMost
    have exact : ((v.toNat : Nat) : Int) = v := Int.toNat_of_nonneg least
    change (decide (ulongOfInt machine (lowLimit .unsignedInt low) ≤ v.toNat) &&
      decide (v.toNat ≤ ulongOfInt machine (highLimit .unsignedInt high))) = _
    rw [Bool.eq_iff_iff, Bool.and_eq_true, decide_eq_true_iff, decide_eq_true_iff, decide_eq_true_iff]
    omega

def AcceptsInterval (descriptor : ParamDataType) (type : RangeType) (low high : Option Numeral) : Prop :=
  ∀ (converters : Converters) (entity : VarEntity) (hasController bGroupCommit : Bool) (record : VarRecord) (v : Int),
    type.minimum ≤ v → v ≤ type.maximum →
      ((VarRecord.tstValue converters (describedBy entity descriptor) hasController bGroupCommit record
          (type.slapVariable v)).isSome = true ↔
        Declared low high v ∧ hasController = true ∧
          (entity.translate converters (type.slapVariable v)).isSome = true)

theorem parseParamDataType_accepts_interval (machine : Machine) (type : RangeType) (low high : Option Numeral)
    (lowFits : type.Admits low) (highFits : type.Admits high) :
    ∃ descriptor, parseParamDataType machine (rangeText type low high) = some (.ok descriptor) ∧
      AcceptsInterval descriptor type low high := by
  refine ⟨_, parseParamDataType_rangeText machine lowFits highFits, ?_⟩
  intro converters entity hasController bGroupCommit record v least most
  have interval := @rangeDescriptor_accepts machine _ _ _ lowFits highFits converters entity v least
  have translated : (describedBy entity (rangeDescriptor machine type low high)).translate converters
      (type.slapVariable v) = entity.translate converters (type.slapVariable v) := rfl
  rw [declared_iff least most, VarRecord.tstValue, interval, translated]
  by_cases inside : lowLimit type low ≤ v ∧ v ≤ highLimit type high <;> cases hasController <;> simp [inside]

section Samples

def sampleMachine : Machine := ⟨.eight, true, true⟩

def acceptingConverters : Converters := ⟨fun _ => true, fun _ _ => true, fun _ _ => true, fun _ => 0⟩

def intEntity : VarEntity where
  name := "Level".toList
  dataType := .int
  slapSyntax := .int
  contentType := .unspecified
  formatValue1 := 0
  formatValue2 := 0
  tokenTable := none
  preventCharecters := none
  bInvisible := false
  bPersistent := false
  bWritable := true
  bMonitor := false
  bNeedReboot := false
  notifyStatus := 0

/-- Two ranges are read as the one from the first bound to the last, and `uint32` is no name of a type. -/
theorem several_ranges_are_read_as_one :
    parseParamDataType sampleMachine "int[1:5,10:20]".toList = some (.ok ⟨.int, 1, 20, none⟩) ∧
      (VarRecord.tstValue acceptingConverters (describedBy intEntity ⟨.int, 1, 20, none⟩) true false VarRecord.create
        (.varInt 7)).isSome = true ∧
      ¬ ((1 ≤ 7 ∧ 7 ≤ 5) ∨ (10 ≤ 7 ∧ 7 ≤ 20)) ∧
      parseParamDataType sampleMachine "uint32[1:5]".toList = some (.error .badParameter) := by
  decide +kernel

def minusFive : Numeral where
  sign := ['-']
  digits := ['5']
  signed := .inr (.inr rfl)
  nonempty := List.cons_ne_nil _ _
  areDigits := List.forall_mem_singleton.mpr rfl
  short := by decide

theorem parseParamDataType_accepts_interval_sample :
    (∀ numeral ∈ some minusFive, RangeType.minimum .int ≤ numeral.value ∧ numeral.value ≤ 2147483647) ∧
      ∃ descriptor, parseParamDataType sampleMachine (rangeText .int (some minusFive) none) = some (.ok descriptor) ∧
        AcceptsInterval descriptor .int (some minusFive) none := by
  have fits : RangeType.Admits .int (some minusFive) := by
    rintro numeral ⟨⟩
    decide
  exact ⟨fits, parseParamDataType_accepts_interval sampleMachine .int (some minusFive) none fits nofun⟩

end Samples

end Values

end CcspCommon.DslhWmpDatabase
