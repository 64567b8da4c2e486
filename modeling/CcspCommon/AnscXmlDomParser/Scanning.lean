import CcspCommon.AnscXmlDomParser.Parser

set_option autoImplicit false

namespace CcspCommon.AnscXmlDomParser

open CcspCommon.Shared

structure FitsInt (text : Text) : Prop where
  small : text.length < 2147483648

theorem FitsInt.suffix {text rest : Text} (fits : FitsInt text) (behind : rest <:+ text) : FitsInt rest :=
  ⟨Nat.lt_of_le_of_lt behind.length_le fits.small⟩

theorem int32_of_small {n : Nat} (small : n < 2147483648) : int32 n = n :=
  if_pos small

section Scans

variable {text : Text} (fits : FitsInt text)

include fits

theorem lengthAt_zero : lengthAt 0 text = text.length := by
  rw [lengthAt, Int.add_zero]
  exact int32_of_small fits.small

omit fits in
theorem skipSpecial_length (text : Text) : skipSpecial text.length text = .ok (text.dropWhile special) := by
  induction text with
  | nil => rfl
  | cons c rest ih =>
    rw [List.length_cons, skipSpecial, List.dropWhile_cons]
    split_ifs
    · exact ih
    · rfl

theorem gotoFirstCharExcept_eq (nonempty : text ≠ []) :
    gotoFirstCharExcept 0 text = .ok (some (text.dropWhile special)) := by
  have some : (text.length : Int) ≠ 0 := by simpa using nonempty
  rw [gotoFirstCharExcept, lengthAt_zero fits, if_neg some, Int.toNat_natCast, skipSpecial_length]
  rfl

omit fits in
theorem skipUnwanted_length (stops : Char → Bool) (text : Text) :
    skipUnwanted stops text.length text = text.dropWhile fun c => !stops c := by
  induction text with
  | nil => rfl
  | cons c rest ih =>
    rw [List.length_cons, skipUnwanted, List.dropWhile_cons]
    cases stops c <;> simp [ih]

theorem gotoFirstWantedChar_eq (stops : Char → Bool) (nonempty : text ≠ []) :
    gotoFirstWantedChar 0 stops text = some (text.dropWhile fun c => !stops c) := by
  have some : (text.length : Int) ≠ 0 := by simpa using nonempty
  rw [gotoFirstWantedChar, lengthAt_zero fits, if_neg some, Int.toNat_natCast, skipUnwanted_length]

theorem isStringStartWith_iff (start : Text) :
    isStringStartWith 0 text start = true ↔ start ≠ [] ∧ start <+: text := by
  rw [isStringStartWith, lengthAt_zero fits]
  simp only [Bool.and_eq_true, decide_eq_true_eq, List.isPrefixOf_iff_prefix]
  constructor
  · rintro ⟨⟨-, some⟩, starts⟩
    exact ⟨some, starts⟩
  · rintro ⟨some, starts⟩
    have shorter := starts.length_le
    have positive := List.length_pos_of_ne_nil some
    exact ⟨⟨⟨by omega, by omega⟩, some⟩, starts⟩

theorem isStringStartWith_of_differs {c d : Char} {rest : Text} (same : text = c :: rest) (differs : d ≠ c)
    (more : Text) : isStringStartWith 0 text (d :: more) = false := by
  rw [Bool.eq_false_iff, Ne, isStringStartWith_iff fits, same]
  rintro ⟨-, starts⟩
  exact differs (List.cons_prefix_cons.mp starts).1

end Scans

section Searches

@[simp] theorem between_append (segment rest : Text) : between (segment ++ rest) rest = segment := by
  simp [between]

theorem dropWhile_segment {stops : Char → Bool} {segment : Text} (free : ∀ c ∈ segment, stops c = true)
    {c : Char} (differs : stops c = false) (rest : Text) :
    (segment ++ c :: rest).dropWhile stops = c :: rest := by
  rw [List.dropWhile_append_of_pos free, List.dropWhile_cons_of_neg (by simp [differs])]

end Searches

section Quiet

def Quiet (text : Text) : Prop := ¬ "<>".toList <:+: text ∧ ¬ "--->".toList <:+: text

theorem quiet_iff (text : Text) :
    Quiet text ↔ strstr "<>".toList text = none ∧ strstr "--->".toList text = none := by
  rw [Quiet, strstr_eq_none (by decide), strstr_eq_none (by decide)]

instance (text : Text) : Decidable (Quiet text) := decidable_of_iff _ (quiet_iff text).symm

theorem Quiet.suffix {text rest : Text} (quiet : Quiet text) (behind : rest <:+ text) : Quiet rest :=
  ⟨fun found => quiet.1 (found.trans behind.isInfix), fun found => quiet.2 (found.trans behind.isInfix)⟩

def Calm (text : Text) : Prop := '<' ∉ text ∧ '>' ∉ text

theorem Calm.append {first second : Text} (calm : Calm first) (also : Calm second) : Calm (first ++ second) := by
  constructor
  · simp [calm.1, also.1]
  · simp [calm.2, also.2]

theorem Calm.quiet {text : Text} (calm : Calm text) : Quiet text :=
  ⟨fun found => calm.2 (found.subset (by decide)), fun found => calm.2 (found.subset (by decide))⟩

theorem infix_around {pattern : Text} {c : Char} (outside : c ∉ pattern) (nonempty : pattern ≠ [])
    (first second : Text) :
    pattern <:+: first ++ c :: second ↔ pattern <:+: first ∨ pattern <:+: second := by
  rw [List.infix_append_iff, List.infix_cons_iff]
  constructor
  · rintro (here | (starts | later) | ⟨front, back, rfl, ends, starts⟩)
    · exact .inl here
    · obtain ⟨d, rest, rfl⟩ := List.exists_cons_of_ne_nil nonempty
      exact absurd (by simp [(List.cons_prefix_cons.mp starts).1]) outside
    · exact .inr later
    · cases back with
      | nil => exact .inl (by simpa using ends.isInfix)
      | cons d rest => exact absurd (by simp [(List.cons_prefix_cons.mp starts).1]) outside
  · rintro (here | later)
    · exact .inl here
    · exact .inr (.inl (.inr later))

theorem quiet_around {c : Char} (outside : c ≠ '<' ∧ c ≠ '>' ∧ c ≠ '-') (first second : Text) :
    Quiet (first ++ c :: second) ↔ Quiet first ∧ Quiet second := by
  rw [Quiet, infix_around (by simpa using ⟨outside.1, outside.2.1⟩) (by decide),
    infix_around (by simpa using ⟨outside.2.2, outside.2.1⟩) (by decide)]
  simp only [Quiet]
  tauto

theorem quiet_tag {c : Char} (outside : c ≠ '<' ∧ c ≠ '>' ∧ c ≠ '-') {first second : Text}
    (quiet : Quiet first) (also : Quiet second) : Quiet (first ++ '<' :: c :: second) := by
  have opened : Quiet (first ++ ['<']) := by
    constructor
    · rw [List.infix_concat_iff, List.suffix_concat_iff]
      rintro ((empty | ⟨front, whole, -⟩) | here)
      · exact absurd empty (by decide)
      · exact absurd (congrArg List.getLast? whole) (by simp)
      · exact quiet.1 here
    · rw [infix_around (by decide) (by decide)]
      rintro (here | none)
      · exact quiet.2 here
      · exact absurd none.length_le (by decide)
  have split : first ++ '<' :: c :: second = (first ++ ['<']) ++ c :: second := by simp
  rw [split, quiet_around outside]
  exact ⟨opened, also⟩

theorem quiet_tagEnd {first second : Text} (calm : Calm first) (also : Calm second)
    (dashes : ¬ "---".toList <:+ first) : Quiet (first ++ '>' :: second) := by
  constructor
  · intro found
    have opened : '<' ∈ first ++ '>' :: second := found.subset (by decide)
    simp [calm.1, also.1] at opened
  · rintro ⟨front, back, whole⟩
    -- the only closing bracket is the one behind `first`
    have split : (front ++ "---".toList) ++ '>' :: back = first ++ '>' :: second := by
      rw [← whole]
      simp
    rcases List.append_eq_append_iff.mp split with ⟨middle, before, behind⟩ | ⟨middle, before, behind⟩
    · cases middle with
      | nil =>
        refine dashes ⟨front, ?_⟩
        simpa using before.symm
      | cons c rest =>
        obtain ⟨rfl, -⟩ := List.cons.inj behind
        exact calm.2 (by simp [before])
    · cases middle with
      | nil =>
        refine dashes ⟨front, ?_⟩
        simpa using before
      | cons c rest =>
        obtain ⟨-, later⟩ := List.cons.inj behind
        exact also.2 (by simp [later])

end Quiet

end CcspCommon.AnscXmlDomParser
