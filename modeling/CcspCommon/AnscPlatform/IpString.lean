import CcspCommon.AnscPlatform.AnscString

set_option autoImplicit false

namespace CcspCommon.AnscPlatform

open CcspCommon.Shared

section Fields

variable (separator : Char)

theorem fields_ne_nil (text : Text) : fields separator text ≠ [] := by
  induction text with
  | nil => simp [fields]
  | cons c rest ih =>
    rw [fields]
    split
    next => simp
    next => split <;> simp

theorem tokensFrom_fields (current : Text) {text first : Text} {others : List Text}
    (split : fields separator text = first :: others) :
    tokensFrom separator current text = ((current ++ first) :: others).filter (· ≠ []) := by
  induction text generalizing current first others with
  | nil =>
    simp only [fields, List.cons.injEq] at split
    rw [← split.1, ← split.2, tokensFrom]
    by_cases empty : current = [] <;> simp [empty]
  | cons c rest ih =>
    cases later : fields separator rest with
    | nil => exact absurd later (fields_ne_nil separator rest)
    | cons next more =>
      rw [fields, later] at split
      by_cases same : c = separator
      next =>
        rw [if_pos same] at split
        have own := List.cons.inj split
        rw [← own.1, ← own.2, tokensFrom, if_pos same, ih [] later, List.append_nil]
        by_cases empty : current = [] <;> simp [empty]
      next =>
        rw [if_neg same] at split
        have own := List.cons.inj split
        rw [← own.1, ← own.2, tokensFrom, if_neg same, ih (current ++ [c]) later, List.append_assoc,
          List.singleton_append]

theorem tokens_eq (text : Text) : tokens separator text = (fields separator text).filter (· ≠ []) := by
  cases split : fields separator text with
  | nil => exact absurd split (fields_ne_nil separator text)
  | cons first others =>
    have found := tokensFrom_fields separator [] split
    rwa [List.nil_append] at found

theorem joinTokens_fields (text : Text) : joinTokens separator (fields separator text) = text := by
  induction text with
  | nil => rfl
  | cons c rest ih =>
    cases later : fields separator rest with
    | nil => exact absurd later (fields_ne_nil separator rest)
    | cons next more =>
      rw [later] at ih
      by_cases same : c = separator
      next => rw [fields, if_pos same, later, joinTokens, ih, same, List.nil_append]
      next =>
        rw [fields, if_neg same, later]
        cases more with
        | nil => rw [joinTokens] at ih ⊢; rw [ih]
        | cons other more => rw [joinTokens] at ih ⊢; rw [← ih, List.cons_append]

theorem not_mem_fields (text : Text) : ∀ field ∈ fields separator text, separator ∉ field := by
  induction text with
  | nil => simp [fields]
  | cons c rest ih =>
    cases later : fields separator rest with
    | nil => exact absurd later (fields_ne_nil separator rest)
    | cons next more =>
      rw [later, List.forall_mem_cons] at ih
      by_cases same : c = separator
      next =>
        rw [fields, if_pos same, later, List.forall_mem_cons, List.forall_mem_cons]
        exact ⟨List.not_mem_nil, ih⟩
      next =>
        rw [fields, if_neg same, later]
        dsimp only
        rw [List.forall_mem_cons, List.mem_cons, not_or]
        exact ⟨⟨Ne.symm same, ih.1⟩, ih.2⟩

theorem fields_joinTokens {list : List Text} (nonempty : list ≠ []) (free : ∀ field ∈ list, separator ∉ field) :
    fields separator (joinTokens separator list) = list := by
  induction list with
  | nil => exact absurd rfl nonempty
  | cons field rest ih =>
    rw [List.forall_mem_cons] at free
    cases rest with
    | nil => rw [joinTokens, fields_last free.1]
    | cons next more => rw [joinTokens, fields_cons free.1, ih (List.cons_ne_nil next more) free.2]

end Fields

section Grammar

structure IsOctetText (text : Text) : Prop where
  nonempty : text ≠ []
  short : text.length ≤ 3
  digits : ∀ c ∈ text, c.isDigit = true
  small : Nat.ofDigitChars 10 text 0 ≤ 255

def IsDottedQuad (text : Text) : Prop :=
  ∃ first second third last, (∀ number ∈ [first, second, third, last], IsOctetText number) ∧
    text = first ++ '.' :: (second ++ '.' :: (third ++ '.' :: last))

theorem IsOctetText.free {text : Text} (octet : IsOctetText text) : '.' ∉ text := by
  intro member
  have digit := octet.digits '.' member
  revert digit
  decide

theorem exists_of_length_four {A : Type} {list : List A} (four : list.length = 4) :
    ∃ first second third last, list = [first, second, third, last] := by
  obtain ⟨first, list, same⟩ := List.exists_of_length_succ list four
  obtain ⟨second, list, same2⟩ := List.exists_of_length_succ list (by simpa [same] using four)
  obtain ⟨third, list, same3⟩ := List.exists_of_length_succ list (by simpa [same, same2] using four)
  obtain ⟨last, same4⟩ := List.length_eq_one_iff.mp (show list.length = 1 by simpa [same, same2, same3] using four)
  exact ⟨first, second, third, last, by rw [same, same2, same3, same4]⟩

theorem isDottedQuad_iff (text : Text) :
    IsDottedQuad text ↔ (fields '.' text).length = 4 ∧ ∀ field ∈ fields '.' text, IsOctetText field := by
  constructor
  next =>
    rintro ⟨first, second, third, last, numbers, same⟩
    simp only [List.forall_mem_cons] at numbers
    have split : fields '.' text = [first, second, third, last] := by
      rw [same, fields_cons numbers.1.free, fields_cons numbers.2.1.free, fields_cons numbers.2.2.1.free,
        fields_last numbers.2.2.2.1.free]
    rw [split]
    simpa using numbers
  next =>
    rintro ⟨four, numbers⟩
    have whole := joinTokens_fields '.' text
    obtain ⟨first, second, third, last, split⟩ := exists_of_length_four four
    rw [split] at numbers whole
    exact ⟨first, second, third, last, numbers, whole.symm⟩

theorem length_dottedQuad {text : Text} (quad : IsDottedQuad text) : text.length < 16 := by
  obtain ⟨first, second, third, last, numbers, same⟩ := quad
  simp only [List.forall_mem_cons] at numbers
  have one := numbers.1.short
  have two := numbers.2.1.short
  have three := numbers.2.2.1.short
  have four := numbers.2.2.2.1.short
  rw [same]
  simp only [List.length_append, List.length_cons]
  omega

end Grammar

section Validation

theorem atoi_digits {text : Text} (digits : ∀ c ∈ text, c.isDigit = true) : atoi text = Nat.ofDigitChars 10 text 0 := by
  have whole : text.takeWhile Char.isDigit = text := List.takeWhile_eq_self_iff.mpr digits
  cases text with
  | nil => rfl
  | cons c rest =>
    obtain ⟨notSpace, notMinus, notPlus⟩ := isDigit_ne (digits c List.mem_cons_self)
    rw [atoi, List.dropWhile_cons, notSpace]
    simp only [Bool.false_eq_true, if_false]
    rw [signedDigits, leadingDigits, whole]
    next =>
      intro later same
      exact notMinus (List.cons.inj same).1
    next =>
      intro later same
      exact notPlus (List.cons.inj same).1

theorem isOctetText_iff {token : Text} (nonempty : token ≠ []) :
    (token.length ≤ 3 && isDigitString token && atoi token ≤ 255) = true ↔ IsOctetText token := by
  simp only [Bool.and_eq_true, decide_eq_true_eq, isDigitString, List.all_eq_true]
  constructor
  next =>
    rintro ⟨⟨short, digits⟩, small⟩
    rw [atoi_digits digits] at small
    exact ⟨nonempty, short, digits, by omega⟩
  next =>
    intro octet
    rw [atoi_digits octet.digits]
    exact ⟨⟨octet.short, octet.digits⟩, Int.ofNat_le.mpr octet.small⟩

theorem isValidIpString_iff (text : Text) :
    isValidIpString text = true ↔ text.length < 16 ∧ (tokens '.' text).length = 4 ∧
      ∀ token ∈ tokens '.' text, IsOctetText token := by
  by_cases size : text.length = 0 ∨ 16 ≤ text.length
  next =>
    have wrong : (text.length = 0 || 16 ≤ text.length) = true := by simpa using size
    rw [isValidIpString, if_pos wrong]
    constructor
    next => intro impossible; cases impossible
    next =>
      rintro ⟨short, four, _⟩
      have empty : text = [] := List.eq_nil_of_length_eq_zero (by omega)
      rw [empty] at four
      cases four
  next =>
    have right : (text.length = 0 || 16 ≤ text.length) = false := by simpa using size
    have fits : ((tokens '.' text).all fun token => token.length < uriPathSize) = true := by
      rw [List.all_eq_true]
      intro token member
      have bound := length_le_joinTokens '.' member
      have total := length_joinTokens_tokens '.' text
      rw [uriPathSize]
      apply decide_eq_true
      omega
    rw [isValidIpString, right, if_neg (by decide), tcAllocate, if_pos fits]
    dsimp only
    by_cases four : (tokens '.' text).length = 4
    next =>
      rw [if_neg (by simpa using four), List.all_eq_true]
      constructor
      next =>
        intro checked
        refine ⟨by omega, four, fun token member => ?_⟩
        exact (isOctetText_iff (tokens_isToken '.' text token member).1).mp (checked token member)
      next =>
        rintro ⟨_, _, octet⟩ token member
        exact (isOctetText_iff (tokens_isToken '.' text token member).1).mpr (octet token member)
    next =>
      rw [if_pos four]
      constructor
      next => intro impossible; cases impossible
      next => rintro ⟨_, other, _⟩; exact absurd other four

theorem IsDottedQuad.nonempty {text : Text} (quad : IsDottedQuad text) : ∀ field ∈ fields '.' text, field ≠ [] :=
  fun field member => (((isDottedQuad_iff text).mp quad).2 field member).nonempty

theorem isValidIpString_whole {text : Text} (none : [] ∉ fields '.' text) :
    isValidIpString text = true ↔ IsDottedQuad text := by
  have all : tokens '.' text = fields '.' text := by
    rw [tokens_eq, List.filter_eq_self]
    intro field member
    simp only [ne_eq, decide_eq_true_eq]
    rintro rfl
    exact none member
  rw [isValidIpString_iff, all]
  constructor
  next => intro accepted; exact (isDottedQuad_iff text).mpr accepted.2
  next => intro quad; exact ⟨length_dottedQuad quad, (isDottedQuad_iff text).mp quad⟩

/-- A quad with more dots than three, which fits into 15 characters. -/
structure DotsMerged (text : Text) : Prop where
  short : text.length < 16
  empty : [] ∈ fields '.' text
  four : ((fields '.' text).filter (· ≠ [])).length = 4
  octets : ∀ field ∈ fields '.' text, field ≠ [] → IsOctetText field

theorem isValidIpString_exact (text : Text) :
    (isValidIpString text = true ↔ IsDottedQuad text) ↔ ¬ DotsMerged text := by
  by_cases empty : [] ∈ fields '.' text
  next =>
    rw [isValidIpString_iff, tokens_eq]
    constructor
    next =>
      intro agreed merged
      have quad : IsDottedQuad text := by
        refine agreed.mp ⟨merged.short, merged.four, fun field member => ?_⟩
        obtain ⟨inside, nonempty⟩ := List.mem_filter.mp member
        exact merged.octets field inside (by simpa using nonempty)
      exact (quad.nonempty [] empty) rfl
    next =>
      intro separate
      constructor
      next =>
        rintro ⟨short, four, octets⟩
        refine absurd ⟨short, empty, four, fun field member nonempty => ?_⟩ separate
        exact octets field (List.mem_filter.mpr ⟨member, by simpa using nonempty⟩)
      next => intro quad; exact absurd rfl (quad.nonempty [] empty)
  next =>
    apply iff_of_true (isValidIpString_whole empty)
    intro merged
    exact empty merged.empty

theorem dots_merged : isValidIpString "1..2.3.4".toList = true ∧ ¬ IsDottedQuad "1..2.3.4".toList := by
  constructor
  next => decide
  next =>
    rw [isDottedQuad_iff]
    rintro ⟨four, _⟩
    revert four
    decide

end Validation

end CcspCommon.AnscPlatform
