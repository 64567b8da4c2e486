import CcspCommon.AnscPlatform.AnscString

set_option autoImplicit false

namespace CcspCommon.DslhVarRecord

open CcspCommon.Shared CcspCommon.AnscPlatform

def macCharacter (i : Nat) (c : Char) : Bool := if i % 3 = 2 then i = 17 || c = ':' else isAlphaOrDigit c

def isValidMacAddress : Option Text → Bool
  | none => true
  | some pAddress =>
    if pAddress.length = 0 then true
    else if pAddress.length ≠ 17 && pAddress.length ≠ 35 then false
    else if 17 < pAddress.length && pAddress[17]? ≠ some '/' then false
    else pAddress.zipIdx.all fun (c, i) => macCharacter i c

def PairsOf (digit : Char → Bool) : Nat → Text → Prop
  | 0, text => ∃ a b, text = [a, b] ∧ digit a = true ∧ digit b = true
  | more + 1, text =>
    ∃ a b rest, text = a :: b :: ':' :: rest ∧ digit a = true ∧ digit b = true ∧ PairsOf digit more rest

def MacOf (digit : Char → Bool) (text : Text) : Prop :=
  PairsOf digit 5 text ∨
    ∃ address mask, text = address ++ '/' :: mask ∧ PairsOf digit 5 address ∧ PairsOf digit 5 mask

-- The characters that `SlapVcoStringToMacAddr` takes for hexadecimal digits; there may be none.
def convertedCharacters (mac_addr : Text) : List (Option Char) :=
  (List.range 6).flatMap fun i => [mac_addr[i * 3]?, mac_addr[i * 3 + 1]?]

section Shape

variable {digit stronger : Char → Bool} {text : Text}

def PairCharacter (digit : Char → Bool) (i : Nat) (c : Char) : Prop :=
  if i % 3 = 2 then c = ':' else digit c = true

theorem pairsOf_iff (more : Nat) (text : Text) :
    PairsOf digit more text ↔
      text.length = 3 * more + 2 ∧ ∀ i c, text[i]? = some c → PairCharacter digit i c := by
  induction more generalizing text with
  | zero =>
    constructor
    next =>
      rintro ⟨a, b, rfl, first, second⟩
      refine ⟨rfl, fun i c found => ?_⟩
      match i, found with
      | 0, rfl => simpa [PairCharacter] using first
      | 1, rfl => simpa [PairCharacter] using second
    next =>
      rintro ⟨length, characters⟩
      obtain ⟨a, b, rfl⟩ := List.length_eq_two.mp length
      exact ⟨a, b, rfl, by simpa [PairCharacter] using characters 0 a rfl,
        by simpa [PairCharacter] using characters 1 b rfl⟩
  | succ more ih =>
    constructor
    next =>
      rintro ⟨a, b, rest, rfl, first, second, later⟩
      obtain ⟨length, characters⟩ := (ih rest).mp later
      refine ⟨by simp [length, Nat.mul_add], fun i c found => ?_⟩
      match i, found with
      | 0, rfl => simpa [PairCharacter] using first
      | 1, rfl => simpa [PairCharacter] using second
      | 2, rfl => simp [PairCharacter]
      | i + 3, found =>
        have inside := characters i c (by simpa using found)
        simpa [PairCharacter] using inside
    next =>
      rintro ⟨length, characters⟩
      match text, length with
      | a :: b :: colon :: rest, length =>
        have third : colon = ':' := by simpa [PairCharacter] using characters 2 colon rfl
        refine ⟨a, b, rest, by rw [third], by simpa [PairCharacter] using characters 0 a rfl,
          by simpa [PairCharacter] using characters 1 b rfl, (ih rest).mpr ⟨?_, fun i c found => ?_⟩⟩
        · simp only [List.length_cons] at length
          omega
        · have inside := characters (i + 3) c (by simpa using found)
          simpa [PairCharacter] using inside

theorem PairsOf.strengthen {more : Nat} (pairs : PairsOf digit more text)
    (all : ∀ c ∈ text, digit c = true → stronger c = true) : PairsOf stronger more text := by
  obtain ⟨length, characters⟩ := (pairsOf_iff more text).mp pairs
  refine (pairsOf_iff more text).mpr ⟨length, fun i c found => ?_⟩
  have character := characters i c found
  unfold PairCharacter at character ⊢
  split_ifs at character ⊢ with separator
  · exact character
  · exact all c (List.mem_of_getElem? found) character

theorem MacOf.strengthen (mac : MacOf digit text) (all : ∀ c ∈ text, digit c = true → stronger c = true) :
    MacOf stronger text := by
  obtain pairs | ⟨address, mask, rfl, first, second⟩ := mac
  · exact .inl (pairs.strengthen all)
  · refine .inr ⟨address, mask, rfl, first.strengthen fun c member => all c ?_,
      second.strengthen fun c member => all c ?_⟩
    · exact List.mem_append_left _ member
    · exact List.mem_append_right _ (List.mem_cons_of_mem _ member)

theorem PairsOf.member {more : Nat} (pairs : PairsOf digit more text) {c : Char} (member : c ∈ text) :
    digit c = true ∨ c = ':' := by
  obtain ⟨i, found⟩ := List.mem_iff_getElem?.mp member
  have character := ((pairsOf_iff more text).mp pairs).2 i c found
  unfold PairCharacter at character
  split_ifs at character
  · exact .inr character
  · exact .inl character

theorem MacOf.member (mac : MacOf digit text) {c : Char} (member : c ∈ text) :
    digit c = true ∨ c = ':' ∨ c = '/' := by
  obtain pairs | ⟨address, mask, rfl, first, second⟩ := mac
  · exact (pairs.member member).imp_right .inl
  · obtain inAddress | here | inMask : c ∈ address ∨ c = '/' ∨ c ∈ mask := by simpa using member
    · exact (first.member inAddress).imp_right .inl
    · exact .inr (.inr here)
    · exact (second.member inMask).imp_right .inl

theorem PairsOf.converted (pairs : PairsOf digit 5 text) (behind : Text) :
    ∀ character ∈ convertedCharacters (text ++ behind), ∃ c, character = some c ∧ digit c = true := by
  obtain ⟨length, characters⟩ := (pairsOf_iff 5 text).mp pairs
  have place {k : Nat} (within : k < 17) (digits : k % 3 ≠ 2) :
    ∃ c, (text ++ behind)[k]? = some c ∧ digit c = true := by
    have inside : k < text.length := by omega
    refine ⟨text[k], ?_, ?_⟩
    · rw [List.getElem?_append_left inside, List.getElem?_eq_getElem inside]
    · have character := characters k _ (List.getElem?_eq_getElem inside)
      rwa [PairCharacter, if_neg digits] at character
  intro character member
  simp only [convertedCharacters, List.mem_flatMap, List.mem_range, List.mem_cons, List.not_mem_nil, or_false] at member
  obtain ⟨i, few, rfl | rfl⟩ := member
  · exact place (by omega) (by omega)
  · exact place (by omega) (by omega)

theorem MacOf.converted (mac : MacOf digit text) :
    ∀ character ∈ convertedCharacters text, ∃ c, character = some c ∧ digit c = true := by
  obtain pairs | ⟨address, mask, rfl, first, _⟩ := mac
  · have whole := pairs.converted []
    rwa [List.append_nil] at whole
  · exact first.converted ('/' :: mask)

end Shape

section Checking

variable {text : Text}

theorem macCharacter_iff {i : Nat} {c : Char} (apart : i ≠ 17) :
    macCharacter i c = true ↔ PairCharacter isAlphaOrDigit i c := by
  unfold macCharacter PairCharacter
  split_ifs <;> simp [apart]

theorem all_macCharacter (text : Text) : (text.zipIdx.all fun (c, i) => macCharacter i c) = true ↔
    ∀ i c, text[i]? = some c → macCharacter i c = true := by
  simp only [List.all_eq_true, Prod.forall, List.mem_zipIdx_iff_getElem?]
  exact ⟨fun all i c => all c i, fun all c i => all i c⟩

theorem pairCharacter_shift {digit : Char → Bool} (i : Nat) (c : Char) :
    PairCharacter digit (i + 18) c ↔ PairCharacter digit i c := by
  have same : (i + 18) % 3 = i % 3 := by omega
  rw [PairCharacter, PairCharacter, same]

theorem all_macCharacter_masked (address mask : Text) (length : address.length = 17) :
    (∀ i c, (address ++ '/' :: mask)[i]? = some c → macCharacter i c = true) ↔
      (∀ i c, address[i]? = some c → PairCharacter isAlphaOrDigit i c) ∧
        ∀ i c, mask[i]? = some c → PairCharacter isAlphaOrDigit i c := by
  constructor
  next =>
    intro all
    refine ⟨fun i c found => ?_, fun i c found => ?_⟩
    · have within : i < 17 := length ▸ (List.getElem?_eq_some_iff.mp found).1
      refine (macCharacter_iff (Nat.ne_of_lt within)).mp (all i c ?_)
      rw [List.getElem?_append_left (length ▸ within), found]
    · have inside : macCharacter (i + 18) c = true := by
        refine all (i + 18) c ?_
        rw [List.getElem?_append_right (by omega), length]
        simpa using found
      exact (pairCharacter_shift i c).mp ((macCharacter_iff (by omega)).mp inside)
  next =>
    rintro ⟨first, second⟩ i c found
    obtain before | rfl | after : i < 17 ∨ i = 17 ∨ 17 < i := Nat.lt_trichotomy i 17
    · rw [List.getElem?_append_left (length ▸ before)] at found
      exact (macCharacter_iff (Nat.ne_of_lt before)).mpr (first i c found)
    · rfl
    · obtain ⟨k, rfl⟩ := Nat.exists_eq_add_of_le' (Nat.succ_le_of_lt after)
      rw [List.getElem?_append_right (by omega), length] at found
      have character := second k c (by simpa using found)
      exact (macCharacter_iff (by omega)).mpr ((pairCharacter_shift k c).mpr character)

theorem isValidMacAddress_iff (text : Text) :
    isValidMacAddress (some text) = true ↔ text = [] ∨ MacOf isAlphaOrDigit text := by
  constructor
  next =>
    intro valid
    simp only [isValidMacAddress] at valid
    split_ifs at valid with empty size slash
    · exact .inl (List.length_eq_zero_iff.mp empty)
    · simp only [ne_eq, Bool.and_eq_true, decide_eq_true_eq, not_and, not_not] at size slash
      rw [all_macCharacter] at valid
      refine .inr ?_
      by_cases plain : text.length = 17
      · refine .inl ((pairsOf_iff 5 text).mpr ⟨plain, fun i c found => ?_⟩)
        have within : i < 17 := plain ▸ (List.getElem?_eq_some_iff.mp found).1
        exact (macCharacter_iff (Nat.ne_of_lt within)).mp (valid i c found)
      · have long := size plain
        have here := slash (by omega)
        have split : text = text.take 17 ++ '/' :: text.drop 18 := by
          obtain ⟨within, character⟩ := List.getElem?_eq_some_iff.mp here
          conv_lhs => rw [← List.take_append_drop 17 text, List.drop_eq_getElem_cons within, character]
        have length : (text.take 17).length = 17 := by simp [long]
        rw [split, all_macCharacter_masked _ _ length] at valid
        exact .inr ⟨_, _, split, (pairsOf_iff 5 _).mpr ⟨length, valid.1⟩,
          (pairsOf_iff 5 _).mpr ⟨by simp [long], valid.2⟩⟩
  next =>
    rintro (rfl | pairs | ⟨address, mask, rfl, first, second⟩)
    · rfl
    · obtain ⟨length, characters⟩ := (pairsOf_iff 5 text).mp pairs
      have all : (text.zipIdx.all fun (c, i) => macCharacter i c) = true := by
        refine (all_macCharacter text).mpr fun i c found => ?_
        have within := (List.getElem?_eq_some_iff.mp found).1
        exact (macCharacter_iff (by omega)).mpr (characters i c found)
      simp [isValidMacAddress, length, all]
    · obtain ⟨firstLength, firstCharacters⟩ := (pairsOf_iff 5 address).mp first
      obtain ⟨secondLength, secondCharacters⟩ := (pairsOf_iff 5 mask).mp second
      have all : ((address ++ '/' :: mask).zipIdx.all fun (c, i) => macCharacter i c) = true :=
        (all_macCharacter _).mpr
          ((all_macCharacter_masked address mask firstLength).mpr ⟨firstCharacters, secondCharacters⟩)
      have here : (address ++ '/' :: mask)[17]? = some '/' := by
        rw [List.getElem?_append_right (by omega), firstLength]
        rfl
      have size : (address ++ '/' :: mask).length = 35 := by simp [firstLength, secondLength]
      simp only [isValidMacAddress, size, here, all]
      rfl

def MacCheckExact (text : Text) : Prop :=
  (isValidMacAddress (some text) = true ↔ MacOf isHexAlphaOrDigit text) ∧
    (isValidMacAddress (some text) = true →
      ∀ character ∈ convertedCharacters text, ∃ c, character = some c ∧ isHexAlphaOrDigit c = true)

theorem macCheck_empty : ¬ MacCheckExact [] := by
  rintro ⟨_, digits⟩
  obtain ⟨c, present, _⟩ := digits rfl none (by decide)
  cases present

theorem macOf_hexadecimal_iff (text : Text) :
    MacOf isHexAlphaOrDigit text ↔
      MacOf isAlphaOrDigit text ∧ ¬ ∃ c ∈ text, isAlpha c = true ∧ isHexAlpha c = false := by
  constructor
  next =>
    intro hex
    refine ⟨hex.strengthen fun c _ digit => ((isHexAlphaOrDigit_iff c).mp digit).1, ?_⟩
    rintro ⟨c, member, letter, other⟩
    obtain digit | rfl | rfl := hex.member member
    · exact ((isHexAlphaOrDigit_iff c).mp digit).2 ⟨letter, other⟩
    · cases letter
    · cases letter
  next =>
    rintro ⟨shaped, without⟩
    refine shaped.strengthen fun c member alphaOrDigit => (isHexAlphaOrDigit_iff c).mpr ⟨alphaOrDigit, ?_⟩
    rintro ⟨letter, other⟩
    exact without ⟨c, member, letter, other⟩

theorem macCheck_exact_iff (text : Text) :
    MacCheckExact text ↔
      text ≠ [] ∧ ¬ (MacOf isAlphaOrDigit text ∧ ∃ c ∈ text, isAlpha c = true ∧ isHexAlpha c = false) := by
  by_cases empty : text = []
  next =>
    subst empty
    simp [macCheck_empty]
  next =>
    have accepted : isValidMacAddress (some text) = true ↔ MacOf isAlphaOrDigit text := by
      rw [isValidMacAddress_iff]
      exact or_iff_right empty
    rw [MacCheckExact, accepted]
    constructor
    · rintro ⟨agrees, _⟩
      refine ⟨empty, ?_⟩
      rintro ⟨shaped, letter⟩
      exact ((macOf_hexadecimal_iff text).mp (agrees.mp shaped)).2 letter
    · rintro ⟨_, without⟩
      have hex (shaped : MacOf isAlphaOrDigit text) : MacOf isHexAlphaOrDigit text :=
        (macOf_hexadecimal_iff text).mpr ⟨shaped, fun letter => without ⟨shaped, letter⟩⟩
      exact ⟨⟨hex, fun digits => ((macOf_hexadecimal_iff text).mp digits).1⟩, fun shaped => (hex shaped).converted⟩

theorem letters_pass_as_hexadecimal : ¬ MacCheckExact "GG:00:00:00:00:00".toList := by
  rintro ⟨_, digits⟩
  obtain ⟨c, here, digit⟩ := digits (by decide) (some 'G') (by decide)
  obtain rfl := Option.some.inj here
  exact absurd digit (by decide)

end Checking

end CcspCommon.DslhVarRecord
