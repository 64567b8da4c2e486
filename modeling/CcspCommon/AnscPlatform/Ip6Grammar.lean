import CcspCommon.AnscPlatform.Ip6Address

set_option autoImplicit false

namespace CcspCommon.AnscPlatform

open CcspCommon.Shared

section Gap

/-- When the loop has moved `i` bytes to the end. -/
theorem shiftLoop_bytes {stored : List UInt8} {colonp : Nat} (inside : colonp ≤ stored.length)
    (room : stored.length < 16)
    {i : Nat} (few : i ≤ stored.length - colonp) (index : Nat) :
    (shiftLoop colonp (stored.length - colonp) i (stored ++ List.replicate (16 - stored.length) 0))[index]? =
      if index < stored.length - i then stored[index]?
      else if index < 16 - i then some 0
      else if index < 16 then stored[index - (16 - stored.length)]? else none := by
  induction i generalizing index with
  | zero =>
    rw [shiftLoop]
    by_cases own : index < stored.length
    next => rw [if_pos (by omega), List.getElem?_append_left own]
    next =>
      rw [if_neg (by omega), List.getElem?_append_right (by omega), List.getElem?_replicate]
      by_cases last : index < 16
      next => rw [if_pos (by omega), if_pos (by omega)]
      next => rw [if_neg (by omega), if_neg (by omega), if_neg (by omega)]
  | succ i ih =>
    have before := ih (by omega)
    have place : colonp + (stored.length - colonp - (i + 1)) = stored.length - (i + 1) := by omega
    rw [shiftLoop, place]
    generalize
      shiftLoop colonp (stored.length - colonp) i (stored ++ List.replicate (16 - stored.length) 0) = tmp at before ⊢
    have full : tmp.length = 16 := by
      have inner := before 15
      have outer := before 16
      rw [if_neg (by omega), if_neg (by omega), if_neg (by omega), List.getElem?_eq_none_iff] at outer
      by_contra short
      have none : tmp[15]? = none := List.getElem?_eq_none (by omega)
      rw [none, if_neg (by omega)] at inner
      by_cases first : 15 < 16 - i
      next =>
        rw [if_pos first] at inner
        cases inner
      next =>
        have value : stored[15 - (16 - stored.length)]? = some stored[15 - (16 - stored.length)] :=
          List.getElem?_eq_getElem (by omega)
        rw [if_neg first, if_pos (by decide), value] at inner
        cases inner
    have value : tmp.getD (stored.length - (i + 1)) 0 = stored.getD (stored.length - (i + 1)) 0 := by
      rw [List.getD_eq_getElem?_getD, List.getD_eq_getElem?_getD, before, if_pos (by omega)]
    have read : stored[stored.length - (i + 1)]? = some (stored.getD (stored.length - (i + 1)) 0) := by
      rw [List.getD_eq_getElem _ _ (by omega)]
      exact List.getElem?_eq_getElem (by omega)
    rw [value, List.getElem?_set, List.getElem?_set, List.length_set, full]
    by_cases one : index = stored.length - (i + 1)
    next => rw [if_pos one.symm, if_pos (by omega), if_neg (by omega), if_pos (by omega)]
    next =>
      rw [if_neg (Ne.symm one)]
      by_cases two : index = 16 - (i + 1)
      next =>
        have source : index - (16 - stored.length) = stored.length - (i + 1) := by omega
        rw [if_pos two.symm, if_pos (by omega), if_neg (by omega), if_neg (by omega), if_pos (by omega), source, read]
      next =>
        rw [if_neg (Ne.symm two), before]
        by_cases low : index < stored.length - i
        next => rw [if_pos low, if_pos (by omega)]
        next =>
          have shrunk : ¬ index < stored.length - (i + 1) := by omega
          have tight : index < 16 - i ↔ index < 16 - (i + 1) := by omega
          rw [if_neg low, if_neg shrunk]
          simp only [tight]

theorem ip6Place_gap {front back : List UInt8} (room : front.length + back.length < 16) :
    ip6Place (front ++ back) (some front.length) =
      .ok (front ++ List.replicate (16 - (front.length + back.length)) 0 ++ back) := by
  have size : (front ++ back).length = front.length + back.length := List.length_append
  have inside : front.length ≤ (front ++ back).length := by omega
  rw [ip6Place]
  dsimp only
  rw [if_neg (by omega)]
  congr 1
  apply List.ext_getElem?
  intro index
  rw [shiftLoop_bytes inside (by omega) (Nat.le_refl _) index, size, Nat.add_sub_cancel_left, List.append_assoc]
  by_cases low : index < front.length
  next => rw [if_pos (by omega), List.getElem?_append_left low, List.getElem?_append_left low]
  next =>
    have behind : (front ++ (List.replicate (16 - (front.length + back.length)) 0 ++ back))[index]? =
        (List.replicate (16 - (front.length + back.length)) 0 ++ back)[index - front.length]? :=
      List.getElem?_append_right (by omega)
    rw [if_neg (by omega), behind]
    by_cases middle : index < 16 - back.length
    next =>
      rw [if_pos middle, List.getElem?_append_left (by rw [List.length_replicate]; omega), List.getElem?_replicate,
        if_pos (by omega)]
    next =>
      have last : (List.replicate (16 - (front.length + back.length)) 0 ++ back)[index - front.length]? =
          back[index - front.length - (16 - (front.length + back.length))]? := by
        rw [List.getElem?_append_right (by rw [List.length_replicate]; omega), List.length_replicate]
      rw [if_neg middle, last]
      by_cases within : index < 16
      next =>
        have source : index - (16 - (front.length + back.length)) - front.length =
          index - front.length - (16 - (front.length + back.length)) := by omega
        rw [if_pos within, List.getElem?_append_right (by omega), source]
      next => rw [if_neg within, List.getElem?_eq_none (by omega)]

end Gap

section Tails

theorem isHex_of_isDigit {c : Char} (digit : c.isDigit = true) : isHexAlphaOrDigit c = true := by
  rw [isHexAlphaOrDigit, digit, Bool.or_true]

theorem hexFold_lt {digits : Text} (hex : AllHex digits) (val : Nat) :
    hexFold val digits < (val + 1) * 16 ^ digits.length := by
  induction digits generalizing val with
  | nil =>
    change val < (val + 1) * 1
    omega
  | cons ch rest ih =>
    have digit := hexDigit_lt (hex ch List.mem_cons_self)
    have later := ih (fun c member => hex c (List.mem_cons_of_mem ch member)) (val * 16 + hexDigit ch)
    change hexFold (val * 16 + hexDigit ch) rest < _
    calc hexFold (val * 16 + hexDigit ch) rest
        < (val * 16 + hexDigit ch + 1) * 16 ^ rest.length := later
      _ ≤ ((val + 1) * 16) * 16 ^ rest.length := Nat.mul_le_mul_right _ (by omega)
      _ = (val + 1) * 16 ^ (ch :: rest).length := by rw [List.length_cons, Nat.pow_succ, Nat.mul_assoc, Nat.mul_comm 16]

theorem hexFold_short {digits : Text} (hex : AllHex digits) (short : digits.length ≤ 4) :
    hexFold 0 digits ≤ 0xFFFF := by
  have bound := hexFold_lt hex 0
  have most : 16 ^ digits.length ≤ 16 ^ 4 := Nat.pow_le_pow_right (by decide) short
  omega

structure IsTail (text : Text) : Prop where
  mixed : ¬ AllHex text
  dotted : IsDotted text
  free : ':' ∉ text

theorem isTail_of_isValid {text : Text} (valid : isValidIpString text = true) : IsTail text := by
  obtain ⟨_, four, octets⟩ := (isValidIpString_iff text).mp valid
  rw [tokens_eq] at four octets
  have whole := joinTokens_fields '.' text
  have chars (c : Char) (member : c ∈ text) : c = '.' ∨ c.isDigit = true := by
    rw [← whole] at member
    cases mem_joinTokens member with
    | inl dot => exact .inl dot
    | inr inside =>
      obtain ⟨field, here, found⟩ := inside
      have octet := octets field (List.mem_filter.mpr ⟨here, by simpa using List.ne_nil_of_mem found⟩)
      exact .inr (octet.digits c found)
  cases split : fields '.' text with
  | nil => exact absurd split (fields_ne_nil '.' text)
  | cons first others =>
    rw [split] at whole octets four
    cases others with
    | nil =>
      have size := List.length_filter_le (· ≠ []) [first]
      rw [four, List.length_singleton] at size
      omega
    | cons next more =>
      have firstDigits : ∀ c ∈ first, c.isDigit = true := by
        intro c member
        have named : first ∈ (first :: next :: more).filter (· ≠ []) :=
          List.mem_filter.mpr ⟨List.mem_cons_self, by simpa using List.ne_nil_of_mem member⟩
        exact (octets first named).digits c member
      have short : first.length ≤ 3 := by
        by_cases empty : first = []
        next => rw [empty]; decide
        next => exact (octets first (List.mem_filter.mpr ⟨List.mem_cons_self, by simpa using empty⟩)).short
      have hex : AllHex first := fun c member => isHex_of_isDigit (firstDigits c member)
      have dot : isHexAlphaOrDigit '.' = false := by decide
      rw [joinTokens] at whole
      constructor
      next =>
        intro all
        have wrong := all '.' (by rw [← whole]; simp)
        rw [dot] at wrong
        cases wrong
      next =>
        rw [IsDotted, ← whole, List.dropWhile_append_of_pos hex, List.takeWhile_append_of_pos hex,
          List.dropWhile_cons_of_neg (by simp [dot]), List.takeWhile_cons_of_neg (by simp [dot]), List.append_nil]
        exact ⟨rfl, hexFold_short hex (by omega)⟩
      next =>
        intro colon
        cases chars ':' colon with
        | inl same => exact absurd same (by decide)
        | inr digit => exact absurd digit (by decide)

theorem IsTail.nonempty {text : Text} (tail : IsTail text) : text ≠ [] := by
  rintro rfl
  exact tail.mixed fun c member => absurd member List.not_mem_nil

theorem isValidIpString_colon {text : Text} (colon : ':' ∈ text) : ¬ isValidIpString text = true :=
  fun valid => (isTail_of_isValid valid).free colon

theorem readTail_valid {machine : Machine} {text : Text} (valid : isValidIpString text = true) {stored : List UInt8}
    (room : stored.length + 4 ≤ 16) (colonp : Option Nat) :
    readFields machine true [text] stored colonp = .ok (stored ++ dots machine (inetAddr machine text), colonp) := by
  have tail := isTail_of_isValid valid
  rw [readFields, if_neg tail.mixed, readTail, if_pos ⟨tail.dotted, room⟩, if_neg (by decide), if_pos valid]

end Tails

section Octets

-- A number with a zero in front that is read in octal notation, with another value or with none.
def OctalRead (number : Text) : Prop := number.head? = some '0' ∧ 8 ≤ Nat.ofDigitChars 10 number 0

def quadBytes (text : Text) : List UInt8 :=
  (fields '.' text).map fun number => UInt8.ofNat (Nat.ofDigitChars 10 number 0)

theorem digit_range {c : Char} (digit : c.isDigit = true) : 48 ≤ c.toNat ∧ c.toNat ≤ 57 := by
  obtain ⟨low, high⟩ := Char.isDigit_iff_toNat.mp digit
  exact ⟨low, high⟩

theorem octal_iff (c : Char) : decide (c ≤ '7') = true ↔ c.toNat ≤ 55 := by
  rw [decide_eq_true_eq, Char.le_def, UInt32.le_iff_toNat_le]
  rfl

theorem inetPart_octet {number : Text} (octet : IsOctetText number) :
    (¬ OctalRead number → inetPart number = some (Nat.ofDigitChars 10 number 0)) ∧
      (OctalRead number → Nat.ofDigitChars 10 number 0 < 255 ∧
        ∀ value, inetPart number = some value → value < 256 ∧ value ≠ Nat.ofDigitChars 10 number 0) := by
  have digits := octet.digits
  have string : isDigitString number = true := List.all_eq_true.mpr digits
  cases number with
  | nil => exact absurd rfl octet.nonempty
  | cons first rest =>
    rw [List.forall_mem_cons] at digits
    have firstRange := digit_range digits.1
    by_cases zero : first = '0'
    next =>
      subst zero
      cases rest with
      | nil =>
        constructor
        next => intro _; rfl
        next => intro octal; exact absurd octal.2 (by decide)
      | cons second rest =>
        rw [List.forall_mem_cons] at digits
        have secondRange := digit_range digits.2.1
        have noHex : (second = 'x' || second = 'X') = false := by
          rw [Bool.or_eq_false_iff, decide_eq_false_iff_not, decide_eq_false_iff_not]
          constructor
          next => rintro rfl; exact absurd digits.2.1 (by decide)
          next => rintro rfl; exact absurd digits.2.1 (by decide)
        have octalRead : inetPart ('0' :: second :: rest) =
            if ((second :: rest).all fun c => c.isDigit && c ≤ '7') = true then
              some (Nat.ofDigitChars 8 (second :: rest) 0) else none := by
          rw [inetPart, noHex, if_neg Bool.false_ne_true]
        have code : '0'.toNat = 48 := rfl
        have small : (second.isDigit && decide (second ≤ '7')) = true ↔ second.toNat ≤ 55 := by
          rw [digits.2.1, Bool.true_and, octal_iff]
        cases rest with
        | nil =>
          have ten : Nat.ofDigitChars 10 ['0', second] 0 = second.toNat - 48 := by
            simp [Nat.ofDigitChars_cons, Nat.ofDigitChars_nil, code]
          have eight : Nat.ofDigitChars 8 [second] 0 = second.toNat - 48 := by
            simp [Nat.ofDigitChars_cons, Nat.ofDigitChars_nil, code]
          simp only [octalRead, OctalRead, ten, eight, List.all_cons, List.all_nil, Bool.and_true, small]
          constructor
          next =>
            intro plain
            rw [if_pos]
            by_contra large
            exact plain ⟨rfl, by omega⟩
          next =>
            intro octal
            refine ⟨by omega, fun value read => ?_⟩
            rw [if_neg (by omega)] at read
            cases read
        | cons third rest =>
          rw [List.forall_mem_cons] at digits
          have thirdRange := digit_range digits.2.2.1
          have last : rest = [] := by
            have short := octet.short
            simp only [List.length_cons] at short
            exact List.eq_nil_of_length_eq_zero (by omega)
          subst last
          have smallThird : (third.isDigit && decide (third ≤ '7')) = true ↔ third.toNat ≤ 55 := by
            rw [digits.2.2.1, Bool.true_and, octal_iff]
          have ten : Nat.ofDigitChars 10 ['0', second, third] 0 = 10 * (second.toNat - 48) + (third.toNat - 48) := by
            simp [Nat.ofDigitChars_cons, Nat.ofDigitChars_nil, code]
          have eight : Nat.ofDigitChars 8 [second, third] 0 = 8 * (second.toNat - 48) + (third.toNat - 48) := by
            simp [Nat.ofDigitChars_cons, Nat.ofDigitChars_nil, code]
          have both : (second.isDigit && decide (second ≤ '7') && (third.isDigit && decide (third ≤ '7'))) = true ↔
              second.toNat ≤ 55 ∧ third.toNat ≤ 55 := by
            rw [Bool.and_eq_true, small, smallThird]
          simp only [octalRead, OctalRead, ten, eight, List.all_cons, List.all_nil, Bool.and_true, both]
          constructor
          next =>
            intro plain
            have value : 10 * (second.toNat - 48) + (third.toNat - 48) < 8 := by
              by_contra large
              exact plain ⟨rfl, by omega⟩
            rw [if_pos (by omega)]
            congr 1
            omega
          next =>
            intro octal
            refine ⟨by omega, fun value read => ?_⟩
            split at read
            next =>
              have same := Option.some.inj read
              have large := octal.2
              omega
            next => cases read
    next =>
      have decimalRead : inetPart (first :: rest) = some (Nat.ofDigitChars 10 (first :: rest) 0) := by
        unfold inetPart
        split
        next empty => cases empty
        next x more text => exact absurd (List.cons.inj text).1 zero
        next => rw [if_pos string]
      constructor
      next => intro _; exact decimalRead
      next =>
        intro octal
        exact absurd (Option.some.inj octal.1) zero

theorem inetParts_four {a b c d : Nat} (one : a < 256) (two : b < 256) (three : c < 256) (four : d < 256) :
    inetParts 4 [a, b, c, d] = some (a * 16777216 + b * 65536 + c * 256 + d) := by
  have last : d < 256 ^ 1 := by omega
  simp only [inetParts, one, two, three, last, if_true, Option.map_some, Option.some.injEq]
  omega

theorem octets_four {a b c d : Nat} (one : a < 256) (two : b < 256) (three : c < 256) (four : d < 256) :
    octets (a * 16777216 + b * 65536 + c * 256 + d) = [a, b, c, d] := by
  simp only [octets, List.cons.injEq, and_true]
  omega

theorem octets_byteSwap (address : Nat) : octets (byteSwap address) = (octets address).reverse := by
  have zero := Nat.mod_lt address (show 0 < 256 by decide)
  have one := Nat.mod_lt (address / 256) (show 0 < 256 by decide)
  have two := Nat.mod_lt (address / 65536) (show 0 < 256 by decide)
  have three := Nat.mod_lt (address / 16777216) (show 0 < 256 by decide)
  exact octets_four zero one two three

theorem dots_networkOrder (machine : Machine) (address : Nat) :
    dots machine (networkOrder machine address) = (octets address).map UInt8.ofNat := by
  rw [dots, networkOrder]
  cases machine.littleEndian with
  | false => rfl
  | true => simp only [if_true, octets_byteSwap, List.map_reverse, List.reverse_reverse]

theorem dots_none (machine : Machine) : dots machine 0xFFFFFFFF = [255, 255, 255, 255] := by
  rw [dots]
  cases machine.littleEndian <;> rfl

theorem ofNat_inj {a b : Nat} (first : a < 256) (second : b < 256) (same : UInt8.ofNat a = UInt8.ofNat b) : a = b := by
  have values := congrArg UInt8.toNat same
  rwa [UInt8.toNat_ofNat_of_lt' first, UInt8.toNat_ofNat_of_lt' second] at values

theorem inetPart_read {number : Text} (octet : IsOctetText number) {value : Nat} (read : inetPart number = some value) :
    value < 256 ∧ (value = Nat.ofDigitChars 10 number 0 ↔ ¬ OctalRead number) := by
  obtain ⟨plain, octal⟩ := inetPart_octet octet
  by_cases kind : OctalRead number
  next =>
    obtain ⟨bound, differs⟩ := (octal kind).2 value read
    exact ⟨bound, iff_of_false differs (not_not_intro kind)⟩
  next =>
    have small := octet.small
    rw [plain kind] at read
    have same := Option.some.inj read
    rw [← same]
    exact ⟨by omega, iff_of_true rfl kind⟩

theorem dots_quad (machine : Machine) {text : Text} (quad : IsDottedQuad text) :
    dots machine (inetAddr machine text) = quadBytes text ↔ ∀ number ∈ fields '.' text, ¬ OctalRead number := by
  obtain ⟨four, numbers⟩ := (isDottedQuad_iff text).mp quad
  obtain ⟨first, second, third, last, split⟩ := exists_of_length_four four
  rw [inetAddr, quadBytes, split]
  rw [split] at numbers
  simp only [List.forall_mem_cons] at numbers ⊢
  obtain ⟨one, two, three, four, _⟩ := numbers
  have a := one.small
  have b := two.small
  have c := three.small
  have d := four.small
  cases whole : [first, second, third, last].mapM inetPart with
  | none =>
    rw [Option.bind_none, dots_none]
    constructor
    next =>
      intro same
      -- no number that is read in octal notation is 255
      have largest (number : Text) (octet : IsOctetText number)
          (equal : (255 : UInt8) = UInt8.ofNat (Nat.ofDigitChars 10 number 0)) : ¬ OctalRead number := by
        intro octal
        have small := octet.small
        have value := ofNat_inj (a := 255) (by decide) (by omega) equal
        have bound := ((inetPart_octet octet).2 octal).1
        omega
      simp only [List.map_cons, List.map_nil, List.cons.injEq, and_true] at same
      exact ⟨largest first one same.1, largest second two same.2.1, largest third three same.2.2.1,
        largest last four same.2.2.2, fun number member => absurd member List.not_mem_nil⟩
    next =>
      intro plain
      simp only [List.mapM_cons, List.mapM_nil, (inetPart_octet one).1 plain.1, (inetPart_octet two).1 plain.2.1,
        (inetPart_octet three).1 plain.2.2.1, (inetPart_octet four).1 plain.2.2.2.1] at whole
      cases whole
  | some values =>
    simp only [List.mapM_cons, List.mapM_nil, Option.bind_eq_bind, Option.bind_eq_some_iff, Option.pure_def,
      Option.some.injEq] at whole
    obtain ⟨va, readA, _, ⟨vb, readB, _, ⟨vc, readC, _, ⟨vd, readD, _, nil, restD⟩, restC⟩, restB⟩, restA⟩ := whole
    obtain ⟨smallA, sameA⟩ := inetPart_read one readA
    obtain ⟨smallB, sameB⟩ := inetPart_read two readB
    obtain ⟨smallC, sameC⟩ := inetPart_read three readC
    obtain ⟨smallD, sameD⟩ := inetPart_read four readD
    rw [← restA, ← restB, ← restC, ← restD, ← nil, Option.bind_some, inetParts_four smallA smallB smallC smallD]
    dsimp only
    rw [dots_networkOrder, octets_four smallA smallB smallC smallD]
    have byte (value number : Nat) (first : value < 256) (second : number ≤ 255) :
        UInt8.ofNat value = UInt8.ofNat number ↔ value = number := by
      constructor
      next => exact ofNat_inj first (by omega)
      next => rintro rfl; rfl
    simp only [List.map_cons, List.map_nil, List.cons.injEq, and_true, byte _ _ smallA a, byte _ _ smallB b,
      byte _ _ smallC c, byte _ _ smallD d, sameA, sameB, sameC, sameD]
    simp

end Octets

section Forms

structure IsGroupText (group : Text) : Prop where
  nonempty : group ≠ []
  hex : AllHex group
  short : group.length ≤ 4

theorem IsGroupText.group {group : Text} (proper : IsGroupText group) : IsGroup group :=
  ⟨proper.nonempty, proper.hex, hexFold_short proper.hex proper.short⟩

structure Ip6Form where
  before : Option (List Text)
  after : List Text
  tail : Option Text

namespace Ip6Form

def pieces (form : Ip6Form) : List Text := form.after ++ form.tail.toList

def groups (form : Ip6Form) : List Text := form.before.getD [] ++ form.after

def units (form : Ip6Form) : Nat := form.groups.length + 2 * form.tail.toList.length

def text (form : Ip6Form) : Text :=
  match form.before with
  | none => joinTokens ':' form.pieces
  | some groups => joinTokens ':' groups ++ ([':', ':'] ++ joinTokens ':' form.pieces)

def bytes (form : Ip6Form) (tailBytes : Text → List UInt8) : List UInt8 :=
  groupsBytes (form.before.getD []) ++ List.replicate (16 - 2 * form.units) 0 ++
    (groupsBytes form.after ++ form.tail.toList.flatMap tailBytes)

structure Proper (form : Ip6Form) : Prop where
  groups : ∀ group ∈ form.groups, IsGroupText group
  tail : ∀ tail ∈ form.tail.toList, IsDottedQuad tail
  full : form.before = none → form.units = 8
  gap : form.before ≠ none → form.units ≤ 7

/-- What the parser takes for an address. -/
structure Loose (form : Ip6Form) : Prop where
  groups : ∀ group ∈ form.groups, IsGroup group
  tail : ∀ tail ∈ form.tail.toList, isValidIpString tail = true
  full : form.before = none → form.units = 8
  gap : form.before ≠ none → form.units ≤ 7
  -- a gap at the beginning stands for two groups at least
  leading : form.before = some [] → form.units ≤ 6 ∧ form.text.length ≤ 126

def ends (pieces : List Text) : List Text := if pieces = [] then [[]] else pieces

def parts (form : Ip6Form) : List Text :=
  match form.before with
  | none => ends form.pieces
  | some [] => [] :: [] :: ends form.pieces
  | some groups => groups ++ [] :: ends form.pieces

theorem ends_ne_nil (pieces : List Text) : ends pieces ≠ [] := by
  rw [ends]
  split
  next => exact List.cons_ne_nil _ _
  next nonempty => exact nonempty

theorem joinTokens_ends (pieces : List Text) : joinTokens ':' (ends pieces) = joinTokens ':' pieces := by
  rw [ends]
  split
  next empty => rw [empty]; rfl
  next => rfl

theorem mem_ends {pieces : List Text} {part : Text} (member : part ∈ ends pieces) : part = [] ∨ part ∈ pieces := by
  rw [ends] at member
  split at member
  next => exact .inl (List.mem_singleton.mp member)
  next => exact .inr member

theorem joinTokens_cons (separator : Char) (first : Text) {rest : List Text} (nonempty : rest ≠ []) :
    joinTokens separator (first :: rest) = first ++ separator :: joinTokens separator rest := by
  cases rest with
  | nil => exact absurd rfl nonempty
  | cons next more => rw [joinTokens]

theorem text_eq (form : Ip6Form) : form.text = joinTokens ':' form.parts := by
  have nonempty := ends_ne_nil form.pieces
  rw [text, parts]
  cases form.before with
  | none => exact (joinTokens_ends form.pieces).symm
  | some groups =>
    have gap : joinTokens ':' ([] :: ends form.pieces) = ':' :: joinTokens ':' form.pieces := by
      rw [joinTokens_cons ':' [] nonempty, joinTokens_ends, List.nil_append]
    cases groups with
    | nil =>
      dsimp only
      rw [joinTokens_cons ':' [] (List.cons_ne_nil _ _), gap]
      rfl
    | cons group others =>
      dsimp only
      rw [joinTokens_append, if_neg (List.cons_ne_nil _ _), if_neg (List.cons_ne_nil _ _), gap]
      rfl

theorem mem_parts {form : Ip6Form} {part : Text} (member : part ∈ form.parts) :
    part = [] ∨ part ∈ form.groups ∨ part ∈ form.tail.toList := by
  have behind (inside : part ∈ ends form.pieces) : part = [] ∨ part ∈ form.groups ∨ part ∈ form.tail.toList := by
    cases mem_ends inside with
    | inl empty => exact .inl empty
    | inr here =>
      cases List.mem_append.mp here with
      | inl after => exact .inr (.inl (List.mem_append_right _ after))
      | inr tail => exact .inr (.inr tail)
  cases kind : form.before with
  | none =>
    rw [parts, kind] at member
    exact behind member
  | some groups =>
    cases groups with
    | nil =>
      rw [parts, kind] at member
      dsimp only at member
      rw [List.mem_cons, List.mem_cons] at member
      cases member with
      | inl empty => exact .inl empty
      | inr member =>
        cases member with
        | inl empty => exact .inl empty
        | inr inside => exact behind inside
    | cons group others =>
      rw [parts, kind] at member
      dsimp only at member
      cases List.mem_append.mp member with
      | inl front =>
        have inside : part ∈ form.groups := by
          rw [Ip6Form.groups, kind]
          exact List.mem_append_left _ front
        exact .inr (.inl inside)
      | inr member =>
        cases List.mem_cons.mp member with
        | inl empty => exact .inl empty
        | inr inside => exact behind inside

theorem pieces_mem_parts {form : Ip6Form} {part : Text} (member : part ∈ form.groups ∨ part ∈ form.tail.toList) :
    part ∈ form.parts := by
  have whole (inside : part ∈ form.pieces) : part ∈ ends form.pieces := by
    rw [ends, if_neg (List.ne_nil_of_mem inside)]
    exact inside
  cases kind : form.before with
  | none =>
    rw [Ip6Form.groups, kind] at member
    rw [parts, kind]
    exact whole (List.mem_append.mpr member)
  | some groups =>
    rw [Ip6Form.groups, kind, Option.getD_some, List.mem_append, or_assoc] at member
    rw [parts, kind]
    cases groups with
    | nil =>
      cases member with
      | inl impossible => exact absurd impossible List.not_mem_nil
      | inr inside => exact List.mem_cons_of_mem _ (List.mem_cons_of_mem _ (whole (List.mem_append.mpr inside)))
    | cons group others =>
      cases member with
      | inl front => exact List.mem_append_left _ front
      | inr inside =>
        exact List.mem_append_right _ (List.mem_cons_of_mem _ (whole (List.mem_append.mpr inside)))

end Ip6Form

theorem AllHex.free {text : Text} (hex : AllHex text) : ':' ∉ text ∧ '.' ∉ text := by
  constructor
  next =>
    intro member
    have wrong := hex ':' member
    revert wrong
    decide
  next =>
    intro member
    have wrong := hex '.' member
    revert wrong
    decide

namespace Ip6Form

theorem fields_text {form : Ip6Form} (groups : ∀ group ∈ form.groups, AllHex group)
    (tails : ∀ tail ∈ form.tail.toList, ':' ∉ tail) : fields ':' form.text = form.parts := by
  have nonempty : form.parts ≠ [] := by
    rw [parts]
    split
    next => exact ends_ne_nil _
    next => exact List.cons_ne_nil _ _
    next => simp
  rw [text_eq, fields_joinTokens ':' nonempty]
  intro part member
  cases mem_parts member with
  | inl empty => rw [empty]; exact List.not_mem_nil
  | inr inside =>
    cases inside with
    | inl group => exact (groups part group).free.1
    | inr tail => exact tails part tail

theorem Proper.fields_text {form : Ip6Form} (proper : form.Proper) : fields ':' form.text = form.parts := by
  apply Ip6Form.fields_text
  next => exact fun group member => (proper.groups group member).hex
  next =>
    intro tail member
    have quad := proper.tail tail member
    have none : [] ∉ fields '.' tail := fun empty => quad.nonempty [] empty rfl
    exact (isTail_of_isValid ((isValidIpString_whole none).mpr quad)).free

theorem Loose.fields_text {form : Ip6Form} (loose : form.Loose) : fields ':' form.text = form.parts := by
  apply Ip6Form.fields_text
  next => exact fun group member => (loose.groups group member).hex
  next => exact fun tail member => (isTail_of_isValid (loose.tail tail member)).free

end Ip6Form

end Forms

end CcspCommon.AnscPlatform
