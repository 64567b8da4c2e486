import CcspCommon.AnscPlatform.IpString
import CcspCommon.SlapVarConverter.VarString

set_option autoImplicit false

namespace CcspCommon.SlapVarConverter

open CcspCommon.Shared CcspCommon.AnscPlatform

section Conversion

variable (machine : Machine)

def intOfUlong {machine : Machine} (value : machine.Ulong) : Int := (value.toNat : Int).bmod 4294967296

def arcPiece {machine : Machine} (arc : machine.Ulong) : Text := decimal (intOfUlong arc) ++ ['.']

def oidListToString (limit : Nat) (oid_list : List machine.Ulong) : Except Failure Text :=
  if oid_list.length = 0 then .ok []
  else
    match printPieces limit (oid_list.length * 16 + 1) (oid_list.map arcPiece) [] with
    | .error failure => .error failure
    -- the last character is overwritten
    | .ok var_string => .ok var_string.dropLast

/-- The loop of `AnscAsn1ConvOid`, for the identifiers that are left. There is no end of the string in a
`digitString` of 16 characters; the identifiers are zero before they are filled in. -/
def convLoop : Nat → Text → Except Failure (List machine.Ulong)
  | 0, _ => .ok []
  | left + 1, pSubOidString =>
    let digitString := (pSubOidString.takeWhile (· ≠ '.')).take 16
    let pSubOidString := pSubOidString.drop digitString.length
    if digitString.length = 16 then .error .outside
    else
      let identifier := getStringUlong machine digitString
      if pSubOidString.head? = some '.' then
        match convLoop left (pSubOidString.drop 1) with
        | .error failure => .error failure
        | .ok identifiers => .ok (identifier :: identifiers)
      else .ok (identifier :: List.replicate left 0)

def convOid (pOidString : Text) : Except Failure (List machine.Ulong) :=
  if pOidString.length = 0 then .ok []
  else if pOidString.head? = some '.' ∨ pOidString.getLast? = some '.' then .error .null
  else convLoop machine (pOidString.count '.' + 1) pOidString

def stringToOidList (oid_list : Text) : Except Failure (List machine.Ulong) := convOid machine oid_list

end Conversion

section Arcs

variable {machine : Machine}

def readArc (arc : machine.Ulong) : machine.Ulong := getStringUlong machine (decimal (intOfUlong arc))

theorem bits_cases (machine : Machine) : machine.ulongSize.bits = 32 ∨ machine.ulongSize.bits = 64 := by
  cases machine.ulongSize
  next => exact .inl rfl
  next => exact .inr rfl

theorem intOfUlong_small {arc : machine.Ulong} (small : arc.toNat < 2 ^ 31) : intOfUlong arc = arc.toNat := by
  apply Int.bmod_eq_of_le
  · omega
  · omega

theorem intOfUlong_large {arc : machine.Ulong} (large : 2 ^ 31 ≤ arc.toNat) (small : arc.toNat < 2 ^ 32) :
    ∃ n, intOfUlong arc = .negSucc n ∧ arc.toNat + (n + 1) = 2 ^ 32 := by
  refine ⟨2 ^ 32 - arc.toNat - 1, ?_, by omega⟩
  unfold intOfUlong
  generalize arc.toNat = value at *
  rw [Int.bmod_def]
  split <;> omega

theorem decimal_short {n : Nat} (small : n < 2 ^ 32) : (Nat.toDigits 10 n).length ≤ 10 :=
  (Nat.length_toDigits_le_iff (by decide) (by decide)).mpr (by omega)

theorem readArc_small {arc : machine.Ulong} (small : arc.toNat < 2 ^ 31) : readArc arc = arc := by
  have digits : ∀ c ∈ decimal (arc.toNat : Int), c.isDigit = true := fun c member => isDigit_of_mem_decimal member
  have value : Nat.ofDigitChars 10 (decimal (arc.toNat : Int)) 0 = arc.toNat := Nat.ofDigitChars_ten_toDigits
  rw [readArc, intOfUlong_small small, getStringUlong_digits machine digits (decimal_short (by omega)), value,
    BitVec.ofNat_toNat, BitVec.setWidth_eq]

theorem getStringUlong_minus {digits : Text} (allDigits : ∀ c ∈ digits, c.isDigit = true) (short : digits.length ≤ 9) :
    getStringUlong machine ('-' :: digits) =
      BitVec.ofNat _ (Nat.ofDigitChars 10 digits 0) + BitVec.ofInt _ (-3) * BitVec.ofNat _ (10 ^ digits.length) := by
  have code : machine.charCode '-' - 48 = -3 := by
    rw [Machine.charCode]
    simp
  rw [getStringUlong, if_neg (by rw [List.length_cons]; omega), List.foldr_cons,
    sumDigits_eq machine allDigits, addDigit, code]

theorem minus_differs {arc value power : Nat} (sum : arc + value = 2 ^ 32) (bound : value < power)
    (most : power ≤ 10 ^ 9) :
    value % 2 ^ 32 ≠ (arc + 3 * power) % 2 ^ 32 ∧ value % 2 ^ 64 ≠ (arc + 3 * power) % 2 ^ 64 := by
  have wrapped : arc + 3 * power = 2 ^ 32 + (3 * power - value) := by omega
  constructor
  next =>
    rw [wrapped, Nat.add_mod_left, Nat.mod_eq_of_lt (by omega), Nat.mod_eq_of_lt (by omega)]
    omega
  next =>
    rw [Nat.mod_eq_of_lt (by omega), Nat.mod_eq_of_lt (by omega)]
    omega

theorem readArc_large {arc : machine.Ulong} (large : 2 ^ 31 ≤ arc.toNat) (small : arc.toNat < 2 ^ 32) :
    readArc arc ≠ arc := by
  obtain ⟨n, negative, sum⟩ := intOfUlong_large large small
  have digits : ∀ c ∈ Nat.toDigits 10 (n + 1), c.isDigit = true :=
    fun c member => isDigit_of_mem_decimal (n := n + 1) member
  have value : Nat.ofDigitChars 10 (Nat.toDigits 10 (n + 1)) 0 = n + 1 := Nat.ofDigitChars_ten_toDigits
  intro same
  rw [readArc, negative, decimal] at same
  by_cases short : (Nat.toDigits 10 (n + 1)).length ≤ 9
  next =>
    have bound : n + 1 < 10 ^ (Nat.toDigits 10 (n + 1)).length := by
      rw [← Nat.length_toDigits_le_iff (by decide) (Nat.length_toDigits_pos)]
    have most : 10 ^ (Nat.toDigits 10 (n + 1)).length ≤ 10 ^ 9 := Nat.pow_le_pow_right (by decide) short
    rw [getStringUlong_minus digits short, value] at same
    generalize 10 ^ (Nat.toDigits 10 (n + 1)).length = power at *
    have three : BitVec.ofInt machine.ulongSize.bits (-3) = -BitVec.ofNat _ 3 := BitVec.ofInt_neg
    have moved : BitVec.ofNat machine.ulongSize.bits (n + 1) = arc + BitVec.ofNat _ 3 * BitVec.ofNat _ power := by
      rw [three] at same
      linear_combination same
    have numbers := congrArg BitVec.toNat moved
    rw [BitVec.toNat_add, BitVec.toNat_mul, BitVec.toNat_ofNat, BitVec.toNat_ofNat, BitVec.toNat_ofNat, ← Nat.mul_mod,
      Nat.add_mod_mod] at numbers
    generalize arc.toNat = number at *
    obtain ⟨four, eight⟩ := minus_differs sum bound most
    cases bits_cases machine with
    | inl bits => exact four (by rwa [bits] at numbers)
    | inr bits => exact eight (by rwa [bits] at numbers)
  next =>
    rw [getStringUlong, if_pos (by rw [List.length_cons]; omega)] at same
    rw [← same] at large
    simp at large

theorem readArc_iff {arc : machine.Ulong} (small : arc.toNat < 2 ^ 32) : readArc arc = arc ↔ arc.toNat < 2 ^ 31 := by
  constructor
  next =>
    intro same
    by_contra large
    exact readArc_large (by omega) small same
  next => exact readArc_small

end Arcs

section RoundTrip

variable {machine : Machine}

def arcTexts (oid_list : List machine.Ulong) : List Text := oid_list.map fun arc => decimal (intOfUlong arc)

structure IsArcText (text : Text) : Prop where
  token : IsToken '.' text
  short : text.length ≤ 11

theorem isArcText (arc : machine.Ulong) : IsArcText (decimal (intOfUlong arc)) := by
  have range : -2147483648 ≤ intOfUlong arc ∧ intOfUlong arc < 2147483648 := by
    constructor
    next => exact Int.le_bmod (by decide)
    next => exact Int.bmod_lt (by decide)
  cases value : intOfUlong arc with
  | ofNat n =>
    have natural : (n : Int) = Int.ofNat n := rfl
    have proper := isToken_decimal (show '.'.isDigit = false by decide) n
    have short := decimal_short (n := n) (by omega)
    exact ⟨proper, by rw [decimal]; omega⟩
  | negSucc n =>
    have proper := isToken_decimal (show '.'.isDigit = false by decide) (n + 1)
    have short := decimal_short (n := n + 1) (by omega)
    constructor
    next =>
      constructor
      next => exact List.cons_ne_nil _ _
      next =>
        rw [decimal, List.mem_cons, not_or]
        exact ⟨by decide, proper.2⟩
    next =>
      rw [decimal, List.length_cons]
      omega

theorem flatten_dots {texts : List Text} (nonempty : texts ≠ []) :
    (texts.map (· ++ ['.'])).flatten = joinTokens '.' texts ++ ['.'] := by
  induction texts with
  | nil => exact absurd rfl nonempty
  | cons text rest ih =>
    rw [List.map_cons, List.flatten_cons]
    cases rest with
    | nil => simp [joinTokens]
    | cons next more => rw [ih (List.cons_ne_nil next more), joinTokens]; simp

theorem length_flatten_dots {texts : List Text} (proper : ∀ text ∈ texts, IsArcText text) :
    (texts.map (· ++ ['.'])).flatten.length ≤ texts.length * 12 := by
  induction texts with
  | nil => exact Nat.le_refl 0
  | cons text rest ih =>
    rw [List.forall_mem_cons] at proper
    have own := proper.1.short
    have later := ih proper.2
    rw [List.map_cons, List.flatten_cons, List.length_append, List.length_append, List.length_singleton,
      List.length_cons]
    omega

theorem convLoop_joinTokens {texts : List Text} (proper : ∀ text ∈ texts, IsArcText text) :
    convLoop machine texts.length (joinTokens '.' texts) = .ok (texts.map (getStringUlong machine)) := by
  induction texts with
  | nil => rfl
  | cons text rest ih =>
    rw [List.forall_mem_cons] at proper
    have short := proper.1.short
    have free : ∀ c ∈ text, decide (c ≠ '.') = true := by
      intro c member
      rw [decide_eq_true_eq]
      rintro rfl
      exact proper.1.token.2 member
    have whole : text.take 16 = text := List.take_of_length_le (by omega)
    cases rest with
    | nil =>
      have segment : text.takeWhile (· ≠ '.') = text := List.takeWhile_eq_self_iff.mpr free
      rw [joinTokens, List.length_singleton, convLoop]
      simp only [segment, whole]
      rw [if_neg (by omega), List.drop_length]
      rfl
    | cons next more =>
      have segment : (text ++ '.' :: joinTokens '.' (next :: more)).takeWhile (· ≠ '.') = text := by
        rw [List.takeWhile_append_of_pos free, List.takeWhile_cons_of_neg (by decide), List.append_nil]
      rw [joinTokens, List.length_cons, convLoop]
      simp only [segment, whole]
      rw [if_neg (by omega), List.drop_left, List.head?_cons, if_pos rfl, List.drop_one, List.tail_cons, ih proper.2]
      rfl

theorem count_joinTokens {texts : List Text} (nonempty : texts ≠ []) (proper : ∀ text ∈ texts, IsArcText text) :
    (joinTokens '.' texts).count '.' + 1 = texts.length := by
  induction texts with
  | nil => exact absurd rfl nonempty
  | cons text rest ih =>
    rw [List.forall_mem_cons] at proper
    have none : text.count '.' = 0 := List.count_eq_zero.mpr proper.1.token.2
    cases rest with
    | nil => rw [joinTokens, none]; rfl
    | cons next more =>
      rw [joinTokens, List.count_append, none, List.count_cons_self, Nat.zero_add,
        ih (List.cons_ne_nil next more) proper.2, List.length_cons (a := text)]

theorem ends_joinTokens {texts : List Text} (nonempty : texts ≠ []) (proper : ∀ text ∈ texts, IsArcText text) :
    (joinTokens '.' texts).head? ≠ some '.' ∧
      (joinTokens '.' texts).getLast? ≠ some '.' ∧ joinTokens '.' texts ≠ [] := by
  induction texts with
  | nil => exact absurd rfl nonempty
  | cons text rest ih =>
    rw [List.forall_mem_cons] at proper
    have own := proper.1.token
    have first : text.head? ≠ some '.' := fun head => own.2 (List.mem_of_mem_head? head)
    cases rest with
    | nil =>
      rw [joinTokens]
      exact ⟨first, fun last => own.2 (List.mem_of_getLast? last), own.1⟩
    | cons next more =>
      have later := ih (List.cons_ne_nil next more) proper.2
      rw [joinTokens, List.head?_append_of_ne_nil _ own.1, List.getLast?_append_of_ne_nil _ (List.cons_ne_nil _ _),
        List.getLast?_cons_of_ne_nil later.2.2]
      exact ⟨first, later.2.1, by simp⟩

theorem oidListToString_eq {limit : Nat} {oid_list : List machine.Ulong} (nonempty : oid_list ≠ [])
    (taken : oid_list.length * 16 + 1 ≤ limit) :
    oidListToString machine limit oid_list = .ok (joinTokens '.' (arcTexts oid_list)) := by
  have some : ¬ oid_list.length = 0 := fun zero => nonempty (List.eq_nil_of_length_eq_zero zero)
  have texts : arcTexts oid_list ≠ [] := by simpa [arcTexts] using nonempty
  have proper : ∀ text ∈ arcTexts oid_list, IsArcText text := by
    intro text member
    obtain ⟨arc, _, same⟩ := List.mem_map.mp member
    exact same ▸ isArcText arc
  have pieces : oid_list.map arcPiece = (arcTexts oid_list).map (· ++ ['.']) := by
    rw [arcTexts, List.map_map]
    rfl
  have room := length_flatten_dots proper
  have count : (arcTexts oid_list).length = oid_list.length := List.length_map _
  rw [oidListToString, if_neg some, pieces,
    printPieces_ok taken (by rw [List.length_nil]; omega), flatten_dots texts]
  simp

theorem oid_round_trips {limit : Nat} {oid_list : List machine.Ulong} (nonempty : oid_list ≠ [])
    (arcs : ∀ arc ∈ oid_list, arc.toNat < 2 ^ 32) :
    oidListToString machine limit oid_list >>= stringToOidList machine = .ok oid_list ↔
      (∀ arc ∈ oid_list, arc.toNat < 2 ^ 31) ∧ oid_list.length * 16 + 1 ≤ limit := by
  have some : ¬ oid_list.length = 0 := fun zero => nonempty (List.eq_nil_of_length_eq_zero zero)
  by_cases taken : oid_list.length * 16 + 1 ≤ limit
  next =>
    have texts : arcTexts oid_list ≠ [] := by simpa [arcTexts] using nonempty
    have proper : ∀ text ∈ arcTexts oid_list, IsArcText text := by
      intro text member
      obtain ⟨arc, _, same⟩ := List.mem_map.mp member
      exact same ▸ isArcText arc
    obtain ⟨noHead, noLast, long⟩ := ends_joinTokens texts proper
    have own (arc : machine.Ulong) : getStringUlong machine (decimal (intOfUlong arc)) = readArc arc := rfl
    have read : stringToOidList machine (joinTokens '.' (arcTexts oid_list)) = .ok (oid_list.map readArc) := by
      rw [stringToOidList, convOid, if_neg (fun zero => long (List.eq_nil_of_length_eq_zero zero)),
        if_neg (by simp [noHead, noLast]), count_joinTokens texts proper, convLoop_joinTokens proper,
        arcTexts, List.map_map]
      simp only [Function.comp_def, own]
    rw [oidListToString_eq nonempty taken]
    change stringToOidList machine _ = _ ↔ _
    rw [read, Except.ok.injEq, and_iff_left taken]
    have same : oid_list.map readArc = oid_list ↔ ∀ arc ∈ oid_list, readArc arc = arc := by
      have pointwise := List.map_inj_left (f := readArc) (g := id) (l := oid_list)
      rwa [List.map_id] at pointwise
    rw [same]
    constructor
    next => exact fun read arc member => (readArc_iff (arcs arc member)).mp (read arc member)
    next => exact fun small arc member => (readArc_iff (arcs arc member)).mpr (small arc member)
  next =>
    have refused : oidListToString machine limit oid_list = .error .null := by
      have pieces : oid_list.map arcPiece ≠ [] := by simpa using nonempty
      rw [oidListToString, if_neg some, printPieces_null (by omega) pieces]
    rw [refused]
    apply iff_of_false
    next => intro impossible; cases impossible
    next => exact fun both => taken both.2

theorem oid_round_trips_sample :
    ([1, 6] : List (Machine.Ulong ⟨.four, true, true⟩)) ≠ [] ∧
    (∀ arc ∈ ([1, 6] : List (Machine.Ulong ⟨.four, true, true⟩)), arc.toNat < 2 ^ 32) ∧
    (oidListToString ⟨.four, true, true⟩ 4096 [1, 6] >>= stringToOidList ⟨.four, true, true⟩ = .ok [1, 6] ↔
      (∀ arc ∈ ([1, 6] : List (Machine.Ulong ⟨.four, true, true⟩)), arc.toNat < 2 ^ 31) ∧ 2 * 16 + 1 ≤ 4096) :=
  ⟨by decide, fun arc _ => arc.isLt, oid_round_trips (by decide) fun arc _ => arc.isLt⟩

/-- The arc is printed as a negative number of eleven characters. -/
theorem oid_lost :
    oidListToString ⟨.eight, true, true⟩ 4096 [1, 2147483648] >>= stringToOidList ⟨.eight, true, true⟩ ≠
      .ok [1, 2147483648] := by
  have printed : oidListToString ⟨.eight, true, true⟩ 4096 [1, 2147483648] = .ok "1.-2147483648".toList := by
    decide +kernel
  have read : stringToOidList ⟨.eight, true, true⟩ "1.-2147483648".toList = .ok [1, 0] := by decide +kernel
  rw [printed]
  change stringToOidList ⟨.eight, true, true⟩ "1.-2147483648".toList ≠ _
  rw [read]
  decide +kernel

end RoundTrip

end CcspCommon.SlapVarConverter
