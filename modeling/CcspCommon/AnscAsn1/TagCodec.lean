import CcspCommon.AnscAsn1.Tags

set_option autoImplicit false

namespace CcspCommon.AnscAsn1

def createdAttr (data : List UInt8) : Except Asn1Error Attr := do
  let (formType, ulClass) ← attrParsingData data
  .ok ⟨formType, ulClass, false⟩

namespace Attr

def isConstructed (attr : Attr) (bConstructed : Bool) : Bool := bConstructed || !attr.bImplicit

structure RoundTrips (attr : Attr) (bConstructed : Bool) : Prop where
  size : (attr.encodingData bConstructed).length = attr.getSizeOfEncodedTag
  back : ∀ rest, ∃ created, createdAttr (attr.encodingData bConstructed ++ rest) = .ok created ∧
    created.formType = attr.formType ∧ created.ulClassNumber = attr.ulClassNumber ∧
    created.isConstructed false = attr.isConstructed bConstructed

-- No digit to the base 128 between the first and the last one is zero.
def InnerDigits (ulClassNumber : Nat) : Prop :=
  (128 * 128 ≤ ulClassNumber → ulClassNumber / 128 % 128 ≠ 0) ∧
    (128 * 128 * 128 ≤ ulClassNumber → ulClassNumber / (128 * 128) % 128 ≠ 0)

instance (ulClassNumber : Nat) : Decidable (InnerDigits ulClassNumber) := by
  unfold InnerDigits
  infer_instance

structure Readback (attr : Attr) (bConstructed : Bool) : Prop where
  size : (attr.encodingData bConstructed).length = attr.getSizeOfEncodedTag
  back : ∀ rest, createdAttr (attr.encodingData bConstructed ++ rest) =
    .ok ⟨attr.formType, attr.ulClassNumber, false⟩
  short : ∀ octets, octets <+: attr.encodingData bConstructed → octets ≠ attr.encodingData bConstructed →
    createdAttr octets = .error .fault

variable {attr : Attr} {bConstructed : Bool}

theorem encodingData_first (some : attr.formType ≠ .emptyForm) :
    attr.encodingData bConstructed =
      if attr.ulClassNumber ≤ 0x1E then
        [firstOctet attr.formType (!attr.isConstructed bConstructed) + UInt8.ofNat attr.ulClassNumber]
      else
        let third := digit (128 * 128 * 128) attr.ulClassNumber
        let second := digit (128 * 128) third.2
        let last := digit 128 second.2
        (firstOctet attr.formType (!attr.isConstructed bConstructed) + 0x1F) ::
          third.1 ++ second.1 ++ last.1 ++ [UInt8.ofNat last.2] := by
  have first : formBits attr.formType ||| (if bConstructed || !attr.bImplicit then 0x20 else 0) =
      firstOctet attr.formType (!attr.isConstructed bConstructed) := by
    rw [firstOctet, Bool.not_not, isConstructed]
  rw [encodingData, if_neg some, first]

theorem createdAttr_eq {data : List UInt8} {formType : FormType} {ulClass : Nat}
    (parsed : attrParsingData data = .ok (formType, ulClass)) : createdAttr data = .ok ⟨formType, ulClass, false⟩ := by
  rw [createdAttr, parsed]
  rfl

def octetsOf (digits : List Nat) (last : Nat) : List UInt8 :=
  digits.map (fun digit => UInt8.ofNat digit ||| 0x80) ++ [UInt8.ofNat last]

theorem continued_digits {digits : List Nat} (small : ∀ digit ∈ digits, digit < 128) :
    ∀ value ∈ digits.map (fun digit => UInt8.ofNat digit ||| 0x80), value &&& 0x80 ≠ 0 := by
  intro value member
  have origin := List.mem_map.mp member
  obtain ⟨digit, inside, same⟩ := origin
  rw [← same]
  exact (digit_octets ⟨digit, small digit inside⟩).2.1

theorem number_digits {digits : List Nat} {last : Nat} (small : ∀ digit ∈ digits, digit < 128) (low : last < 128)
    (front : Nat) :
    (octetsOf digits last).foldl (fun ulClass uChar => ulClass * 128 + (uChar &&& 0x7F).toNat) front =
      (digits ++ [last]).foldl (fun ulClass digit => ulClass * 128 + digit) front := by
  induction digits generalizing front with
  | nil =>
    have value := (digit_octets ⟨last, low⟩).1.2
    simp only [octetsOf, List.map_nil, List.nil_append, List.foldl_cons, List.foldl_nil, value]
  | cons digit digits ih =>
    rw [List.forall_mem_cons] at small
    have value := (digit_octets ⟨digit, small.1⟩).2.2
    have rest := ih small.2 (front * 128 + digit)
    simp only [octetsOf] at rest
    simp only [octetsOf, List.map_cons, List.cons_append, List.foldl_cons, value, rest]

theorem continuation_fault {more : List UInt8} (continued : ∀ value ∈ more, value &&& 0x80 ≠ 0) :
    continuation more = .error .fault := by
  induction more with
  | nil => rfl
  | cons value more ih =>
    rw [List.forall_mem_cons] at continued
    rw [continuation, if_neg continued.1, ih continued.2]
    rfl

theorem createdAttr_nil : createdAttr [] = .error .fault := rfl

theorem createdAttr_short {first : UInt8} (high : first &&& 0x1F = 0x1F) {more : List UInt8}
    (continued : ∀ value ∈ more, value &&& 0x80 ≠ 0) : createdAttr (first :: more) = .error .fault := by
  rw [createdAttr, attrParsingData, octet_cons, ok_bind]
  dsimp only
  rw [if_neg (by simpa using high), List.drop_one, List.tail_cons, continuation_fault continued]
  rfl

theorem readback_long {formType : FormType} {number : Nat} {first : UInt8} (high : first &&& 0x1F = 0x1F)
    (form : formOf first = formType) {digits : List Nat} {last : Nat} (small : ∀ digit ∈ digits, digit < 128)
    (low : last < 128) (value : (digits ++ [last]).foldl (fun ulClass digit => ulClass * 128 + digit) 0 = number) :
    (∀ rest, createdAttr (first :: octetsOf digits last ++ rest) = .ok ⟨formType, number, false⟩) ∧
      ∀ octets, octets <+: first :: octetsOf digits last → octets ≠ first :: octetsOf digits last →
        createdAttr octets = .error .fault := by
  have continued := continued_digits small
  constructor
  next =>
    intro rest
    apply createdAttr_eq
    have parsed := attrParsingData_long high continued (digit_octets ⟨last, low⟩).1.1 rest
    rw [form] at parsed
    have number := number_digits small low 0
    rw [octetsOf, value] at number
    rw [number] at parsed
    exact parsed
  next =>
    intro octets before differs
    cases octets with
    | nil => exact createdAttr_nil
    | cons head more =>
      have same := List.cons_prefix_cons.mp before
      obtain ⟨rfl, inside⟩ := same
      apply createdAttr_short high
      intro octet member
      rw [octetsOf, List.prefix_concat_iff] at inside
      cases inside with
      | inl whole => exact absurd (by rw [whole, octetsOf]) differs
      | inr shorter => exact continued octet (shorter.subset member)

theorem digit_written {base value : Nat} (large : base ≤ value) :
    digit base value = ([UInt8.ofNat (value / base) ||| 0x80], value % base) := if_pos large

theorem digit_skipped {base value : Nat} (small : value < base) : digit base value = ([], value) :=
  if_neg (Nat.not_le.mpr small)

theorem encodingData_digits (some : attr.formType ≠ .emptyForm) (long : 0x1E < attr.ulClassNumber)
    (bounded : attr.ulClassNumber < 2 ^ 28) (inner : InnerDigits attr.ulClassNumber) :
    ∃ digits last, attr.encodingData bConstructed =
        (firstOctet attr.formType (!attr.isConstructed bConstructed) + 0x1F) :: octetsOf digits last ∧
      attr.getSizeOfEncodedTag = digits.length + 2 ∧ (∀ digit ∈ digits, digit < 128) ∧ last < 128 ∧
      (digits ++ [last]).foldl (fun ulClass digit => ulClass * 128 + digit) 0 = attr.ulClassNumber := by
  have second := inner.1
  have third := inner.2
  rw [encodingData_first some, if_neg (Nat.not_le.mpr long), getSizeOfEncodedTag, if_neg some,
    if_neg (Nat.not_le.mpr long)]
  generalize attr.ulClassNumber = number at *
  by_cases four : 128 * 128 * 128 ≤ number
  next =>
    have next : 128 * 128 ≤ number % (128 * 128 * 128) := by omega
    have later : 128 ≤ number % (128 * 128 * 128) % (128 * 128) := by omega
    use [number / (128 * 128 * 128), number % (128 * 128 * 128) / (128 * 128),
      number % (128 * 128 * 128) % (128 * 128) / 128], number % (128 * 128 * 128) % (128 * 128) % 128
    simp only [digit_written four, digit_written next, digit_written later, if_pos four, List.length_cons,
      List.length_nil, List.forall_mem_cons, List.cons_append, List.nil_append, List.foldl_cons, List.foldl_nil]
    constructor
    next => rfl
    next =>
      simp only [List.not_mem_nil, IsEmpty.forall_iff, implies_true, and_true, true_and]
      omega
  next =>
    rw [if_neg four]
    by_cases three : 128 * 128 ≤ number
    next =>
      have later : 128 ≤ number % (128 * 128) := by omega
      use [number / (128 * 128), number % (128 * 128) / 128], number % (128 * 128) % 128
      simp only [digit_skipped (Nat.not_le.mp four), digit_written three, digit_written later, if_pos three,
        List.length_cons, List.length_nil, List.forall_mem_cons, List.cons_append, List.nil_append, List.foldl_cons,
        List.foldl_nil]
      constructor
      next => rfl
      next =>
        simp only [List.not_mem_nil, IsEmpty.forall_iff, implies_true, and_true, true_and]
        omega
    next =>
      rw [if_neg three]
      by_cases two : 128 ≤ number
      next =>
        use [number / 128], number % 128
        simp only [digit_skipped (Nat.not_le.mp four), digit_skipped (Nat.not_le.mp three), digit_written two,
          if_pos two, List.length_cons, List.length_nil, List.forall_mem_cons, List.cons_append, List.nil_append,
          List.foldl_cons, List.foldl_nil]
        constructor
        next => rfl
        next =>
          simp only [List.not_mem_nil, IsEmpty.forall_iff, implies_true, and_true, true_and]
          omega
      next =>
        use [], number
        simp only [digit_skipped (Nat.not_le.mp four), digit_skipped (Nat.not_le.mp three),
          digit_skipped (Nat.not_le.mp two), if_neg two, List.length_nil, List.nil_append, List.foldl_cons,
          List.foldl_nil]
        constructor
        next => rfl
        next =>
          simp only [List.not_mem_nil, IsEmpty.forall_iff, implies_true, true_and]
          omega

theorem readback_short (some : attr.formType ≠ .emptyForm) (low : attr.ulClassNumber ≤ 0x1E) :
    attr.Readback bConstructed := by
  have octet := firstOctet_low some (!attr.isConstructed bConstructed) ⟨attr.ulClassNumber, by omega⟩
  have written := @encodingData_first attr bConstructed some
  rw [if_pos low] at written
  constructor
  next =>
    rw [written, getSizeOfEncodedTag, if_neg some, if_pos low]
    rfl
  next =>
    intro rest
    apply createdAttr_eq
    rw [written, attrParsingData, List.cons_append, octet_cons, ok_bind]
    dsimp only
    rw [if_pos octet.2.1, octet.2.2.1]
    exact congrArg (fun formType => Except.ok (formType, attr.ulClassNumber)) octet.1
  next =>
    intro octets before differs
    rw [written] at before differs
    cases octets with
    | nil => exact createdAttr_nil
    | cons head more =>
      have same := List.cons_prefix_cons.mp before
      obtain ⟨rfl, inside⟩ := same
      exact absurd (by rw [List.prefix_nil.mp inside]) differs

end Attr

theorem tags_read_back (attr : Attr) (bConstructed : Bool) (some : attr.formType ≠ .emptyForm)
    (bounded : attr.ulClassNumber < 2 ^ 28) (inner : Attr.InnerDigits attr.ulClassNumber) :
    attr.Readback bConstructed := by
  by_cases low : attr.ulClassNumber ≤ 0x1E
  next => exact Attr.readback_short some low
  next =>
    have high := firstOctet_high some (!attr.isConstructed bConstructed)
    have written := @Attr.encodingData_digits attr bConstructed some (Nat.not_le.mp low) bounded inner
    obtain ⟨digits, last, octets, size, small, final, value⟩ := written
    have back := Attr.readback_long high.2 high.1 small final value
    constructor
    next =>
      rw [octets, size]
      simp [Attr.octetsOf]
    next =>
      rw [octets]
      exact back.1
    next =>
      rw [octets]
      exact back.2

theorem tags_read_back_sample :
    Attr.Readback ⟨.applicationForm, 2113665, true⟩ true := by
  apply tags_read_back
  next => decide
  next => decide
  next => decide

theorem tags_not_read_back :
    ¬ Attr.RoundTrips ⟨.contextForm, 0, true⟩ false ∧ ¬ Attr.RoundTrips ⟨.contextForm, 16384, false⟩ true := by
  constructor
  next =>
    intro trips
    have created := trips.back []
    obtain ⟨created, parsed, -, -, form⟩ := created
    have same : createdAttr (Attr.encodingData ⟨.contextForm, 0, true⟩ false ++ []) =
        .ok ⟨.contextForm, 0, false⟩ := by decide
    rw [same] at parsed
    cases parsed
    exact absurd form (by decide)
  next => exact fun trips => absurd trips.size (by decide)

end CcspCommon.AnscAsn1
