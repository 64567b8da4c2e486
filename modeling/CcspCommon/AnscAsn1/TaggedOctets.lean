import CcspCommon.AnscAsn1.LengthCodec
import CcspCommon.AnscAsn1.TagCodec
import CcspCommon.Shared.TwosComplement

set_option autoImplicit false

namespace CcspCommon.AnscAsn1

open CcspCommon.AnscPlatform (Machine UlongSize)
open CcspCommon.Shared (bind_eq_ok unsignedValue unsignedValue_lt unsignedValue_zeros)

section Writing

def WrittenLength.before (length : WrittenLength) (behind : List UInt8) : List UInt8 :=
  length.octets.take length.advance ++ behind ++ length.octets.drop (length.advance + behind.length)

def Encoded.behindTag (behind : Encoded) (tag : List UInt8) (length : WrittenLength) : Encoded :=
  ⟨tag ++ length.before behind.written, tag.length + (length.advance + behind.advance)⟩

def writeTags (machine : Machine) (bIsConstructive : Bool) (next : Bool → Nat → Except Asn1Error Encoded) :
    List Attr → Bool → Nat → Except Asn1Error Encoded
  | [], bTag, uleftSize => next bTag uleftSize
  | attr :: rest, bTag, uleftSize =>
    if attr.formType = .emptyForm then writeTags machine bIsConstructive next rest bTag uleftSize
    else if !bTag then writeTags machine bIsConstructive next rest (!attr.bImplicit) uleftSize
    else
      let uleftSize := ulongSub (ulongSize machine) uleftSize attr.getSizeOfEncodedTag
      match getPureEncodedLength (ulongSize machine) uleftSize with
      | none => .error .invalidEncodeLength
      | some uleftSize => do
        let behind ← writeTags machine bIsConstructive next rest (!attr.bImplicit) uleftSize
        .ok (behind.behindTag (attr.encodingData bIsConstructive) (writeLength machine uleftSize))

end Writing

section Lengths

variable {machine : Machine} {ulLength v : Nat} {attrs : List Attr} {attr : Attr}

theorem ulongSize_cases (machine : Machine) :
    machine.ulongSize = .four ∧ ulongSize machine = 4 ∨ machine.ulongSize = .eight ∧ ulongSize machine = 8 := by
  rw [ulongSize]
  cases machine.ulongSize with
  | four => exact .inl ⟨rfl, rfl⟩
  | eight => exact .inr ⟨rfl, rfl⟩

theorem four_le_ulongSize (machine : Machine) : 4 ≤ ulongSize machine := by
  rw [ulongSize]
  split <;> decide

theorem octetCount_small {ulLength : Nat} (small : ulLength < 2 ^ 31) :
    octetCount 7 ulLength = octetCount 3 ulLength := by
  simp only [octetCount]
  split_ifs <;> omega

theorem getSizeOfEncodedLength_machine (machine : Machine) (small : ulLength < 2 ^ 31) :
    getSizeOfEncodedLength (ulongSize machine) ulLength = getSizeOfEncodedLength 4 ulLength := by
  obtain ⟨-, size⟩ | ⟨-, size⟩ := ulongSize_cases machine
  · rw [size]
  · rw [size, getSizeOfEncodedLength, getSizeOfEncodedLength, if_neg (show ¬ 2 ^ (8 * 8 - 1) ≤ ulLength by omega),
      if_neg (show ¬ 2 ^ (8 * 4 - 1) ≤ ulLength by omega), octetCount_small small]

theorem pureLoop_machine (machine : Machine) {totalLength : Nat} (small : totalLength < 2 ^ 31) {sizes : List Nat}
    (fewer : ∀ i ∈ sizes, i ≤ totalLength) :
    pureLoop (ulongSize machine) totalLength sizes = pureLoop 4 totalLength sizes := by
  induction sizes with
  | nil => rfl
  | cons i rest ih =>
    obtain ⟨ordered, others⟩ := List.forall_mem_cons.mp fewer
    rw [pureLoop, pureLoop, ulongSub_eq _ ordered, ulongSub_eq _ ordered,
      getSizeOfEncodedLength_machine machine (by omega), ih others]

theorem getPureEncodedLength_machine (machine : Machine) (small : ulLength ≤ 0xFFFF) :
    getPureEncodedLength (ulongSize machine) (ulLength + getSizeOfEncodedLength 4 ulLength) = some ulLength := by
  by_cases short : ulLength ≤ 0x7F
  · rw [← getSizeOfEncodedLength_machine machine (by omega)]
    exact (lengthRoundTrips_short short).pure
  · have size := getSizeOfEncodedLength_le small
    rw [← getPureEncodedLength_eq small]
    exact pureLoop_machine machine (by omega) (by simp; omega)

theorem getPureEncodedLength_machine_none (machine : Machine) (long : 0xFFFF < ulLength)
    (small : ulLength + getSizeOfEncodedLength 4 ulLength < 2 ^ 31) :
    getPureEncodedLength (ulongSize machine) (ulLength + getSizeOfEncodedLength 4 ulLength) = none := by
  rw [← getPureEncodedLength_none long]
  exact pureLoop_machine machine small (by simp; omega)

theorem getSizeOfEncodedLength_le_five (small : ulLength < 2 ^ 31) : getSizeOfEncodedLength 4 ulLength ≤ 5 := by
  rw [getSizeOfEncodedLength, if_neg (by omega)]
  simp only [octetCount]
  split_ifs <;> omega

theorem content_bound (few : v + 10 * attrs.length < 2 ^ 31) : content attrs v ≤ v + 10 * attrs.length := by
  induction attrs with
  | nil => exact Nat.le_refl _
  | cons attr rest ih =>
    rw [List.length_cons] at few ⊢
    have inner := ih (by omega)
    by_cases empty : attr.formType = .emptyForm
    · rw [content, sizeLoop_empty empty]
      exact Nat.le_trans inner (by omega)
    · have lengthSize := getSizeOfEncodedLength_le_five (show content rest v < 2 ^ 31 by omega)
      have tagSize := tagSize_le rest v
      rw [content_cons empty, left, total]
      split_ifs <;> omega

theorem sizeLoop_machine (machine : Machine) (few : v + 10 * attrs.length < 2 ^ 31) :
    sizeLoop (ulongSize machine) attrs v 1 = sizeLoop 4 attrs v 1 := by
  induction attrs with
  | nil => rfl
  | cons attr rest ih =>
    rw [List.length_cons] at few
    have bound := content_bound (show v + 10 * rest.length < 2 ^ 31 by omega)
    have same := getSizeOfEncodedLength_machine machine (show content rest v < 2 ^ 31 by omega)
    have step (w : Nat) : sizeLoop w (attr :: rest) v 1 = sizeStep w attr (sizeLoop w rest v 1) := rfl
    rw [content] at same
    rw [step, step, ih (by omega), sizeStep, sizeStep, same]

theorem length_shown (attrs : List Attr) : (shown attrs).length ≤ 65535 := by
  have small : CcspCommon.AnscPlatform.ushort attrs.length ≤ 65535 := by
    rw [CcspCommon.AnscPlatform.ushort]
    omega
  rw [shown, List.length_take]
  omega

theorem attrListGetSizeOfEncoded_machine (machine : Machine) (few : v ≤ 2 ^ 30) :
    attrListGetSizeOfEncoded (ulongSize machine) attrs v 1 = total (shown attrs) v := by
  have count := length_shown attrs
  have bound := content_bound (show v + 10 * (shown attrs).length < 2 ^ 31 by omega)
  have same := getSizeOfEncodedLength_machine machine (show content (shown attrs) v < 2 ^ 31 by omega)
  rw [content] at same
  rw [attrListGetSizeOfEncoded, sizeLoop_machine machine (by omega)]
  dsimp only
  rw [if_pos (tagSize_pos (shown attrs) v), same]
  rfl

theorem total_bound (few : v ≤ 2 ^ 30) : total (shown attrs) v < 2 ^ 31 := by
  have count := length_shown attrs
  have bound := content_bound (show v + 10 * (shown attrs).length < 2 ^ 31 by omega)
  have lengthSize := getSizeOfEncodedLength_le_five (show content (shown attrs) v < 2 ^ 31 by omega)
  have tagSize := tagSize_le (shown attrs) v
  rw [total]
  omega

end Lengths

section Octets

variable {machine : Machine} {ulLength v : Nat} {attrs : List Attr} {attr : Attr}

theorem ulongOctets_eight {value : Nat} (small : value < 2 ^ 32) :
    ulongOctets 8 value = [0, 0, 0, 0] ++ ulongOctets 4 value := by
  have octets : ulongOctets 8 value =
      [UInt8.ofNat (value / 256 ^ 7), UInt8.ofNat (value / 256 ^ 6), UInt8.ofNat (value / 256 ^ 5),
        UInt8.ofNat (value / 256 ^ 4)] ++ ulongOctets 4 value := rfl
  rw [octets, Nat.div_eq_of_lt (by omega), Nat.div_eq_of_lt (by omega), Nat.div_eq_of_lt (by omega),
    Nat.div_eq_of_lt (by omega)]
  rfl

theorem swapUlong_lt (value : Nat) : swapUlong value < 2 ^ 32 := by
  rw [swapUlong]
  omega

theorem dropWhile_ulongOctets (some : ulLength ≠ 0) (small : ulLength ≤ 0xFFFF) (behind : List UInt8) :
    (ulongOctets 4 ulLength ++ behind).dropWhile (· = 0) = (ulongOctets 4 ulLength).dropWhile (· = 0) ++ behind := by
  rw [ulongOctets_small small, List.dropWhile_append, if_neg]
  intro nothing
  have zeros := List.dropWhile_eq_nil_iff.mp (List.isEmpty_iff.mp nothing)
  have high := zeros (UInt8.ofNat (ulLength / 256)) (by simp)
  have low := zeros (UInt8.ofNat ulLength) (by simp)
  have highNat := congrArg UInt8.toNat (of_decide_eq_true high)
  have lowNat := congrArg UInt8.toNat (of_decide_eq_true low)
  rw [UInt8.toNat_ofNat', UInt8.toNat_zero] at highNat lowNat
  omega

theorem writeLength_octets (machine : Machine) (small : ulLength ≤ 0xFFFF) :
    ∃ more, writeLength machine ulLength = ⟨encodeLength 4 ulLength ++ more, (encodeLength 4 ulLength).length⟩ ∧
      more.length ≤ 4 ∧ (ulLength ≤ 0x7F → more = []) := by
  by_cases short : ulLength ≤ 0x7F
  · refine ⟨[], ?_, Nat.zero_le 4, fun _ => rfl⟩
    rw [writeLength, encodeLength, if_pos short, if_pos short]
    rfl
  have count : octetCount (ulongSize machine - 1) ulLength = octetCount 3 ulLength := by
    obtain ⟨-, size⟩ | ⟨-, size⟩ := ulongSize_cases machine
    · rw [size]
    · rw [size]
      exact octetCount_small (by omega)
  have length := length_encodeLength small
  rw [getSizeOfEncodedLength, if_neg (by omega), if_neg short] at length
  have written : encodeLength 4 ulLength =
      (UInt8.ofNat (octetCount 3 ulLength) ||| 0x80) :: (ulongOctets 4 ulLength).dropWhile (· = 0) := by
    rw [encodeLength, if_neg short, asn1WriteUlong, if_neg (by omega)]
  have same (more : List UInt8)
      (memory : (networkMemory machine ulLength).dropWhile (· = 0) =
        (ulongOctets 4 ulLength).dropWhile (· = 0) ++ more) :
      writeLength machine ulLength = ⟨encodeLength 4 ulLength ++ more, (encodeLength 4 ulLength).length⟩ := by
    rw [writeLength, if_neg short, count, writeUlong, if_neg (by omega), memory, length, written, Nat.add_comm 1]
    rfl
  have swapped := swapUlong_octets ulLength
  obtain ⟨-, size⟩ | ⟨-, size⟩ := ulongSize_cases machine
  · refine ⟨[], same [] ?_, Nat.zero_le 4, fun _ => rfl⟩
    rw [networkMemory, memoryOfUlong, size]
    cases machine.littleEndian with
    | true => simp [swapped]
    | false => simp
  · cases endian : machine.littleEndian with
    | true =>
      refine ⟨[0, 0, 0, 0], same _ ?_, Nat.le_refl 4, fun fits => absurd fits short⟩
      rw [networkMemory, memoryOfUlong, size, endian, if_pos rfl, if_pos rfl, ulongOctets_eight (swapUlong_lt _),
        List.reverse_append, swapped]
      exact dropWhile_ulongOctets (by omega) small _
    | false =>
      refine ⟨[], same [] ?_, Nat.zero_le 4, fun _ => rfl⟩
      rw [networkMemory, memoryOfUlong, size, endian, if_neg Bool.false_ne_true, if_neg Bool.false_ne_true,
        ulongOctets_eight (by omega)]
      simp

theorem writeLength_before (machine : Machine) (small : ulLength ≤ 0xFFFF) {behind : List UInt8}
    (covered : 0x7F < ulLength → 4 ≤ behind.length) :
    (writeLength machine ulLength).before behind = encodeLength 4 ulLength ++ behind := by
  obtain ⟨more, written, few, none⟩ := writeLength_octets machine small
  have dropped : (encodeLength 4 ulLength ++ more).drop ((encodeLength 4 ulLength).length + behind.length) = [] := by
    rw [List.drop_length_add_append]
    by_cases short : ulLength ≤ 0x7F
    · rw [none short, List.drop_nil]
    · have := covered (by omega)
      exact List.drop_eq_nil_of_le (by omega)
  rw [WrittenLength.before, written, List.take_left, dropped, List.append_nil]

theorem behindTag_eq (machine : Machine) (small : ulLength ≤ 0xFFFF) {behind : List UInt8}
    (covered : 0x7F < ulLength → 4 ≤ behind.length) (tag : List UInt8) :
    (Encoded.behindTag ⟨behind, behind.length⟩ tag (writeLength machine ulLength)) =
      ⟨tag ++ (encodeLength 4 ulLength ++ behind), (tag ++ (encodeLength 4 ulLength ++ behind)).length⟩ := by
  obtain ⟨more, written, -⟩ := writeLength_octets machine small
  rw [Encoded.behindTag, writeLength_before machine small covered, written, List.length_append, List.length_append]

theorem encodingData_ne_nil (some : attr.formType ≠ .emptyForm) (bConstructed : Bool) :
    1 ≤ (attr.encodingData bConstructed).length := by
  rw [Attr.encodingData, if_neg some]
  dsimp only
  by_cases low : attr.ulClassNumber ≤ 0x1E
  · rw [if_pos low]
    exact Nat.le_refl 1
  · rw [if_neg low, List.cons_append, List.cons_append, List.cons_append, List.length_cons]
    exact Nat.le_add_left 1 _

theorem writeTags_eq {next : Bool → Nat → Except Asn1Error Encoded} {tail : List UInt8}
    (small : content attrs v ≤ 0xFFFF)
    (bTag : Bool)
    (goesOn : next (header v attrs bTag).2 (left (header v attrs bTag).2 [] v) = .ok ⟨tail, tail.length⟩)
    (enough : left (header v attrs bTag).2 [] v ≤ 8 * tail.length) :
    writeTags machine false next attrs bTag (left bTag attrs v) =
        .ok ⟨(header v attrs bTag).1 ++ tail, ((header v attrs bTag).1 ++ tail).length⟩ ∧
      left bTag attrs v ≤ 8 * ((header v attrs bTag).1 ++ tail).length := by
  induction attrs generalizing bTag with
  | nil => exact ⟨goesOn, enough⟩
  | cons attr rest ih =>
    have restSmall : content rest v ≤ 0xFFFF := Nat.le_trans (content_le_cons attr rest v) small
    rw [writeTags]
    rw [header] at goesOn enough ⊢
    by_cases empty : attr.formType = .emptyForm
    · rw [if_pos empty] at goesOn enough ⊢
      rw [if_pos empty, left_empty empty]
      exact ih restSmall bTag goesOn enough
    rw [if_neg empty] at goesOn enough ⊢
    rw [if_neg empty]
    cases bTag with
    | false =>
      have same : left false (attr :: rest) v = left (!attr.bImplicit) rest v := content_cons empty
      simp only [Bool.not_false, if_true, Bool.false_eq_true, if_false] at goesOn enough ⊢
      rw [same]
      exact ih restSmall _ goesOn enough
    | true =>
      have inner : content (attr :: rest) v = left (!attr.bImplicit) rest v := content_cons empty
      have whole : left true (attr :: rest) v = left (!attr.bImplicit) rest v +
          getSizeOfEncodedLength 4 (left (!attr.bImplicit) rest v) + attr.getSizeOfEncodedTag := total_cons empty
      have lengthSize := getSizeOfEncodedLength_le (show left (!attr.bImplicit) rest v ≤ 0xFFFF by omega)
      have tagSize := getSizeOfEncodedTag_le attr
      have tag := encodingData_ne_nil empty false
      simp only [Bool.not_true, Bool.false_eq_true, if_false, if_true] at goesOn enough ⊢
      obtain ⟨written, covered⟩ := ih restSmall _ goesOn enough
      have pure := getPureEncodedLength_machine machine (show left (!attr.bImplicit) rest v ≤ 0xFFFF by omega)
      rw [whole, ulongSub_eq _ (by omega), Nat.add_sub_cancel, pure]
      dsimp only
      rw [written, ok_bind, inner, behindTag_eq machine (by omega) (by omega), List.append_assoc, List.append_assoc]
      refine ⟨rfl, ?_⟩
      rw [List.length_append, List.length_append]
      omega

theorem writeTags_refused {next : Bool → Nat → Except Asn1Error Encoded} (large : 0xFFFF < content attrs v)
    (bounded : total attrs v < 2 ^ 31) (own : 0xFFFF < v → ∃ reason, next true (left true [] v) = .error reason) :
    ∃ reason, writeTags machine false next attrs true (left true attrs v) = .error reason := by
  induction attrs with
  | nil => exact own large
  | cons attr rest ih =>
    rw [writeTags]
    by_cases empty : attr.formType = .emptyForm
    · have same : content (attr :: rest) v = content rest v := by rw [content, content, sizeLoop_empty empty]
      have wholes : total (attr :: rest) v = total rest v := left_empty empty true
      rw [if_pos empty, left_empty empty]
      exact ih (same ▸ large) (wholes ▸ bounded)
    · have inner : content (attr :: rest) v = left (!attr.bImplicit) rest v := content_cons empty
      have whole : left true (attr :: rest) v = left (!attr.bImplicit) rest v +
          getSizeOfEncodedLength 4 (left (!attr.bImplicit) rest v) + attr.getSizeOfEncodedTag := total_cons empty
      have bound : left true (attr :: rest) v < 2 ^ 31 := bounded
      have none := getPureEncodedLength_machine_none machine (show 0xFFFF < left (!attr.bImplicit) rest v by omega)
        (by omega)
      rw [if_neg empty, if_neg (by simp), whole, ulongSub_eq _ (by omega), Nat.add_sub_cancel]
      dsimp only
      rw [none]
      exact ⟨_, rfl⟩

end Octets

section Fields

inductive LengthField
  | short (value : Fin 128)
  | long (octets : List UInt8) (some : octets ≠ []) (few : octets.length ≤ 126)

namespace LengthField

def value : LengthField → Nat
  | short value => value
  | long octets _ _ => unsignedValue octets

def octets : LengthField → List UInt8
  | short value => [UInt8.ofNat value]
  | long octets _ _ => (UInt8.ofNat octets.length ||| 0x80) :: octets

def Read (machine : Machine) : LengthField → Prop
  | short _ => True
  | long octets _ _ => machine.ulongSize = .four ∧ octets.length ≤ 4

variable {machine : Machine} {field : LengthField}

-- What is read instead of the length; with a `ULONG` of eight bytes the low four of a long form get lost.
def read (machine : Machine) : LengthField → Option Nat
  | short value => some value
  | long octets _ _ =>
    if octets.length > ulongSize machine then none else some (unsignedValue octets / 256 ^ (ulongSize machine - 4))

theorem first_four {buffer : List UInt8} {n : Nat} (length : buffer.length = n + 4) :
    (buffer.getD 3 0).toNat + (buffer.getD 2 0).toNat * 0x100 + (buffer.getD 1 0).toNat * 0x10000 +
      (buffer.getD 0 0).toNat * 0x1000000 = unsignedValue buffer / 256 ^ n := by
  obtain ⟨a, behind, rfl⟩ := List.exists_cons_of_length_eq_add_one length
  obtain ⟨b, behind, rfl⟩ := List.exists_cons_of_length_eq_add_one (Nat.succ.inj length)
  obtain ⟨c, behind, rfl⟩ := List.exists_cons_of_length_eq_add_one (Nat.succ.inj (Nat.succ.inj length))
  obtain ⟨d, low, rfl⟩ := List.exists_cons_of_length_eq_add_one (Nat.succ.inj (Nat.succ.inj (Nat.succ.inj length)))
  obtain rfl : low.length = n := by
    simp only [List.length_cons] at length
    omega
  have whole : unsignedValue (a :: b :: c :: d :: low) =
      unsignedValue low + (d.toNat + c.toNat * 0x100 + b.toNat * 0x10000 + a.toNat * 0x1000000) * 256 ^ low.length := by
    simp only [unsignedValue, List.length_cons, Nat.pow_succ]
    ring
  rw [whole, Nat.add_mul_div_right _ _ (Nat.pow_pos (by decide)), Nat.div_eq_of_lt (unsignedValue_lt low), Nat.zero_add]
  rfl

theorem getLengthFromBuffer_long (machine : Machine) {octets : List UInt8} (some : octets ≠ [])
    (few : octets.length ≤ ulongSize machine) (rest : List UInt8) :
    getLengthFromBuffer (ulongSize machine) (octets ++ rest) octets.length =
      .ok (unsignedValue octets / 256 ^ (ulongSize machine - 4)) := by
  have positive := List.length_pos_iff.mpr some
  have whole : (List.replicate (ulongSize machine - octets.length) 0 ++ octets).length = ulongSize machine - 4 + 4 := by
    rw [List.length_append, List.length_replicate, Nat.sub_add_cancel few,
      Nat.sub_add_cancel (four_le_ulongSize machine)]
  rw [getLengthFromBuffer, if_neg (by omega)]
  dsimp only
  rw [if_neg (show ¬ octets.length > ulongSize machine by omega), if_neg (by rw [List.length_append]; omega),
    List.take_left, first_four whole, unsignedValue_zeros]

theorem long_octet : ∀ count : Fin 127, 0 < count.val → (UInt8.ofNat count ||| 0x80) &&& 0x80 ≠ 0 ∧
    ((UInt8.ofNat count ||| 0x80) &&& 0x7F).toNat = count ∧ UInt8.ofNat count ||| 0x80 ≠ 0x80 := by decide

theorem lengthParsing_field (machine : Machine) (field : LengthField) (rest : List UInt8) :
    lengthParsing (ulongSize machine) (field.octets ++ rest) =
      match field.read machine with
      | none => .error .invalidEncodeLength
      | some ulContentLength => .ok (false, field.octets.length, ulContentLength) := by
  cases field with
  | short value =>
    rw [octets, lengthParsing, List.cons_append, octet_cons, ok_bind, if_pos (octet_low value),
      toNat_octet (by omega)]
    rfl
  | long octets some few =>
    obtain ⟨flag, digits, definite⟩ := long_octet ⟨octets.length, by omega⟩ (List.length_pos_iff.mpr some)
    rw [LengthField.octets, lengthParsing, List.cons_append, octet_cons, ok_bind, if_neg flag, digits, read]
    by_cases many : octets.length > ulongSize machine
    · rw [if_pos many, if_pos many]
    · rw [if_neg many, if_neg many, List.drop_succ_cons, List.drop_zero,
        getLengthFromBuffer_long machine some (by omega), ok_bind, decide_eq_false definite]
      rfl

theorem Read.read (reads : field.Read machine) : field.read machine = some field.value := by
  cases field with
  | short value => rfl
  | long octets some few =>
    obtain ⟨four, count⟩ := reads
    have size : ulongSize machine = 4 := by rw [ulongSize, four]
    rw [LengthField.read, size, if_neg (by omega), Nat.sub_self, Nat.pow_zero, Nat.div_one]
    rfl

theorem read_cases {ulLength : Nat} (found : field.read machine = some ulLength) :
    field.Read machine ∧ ulLength = field.value ∨
      machine.ulongSize = .eight ∧ ulLength = field.value / 2 ^ 32 ∧ field.value < 2 ^ 64 := by
  cases field with
  | short value => exact .inl ⟨trivial, (Option.some.inj found).symm⟩
  | long octets some few =>
    rw [LengthField.read] at found
    split_ifs at found with many
    obtain rfl := Option.some.inj found
    obtain ⟨four, size⟩ | ⟨eight, size⟩ := ulongSize_cases machine
    · rw [size] at many ⊢
      rw [Nat.sub_self, Nat.pow_zero, Nat.div_one]
      exact .inl ⟨⟨four, by omega⟩, rfl⟩
    · rw [size] at many ⊢
      have below := unsignedValue_lt octets
      have wider : 256 ^ octets.length ≤ 256 ^ 8 := Nat.pow_le_pow_right (by decide) (by omega)
      exact .inr ⟨eight, rfl, by rw [value]; omega⟩

theorem Read.short (reads : field.Read machine) (eight : machine.ulongSize = .eight) : field.value < 128 := by
  cases field with
  | short value => exact value.isLt
  | long octets some few =>
    rw [Read, eight] at reads
    cases reads.1

theorem Read.below (reads : field.Read machine) : field.value < 2 ^ 32 := by
  cases field with
  | short value => exact Nat.lt_trans value.isLt (by decide)
  | long octets some few =>
    have bound := unsignedValue_lt octets
    have wider : 256 ^ octets.length ≤ 256 ^ 4 := Nat.pow_le_pow_right (by decide) reads.2
    rw [value]
    omega

theorem length_octets (field : LengthField) : 1 ≤ field.octets.length ∧ field.octets.length ≤ 127 := by
  cases field with
  | short value => exact ⟨Nat.le_refl 1, by simp [octets]⟩
  | long octets some few =>
    rw [LengthField.octets, List.length_cons]
    omega

end LengthField

end Fields

section Reading

variable {machine : Machine} {ulLength v : Nat} {attrs : List Attr} {attr : Attr} {bTag : Bool} {behind : List UInt8}

-- With a `ULONG` of eight bytes a length in the long form is read as zero.
def lengthRead (machine : Machine) (ulLength : Nat) : Nat :=
  if machine.ulongSize = .four ∨ ulLength ≤ 0x7F then ulLength else 0

theorem read_long (machine : Machine) {octets : List UInt8} (some : octets ≠ []) (few : octets.length ≤ 126)
    (short : octets.length ≤ 4) (large : 0x7F < unsignedValue octets) :
    (LengthField.long octets some few).read machine = .some (lengthRead machine (unsignedValue octets)) := by
  obtain ⟨four, size⟩ | ⟨eight, size⟩ := ulongSize_cases machine
  · rw [LengthField.read, size, if_neg (by omega), Nat.sub_self, Nat.pow_zero, Nat.div_one, lengthRead,
      if_pos (.inl four)]
  · have below := unsignedValue_lt octets
    have wider : 256 ^ octets.length ≤ 256 ^ 4 := Nat.pow_le_pow_right (by decide) short
    have zero : unsignedValue octets / 256 ^ (8 - 4) = 0 := Nat.div_eq_of_lt (by omega)
    rw [LengthField.read, size, if_neg (by omega), zero, lengthRead, eight, if_neg (by simp; omega)]

theorem lengthParsing_machine (machine : Machine) (small : ulLength ≤ 0xFFFF) (rest : List UInt8) :
    lengthParsing (ulongSize machine) (encodeLength 4 ulLength ++ rest) =
      .ok (false, getSizeOfEncodedLength 4 ulLength, lengthRead machine ulLength) := by
  rw [← length_encodeLength small]
  obtain ⟨short, same⟩ | ⟨large, small, same⟩ | ⟨large, same⟩ := encodeLength_cases small
  · rw [same, lengthRead, if_pos (.inr short)]
    exact LengthField.lengthParsing_field machine (.short ⟨ulLength, by omega⟩) rest
  · have value : unsignedValue [UInt8.ofNat ulLength] = ulLength := by
      simp [unsignedValue, toNat_octet (show ulLength < 256 by omega)]
    have first : UInt8.ofNat 1 ||| 0x80 = 0x81 := by decide
    have parsed := LengthField.lengthParsing_field machine (.long [UInt8.ofNat ulLength] (by simp) (by simp)) rest
    rw [read_long machine _ _ (by simp) (by omega), value, LengthField.octets, List.length_singleton, first] at parsed
    rw [same]
    exact parsed
  · have value : unsignedValue [UInt8.ofNat (ulLength / 256), UInt8.ofNat ulLength] = ulLength := by
      simp [unsignedValue, toNat_octet (show ulLength / 256 < 256 by omega)]
      omega
    have first : UInt8.ofNat 2 ||| 0x80 = 0x82 := by decide
    have parsed := LengthField.lengthParsing_field machine
      (.long [UInt8.ofNat (ulLength / 256), UInt8.ofNat ulLength] (by simp) (by simp)) rest
    rw [read_long machine _ _ (by simp) (by omega), value, LengthField.octets, List.length_cons, List.length_singleton,
      first] at parsed
    rw [same]
    exact parsed

theorem tagInfoParsingData_machine (machine : Machine) {tag : List UInt8} (isTag : IsTag tag)
    (small : ulLength ≤ 0xFFFF)
    (rest : List UInt8) :
    tagInfoParsingData (ulongSize machine) (tag ++ (encodeLength 4 ulLength ++ rest)) =
      .ok ⟨tag.length, tag.headD 0, false, getSizeOfEncodedLength 4 ulLength, lengthRead machine ulLength⟩ :=
  tagInfoParsingData_tag isTag (lengthParsing_machine machine small rest)

/-- A tag that can be read again: it is not the end of an infinite form, and none of its at most three digits is
left out. -/
structure Attr.Kept (attr : Attr) : Prop where
  some : attr.formType ≠ .emptyForm
  small : attr.ulClassNumber < 128 * 128 * 128
  inner : 128 * 128 ≤ attr.ulClassNumber → attr.ulClassNumber / 128 % 128 ≠ 0
  marked : ¬ (attr.formType = .universalForm ∧ attr.ulClassNumber = 0 ∧ attr.bImplicit)

theorem kept_octets (kept : attr.Kept) :
    IsTag (attr.encodingData false) ∧ (attr.encodingData false).length = attr.getSizeOfEncodedTag ∧
      ∀ rest, attrParsingData (attr.encodingData false ++ rest) = .ok (attr.formType, attr.ulClassNumber) := by
  by_cases few : attr.ulClassNumber < 16384
  · exact attr_octets ⟨kept.some, few, kept.marked⟩
  have inner : Attr.InnerDigits attr.ulClassNumber := by
    refine ⟨kept.inner, fun large => ?_⟩
    have := kept.small
    omega
  obtain ⟨digits, last, octets, size, small, low, value⟩ := @Attr.encodingData_digits attr false kept.some
    (show 0x1E < attr.ulClassNumber by omega) (by have := kept.small; omega) inner
  have implicit : (!attr.isConstructed false) = attr.bImplicit := by simp [Attr.isConstructed]
  rw [implicit] at octets
  obtain ⟨form, high⟩ := firstOctet_high kept.some attr.bImplicit
  have continued := Attr.continued_digits small
  have ended := (digit_octets ⟨last, low⟩).1.1
  have count : digits.length = 2 := by
    have := kept.small
    rw [Attr.getSizeOfEncodedTag, if_neg kept.some, if_neg (by omega), if_neg (by omega), if_pos (by omega)] at size
    omega
  rw [octets, size]
  refine ⟨.long _ _ _ high continued ended (by simp [count]), by simp [Attr.octetsOf], fun rest => ?_⟩
  have parsed := attrParsingData_long high continued ended rest
  have number := Attr.number_digits small low 0
  rw [Attr.octetsOf, value] at number
  rw [form, number] at parsed
  exact parsed

theorem classNumber_lt (octets : List UInt8) (number : Nat) :
    octets.foldl (fun ulClass uChar => ulClass * 128 + (uChar &&& 0x7F).toNat) number <
      (number + 1) * 128 ^ octets.length := by
  induction octets generalizing number with
  | nil => simp
  | cons octet rest ih =>
    have digit : (octet &&& 0x7F).toNat < 128 := by
      rw [UInt8.toNat_and]
      exact Nat.lt_of_le_of_lt Nat.and_le_right (by decide)
    have next := ih (number * 128 + (octet &&& 0x7F).toNat)
    have fewer : (number * 128 + (octet &&& 0x7F).toNat + 1) * 128 ^ rest.length ≤
        (number + 1) * 128 * 128 ^ rest.length := Nat.mul_le_mul_right _ (by omega)
    rw [List.foldl_cons, List.length_cons, Nat.pow_succ, Nat.mul_comm (128 ^ rest.length), ← Nat.mul_assoc]
    omega

theorem tagInfoParsingData_digits {w : Nat} {first : UInt8} (high : first &&& 0x1F = 0x1F) {rest : List UInt8}
    {info : TagInfo}
    (read : tagInfoParsingData w (first :: rest) = .ok info) : ∃ more, continuation rest = .ok more ∧ more ≤ 2 := by
  have some : first ≠ 0 := by
    rintro rfl
    exact absurd high (by decide)
  rw [tagInfoParsingData, octet_cons, ok_bind, if_neg some, if_pos high, List.drop_one, List.tail_cons] at read
  cases counted : continuation rest with
  | error reason =>
    rw [counted] at read
    cases read
  | ok more =>
    refine ⟨more, rfl, ?_⟩
    by_contra many
    rw [counted] at read
    change (if 1 + more ≥ 4 then _ else _) = _ at read
    rw [if_pos (by omega)] at read
    cases read

theorem attrParsingData_digits {first : UInt8} (high : first &&& 0x1F = 0x1F) {rest : List UInt8} {formType : FormType}
    {number more : Nat} (counted : continuation rest = .ok more)
    (read : attrParsingData (first :: rest) = .ok (formType, number)) : number < 128 ^ (more + 1) := by
  have bound := classNumber_lt (rest.take (more + 1)) 0
  have fewer : 128 ^ (rest.take (more + 1)).length ≤ 128 ^ (more + 1) :=
    Nat.pow_le_pow_right (by decide) (List.length_take_le _ _)
  rw [attrParsingData, octet_cons, ok_bind] at read
  dsimp only at read
  rw [if_neg (by simpa using high), List.drop_one, List.tail_cons, counted, ok_bind] at read
  have same := (Prod.mk.inj (Except.ok.inj read)).2
  omega

theorem kept_of_read {w : Nat} (some : attr.formType ≠ .emptyForm) {rest : List UInt8} {info : TagInfo}
    (begun : tagInfoParsingData w (attr.encodingData false ++ rest) = .ok info)
    (read : attrParsingData (attr.encodingData false ++ rest) = .ok (attr.formType, attr.ulClassNumber)) :
    attr.Kept := by
  have written := @Attr.encodingData_first attr false some
  have implicit : (!attr.isConstructed false) = attr.bImplicit := by simp [Attr.isConstructed]
  rw [implicit] at written
  by_cases low : attr.ulClassNumber ≤ 0x1E
  · refine ⟨some, by omega, fun large => by omega, ?_⟩
    rintro ⟨universal, zero, true⟩
    rw [if_pos low, universal, zero, true] at written
    rw [written] at begun
    cases begun
  obtain ⟨form, high⟩ := firstOctet_high some attr.bImplicit
  rw [if_neg low] at written
  dsimp only at written
  have small : attr.ulClassNumber < 128 * 128 * 128 := by
    rw [written, List.cons_append, List.cons_append, List.cons_append, List.cons_append] at begun read
    obtain ⟨more, counted, few⟩ := tagInfoParsingData_digits high begun
    have bound := attrParsingData_digits high counted read
    have most : 128 ^ (more + 1) ≤ 128 ^ 3 := Nat.pow_le_pow_right (by decide) (by omega)
    omega
  refine ⟨some, small, fun large zero => ?_, fun marked => low (by omega)⟩
  -- The middle digit is left out, and the number that is read is smaller.
  have later : attr.ulClassNumber % (128 * 128) < 128 := by omega
  simp only [Attr.digit_skipped small, Attr.digit_written large, Attr.digit_skipped later, List.append_nil] at written
  have digits : attr.encodingData false =
      (firstOctet attr.formType attr.bImplicit + 0x1F) ::
        ([UInt8.ofNat (attr.ulClassNumber / (128 * 128)) ||| 0x80] ++
          [UInt8.ofNat (attr.ulClassNumber % (128 * 128))]) := written
  obtain ⟨-, continued, highDigit⟩ := digit_octets ⟨attr.ulClassNumber / (128 * 128), by omega⟩
  obtain ⟨⟨ended, lowDigit⟩, -⟩ := digit_octets ⟨attr.ulClassNumber % (128 * 128), by omega⟩
  have more : ∀ value ∈ [UInt8.ofNat (attr.ulClassNumber / (128 * 128)) ||| 0x80], value &&& 0x80 ≠ 0 := by
    simpa using continued
  have parsed := attrParsingData_long high more ended rest
  rw [← digits, read] at parsed
  have number := (Prod.mk.inj (Except.ok.inj parsed)).2
  simp only [List.cons_append, List.nil_append, List.foldl_cons, List.foldl_nil, highDigit, lowDigit] at number
  omega

theorem decodeLoop_kept (machine : Machine) (rest : List Attr) (kept : attr.Kept) (small : ulLength ≤ 0xFFFF)
    (behind : List UInt8) (uleftSize : Nat) :
    decodeLoop (ulongSize machine) (attr :: rest)
        ⟨attr.encodingData false ++ (encodeLength 4 ulLength ++ behind), true, uleftSize, 0⟩ =
      (let size := attr.getSizeOfEncodedTag + getSizeOfEncodedLength 4 ulLength
      if uleftSize = 0 then
        decodeLoop (ulongSize machine) rest ⟨behind, !attr.bImplicit, lengthRead machine ulLength, 0⟩
      else if ulongSub (ulongSize machine) uleftSize size ≠ lengthRead machine ulLength then .error .invalidEncodeLength
      else decodeLoop (ulongSize machine) rest
        ⟨behind, !attr.bImplicit, ulongSub (ulongSize machine) uleftSize size, 0⟩) := by
  obtain ⟨isTag, tagSize, parsed⟩ := kept_octets kept
  have dropped : (attr.encodingData false ++ (encodeLength 4 ulLength ++ behind)).drop
      (attr.getSizeOfEncodedTag + getSizeOfEncodedLength 4 ulLength) = behind := by
    rw [← List.append_assoc]
    exact List.drop_left' (by rw [List.length_append, tagSize, length_encodeLength small])
  rw [decodeLoop, if_neg kept.some, if_neg (by simp), tagInfoParsingData_machine machine isTag small, ok_bind, parsed,
    ok_bind]
  dsimp only
  rw [if_neg (by simp), tagSize, dropped, if_neg Bool.false_ne_true]

theorem kept_of_decodeLoop {w : Nat} {rest : List Attr} {data : List UInt8} {uleftSize uInfinite : Nat}
    {state : Decoding}
    (some : attr.formType ≠ .emptyForm)
    (success : decodeLoop w (attr :: rest) ⟨attr.encodingData false ++ data, true, uleftSize, uInfinite⟩ = .ok state) :
    attr.Kept := by
  rw [decodeLoop, if_neg some, if_neg (by simp)] at success
  obtain ⟨info, begun, success⟩ := bind_eq_ok success
  obtain ⟨⟨formType, ulClassNumber⟩, read, success⟩ := bind_eq_ok success
  dsimp only at success
  by_cases other : formType ≠ attr.formType ∨ ulClassNumber ≠ attr.ulClassNumber
  · rw [if_pos other] at success
    cases success
  · obtain ⟨rfl, rfl⟩ := not_or.mp other |>.imp not_not.mp not_not.mp
    exact kept_of_read some begun read

def Knows (machine : Machine) (bTag : Bool) (attrs : List Attr) (v uleftSize : Nat) : Prop :=
  uleftSize = lengthRead machine (left bTag attrs v) ∨ bTag = true ∧ uleftSize = 0

theorem decodeLoop_goesOn (machine : Machine) {rest : List Attr} (kept : attr.Kept)
    (small : content (attr :: rest) v ≤ 0xFFFF) {uleftSize : Nat}
    (knows : Knows machine true (attr :: rest) v uleftSize)
    (behind : List UInt8) :
    decodeLoop (ulongSize machine) (attr :: rest)
        ⟨attr.encodingData false ++ (encodeLength 4 (content (attr :: rest) v) ++ behind), true, uleftSize, 0⟩ =
      decodeLoop (ulongSize machine) rest
        ⟨behind, !attr.bImplicit, lengthRead machine (left (!attr.bImplicit) rest v), 0⟩ := by
  have inner : content (attr :: rest) v = left (!attr.bImplicit) rest v := content_cons kept.some
  have whole : left true (attr :: rest) v = left (!attr.bImplicit) rest v +
      getSizeOfEncodedLength 4 (left (!attr.bImplicit) rest v) + attr.getSizeOfEncodedTag := total_cons kept.some
  rw [decodeLoop_kept machine rest kept small, inner]
  dsimp only
  by_cases nothing : uleftSize = 0
  · rw [if_pos nothing]
  · obtain rfl | ⟨-, zero⟩ := knows
    · have short : machine.ulongSize = .four ∨ left true (attr :: rest) v ≤ 0x7F := by
        by_contra other
        exact nothing (if_neg other)
      have shorter : machine.ulongSize = .four ∨ left (!attr.bImplicit) rest v ≤ 0x7F := short.imp id (by omega)
      rw [if_neg nothing, lengthRead, lengthRead, if_pos short, if_pos shorter, whole, ulongSub_eq _ (by omega)]
      have same : left (!attr.bImplicit) rest v + getSizeOfEncodedLength 4 (left (!attr.bImplicit) rest v) +
          attr.getSizeOfEncodedTag - (attr.getSizeOfEncodedTag +
            getSizeOfEncodedLength 4 (left (!attr.bImplicit) rest v)) = left (!attr.bImplicit) rest v := by omega
      rw [same, if_neg (by simp)]
    · exact absurd zero nothing

theorem decodeLoop_header (machine : Machine) (bTag : Bool) (small : content attrs v ≤ 0xFFFF)
    (kept : ∀ attr ∈ emitted bTag attrs, attr.Kept) {uleftSize : Nat} (knows : Knows machine bTag attrs v uleftSize)
    (behind : List UInt8) :
    ∃ uleftSize', decodeLoop (ulongSize machine) attrs ⟨(header v attrs bTag).1 ++ behind, bTag, uleftSize, 0⟩ =
        .ok ⟨behind, (header v attrs bTag).2, uleftSize', 0⟩ ∧
      ((header v attrs bTag).2 = false → uleftSize' = lengthRead machine v) := by
  induction attrs generalizing bTag uleftSize with
  | nil =>
    refine ⟨uleftSize, rfl, fun none => ?_⟩
    obtain rfl : bTag = false := none
    obtain same | ⟨wrong, -⟩ := knows
    · exact same
    · cases wrong
  | cons attr rest ih =>
    have restSmall : content rest v ≤ 0xFFFF := Nat.le_trans (content_le_cons attr rest v) small
    rw [header]
    rw [emitted] at kept
    by_cases empty : attr.formType = .emptyForm
    · rw [if_pos empty] at kept
      rw [decodeLoop, if_pos empty, if_pos empty]
      rw [Knows, left_empty empty] at knows
      exact ih bTag restSmall kept knows
    rw [if_neg empty] at kept
    rw [if_neg empty]
    cases bTag with
    | false =>
      rw [if_neg Bool.false_ne_true] at kept
      have same : left false (attr :: rest) v = left (!attr.bImplicit) rest v := content_cons empty
      rw [decodeLoop, if_neg empty]
      obtain rfl | ⟨wrong, -⟩ := knows
      · rw [same]
        exact ih _ restSmall kept (.inl rfl)
      · cases wrong
    | true =>
      rw [if_pos rfl] at kept
      obtain ⟨first, others⟩ := List.forall_mem_cons.mp kept
      have step := decodeLoop_goesOn machine first small knows ((header v rest (!attr.bImplicit)).1 ++ behind)
      simp only [if_true, List.append_assoc]
      rw [step]
      exact ih _ restSmall others (.inl rfl)

theorem kept_of_header (machine : Machine) (bTag : Bool) (small : content attrs v ≤ 0xFFFF) {uleftSize : Nat}
    (knows : Knows machine bTag attrs v uleftSize) {behind : List UInt8} {state : Decoding}
    (success : decodeLoop (ulongSize machine) attrs ⟨(header v attrs bTag).1 ++ behind, bTag, uleftSize, 0⟩ =
      .ok state) :
    ∀ attr ∈ emitted bTag attrs, attr.Kept := by
  induction attrs generalizing bTag uleftSize with
  | nil => exact List.forall_mem_nil _
  | cons attr rest ih =>
    have restSmall : content rest v ≤ 0xFFFF := Nat.le_trans (content_le_cons attr rest v) small
    rw [header] at success
    rw [emitted]
    by_cases empty : attr.formType = .emptyForm
    · rw [decodeLoop, if_pos empty, if_pos empty] at success
      rw [if_pos empty]
      rw [Knows, left_empty empty] at knows
      exact ih bTag restSmall knows success
    rw [if_neg empty] at success
    rw [if_neg empty]
    cases bTag with
    | false =>
      have same : left false (attr :: rest) v = left (!attr.bImplicit) rest v := content_cons empty
      rw [decodeLoop, if_neg empty] at success
      rw [if_neg Bool.false_ne_true]
      obtain rfl | ⟨wrong, -⟩ := knows
      · rw [same] at success
        exact ih _ restSmall (.inl rfl) success
      · cases wrong
    | true =>
      simp only [if_true, List.append_assoc] at success
      rw [if_pos rfl]
      have kept := kept_of_decodeLoop empty success
      rw [decodeLoop_goesOn machine kept small knows] at success
      exact List.forall_mem_cons.mpr ⟨kept, ih _ restSmall (.inl rfl) success⟩

theorem length_header_kept (bTag : Bool) (small : content attrs v ≤ 0xFFFF)
    (kept : ∀ attr ∈ emitted bTag attrs, attr.Kept) :
    (header v attrs bTag).1.length + left (header v attrs bTag).2 [] v = left bTag attrs v :=
  length_header_sized bTag small fun attr member => (kept_octets (kept attr member)).2.1

end Reading

section Own

variable {v : Nat} {attrs : List Attr}

def nonEmpty (attrs : List Attr) : List Attr := attrs.filter fun attr => attr.formType ≠ .emptyForm

theorem nonEmpty_empty {attr : Attr} (empty : attr.formType = .emptyForm) (rest : List Attr) :
    nonEmpty (attr :: rest) = nonEmpty rest :=
  List.filter_cons_of_neg (by simp [empty])

theorem nonEmpty_cons {attr : Attr} (some : attr.formType ≠ .emptyForm) (rest : List Attr) :
    nonEmpty (attr :: rest) = attr :: nonEmpty rest :=
  List.filter_cons_of_pos (by simp [some])

theorem header_own (v : Nat) (attrs : List Attr) (bTag : Bool) :
    (header v attrs bTag).2 = (((nonEmpty attrs).getLast?.map fun attr => !attr.bImplicit).getD bTag) := by
  induction attrs generalizing bTag with
  | nil => rfl
  | cons attr rest ih =>
    rw [header]
    by_cases empty : attr.formType = .emptyForm
    · rw [if_pos empty, nonEmpty_empty empty, ih]
    · rw [if_neg empty, nonEmpty_cons empty, List.getLast?_cons]
      have later := ih (!attr.bImplicit)
      have last :
          (Option.map (fun attr : Attr => !attr.bImplicit)
            (some ((nonEmpty rest).getLast?.getD attr))).getD bTag =
          ((nonEmpty rest).getLast?.map fun attr => !attr.bImplicit).getD (!attr.bImplicit) := by
        cases (nonEmpty rest).getLast? <;> rfl
      rw [last, ← later]
      cases bTag <;> rfl

theorem header_first (small : content attrs v ≤ 0xFFFF) (kept : ∀ attr ∈ emitted true attrs, attr.Kept)
    (some : nonEmpty attrs ≠ []) :
    ∃ attr ∈ emitted true attrs, ∃ later,
      (header v attrs true).1 = attr.encodingData false ++ (encodeLength 4 (content attrs v) ++ later) ∧
        content attrs v = later.length + left (header v attrs true).2 [] v := by
  induction attrs with
  | nil => exact absurd rfl some
  | cons attr rest ih =>
    have restSmall : content rest v ≤ 0xFFFF := Nat.le_trans (content_le_cons attr rest v) small
    rw [emitted] at kept
    rw [emitted, header]
    by_cases empty : attr.formType = .emptyForm
    · have same : content (attr :: rest) v = content rest v := by rw [content, content, sizeLoop_empty empty]
      rw [nonEmpty_empty empty] at some
      rw [if_pos empty] at kept
      rw [if_pos empty, if_pos empty, same]
      exact ih restSmall kept some
    · rw [if_neg empty, if_pos rfl] at kept
      have inner := length_header_kept (!attr.bImplicit) restSmall (List.forall_mem_cons.mp kept).2
      rw [if_neg empty, if_neg empty, if_pos rfl, if_pos rfl, content_cons empty]
      exact ⟨attr, List.mem_cons_self, _, rfl, inner.symm⟩

theorem header_nothing (none : nonEmpty attrs = []) : header v attrs true = ([], true) ∧ content attrs v = v := by
  induction attrs with
  | nil => exact ⟨rfl, rfl⟩
  | cons attr rest ih =>
    by_cases empty : attr.formType = .emptyForm
    · rw [nonEmpty_empty empty] at none
      rw [header, if_pos empty, content, sizeLoop_empty empty]
      exact ih none
    · rw [nonEmpty_cons empty] at none
      cases none

theorem attrListDecodingData_nil {w : Nat} {attrs : List Attr} {state : Decoding}
    (success : attrListDecodingData w attrs [] = .ok state) : state.pEncodingUnit = [] ∧ state.bTag = true := by
  rw [attrListDecodingData] at success
  generalize shown attrs = attrs at success
  induction attrs with
  | nil =>
    rw [← Except.ok.inj success]
    exact ⟨rfl, rfl⟩
  | cons attr rest ih =>
    rw [decodeLoop] at success
    by_cases empty : attr.formType = .emptyForm
    · rw [if_pos empty] at success
      exact ih success
    · rw [if_neg empty] at success
      cases success

end Own

end CcspCommon.AnscAsn1
