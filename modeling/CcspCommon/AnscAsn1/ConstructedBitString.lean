import CcspCommon.AnscAsn1.BitString
import CcspCommon.AnscAsn1.TaggedOctets

set_option autoImplicit false

namespace CcspCommon.AnscAsn1

open CcspCommon.AnscPlatform (Machine UlongSize)
open CcspCommon.Shared (bind_eq_ok)

section Segments

structure Segment where
  field : LengthField
  unused : Fin 8
  octets : List UInt8
  size : field.value = octets.length + 1

def Segment.encoded (segment : Segment) : List UInt8 :=
  0x03 :: (segment.field.octets ++ UInt8.ofNat segment.unused :: segment.octets)

structure Segments where
  front : List Segment
  last : Segment
  whole : ∀ segment ∈ front, segment.unused = 0

namespace Segments

variable (segments : Segments)

def all : List Segment := segments.front ++ [segments.last]

def content : List UInt8 := segments.all.flatMap Segment.encoded

def octets : List UInt8 := segments.all.flatMap Segment.octets

end Segments

inductive Form (content : List UInt8)
  | definite (field : LengthField) (size : field.value = content.length)
  | indefinite

def constructed {content : List UInt8} : Form content → List UInt8
  | .definite field _ => 0x23 :: (field.octets ++ content)
  | .indefinite => 0x23 :: 0x80 :: (content ++ [0x00, 0x00])

namespace BitString

def Joins (machine : Machine) (object : BitString) (segments : Segments) (form : Form segments.content) : Prop :=
  ∀ further, ∃ decoded, object.decodingData (ulongSize machine) (constructed form ++ further) = .ok (decoded, further) ∧
    decoded.uUnusedBit = segments.last.unused ∧ decoded.uLength = segments.octets.length ∧
    decoded.storage.take decoded.uLength = segments.octets

/-- A part whose octets are found again: it has none, or they are not in the fixed buffer. -/
structure Kept (machine : Machine) (segment : Segment) : Prop where
  field : segment.field.Read machine
  stored : segment.octets = [] ∨ maximumOctetStringOctets < segment.octets.length
  short : segment.octets.length < 20000

structure Joinable (machine : Machine) (object : BitString) (segments : Segments) (form : Form segments.content) :
    Prop where
  definite : ∃ field size, form = .definite field size ∧ field.Read machine
  length : segments.content.length < 2 ^ 31
  kept : ∀ segment ∈ segments.all, Kept machine segment
  emptied : object.bIsDynamic ∨ object.uLength = 0
  bits : object.bIsDynamic ∨ object.uUnusedBit = 0 ∨ segments.last.unused ≠ 0

end BitString

end Segments

section Parts

variable {machine : Machine} {segment : Segment} {rest later : List UInt8} {pNewObject : BitString}

theorem Segment.length_encoded (segment : Segment) :
    segment.encoded.length = segment.field.octets.length + segment.octets.length + 2 := by
  rw [encoded, List.length_cons, List.length_append, List.length_cons]
  omega

def Segment.part (segment : Segment) : BitString :=
  let object := { BitString.create with uLength := segment.octets.length, uUnusedBit := segment.unused }
  if segment.octets.length ≤ maximumOctetStringOctets then
    { object with pString := segment.octets ++ object.pString.drop segment.octets.length }
  else { object with bIsDynamic := true, pStringBuffer := some segment.octets }

def BitString.partOctets (part : BitString) : Except Asn1Error (List UInt8) :=
  match part.pStringBuffer with
  | some octets => .ok (octets.take part.uLength)
  | none => if part.uLength = 0 then .ok [] else .error .fault

theorem Segment.part_octets (segment : Segment) :
    segment.part.uLength = segment.octets.length ∧ segment.part.uUnusedBit = segment.unused ∧
      segment.part.partOctets =
        if segment.octets = [] ∨ maximumOctetStringOctets < segment.octets.length then .ok segment.octets
        else .error .fault := by
  rw [BitString.partOctets, part]
  dsimp only
  by_cases fixed : segment.octets.length ≤ maximumOctetStringOctets
  · rw [if_pos fixed]
    refine ⟨rfl, rfl, ?_⟩
    change (if segment.octets.length = 0 then _ else _) = _
    by_cases empty : segment.octets = []
    · have found : segment.octets = [] ∨ maximumOctetStringOctets < segment.octets.length := .inl empty
      rw [if_pos found, empty]
      rfl
    · have lost : ¬ (segment.octets = [] ∨ maximumOctetStringOctets < segment.octets.length) := by
        rintro (none | long)
        · exact empty none
        · omega
      rw [if_neg lost, if_neg (mt List.length_eq_zero_iff.mp empty)]
  · have found : segment.octets = [] ∨ maximumOctetStringOctets < segment.octets.length := .inr (by omega)
    rw [if_neg fixed, if_pos found]
    refine ⟨rfl, rfl, ?_⟩
    change Except.ok (segment.octets.take segment.octets.length) = _
    rw [List.take_length]

namespace BitString

theorem attrList_plain {object : BitString} (plain : object.attrs = []) (data : List UInt8) :
    attrListDecodingData (ulongSize machine) object.attrs data = .ok ⟨data, true, 0, 0⟩ := by
  rw [plain]
  rfl

theorem decodeNested_segment (fuel : Nat) (segment : Segment) (rest : List UInt8) :
    decodeNested (ulongSize machine) (fuel + 1) create (segment.encoded ++ rest) =
      match segment.field.read machine with
      | none => .error .invalidEncodeLength
      | some uLeftSize =>
        decodeValue (ulongSize machine) create
          ⟨UInt8.ofNat segment.unused :: (segment.octets ++ rest), true, uLeftSize, 0⟩ := by
  have whole : segment.encoded ++ rest =
      [0x03] ++ (segment.field.octets ++ UInt8.ofNat segment.unused :: (segment.octets ++ rest)) := by
    rw [Segment.encoded, List.cons_append, List.append_assoc, List.cons_append, List.singleton_append]
  rw [decodeNested, attrList_plain rfl, ok_bind, decodeInner, if_pos rfl]
  dsimp only
  rw [whole, tagInfoParsingData_bind isTag_bitString, LengthField.lengthParsing_field]
  cases segment.field.read machine with
  | none => rfl
  | some uLeftSize =>
    rw [ok_bind, ok_bind, if_neg (by simp), if_neg (by simp), Decoding.inside]
    dsimp only
    rw [if_neg Bool.false_ne_true, if_neg Bool.false_ne_true, List.singleton_append, Nat.add_comm 1,
      List.drop_succ_cons, List.drop_left]

theorem decodeValue_part (segment : Segment) (rest : List UInt8) :
    decodeValue (ulongSize machine) create
        ⟨UInt8.ofNat segment.unused :: (segment.octets ++ rest), true, segment.octets.length + 1, 0⟩ =
      if 20000 ≤ segment.octets.length then .error .unacceptableValueSize else .ok (segment.part, rest) := by
  have size : ulongSub (ulongSize machine) (segment.octets.length + 1) 1 = segment.octets.length :=
    ulongSub_eq _ (by omega)
  have bits : (UInt8.ofNat segment.unused).toNat = segment.unused := toNat_octet (by omega)
  rw [decodeValue, Decoding.valueLength_eq (Nat.succ_ne_zero _), ok_bind]
  dsimp only
  rw [withValue]
  by_cases long : 20000 ≤ segment.octets.length
  · rw [if_pos (by omega), if_pos long]
    rfl
  rw [if_neg (by omega), if_neg long, octet_cons, ok_bind, size, bits]
  dsimp only
  rw [List.drop_succ_cons, List.drop_zero, if_neg (by simp), List.take_left, List.drop_left, Segment.part]
  by_cases fixed : segment.octets.length ≤ maximumOctetStringOctets
  · rw [if_pos fixed]
    dsimp only
    rw [if_pos fixed]
    rfl
  · rw [if_neg fixed]
    dsimp only
    rw [if_neg fixed]
    rfl

theorem infiniteLoop_found {data : List UInt8} {uMaxLength fuel index found : Nat}
    (success : infiniteLoop data uMaxLength fuel index = .ok (some found)) :
    found < uMaxLength ∧ octet data found = .ok 0 := by
  induction fuel generalizing index with
  | zero => cases success
  | succ fuel ih =>
    rw [infiniteLoop] at success
    split_ifs at success with inside
    · obtain ⟨here, first, success⟩ := bind_eq_ok success
      obtain ⟨next, -, success⟩ := bind_eq_ok success
      by_cases zeros : here = 0 ∧ next = 0
      · rw [if_pos zeros] at success
        obtain rfl := Option.some.inj (Except.ok.inj success)
        exact ⟨inside, zeros.1 ▸ first⟩
      · rw [if_neg zeros] at success
        exact ih success
    · cases success

theorem withValue_rest {data : List UInt8} {uValueLength : Nat}
    (success : withValue (ulongSize machine) create data uValueLength = .ok (pNewObject, later)) :
    ulongSub (ulongSize machine) uValueLength 1 ≤ data.length ∧ uValueLength ≤ 20000 ∧
      later = (data.drop 1).drop (ulongSub (ulongSize machine) uValueLength 1) := by
  rw [withValue] at success
  by_cases long : uValueLength > 20000
  · rw [if_pos long] at success
    cases success
  rw [if_neg long] at success
  obtain ⟨first, -, success⟩ := bind_eq_ok success
  dsimp only at success
  by_cases short : (data.drop 1).length < ulongSub (ulongSize machine) uValueLength 1
  · rw [if_pos short] at success
    cases success
  rw [if_neg short] at success
  rw [List.length_drop] at short
  refine ⟨by omega, by omega, ?_⟩
  split_ifs at success
  · exact (Prod.mk.inj (Except.ok.inj success)).2.symm
  · exact (Prod.mk.inj (Except.ok.inj success)).2.symm

theorem decodeValue_lost {data : List UInt8} (eight : machine.ulongSize = .eight) (room : data.length < 2 ^ 63)
    (success : decodeValue (ulongSize machine) create ⟨data, true, 0, 0⟩ = .ok (pNewObject, later)) :
    (∃ behind, later = 0 :: behind) ∧ data.length ≤ later.length + 20000 := by
  have size : ulongSize machine = 8 := by rw [ulongSize, eight]
  obtain ⟨uValueLength, found, success⟩ := bind_eq_ok success
  obtain ⟨⟨decoded, behind⟩, value, success⟩ := bind_eq_ok success
  obtain ⟨rfl, rfl⟩ := Prod.mk.inj (Except.ok.inj success)
  rw [Decoding.valueLength, if_pos rfl] at found
  obtain ⟨ended, looked, found⟩ := bind_eq_ok found
  cases ended with
  | none => cases found
  | some index =>
    obtain rfl := Except.ok.inj found
    obtain ⟨-, zero⟩ := infiniteLoop_found looked
    rw [octet] at zero
    cases ends : data[index]? with
    | none => rw [ends] at zero; cases zero
    | some last =>
      rw [ends] at zero
      obtain rfl := Except.ok.inj zero
      obtain ⟨short, long, rfl⟩ := withValue_rest value
      rw [size, ulongSub] at short
      dsimp only at short
      by_cases some : 1 ≤ index
      · rw [size, ulongSub_eq 8 some, List.drop_drop, Nat.add_sub_cancel' some]
        refine ⟨⟨data.drop (index + 1), ?_⟩, by rw [List.length_drop]; dsimp only; omega⟩
        obtain ⟨inside, same⟩ := List.getElem?_eq_some_iff.mp ends
        rw [List.drop_eq_getElem_cons inside, same]
      · rw [if_neg some] at short
        omega

theorem decodeNested_cases {fuel : Nat}
    (small : machine.ulongSize = .eight → segment.octets.length + 1 < 2 ^ 32)
    (room : machine.ulongSize = .eight → (segment.encoded ++ rest).length < 2 ^ 63)
    (success : decodeNested (ulongSize machine) (fuel + 1) create (segment.encoded ++ rest) = .ok (pNewObject, later)) :
    segment.field.Read machine ∧ segment.octets.length < 20000 ∧ pNewObject = segment.part ∧ later = rest ∨
      (∃ behind, later = 0 :: behind) ∧ (segment.encoded ++ rest).length ≤ later.length + 20130 := by
  have field := segment.field.length_octets
  rw [decodeNested_segment] at success
  cases found : segment.field.read machine with
  | none => rw [found] at success; cases success
  | some uLeftSize =>
    rw [found] at success
    dsimp only at success
    obtain ⟨reads, rfl⟩ | ⟨eight, rfl, -⟩ := LengthField.read_cases found
    · rw [segment.size, decodeValue_part] at success
      by_cases long : 20000 ≤ segment.octets.length
      · rw [if_pos long] at success
        cases success
      rw [if_neg long] at success
      obtain ⟨rfl, rfl⟩ := Prod.mk.inj (Except.ok.inj success)
      exact .inl ⟨reads, by omega, rfl, rfl⟩
    · have zero : segment.field.value / 2 ^ 32 = 0 := by
        rw [segment.size]
        exact Nat.div_eq_of_lt (small eight)
      have bound := room eight
      rw [List.length_append, segment.length_encoded] at bound ⊢
      rw [zero] at success
      obtain ⟨behind, short⟩ := decodeValue_lost eight (by rw [List.length_cons, List.length_append]; omega) success
      rw [List.length_cons, List.length_append] at short
      exact .inr ⟨behind, by omega⟩

theorem decodeNested_kept (fuel : Nat) (kept : Kept machine segment) (rest : List UInt8) :
    decodeNested (ulongSize machine) (fuel + 1) create (segment.encoded ++ rest) = .ok (segment.part, rest) := by
  have short := kept.short
  rw [decodeNested_segment, kept.field.read]
  dsimp only
  rw [segment.size, decodeValue_part, if_neg (by omega)]

theorem decodeNested_zero (fuel : Nat) (behind : List UInt8) :
    decodeNested (ulongSize machine) (fuel + 1) create (0 :: behind) = .error .unexpectedTag := rfl

end BitString

end Parts

section Loop

namespace BitString

variable {machine : Machine} {decode : List UInt8 → Except Asn1Error (BitString × List UInt8)} {fuel n : Nat}
  {object decoded : BitString} {buffer data rest : List UInt8} {actualLength : Int} {segment : Segment}
  {parts : List Segment}

theorem copyAt_ok {offset : Nat} {octets copied : List UInt8} (success : copyAt buffer offset octets = .ok copied) :
    copied = buffer.take offset ++ octets ++ buffer.drop (offset + octets.length) ∧ copied.length = buffer.length := by
  rw [copyAt] at success
  by_cases long : offset + octets.length > buffer.length
  · rw [if_pos long] at success
    cases success
  rw [if_neg long] at success
  obtain rfl := Except.ok.inj success
  refine ⟨rfl, ?_⟩
  rw [List.length_append, List.length_append, List.length_take, List.length_drop]
  omega

theorem copyAt_eq {offset : Nat} {octets : List UInt8} (fits : offset + octets.length ≤ buffer.length) :
    copyAt buffer offset octets = .ok (buffer.take offset ++ octets ++ buffer.drop (offset + octets.length)) :=
  if_neg (by omega)

theorem constructedLoop_succ (n : Nat) (object : BitString) (buffer : List UInt8) (actualLength : Int)
    (data : List UInt8) :
    constructedLoop decode (n + 1) object buffer actualLength data =
      if actualLength > 0 then
        decode data >>= fun decoded => decoded.1.partOctets >>= fun octets =>
          copyAt buffer object.uLength octets >>= fun buffer =>
            constructedLoop decode n
              { object with
                uUnusedBit := if decoded.1.uUnusedBit ≠ 0 then decoded.1.uUnusedBit else object.uUnusedBit
                uLength := object.uLength + decoded.1.uLength }
              buffer (actualLength - (data.length - decoded.2.length : Nat)) decoded.2
      else .ok ({ object with pStringBuffer := some buffer, bOptional := false }, data) := by
  rw [constructedLoop]
  refine if_congr Iff.rfl (bind_congr fun decoded => ?_) rfl
  rw [partOctets]
  dsimp only
  cases decoded.1.pStringBuffer with
  | some octets => rfl
  | none =>
    dsimp only
    split_ifs <;> rfl

theorem constructedLoop_round (more : 0 < actualLength)
    (success : constructedLoop decode n object buffer actualLength data = .ok (decoded, rest)) :
    ∃ m part later octets copied, n = m + 1 ∧ decode data = .ok (part, later) ∧
      part.partOctets = .ok octets ∧ copyAt buffer object.uLength octets = .ok copied ∧
      constructedLoop decode m
        { object with
          uUnusedBit := if part.uUnusedBit ≠ 0 then part.uUnusedBit else object.uUnusedBit
          uLength := object.uLength + part.uLength }
        copied (actualLength - (data.length - later.length : Nat)) later = .ok (decoded, rest) := by
  cases n with
  | zero => cases success
  | succ m =>
    rw [constructedLoop_succ, if_pos more] at success
    obtain ⟨⟨part, later⟩, decodes, success⟩ := bind_eq_ok success
    obtain ⟨octets, taken, success⟩ := bind_eq_ok success
    obtain ⟨copied, copies, success⟩ := bind_eq_ok success
    exact ⟨m, part, later, octets, copied, rfl, decodes, taken, copies, success⟩

theorem constructedLoop_done (done : actualLength ≤ 0)
    (success : constructedLoop decode n object buffer actualLength data = .ok (decoded, rest)) :
    decoded = { object with pStringBuffer := some buffer, bOptional := false } ∧ rest = data := by
  cases n with
  | zero => cases success
  | succ m =>
    rw [constructedLoop, if_neg (by omega)] at success
    obtain ⟨rfl, rfl⟩ := Prod.mk.inj (Except.ok.inj success)
    exact ⟨rfl, rfl⟩

theorem constructedLoop_buffer
    (success : constructedLoop decode n object buffer actualLength data = .ok (decoded, rest)) :
    decoded.bIsDynamic = object.bIsDynamic ∧
      ∃ octets, decoded.pStringBuffer = some octets ∧ octets.length = buffer.length := by
  induction n generalizing object buffer actualLength data with
  | zero => cases success
  | succ n ih =>
    by_cases more : 0 < actualLength
    · obtain ⟨m, part, later, octets, copied, same, -, -, copies, success⟩ := constructedLoop_round more success
      obtain rfl := Nat.succ.inj same
      rw [← (copyAt_ok copies).2]
      obtain ⟨dynamic, found⟩ := ih success
      exact ⟨dynamic, found⟩
    · obtain ⟨rfl, -⟩ := constructedLoop_done (by omega) success
      exact ⟨rfl, buffer, rfl, rfl⟩

theorem constructedLoop_zero {behind : List UInt8}
    (success : constructedLoop (decodeNested (ulongSize machine) (fuel + 1) create) n object buffer actualLength
      (0 :: behind) = .ok (decoded, rest)) : actualLength ≤ 0 ∧ rest = 0 :: behind := by
  by_cases more : 0 < actualLength
  · obtain ⟨m, part, later, octets, copied, -, decodes, -⟩ := constructedLoop_round more success
    rw [decodeNested_zero] at decodes
    cases decodes
  · exact ⟨by omega, (constructedLoop_done (by omega) success).2⟩

theorem constructedLoop_early
    (small : machine.ulongSize = .eight → ∀ segment ∈ parts, segment.octets.length + 1 < 2 ^ 32)
    (room : machine.ulongSize = .eight → (parts.flatMap Segment.encoded).length < 2 ^ 63)
    (some : 2 < (parts.flatMap Segment.encoded).length)
    (early : actualLength + 20140 ≤ (parts.flatMap Segment.encoded).length)
    (success : constructedLoop (decodeNested (ulongSize machine) (fuel + 1) create) n object buffer actualLength
      (parts.flatMap Segment.encoded) = .ok (decoded, rest)) : 2 < rest.length := by
  induction parts generalizing n object buffer actualLength with
  | nil => exact absurd some (by simp)
  | cons segment others ih =>
    by_cases more : 0 < actualLength
    · obtain ⟨m, part, later, octets, copied, -, decodes, -, -, success⟩ := constructedLoop_round more success
      have field := segment.field.length_octets
      have length := segment.length_encoded
      have whole : ((segment :: others).flatMap Segment.encoded).length =
          segment.encoded.length + (others.flatMap Segment.encoded).length := by
        rw [List.flatMap_cons, List.length_append]
      rw [whole] at some early success
      rw [List.flatMap_cons] at room decodes
      obtain ⟨-, short, -, rfl⟩ | ⟨⟨behind, rfl⟩, far⟩ :=
        decodeNested_cases (fun eight => small eight segment List.mem_cons_self) room decodes
      · refine ih (fun eight other member => small eight other (List.mem_cons_of_mem segment member)) (fun eight => ?_)
          (by omega) (by omega) success
        have bound := room eight
        rw [List.length_append] at bound
        omega
      · obtain ⟨-, rfl⟩ := constructedLoop_zero success
        rw [List.length_append] at far
        omega
    · obtain ⟨-, rfl⟩ := constructedLoop_done (by omega) success
      exact some

def lastUnused (uUnusedBit : Nat) (parts : List Segment) : Nat :=
  parts.foldl (fun uUnusedBit segment => if (segment.unused : Nat) ≠ 0 then segment.unused else uUnusedBit) uUnusedBit

theorem constructedLoop_kept
    (small : machine.ulongSize = .eight → ∀ segment ∈ parts, segment.octets.length + 1 < 2 ^ 32)
    (room : machine.ulongSize = .eight → (parts.flatMap Segment.encoded).length < 2 ^ 63)
    (success : constructedLoop (decodeNested (ulongSize machine) (fuel + 1) create) n object buffer
      (parts.flatMap Segment.encoded).length (parts.flatMap Segment.encoded) = .ok (decoded, rest)) :
    (∀ segment ∈ parts, Kept machine segment) ∧
      decoded.uLength = object.uLength + (parts.flatMap Segment.octets).length ∧
      decoded.uUnusedBit = lastUnused object.uUnusedBit parts := by
  induction parts generalizing n object buffer with
  | nil =>
    obtain ⟨rfl, -⟩ := constructedLoop_done (Int.le_refl 0) success
    exact ⟨List.forall_mem_nil _, rfl, rfl⟩
  | cons segment others ih =>
    have length := segment.length_encoded
    have whole : ((segment :: others).flatMap Segment.encoded).length =
        segment.encoded.length + (others.flatMap Segment.encoded).length := by
      rw [List.flatMap_cons, List.length_append]
    obtain ⟨m, part, later, octets, copied, -, decodes, taken, -, success⟩ :=
      constructedLoop_round (by rw [whole]; omega) success
    rw [List.flatMap_cons] at room decodes
    obtain ⟨reads, short, rfl, rfl⟩ | ⟨⟨behind, rfl⟩, -⟩ :=
      decodeNested_cases (fun eight => small eight segment List.mem_cons_self) room decodes
    · obtain ⟨uLength, uUnusedBit, found⟩ := segment.part_octets
      have stored : segment.octets = [] ∨ maximumOctetStringOctets < segment.octets.length := by
        by_contra lost
        rw [found, if_neg lost] at taken
        cases taken
      have left : (((segment :: others).flatMap Segment.encoded).length : Int) -
          (((segment :: others).flatMap Segment.encoded).length - (others.flatMap Segment.encoded).length : Nat) =
            (others.flatMap Segment.encoded).length := by
        rw [whole]
        omega
      rw [left] at success
      obtain ⟨kept, lengths, bits⟩ := ih
        (fun eight other member => small eight other (List.mem_cons_of_mem segment member))
        (fun eight => Nat.lt_of_le_of_lt (by rw [List.length_append]; omega) (room eight)) success
      refine ⟨List.forall_mem_cons.mpr ⟨⟨reads, stored, short⟩, kept⟩, ?_, ?_⟩
      · rw [lengths, List.flatMap_cons, List.length_append, ← uLength]
        dsimp only
        omega
      · rw [bits, lastUnused, lastUnused, List.foldl_cons, ← uUnusedBit]
    · obtain ⟨done, -⟩ := constructedLoop_zero success
      rw [List.length_cons] at done
      omega

theorem constructedLoop_joins (kept : ∀ segment ∈ parts, Kept machine segment) (enough : parts.length < n)
    (fits : object.uLength + (parts.flatMap Segment.encoded).length ≤ buffer.length) (further : List UInt8) :
    ∃ decoded octets, constructedLoop (decodeNested (ulongSize machine) (fuel + 1) create) n object buffer
        (parts.flatMap Segment.encoded).length (parts.flatMap Segment.encoded ++ further) = .ok (decoded, further) ∧
      decoded.bIsDynamic = object.bIsDynamic ∧
      decoded.uLength = object.uLength + (parts.flatMap Segment.octets).length ∧
      decoded.uUnusedBit = lastUnused object.uUnusedBit parts ∧ decoded.pStringBuffer = some octets ∧
      octets.take decoded.uLength = buffer.take object.uLength ++ parts.flatMap Segment.octets := by
  obtain ⟨n, rfl⟩ := Nat.exists_eq_succ_of_ne_zero (Nat.ne_of_gt (Nat.zero_lt_of_lt enough))
  induction parts generalizing n object buffer with
  | nil =>
    have done : constructedLoop (decodeNested (ulongSize machine) (fuel + 1) create) (n + 1) object buffer 0 further =
        .ok ({ object with pStringBuffer := some buffer, bOptional := false }, further) := by
      rw [constructedLoop_succ, if_neg (Int.lt_irrefl 0)]
    exact ⟨_, buffer, done, rfl, rfl, rfl, rfl, (List.append_nil _).symm⟩
  | cons segment others ih =>
    obtain ⟨this, kept⟩ := List.forall_mem_cons.mp kept
    obtain ⟨uLength, uUnusedBit, found⟩ := segment.part_octets
    have length := segment.length_encoded
    have whole : ((segment :: others).flatMap Segment.encoded).length =
        segment.encoded.length + (others.flatMap Segment.encoded).length := by
      rw [List.flatMap_cons, List.length_append]
    rw [List.length_cons] at enough
    obtain ⟨n, rfl⟩ := Nat.exists_eq_succ_of_ne_zero (show n ≠ 0 by omega)
    have copies := copyAt_eq (show object.uLength + segment.octets.length ≤ buffer.length by omega)
    obtain ⟨-, copied⟩ := copyAt_ok copies
    have room : object.uLength + segment.part.uLength + (others.flatMap Segment.encoded).length ≤
        (buffer.take object.uLength ++ segment.octets ++
          buffer.drop (object.uLength + segment.octets.length)).length := by
      rw [copied, uLength]
      omega
    obtain ⟨decoded, octets, run, dynamic, lengths, bits, stands, taken⟩ := @ih
      { object with
        uUnusedBit := if segment.part.uUnusedBit ≠ 0 then segment.part.uUnusedBit else object.uUnusedBit
        uLength := object.uLength + segment.part.uLength } _ kept room n (by omega)
    have left : (((segment :: others).flatMap Segment.encoded).length : Int) -
        ((segment.encoded ++ (others.flatMap Segment.encoded ++ further)).length -
          (others.flatMap Segment.encoded ++ further).length : Nat) = (others.flatMap Segment.encoded).length := by
      rw [whole, @List.length_append _ segment.encoded]
      omega
    refine ⟨decoded, octets, ?_, dynamic, ?_, ?_, stands, ?_⟩
    · rw [List.flatMap_cons, List.append_assoc, ← List.flatMap_cons, constructedLoop_succ,
        if_pos (by rw [whole]; omega), decodeNested_kept fuel this, ok_bind]
      dsimp only
      rw [found, if_pos this.stored, ok_bind, copies, ok_bind, left]
      exact run
    · rw [lengths, List.flatMap_cons, List.length_append, ← uLength]
      dsimp only
      omega
    · rw [bits, lastUnused, lastUnused, List.foldl_cons, ← uUnusedBit]
    · have front : (buffer.take object.uLength ++ segment.octets).length = object.uLength + segment.octets.length := by
        rw [List.length_append, List.length_take]
        omega
      rw [taken, List.flatMap_cons, ← List.append_assoc]
      dsimp only
      rw [uLength, List.take_left' front]

end BitString

end Loop

section Joining

namespace BitString

variable {machine : Machine} {object decoded : BitString} {segments : Segments} {form : Form segments.content}
  {behind rest : List UInt8} {length : Int}

theorem length_le_flatMap {A : Type} {items : List A} {item : A} (member : item ∈ items) (octets : A → List UInt8) :
    (octets item).length ≤ (items.flatMap octets).length := by
  obtain ⟨front, back, rfl⟩ := List.append_of_mem member
  rw [List.flatMap_append, List.flatMap_cons, List.length_append, List.length_append]
  omega

theorem length_parts (parts : List Segment) : 2 * parts.length ≤ (parts.flatMap Segment.encoded).length := by
  induction parts with
  | nil => exact Nat.le_refl 0
  | cons segment others ih =>
    have length := segment.length_encoded
    rw [List.flatMap_cons, List.length_append, List.length_cons]
    omega

theorem length_content (segments : Segments) : 2 < segments.content.length := by
  have length := segments.last.length_encoded
  have field := segments.last.field.length_octets
  have member : segments.last ∈ segments.all := List.mem_append_right _ List.mem_cons_self
  have inside : segments.last.encoded.length ≤ segments.content.length := length_le_flatMap member Segment.encoded
  omega

theorem lastUnused_all (segments : Segments) (uUnusedBit : Nat) :
    lastUnused uUnusedBit segments.all =
      if (segments.last.unused : Nat) ≠ 0 then (segments.last.unused : Nat) else uUnusedBit := by
  have front (parts : List Segment) (whole : ∀ segment ∈ parts, segment.unused = 0) :
      lastUnused uUnusedBit parts = uUnusedBit := by
    induction parts with
    | nil => rfl
    | cons segment others ih =>
      obtain ⟨zero, whole⟩ := List.forall_mem_cons.mp whole
      rw [lastUnused, List.foldl_cons, zero]
      exact ih whole
  have step : lastUnused uUnusedBit segments.all =
      if (segments.last.unused : Nat) ≠ 0 then (segments.last.unused : Nat)
      else lastUnused uUnusedBit segments.front := by
    rw [lastUnused, Segments.all, List.foldl_append]
    rfl
  rw [step, front _ segments.whole]

theorem isTag_constructed : IsTag [0x23] := .short 0x23 (by decide) (by decide)

theorem bind_infiniteEnds (first : Except Asn1Error (BitString × List UInt8)) :
    (first >>= fun decoded => infiniteEnds 0 decoded.2 >>= fun rest => .ok (decoded.1, rest)) = first := by
  cases first with
  | error failure => rfl
  | ok decoded => rfl

theorem decodingData_constructed (plain : object.attrs = []) {lengthOctets : List UInt8} {bIsInfinite : Bool}
    {ulContentLength : Nat} (parsed : lengthParsing (ulongSize machine) (lengthOctets ++ behind) =
      .ok (bIsInfinite, lengthOctets.length, ulContentLength)) :
    object.decodingData (ulongSize machine) (0x23 :: (lengthOctets ++ behind)) =
      decodingConstructedBitString
        (decodeNested (ulongSize machine) ((lengthOctets ++ behind).length + 1) create) object behind
        (signed (8 * ulongSize machine) ulContentLength) := by
  have tag : tagInfoParsingData (ulongSize machine) (0x23 :: (lengthOctets ++ behind)) =
      .ok ⟨1, 0x23, bIsInfinite, lengthOctets.length, ulContentLength⟩ :=
    tagInfoParsingData_tag isTag_constructed parsed
  rw [decodingData, decodeNested, attrList_plain plain, ok_bind,
    decodeInner, if_pos rfl, tag, ok_bind, if_pos (by simp), if_pos rfl]
  dsimp only
  rw [Nat.add_comm 1, List.drop_succ_cons, List.drop_left]
  exact bind_infiniteEnds _

theorem decodingData_refused (plain : object.attrs = []) {lengthOctets : List UInt8}
    (refused : lengthParsing (ulongSize machine) (lengthOctets ++ behind) = .error .invalidEncodeLength) :
    object.decodingData (ulongSize machine) (0x23 :: (lengthOctets ++ behind)) = .error .invalidEncodeLength := by
  have tag : tagInfoParsingData (ulongSize machine) (0x23 :: (lengthOctets ++ behind)) =
      .error .invalidEncodeLength := by
    rw [← List.singleton_append, tagInfoParsingData_bind isTag_constructed, refused]
    rfl
  rw [decodingData, decodeNested, attrList_plain plain, ok_bind,
    decodeInner, if_pos rfl, tag]
  rfl

theorem signed_content {length : Nat} (small : length < 2 ^ 31) : signed (8 * ulongSize machine) length = length := by
  have wide := four_le_ulongSize machine
  have bits : 2 ^ 31 ≤ 2 ^ (8 * ulongSize machine - 1) := Nat.pow_le_pow_right (by decide) (by omega)
  exact signed_small (by omega) (by omega)

theorem decodingData_indefinite (plain : object.attrs = []) (behind : List UInt8) :
    object.decodingData (ulongSize machine) (0x23 :: 0x80 :: behind) = .error .unacceptableValueSize := by
  have parsed : lengthParsing (ulongSize machine) ([0x80] ++ behind) = .ok (true, 1, 0) := by
    rw [lengthParsing, List.singleton_append, octet_cons, ok_bind, if_neg (by decide), if_neg (by simp)]
    rfl
  have zero : signed (8 * ulongSize machine) 0 = 0 := signed_content (by decide)
  have opened := decodingData_constructed plain parsed
  rw [zero, decodingConstructedBitString, if_pos rfl] at opened
  exact opened

variable {decode : List UInt8 → Except Asn1Error (BitString × List UInt8)}

def joining (object : BitString) : BitString := { object.release with bIsDynamic := true }

theorem decodingConstructed_definite (object : BitString) (behind : List UInt8) (positive : 0 < length) :
    decodingConstructedBitString decode object behind length =
      constructedLoop decode (behind.length + 1) object.joining (List.replicate length.toNat 0) length behind := by
  have definite : ¬ length < 0 := by omega
  rw [decodingConstructedBitString, if_neg (by omega), if_neg definite, ok_bind]
  simp only [if_neg definite]
  change (constructedLoop decode (behind.length + 1) object.joining _ length behind >>= _) = _
  cases constructedLoop decode (behind.length + 1) object.joining (List.replicate length.toNat 0) length behind with
  | error failure => rfl
  | ok decoded => rfl

theorem decodingConstructed_negative (negative : length < 0)
    (success : decodingConstructedBitString decode object behind length = .ok (decoded, rest)) :
    ∃ (actualLength : Nat) (later : List UInt8), actualLength < 4096 ∧
      constructedLoop decode (behind.length + 1) object.joining (List.replicate actualLength 0) actualLength behind =
        .ok (decoded, later) ∧ rest = later.drop 2 := by
  rw [decodingConstructedBitString, if_neg (by omega), if_pos negative] at success
  obtain ⟨ended, looked, success⟩ := bind_eq_ok success
  cases ended with
  | none => cases success
  | some index =>
    dsimp only at success
    rw [ok_bind] at success
    obtain ⟨⟨joined, later⟩, run, success⟩ := bind_eq_ok success
    dsimp only at success
    rw [if_pos negative] at success
    obtain ⟨rfl, rfl⟩ := Prod.mk.inj (Except.ok.inj success)
    exact ⟨index, later, (infiniteLoop_found looked).1, run, rfl⟩

theorem joining_eq (object : BitString) : object.joining.bIsDynamic = true ∧
    object.joining.uLength = (if object.bIsDynamic then 0 else object.uLength) ∧
    object.joining.uUnusedBit = (if object.bIsDynamic then 0 else object.uUnusedBit) := by
  cases dynamic : object.bIsDynamic <;> simp [joining, release, dynamic]

theorem Joinable.joins (joinable : Joinable machine object segments form) (plain : object.attrs = []) :
    Joins machine object segments form := by
  intro further
  obtain ⟨field, size, rfl, reads⟩ := joinable.definite
  have length := joinable.length
  have some := length_content segments
  obtain ⟨dynamic, uLength, uUnusedBit⟩ := object.joining_eq
  have emptied : object.joining.uLength = 0 := by
    rw [uLength]
    split_ifs with before
    · rfl
    · exact joinable.emptied.resolve_left before
  have unused : lastUnused object.joining.uUnusedBit segments.all = segments.last.unused := by
    rw [lastUnused_all, uUnusedBit]
    have clean := joinable.bits
    split_ifs with present before <;> grind
  have parsed := LengthField.lengthParsing_field machine field (segments.content ++ further)
  rw [reads.read] at parsed
  dsimp only at parsed
  have opened := decodingData_constructed plain parsed
  rw [size, signed_content length, decodingConstructed_definite object _ (by omega)] at opened
  have enough : segments.all.length < (segments.content ++ further).length + 1 := by
    have := length_parts segments.all
    rw [List.length_append]
    change 2 * segments.all.length ≤ segments.content.length at this
    omega
  have fits : object.joining.uLength + segments.content.length ≤
      (List.replicate segments.content.length (0 : UInt8)).length := by
    rw [emptied, Nat.zero_add, List.length_replicate]
  obtain ⟨decoded, octets, run, isDynamic, lengths, bits, stands, taken⟩ :=
    @constructedLoop_joins machine (field.octets ++ (segments.content ++ further)).length _ object.joining _
      segments.all joinable.kept enough fits further
  refine ⟨decoded, ?_, bits.trans unused, ?_, ?_⟩
  · rw [constructed, List.cons_append, List.append_assoc, opened]
    exact run
  · rw [lengths, emptied, Nat.zero_add]
    rfl
  · rw [emptied] at taken
    rw [storage, isDynamic, dynamic, if_pos rfl, stands]
    exact taken

variable {fuel : Nat} {field : LengthField}

theorem small_of_read (reads : field.Read machine) (size : field.value = segments.content.length) :
    machine.ulongSize = .eight → ∀ segment ∈ segments.all, segment.octets.length + 1 < 2 ^ 32 := by
  intro eight segment member
  have short := reads.short eight
  have length := segment.length_encoded
  have inside : segment.encoded.length ≤ segments.content.length := length_le_flatMap member Segment.encoded
  omega

theorem joinable_of_run (reads : field.Read machine) (size : field.value = segments.content.length)
    (bounded : machine.ulongSize = .eight → segments.content.length < 2 ^ 63)
    (success : decodingConstructedBitString (decodeNested (ulongSize machine) (fuel + 1) create) object segments.content
      segments.content.length = .ok (decoded, rest))
    (unused : decoded.uUnusedBit = segments.last.unused) (uLength : decoded.uLength = segments.octets.length) :
    (∀ segment ∈ segments.all, Kept machine segment) ∧ (object.bIsDynamic ∨ object.uLength = 0) ∧
      (object.bIsDynamic ∨ object.uUnusedBit = 0 ∨ segments.last.unused ≠ 0) := by
  have some := length_content segments
  rw [decodingConstructed_definite object _ (by omega)] at success
  obtain ⟨kept, lengths, lastBits⟩ := constructedLoop_kept (small_of_read reads size) bounded success
  obtain ⟨-, before, beforeBits⟩ := object.joining_eq
  refine ⟨kept, ?_, ?_⟩
  · rw [uLength] at lengths
    change segments.octets.length = _ + segments.octets.length at lengths
    have nothing : object.joining.uLength = 0 := by omega
    rw [before] at nothing
    split_ifs at nothing with dynamic
    · exact .inl dynamic
    · exact .inr nothing
  · rw [unused, lastUnused_all, beforeBits] at lastBits
    by_cases dynamic : object.bIsDynamic
    · exact .inl dynamic
    by_cases present : segments.last.unused = 0
    · rw [present, if_neg (by simp), if_neg dynamic] at lastBits
      exact .inr (.inl lastBits.symm)
    · exact .inr (.inr present)

theorem not_consumed_negative (reads : field.Read machine) (size : field.value = segments.content.length)
    (bounded : machine.ulongSize = .eight → segments.content.length < 2 ^ 63)
    (long : 2 ^ 31 ≤ segments.content.length) :
    decodingConstructedBitString (decodeNested (ulongSize machine) (fuel + 1) create) object segments.content
      (signed (8 * ulongSize machine) segments.content.length) ≠ .ok (decoded, []) := by
  intro success
  have below := reads.below
  have width : ulongSize machine = 4 := by
    obtain ⟨-, width⟩ | ⟨eight, -⟩ := ulongSize_cases machine
    · exact width
    · have short := reads.short eight
      omega
  have same : segments.content.length % 2 ^ 32 = segments.content.length := Nat.mod_eq_of_lt (by omega)
  have negative : signed (8 * ulongSize machine) segments.content.length < 0 := by
    rw [width, signed, same, if_neg (by omega)]
    omega
  obtain ⟨index, later, first, run, ended⟩ := decodingConstructed_negative negative success
  have early : (index : Int) + 20140 ≤ segments.content.length := by omega
  have left := constructedLoop_early (small_of_read reads size) bounded (length_content segments) early run
  have short := congrArg List.length ended
  rw [List.length_drop, List.length_nil] at short
  omega

theorem not_consumed_shortened (bound : segments.content.length < 2 ^ 63)
    (value : decoded.storage.take decoded.uLength = segments.octets) :
    decodingConstructedBitString (decodeNested (ulongSize machine) (fuel + 1) create) object segments.content
      ((segments.content.length / 2 ^ 32 : Nat) : Int) ≠ .ok (decoded, []) := by
  intro success
  by_cases zero : segments.content.length / 2 ^ 32 = 0
  · rw [zero, decodingConstructedBitString] at success
    cases success
  rw [decodingConstructed_definite object _ (by omega)] at success
  obtain ⟨isDynamic, octets, stands, length⟩ := constructedLoop_buffer success
  rw [List.length_replicate, Int.toNat_natCast] at length
  have few : segments.octets.length ≤ octets.length := by
    rw [← value, storage, isDynamic, object.joining_eq.1, if_pos rfl, stands]
    exact List.length_take_le' _ _
  have small : machine.ulongSize = .eight → ∀ segment ∈ segments.all, segment.octets.length + 1 < 2 ^ 32 := by
    intro eight segment member
    have inside : segment.octets.length ≤ segments.octets.length := length_le_flatMap member Segment.octets
    omega
  have early : ((segments.content.length / 2 ^ 32 : Nat) : Int) + 20140 ≤ segments.content.length := by omega
  exact absurd (constructedLoop_early small (fun _ => bound) (length_content segments) early success) (by simp)

theorem Joins.joinable (joins : Joins machine object segments form) (plain : object.attrs = [])
    (bounded : machine.ulongSize = .eight → segments.content.length < 2 ^ 63) :
    Joinable machine object segments form := by
  obtain ⟨decoded, success, unused, uLength, value⟩ := joins []
  rw [List.append_nil] at success
  cases form with
  | indefinite =>
    rw [constructed, decodingData_indefinite plain] at success
    cases success
  | definite field size =>
    rw [constructed] at success
    have parsed := LengthField.lengthParsing_field machine field segments.content
    cases found : field.read machine with
    | none =>
      rw [found] at parsed
      rw [decodingData_refused plain parsed] at success
      cases success
    | some ulContentLength =>
      rw [found] at parsed
      dsimp only at parsed
      rw [decodingData_constructed plain parsed] at success
      obtain ⟨reads, rfl⟩ | ⟨eight, rfl, -⟩ := LengthField.read_cases found
      · rw [size] at success
        by_cases positive : segments.content.length < 2 ^ 31
        · rw [signed_content positive] at success
          obtain ⟨kept, emptied, bits⟩ := joinable_of_run reads size bounded success unused uLength
          exact ⟨⟨field, size, rfl, reads⟩, positive, kept, emptied, bits⟩
        · exact absurd success (not_consumed_negative reads size bounded (by omega))
      · have bound := bounded eight
        rw [size, signed_content (by omega)] at success
        exact absurd success (not_consumed_shortened bound value)

theorem parts_joined (plain : object.attrs = [])
    (bounded : machine.ulongSize = .eight → segments.content.length < 2 ^ 63) :
    Joins machine object segments form ↔ Joinable machine object segments form :=
  ⟨fun joins => joins.joinable plain bounded, fun joinable => joinable.joins plain⟩

def longParts : Segments :=
  ⟨[⟨.short 71, 0, List.replicate 70 0xAA, rfl⟩], ⟨.short 67, 3, List.replicate 66 0xF8, rfl⟩, by decide⟩

theorem parts_joined_sample :
    Joins ⟨.four, true, true⟩ create longParts
        (.definite (.long [0x8E] (List.cons_ne_nil _ _) (by decide)) (by decide +kernel)) ↔
      Joinable ⟨.four, true, true⟩ create longParts
        (.definite (.long [0x8E] (List.cons_ne_nil _ _) (by decide)) (by decide +kernel)) :=
  parts_joined rfl nofun

-- The sample that stands in the source.
def sampleParts : Segments := ⟨[⟨.short 3, 0, [0x6E, 0x5D], rfl⟩], ⟨.short 2, 6, [0xC0], rfl⟩, by decide⟩

theorem parts_get_lost :
    constructed (.definite (.short 9) rfl : Form sampleParts.content) =
        [0x23, 0x09, 0x03, 0x03, 0x00, 0x6E, 0x5D, 0x03, 0x02, 0x06, 0xC0] ∧
      decodingData (ulongSize ⟨.four, true, true⟩) create
        (constructed (.definite (.short 9) rfl : Form sampleParts.content)) = .error .fault ∧
      decodingData (ulongSize ⟨.four, true, true⟩) create (constructed (.indefinite : Form longParts.content)) =
        .error .unacceptableValueSize := by
  refine ⟨?_, ?_, ?_⟩
  · decide +kernel
  · rfl
  · exact decodingData_indefinite rfl _

end BitString

end Joining

end CcspCommon.AnscAsn1
