import CcspCommon.AnscAsn1.OidValues
import CcspCommon.AnscAsn1.TaggedOctets

set_option autoImplicit false

namespace CcspCommon.AnscAsn1

open CcspCommon.AnscPlatform (Machine UlongSize)
open CcspCommon.Shared (bind_eq_ok)

section Encoding

def countDigits : Nat → Nat → Nat
  | 0, _ => 0
  | fuel + 1, ulResult => if ulResult = 0 then 0 else countDigits fuel (ulResult / 0x80) + 1

def getSizeOfEncodedSubOID (ulResult : Nat) : Nat := if ulResult = 0 then 1 else countDigits ulResult ulResult

def subOIDOctets (counter : Nat) : Nat → Nat → List UInt8
  | 0, _ => []
  | i + 1, ulResult =>
    let octet := UInt8.ofNat (ulResult % 0x80)
    subOIDOctets counter i (ulResult / 0x80) ++ [if i ≠ counter - 1 then octet ||| 0x80 else octet]

def encodeSubOID (ulResult : Nat) : List UInt8 :=
  let counter := getSizeOfEncodedSubOID ulResult
  subOIDOctets counter counter ulResult

namespace Oid

-- `ulSize`: the first two numbers are counted as one octet.
def valueSize : List Nat → Nat
  | [] => 0
  | _ :: rest => 1 + ((rest.drop 1).map getSizeOfEncodedSubOID).sum

variable (machine : Machine) (object : Oid) (bOptional : Bool)

def getSizeOfEncoded : Int :=
  if bOptional then 0
  else signed (8 * ulongSize machine) (attrListGetSizeOfEncoded (ulongSize machine) object.attrs
    (valueSize (object.getOIDBuffer.take object.uLength)) 1)

-- The octets of the numbers; the loop over those behind the second goes up to `(int)uLength`.
def encodeValue : Except Asn1Error (List UInt8) :=
  if object.getOIDBuffer.length < object.uLength then .error .fault
  else match object.getOIDBuffer.take object.uLength with
    | [] => .ok []
    | [first] => .ok (encodeSubOID (first * 40 % 2 ^ (8 * ulongSize machine)))
    | first :: second :: rest =>
      .ok (encodeSubOID ((first * 40 + second) % 2 ^ (8 * ulongSize machine)) ++
        (rest.take (signed 32 object.uLength - 2).toNat).flatMap encodeSubOID)

def encodeOwn (bTagIncluded : Bool) (uLeftSize : Nat) : Except Asn1Error Encoded :=
  if bTagIncluded then
    match getPureEncodedLength (ulongSize machine) (ulongSub (ulongSize machine) uLeftSize 1) with
    | none => .error .notReadyToEncode
    | some iEncodedLength => do
      let value ← object.encodeValue machine
      .ok (Encoded.behindTag ⟨value, value.length⟩ [0x06] (writeLength machine iEncodedLength))
  else do
    let value ← object.encodeValue machine
    .ok ⟨value, value.length⟩

def encodingData : Except Asn1Error Encoded :=
  if bOptional then .ok ⟨[], 0⟩
  else
    let uSizeOfEncoded := object.getSizeOfEncoded machine bOptional
    if uSizeOfEncoded < 0 then .error .notReadyToEncode
    else writeTags machine false (object.encodeOwn machine) (shown object.attrs) true uSizeOfEncoded.toNat

end Oid

end Encoding

section SubIdentifiers

variable {counter value : Nat}

theorem countDigits_bounds {fuel value : Nat} (positive : 0 < value) (enough : value ≤ fuel) :
    ∃ more, countDigits fuel value = more + 1 ∧ 128 ^ more ≤ value ∧ value < 128 ^ (more + 1) := by
  induction fuel generalizing value with
  | zero => omega
  | succ fuel ih =>
    rw [countDigits, if_neg (by omega)]
    by_cases single : value / 0x80 = 0
    · have nothing : countDigits fuel (value / 0x80) = 0 := by
        rw [single]
        cases fuel <;> rfl
      exact ⟨0, by rw [nothing], by omega, by omega⟩
    · obtain ⟨more, count, low, high⟩ := @ih (value / 0x80) (by omega) (by omega)
      refine ⟨more + 1, by rw [count], ?_, ?_⟩
      · rw [Nat.pow_succ]
        omega
      · rw [Nat.pow_succ]
        omega

theorem getSizeOfEncodedSubOID_bounds (value : Nat) :
    ∃ more, getSizeOfEncodedSubOID value = more + 1 ∧ value < 128 ^ (more + 1) ∧ (more = 0 ∨ 128 ^ more ≤ value) := by
  rw [getSizeOfEncodedSubOID]
  by_cases zero : value = 0
  · exact ⟨0, if_pos zero, by omega, .inl rfl⟩
  · obtain ⟨more, count, low, high⟩ := countDigits_bounds (show 0 < value by omega) (Nat.le_refl value)
    exact ⟨more, by rw [if_neg zero, count], high, .inr low⟩

theorem length_subOIDOctets (counter i value : Nat) : (subOIDOctets counter i value).length = i := by
  induction i generalizing value with
  | zero => rfl
  | succ i ih => rw [subOIDOctets, List.length_append, ih, List.length_singleton]

theorem length_encodeSubOID (value : Nat) : (encodeSubOID value).length = getSizeOfEncodedSubOID value :=
  length_subOIDOctets _ _ _

theorem octetSum_concat (front : List UInt8) (last : UInt8) :
    octetSum (front ++ [last]) = octetSum front * 128 + (last &&& 0x7F).toNat := by
  induction front with
  | nil => simp [octetSum]
  | cons octet rest ih =>
    rw [List.cons_append, octetSum, octetSum, ih, List.length_append, List.length_singleton, Nat.pow_succ, Nat.add_mul,
      ← Nat.mul_assoc, Nat.add_assoc]

theorem subOIDOctets_front {i : Nat} (front : i ≤ counter - 1) (value : Nat) :
    (∀ octet ∈ subOIDOctets counter i value, octet &&& 0x80 ≠ 0) ∧
      octetSum (subOIDOctets counter i value) = value % 128 ^ i := by
  induction i generalizing value with
  | zero => exact ⟨List.forall_mem_nil _, (Nat.mod_one value).symm⟩
  | succ i ih =>
    obtain ⟨continued, sum⟩ := ih (by omega) (value / 0x80)
    obtain ⟨-, high, digit⟩ := digit_octets ⟨value % 0x80, Nat.mod_lt _ (by decide)⟩
    rw [subOIDOctets, if_pos (by omega)]
    constructor
    · intro octet member
      rcases List.mem_append.mp member with inside | last
      · exact continued octet inside
      · rw [List.mem_singleton.mp last]
        exact high
    · rw [octetSum_concat, sum, digit, Nat.pow_succ, Nat.mul_comm (128 ^ i), Nat.mod_mul, Nat.add_comm, Nat.mul_comm]

theorem encodeSubOID_split (value : Nat) :
    ∃ front last, encodeSubOID value = front ++ [last] ∧ (∀ octet ∈ front, octet &&& 0x80 ≠ 0) ∧ last &&& 0x80 = 0 ∧
      octetSum (front ++ [last]) = value ∧ front.length + 1 = getSizeOfEncodedSubOID value := by
  obtain ⟨more, size, bound, -⟩ := getSizeOfEncodedSubOID_bounds value
  obtain ⟨continued, sum⟩ := @subOIDOctets_front (more + 1) more (Nat.le_refl more) (value / 0x80)
  obtain ⟨⟨ended, digit⟩, -⟩ := digit_octets ⟨value % 0x80, Nat.mod_lt _ (by decide)⟩
  have inner : value / 0x80 < 128 ^ more := by
    rw [Nat.pow_succ] at bound
    omega
  refine ⟨subOIDOctets (more + 1) more (value / 0x80), UInt8.ofNat (value % 0x80), ?_, continued, ended, ?_, ?_⟩
  · rw [encodeSubOID, size, subOIDOctets, if_neg (by omega)]
  · rw [octetSum_concat, sum, digit, Nat.mod_eq_of_lt inner]
    dsimp only
    omega
  · rw [length_subOIDOctets, size]

theorem encodeSubOID_small (small : value < 2 ^ 32) :
    getSizeOfEncodedSubOID value ≤ 5 ∧
      (getSizeOfEncodedSubOID value = 5 → ¬ (encodeSubOID value).headD 0 > 0x8F) := by
  obtain ⟨more, size, -, low⟩ := getSizeOfEncodedSubOID_bounds value
  have few : more ≤ 4 := by
    by_contra many
    have large : 128 ^ 5 ≤ 128 ^ more := Nat.pow_le_pow_right (by decide) (by omega)
    omega
  refine ⟨by omega, fun five => ?_⟩
  have top : ∀ digit : Fin 16, ¬ (UInt8.ofNat digit ||| 0x80) > 0x8F := by decide
  have head : (encodeSubOID value).headD 0 = UInt8.ofNat (value / 128 / 128 / 128 / 128 % 128) ||| 0x80 := by
    rw [encodeSubOID, five]
    rfl
  have digit : value / 128 / 128 / 128 / 128 % 128 = value / 128 / 128 / 128 / 128 := Nat.mod_eq_of_lt (by omega)
  rw [head, digit]
  exact top ⟨value / 128 / 128 / 128 / 128, by omega⟩

end SubIdentifiers

section Written

namespace Oid

variable (machine : Machine) {object : Oid} {arcs rest : List Nat} {first second v : Nat} {value : List UInt8}

structure HoldsArcs (object : Oid) (arcs : List Nat) : Prop where
  length : object.uLength = arcs.length
  stored : object.getOIDBuffer.take object.uLength = arcs

theorem setOIDValue_holds {before : Oid} (set : before.setOIDValue arcs = some (object, .success)) :
    object.HoldsArcs arcs := by
  cases arcs with
  | nil =>
    obtain ⟨rfl, -⟩ := Prod.mk.inj (Option.some.inj set)
    exact ⟨rfl, List.take_zero⟩
  | cons first rest =>
    rw [setOIDValue] at set
    split_ifs at set with refused many
    · cases set
    · obtain ⟨rfl, -⟩ := Prod.mk.inj (Option.some.inj set)
      exact ⟨rfl, List.take_length⟩
    · cases adv : before.pAdvOID with
      | some array =>
        rw [adv] at set
        cases set
      | none =>
        rw [adv] at set
        obtain ⟨rfl, -⟩ := Prod.mk.inj (Option.some.inj set)
        refine ⟨rfl, ?_⟩
        exact List.take_left

theorem setOIDValue_first {before : Oid} (set : before.setOIDValue (first :: rest) = some (object, .success)) :
    first ≤ 2 := by
  by_contra refused
  rw [setOIDValue, if_pos (by omega)] at set
  cases set

def merged (machine : Machine) (first second : Nat) : Nat := (first * 40 + second) % 2 ^ (8 * ulongSize machine)

def valueOctets (machine : Machine) (first second : Nat) (rest : List Nat) : List UInt8 :=
  (merged machine first second :: rest).flatMap encodeSubOID

theorem encodeValue_eq (holds : object.HoldsArcs (first :: second :: rest)) (few : rest.length < 2 ^ 30) :
    object.encodeValue machine = .ok (valueOctets machine first second rest) := by
  have enough : (first :: second :: rest).length ≤ object.getOIDBuffer.length := by
    rw [← holds.stored]
    exact List.length_take_le' _ _
  have counted : object.uLength = rest.length + 2 := holds.length
  have whole : (signed 32 object.uLength - 2).toNat = rest.length := by
    rw [signed_small (by decide) (by rw [counted]; omega), counted]
    omega
  rw [encodeValue, if_neg (by rw [holds.length]; omega), holds.stored]
  dsimp only
  rw [whole, List.take_length]
  rfl

theorem length_flatMap_encodeSubOID (values : List Nat) :
    (values.flatMap encodeSubOID).length = (values.map getSizeOfEncodedSubOID).sum := by
  rw [List.length_flatMap]
  congr 1
  exact List.map_congr_left fun value _ => length_encodeSubOID value

theorem length_valueOctets (first second : Nat) (rest : List Nat) :
    (valueOctets machine first second rest).length + 1 =
      valueSize (first :: second :: rest) + getSizeOfEncodedSubOID (merged machine first second) := by
  rw [valueOctets, length_flatMap_encodeSubOID, List.map_cons, List.sum_cons, valueSize, List.drop_succ_cons,
    List.drop_zero]
  omega

theorem getSizeOfEncodedSubOID_pos (value : Nat) : 1 ≤ getSizeOfEncodedSubOID value := by
  obtain ⟨more, size, -⟩ := getSizeOfEncodedSubOID_bounds value
  omega

theorem valueSize_le (fits : ∀ arc ∈ rest, arc < 2 ^ 32) :
    valueSize (first :: second :: rest) ≤ 1 + 5 * rest.length := by
  have sum : (rest.map getSizeOfEncodedSubOID).sum ≤ (rest.map getSizeOfEncodedSubOID).length • 5 := by
    refine List.sum_le_card_nsmul _ _ fun size member => ?_
    obtain ⟨arc, inside, rfl⟩ := List.mem_map.mp member
    exact (encodeSubOID_small (fits arc inside)).1
  rw [List.length_map, smul_eq_mul] at sum
  rw [valueSize, List.drop_succ_cons, List.drop_zero]
  omega

theorem getSizeOfEncoded_eq (holds : object.HoldsArcs arcs) (few : valueSize arcs ≤ 2 ^ 30) :
    object.getSizeOfEncoded machine false = total (shown object.attrs) (valueSize arcs) := by
  have bound := @total_bound _ object.attrs few
  have wide := four_le_ulongSize machine
  have bits : 2 ^ 31 ≤ 2 ^ (8 * ulongSize machine - 1) := Nat.pow_le_pow_right (by decide) (by omega)
  rw [getSizeOfEncoded, if_neg Bool.false_ne_true, holds.stored, attrListGetSizeOfEncoded_machine machine few,
    signed_small (by omega) (by omega)]

def ownOctets (bTag : Bool) (v : Nat) (value : List UInt8) : List UInt8 :=
  (if bTag then 0x06 :: encodeLength 4 v else []) ++ value

theorem encodeOwn_eq (encoded : object.encodeValue machine = .ok value) (small : v ≤ 0xFFFF) (enough : v ≤ value.length)
    (bTag : Bool) :
    object.encodeOwn machine bTag (left bTag [] v) =
      .ok ⟨ownOctets bTag v value, (ownOctets bTag v value).length⟩ := by
  cases bTag with
  | false =>
    rw [encodeOwn, if_neg Bool.false_ne_true, encoded]
    rfl
  | true =>
    have whole : left true [] v = v + getSizeOfEncodedLength 4 v + 1 := rfl
    rw [encodeOwn, if_pos rfl, whole, ulongSub_eq _ (by omega), Nat.add_sub_cancel,
      getPureEncodedLength_machine machine small]
    dsimp only
    rw [encoded, ok_bind, behindTag_eq machine small (by omega)]
    rfl

theorem left_le_ownOctets (small : v ≤ 0xFFFF) (enough : v ≤ value.length) (bTag : Bool) :
    left bTag [] v ≤ 8 * (ownOctets bTag v value).length := by
  cases bTag with
  | false =>
    change v ≤ 8 * value.length
    omega
  | true =>
    have size := length_encodeLength small
    have whole : left true [] v = v + getSizeOfEncodedLength 4 v + 1 := rfl
    have written : (ownOctets true v value).length = (encodeLength 4 v).length + 1 + value.length := by
      rw [ownOctets, if_pos rfl, List.length_append, List.length_cons]
    omega

def octetsOf (attrs : List Attr) (v : Nat) (value : List UInt8) : List UInt8 :=
  (header v (shown attrs) true).1 ++ ownOctets (header v (shown attrs) true).2 v value

theorem encodingData_eq (holds : object.HoldsArcs arcs) (few : valueSize arcs ≤ 2 ^ 30)
    (encoded : object.encodeValue machine = .ok value) (small : content (shown object.attrs) (valueSize arcs) ≤ 0xFFFF)
    (enough : valueSize arcs ≤ value.length) :
    object.encodingData machine false = .ok ⟨octetsOf object.attrs (valueSize arcs) value,
      (octetsOf object.attrs (valueSize arcs) value).length⟩ := by
  have inner := Nat.le_trans (value_le_content (shown object.attrs) (valueSize arcs)) small
  have written := @writeTags_eq machine _ _ _ _ small true
    (encodeOwn_eq machine encoded inner enough (header (valueSize arcs) (shown object.attrs) true).2)
    (left_le_ownOctets inner enough _)
  have size := getSizeOfEncoded_eq machine holds few
  rw [encodingData, if_neg Bool.false_ne_true, size]
  dsimp only
  rw [if_neg (by omega), Int.toNat_natCast]
  exact written.1

theorem encodingData_refused (holds : object.HoldsArcs arcs) (few : valueSize arcs ≤ 2 ^ 30)
    (large : 0xFFFF < content (shown object.attrs) (valueSize arcs)) :
    ∃ reason, object.encodingData machine false = .error reason := by
  have bound := @total_bound _ object.attrs few
  have size := getSizeOfEncoded_eq machine holds few
  rw [encodingData, if_neg Bool.false_ne_true, size]
  dsimp only
  rw [if_neg (by omega), Int.toNat_natCast]
  apply writeTags_refused large bound
  intro long
  have whole : left true [] (valueSize arcs) = valueSize arcs + getSizeOfEncodedLength 4 (valueSize arcs) + 1 := rfl
  have lengthSize := getSizeOfEncodedLength_le_five (show valueSize arcs < 2 ^ 31 by omega)
  rw [encodeOwn, if_pos rfl, whole, ulongSub_eq _ (by omega), Nat.add_sub_cancel,
    getPureEncodedLength_machine_none machine long (by omega)]
  exact ⟨_, rfl⟩

end Oid

end Written

section Opened

namespace Oid

variable (machine : Machine) {attrs : List Attr} {v uLeftSize : Nat} {value further pEncodingUnit : List UInt8}

theorem isTag_oid : IsTag [0x06] := .short 0x06 (by decide) (by decide)

theorem openContent_octetsOf (small : content (shown attrs) v ≤ 0xFFFF)
    (kept : ∀ attr ∈ emitted true (shown attrs), attr.Kept)
    (alone : (header v (shown attrs) true).2 = true → nonEmpty (shown attrs) = []) (value further : List UInt8) :
    openContent (ulongSize machine) attrs (octetsOf attrs v value ++ further) =
      .ok (value ++ further, lengthRead machine v) := by
  have inner := Nat.le_trans (value_le_content (shown attrs) v) small
  obtain ⟨uleftSize, decoded, known⟩ := decodeLoop_header machine true small kept (.inr ⟨rfl, rfl⟩)
    (ownOctets (header v (shown attrs) true).2 v value ++ further)
  have begun : attrListDecodingData (ulongSize machine) attrs (octetsOf attrs v value ++ further) =
      .ok ⟨ownOctets (header v (shown attrs) true).2 v value ++ further, (header v (shown attrs) true).2,
        uleftSize, 0⟩ := by
    rw [attrListDecodingData, octetsOf, List.append_assoc]
    exact decoded
  rw [openContent, begun, ok_bind]
  dsimp only
  cases own : (header v (shown attrs) true).2 with
  | false =>
    rw [if_neg Bool.false_ne_true, known own]
    rfl
  | true =>
    have nothing := (header_nothing (v := v) (alone own)).1
    have data : octetsOf attrs v value ++ further = [0x06] ++ (encodeLength 4 v ++ (value ++ further)) := by
      rw [octetsOf, nothing, ownOctets, if_pos rfl]
      simp
    have dropped : ([0x06] ++ (encodeLength 4 v ++ (value ++ further))).drop (1 + getSizeOfEncodedLength 4 v) =
        value ++ further := by
      rw [← List.append_assoc]
      exact List.drop_left' (by rw [List.length_append, length_encodeLength inner]; rfl)
    rw [if_pos rfl, data, tagInfoParsingData_machine machine isTag_oid inner, ok_bind]
    dsimp only
    rw [if_neg (by simp), if_neg (by simp), if_neg Bool.false_ne_true, dropped]
    rfl

theorem openContent_cases (small : content (shown attrs) v ≤ 0xFFFF)
    (success : openContent (ulongSize machine) attrs (octetsOf attrs v value ++ further) =
      .ok (pEncodingUnit, uLeftSize)) :
    (∀ attr ∈ emitted true (shown attrs), attr.Kept) ∧
      (((header v (shown attrs) true).2 = true → nonEmpty (shown attrs) = []) ∧ pEncodingUnit = value ++ further ∧
          uLeftSize = lengthRead machine v ∨
        ∃ later, content (shown attrs) v = later.length + left true [] v ∧
          pEncodingUnit = later ++ ownOctets true v value ++ further ∧
          uLeftSize = lengthRead machine (content (shown attrs) v)) := by
  have kept : ∀ attr ∈ emitted true (shown attrs), attr.Kept := by
    obtain ⟨state, begun, -⟩ := bind_eq_ok success
    rw [attrListDecodingData, octetsOf, List.append_assoc] at begun
    exact kept_of_header machine true small (.inr ⟨rfl, rfl⟩) begun
  refine ⟨kept, ?_⟩
  by_cases alone : (header v (shown attrs) true).2 = true → nonEmpty (shown attrs) = []
  · have opened := openContent_octetsOf machine small kept alone value further
    obtain ⟨rfl, rfl⟩ := Prod.mk.inj (Except.ok.inj (success.symm.trans opened))
    exact .inl ⟨alone, rfl, rfl⟩
  obtain ⟨own, some⟩ := Classical.not_imp.mp alone
  obtain ⟨attr, member, later, shape, counted⟩ := header_first small kept some
  rw [own] at counted
  obtain ⟨isTag, -, -⟩ := kept_octets (kept attr member)
  obtain ⟨uleftSize, decoded, -⟩ := decodeLoop_header machine true small kept (.inr ⟨rfl, rfl⟩)
    (ownOctets (header v (shown attrs) true).2 v value ++ further)
  have begun : attrListDecodingData (ulongSize machine) attrs (octetsOf attrs v value ++ further) =
      .ok ⟨ownOctets (header v (shown attrs) true).2 v value ++ further, (header v (shown attrs) true).2,
        uleftSize, 0⟩ := by
    rw [attrListDecodingData, octetsOf, List.append_assoc]
    exact decoded
  have data : octetsOf attrs v value ++ further = attr.encodingData false ++
      (encodeLength 4 (content (shown attrs) v) ++ (later ++ ownOctets true v value ++ further)) := by
    rw [octetsOf, shape, own]
    simp only [List.append_assoc]
  rw [openContent, begun, ok_bind, own, data] at success
  dsimp only at success
  rw [if_pos rfl, tagInfoParsingData_machine machine isTag small, ok_bind] at success
  dsimp only at success
  by_cases other : (attr.encodingData false).headD 0 ≠ 0x06
  · rw [if_pos other] at success
    cases success
  by_cases longer : (attr.encodingData false).length ≠ 1
  · rw [if_neg other, if_pos longer] at success
    cases success
  rw [if_neg other, if_neg longer, if_neg Bool.false_ne_true] at success
  have dropped : (attr.encodingData false ++ (encodeLength 4 (content (shown attrs) v) ++
      (later ++ ownOctets true v value ++ further))).drop (1 + getSizeOfEncodedLength 4 (content (shown attrs) v)) =
        later ++ ownOctets true v value ++ further := by
    rw [← List.append_assoc]
    exact List.drop_left' (by rw [List.length_append, length_encodeLength small, not_not.mp longer])
  rw [dropped] at success
  obtain ⟨rfl, rfl⟩ := Prod.mk.inj (Except.ok.inj success)
  exact .inr ⟨later, counted, rfl, rfl⟩

end Oid

end Opened

section ReadBack

variable {w : Nat}

theorem subIdentifiers_flatMap (values : List Nat) :
    subIdentifiers 0 false (values.flatMap encodeSubOID) = some values := by
  induction values with
  | nil => rfl
  | cons value rest ih =>
    obtain ⟨front, last, same, continued, ended, sum, -⟩ := encodeSubOID_split value
    rw [List.flatMap_cons, same, List.append_assoc, List.singleton_append,
      subIdentifiers_group continued ended, ih, sum, Nat.zero_mul, Nat.zero_add]
    rfl

abbrev endsNumber (octet : UInt8) : Prop := octet &&& 0x80 = 0

theorem length_subIdentifiers {content : List UInt8} {values : List Nat} {value : Nat} {inside : Bool}
    (numbers : subIdentifiers value inside content = some values) :
    values.length = content.countP fun octet => endsNumber octet := by
  induction content generalizing values value inside with
  | nil =>
    cases inside with
    | false =>
      obtain rfl := Option.some.inj numbers
      rfl
    | true => cases numbers
  | cons octet rest ih =>
    rw [subIdentifiers] at numbers
    by_cases ended : octet &&& 0x80 = 0
    · rw [if_pos ended] at numbers
      obtain ⟨later, tail, rfl⟩ := Option.map_eq_some_iff.mp numbers
      rw [List.length_cons, ih tail, List.countP_cons_of_pos (by simpa using ended)]
    · rw [if_neg ended] at numbers
      rw [ih numbers, List.countP_cons_of_neg (by simpa using ended)]

theorem length_firstArcs (value : Nat) : (firstArcs value).length = 2 := by
  rw [firstArcs]
  split_ifs <;> rfl

theorem countP_flatMap_encodeSubOID (values : List Nat) :
    ((values.flatMap encodeSubOID).countP fun octet => endsNumber octet) = values.length :=
  (length_subIdentifiers (subIdentifiers_flatMap values)).symm

namespace Oid

variable {object : Oid} {arcs values : List Nat} {value : Nat} {further : List UInt8}

theorem decodeLoop_number (wide : 4 ≤ w) (small : value < 2 ^ 32) (rest : List UInt8) {fuel ulOctetsLeft : Nat}
    (inside : getSizeOfEncodedSubOID value ≤ ulOctetsLeft) (counter : Nat) :
    decodeLoop w (fuel + 1) object (encodeSubOID value ++ rest) ulOctetsLeft counter =
      (object.grow counter >>= fun object => object.writeSubOID counter value >>= fun written =>
        decodeLoop w fuel written.1 rest (ulOctetsLeft - getSizeOfEncodedSubOID value) written.2) := by
  obtain ⟨front, last, same, continued, ended, sum, size⟩ := encodeSubOID_split value
  obtain ⟨few, low⟩ := encodeSubOID_small small
  have counted : continuation (encodeSubOID value ++ rest) = .ok front.length := by
    rw [same, List.append_assoc, List.singleton_append]
    exact continuation_eq continued ended rest
  have first : octet (encodeSubOID value ++ rest) 0 = .ok ((encodeSubOID value).headD 0) := by
    rw [same]
    cases front <;> rfl
  have short : ¬ front.length + 1 > w + 1 := by omega
  have plain : ¬ (front.length + 1 = w + 1 ∧ (encodeSubOID value).headD 0 > 0x8F) := by
    rintro ⟨longest, high⟩
    exact low (by omega) high
  have taken : (encodeSubOID value ++ rest).take (front.length + 1) = front ++ [last] := by
    rw [same]
    exact List.take_left' (by simp)
  have dropped : (encodeSubOID value ++ rest).drop (front.length + 1) = rest := by
    rw [same]
    exact List.drop_left' (by simp)
  have number := getUlongFromOID_eq wide continued last short (by rwa [← same])
  rw [decodeLoop, if_neg (by omega), counted, ok_bind, first, ok_bind, if_neg short, if_neg plain, taken, number, sum,
    dropped, size]
  simp only [if_neg (show ¬ ulOctetsLeft < getSizeOfEncodedSubOID value by omega)]

theorem decodeLoop_numbers (wide : 4 ≤ w) (stores : object.Stores arcs) (later : arcs.length ≠ 0)
    (small : ∀ value ∈ values, value < 2 ^ 32) {fuel : Nat}
    (enough : (values.map getSizeOfEncodedSubOID).sum ≤ fuel) (further : List UInt8) :
    ∃ decoded, decodeLoop w fuel object (values.flatMap encodeSubOID ++ further)
      (values.map getSizeOfEncodedSubOID).sum arcs.length = .ok (decoded, further) := by
  induction values generalizing object arcs fuel with
  | nil =>
    cases fuel with
    | zero => exact ⟨_, rfl⟩
    | succ fuel => exact ⟨_, if_pos rfl⟩
  | cons value rest ih =>
    obtain ⟨first, others⟩ := List.forall_mem_cons.mp small
    have positive := getSizeOfEncodedSubOID_pos value
    rw [List.map_cons, List.sum_cons] at enough ⊢
    obtain ⟨fuel, rfl⟩ := Nat.exists_eq_succ_of_ne_zero (show fuel ≠ 0 by omega)
    obtain ⟨grown, grows, -, stores, room⟩ := stores.grow
    obtain ⟨written, writes, -, stores⟩ := stores.writeSubOID room later value
    have length : arcs.length + 1 = (arcs ++ [value]).length := by simp
    rw [List.flatMap_cons, List.append_assoc, decodeLoop_number wide first _ (by omega), grows, ok_bind,
      writes, ok_bind, Nat.add_sub_cancel_left]
    dsimp only
    rw [length]
    exact ih stores (by omega) others (by omega)

theorem Sound.writeSubOID_ok (sound : object.Sound) (small : value < 120) :
    ∃ result, object.writeSubOID 0 value = .ok result := by
  have long := sound.buffer
  have two : 2 ≤ object.getOIDBuffer.length := by
    rw [maximumOidDepth] at long
    omega
  have again (first second : Nat) : ∃ result, (do
      let object ← (object.putOIDBuffer (object.getOIDBuffer.set 0 value)).write 1 first
      let object ← object.write 0 second
      Except.ok (object, 2)) = .ok result := by
    rw [write_eq (by rw [getOIDBuffer_put, List.length_set]; exact two) (by decide), ok_bind,
      write_eq (by simp only [getOIDBuffer_put, List.length_set]; exact two) (by decide)]
    exact ⟨_, rfl⟩
  rw [Oid.writeSubOID, write_eq two (by decide), ok_bind, if_pos rfl]
  by_cases high : value ≥ 80
  · rw [if_pos high, if_neg (by omega)]
    exact again _ _
  · rw [if_neg high]
    exact again _ _

theorem writeSubOID_lt {counter : Nat} {result : Oid × Nat} (first : counter = 0)
    (success : object.writeSubOID counter value = .ok result) : value < 120 := by
  by_contra large
  obtain ⟨written, -, success⟩ := bind_eq_ok success
  rw [if_pos first, if_pos (by omega), if_pos (by omega)] at success
  cases success

theorem decodingData_numbers (wide : 4 ≤ w) (sound : object.Sound) {data : List UInt8}
    (opened : openContent w object.attrs data =
      .ok ((value :: values).flatMap encodeSubOID ++ further, ((value :: values).map getSizeOfEncodedSubOID).sum))
    (first : value < 120) (small : ∀ value ∈ values, value < 2 ^ 32)
    (short : ((value :: values).map getSizeOfEncodedSubOID).sum ≤ 4000) :
    ∃ decoded, object.decodingData w data = .ok (decoded, further) ∧ decoded.uLength = 2 + values.length ∧
      decoded.getOIDBuffer.take decoded.uLength = firstArcs value ++ values := by
  have positive := getSizeOfEncodedSubOID_pos value
  have success : ∃ decoded, object.decodingData w data = .ok (decoded, further) := by
    rw [List.map_cons, List.sum_cons] at opened short
    obtain ⟨result, writes⟩ := sound.writeSubOID_ok first
    obtain ⟨two, -, stores⟩ := sound.writeSubOID writes
    have length : result.2 = (firstArcs value).length := by rw [two, length_firstArcs]
    have grows : object.grow 0 = .ok object := if_neg (by simp)
    obtain ⟨fuel, enough⟩ := Nat.exists_eq_succ_of_ne_zero
      (show getSizeOfEncodedSubOID value + (values.map getSizeOfEncodedSubOID).sum ≠ 0 by omega)
    have left : (values.map getSizeOfEncodedSubOID).sum ≤ fuel := by omega
    obtain ⟨decoded, run⟩ := decodeLoop_numbers wide stores (by rw [length_firstArcs]; decide) small left further
    refine ⟨decoded, ?_⟩
    rw [decodingData, opened, ok_bind]
    dsimp only
    rw [if_neg (by omega), if_neg (by omega), enough, List.flatMap_cons, List.append_assoc,
      decodeLoop_number wide (by omega) _ (by omega), grows, ok_bind, writes, ok_bind, length, ← enough,
      Nat.add_sub_cancel_left]
    exact run
  obtain ⟨decoded, run⟩ := success
  obtain ⟨arcs, number, -, uLength, stores⟩ := decodingData_stores wide sound run
  have octets : ((value :: values).flatMap encodeSubOID ++ further).take
      ((value :: values).map getSizeOfEncodedSubOID).sum = (value :: values).flatMap encodeSubOID :=
    List.take_left' (length_flatMap_encodeSubOID _)
  rw [decodedValue, opened] at number
  dsimp only at number
  rw [octets, oidOf, subIdentifiers_flatMap] at number
  obtain rfl : firstArcs value ++ values = arcs := Option.some.inj number
  have length : (firstArcs value ++ values).length = 2 + values.length := by
    rw [List.length_append, length_firstArcs]
  refine ⟨decoded, run, uLength.trans length, ?_⟩
  rw [uLength]
  exact (List.prefix_iff_eq_take.mp stores.stored).symm

theorem openContent_nil (attrs : List Attr) (opened : List UInt8 × Nat) : openContent w attrs [] ≠ .ok opened := by
  intro success
  obtain ⟨state, begun, success⟩ := bind_eq_ok success
  have unread := (attrListDecodingData_nil begun).2
  rw [unread] at success
  cases success

theorem decodingData_recovers (wide : 4 ≤ w) (sound : object.Sound) (nonempty : arcs ≠ []) {data : List UInt8}
    {decoded : Oid}
    (success : object.decodingData w data = .ok (decoded, further))
    (recovered : decoded.getOIDBuffer.take decoded.uLength = arcs) :
    ∃ pEncodingUnit uLeftSize first others, openContent w object.attrs data = .ok (pEncodingUnit, uLeftSize) ∧
      uLeftSize ≠ 0 ∧ uLeftSize ≤ 4000 ∧ first < 120 ∧ arcs = firstArcs first ++ others ∧
      subIdentifiers 0 false (pEncodingUnit.take uLeftSize) = some (first :: others) := by
  obtain ⟨same, value, -, uLength, stores⟩ := decodingData_stores wide sound success
  obtain rfl : same = arcs := by
    rw [← recovered, uLength]
    exact List.prefix_iff_eq_take.mp stores.stored
  obtain ⟨⟨pEncodingUnit, uLeftSize⟩, opened, success⟩ := bind_eq_ok success
  rw [decodedValue, opened] at value
  dsimp only at success value
  obtain ⟨numbers, read, named⟩ := Option.map_eq_some_iff.mp value
  by_cases none : uLeftSize = 0
  · rw [none] at read
    obtain rfl := Option.some.inj read
    exact absurd named.symm nonempty
  by_cases long : uLeftSize > 4000
  · rw [if_neg none, if_pos long] at success
    cases success
  rw [if_neg none, if_neg long] at success
  obtain ⟨fuel, rfl⟩ := Nat.exists_eq_succ_of_ne_zero none
  obtain ⟨size, first, grown, written, next, positive, inside, group, grows, writes, -⟩ :=
    decodeLoop_round wide none success
  have small := writeSubOID_lt rfl writes
  have front := read
  rw [← Nat.add_sub_cancel' inside, List.take_add, group] at front
  obtain ⟨others, -, rfl⟩ := Option.map_eq_some_iff.mp front
  exact ⟨pEncodingUnit, fuel + 1, first, others, opened, none, by omega, small, named.symm, read⟩

end Oid

end ReadBack

section RoundTrip

namespace Oid

def RoundTrips (machine : Machine) (object : Oid) (bOptional : Bool) (arcs : List Nat) : Prop :=
  ∃ encoded, object.encodingData machine bOptional = .ok encoded ∧
    encoded.advance = object.getSizeOfEncoded machine bOptional ∧ encoded.written.length = encoded.advance ∧
    ∀ (target : Oid) (further : List UInt8), target.Sound → target.attrs = object.attrs →
      ∃ decoded, target.decodingData (ulongSize machine) (encoded.written ++ further) = .ok (decoded, further) ∧
        decoded.uLength = arcs.length ∧ decoded.getOIDBuffer.take decoded.uLength = arcs

structure Fits (machine : Machine) (attrs : List Attr) (bOptional : Bool) (arcs : List Nat) : Prop where
  present : bOptional = false
  second : arcs.getD 1 0 < 40
  short : valueSize arcs ≤ 4000
  shortForm : machine.ulongSize = .eight → valueSize arcs ≤ 0x7F
  length : content (shown attrs) (valueSize arcs) ≤ 0xFFFF
  kept : ∀ attr ∈ emitted true (shown attrs), attr.Kept
  last : ∀ attr, (nonEmpty (shown attrs)).getLast? = some attr → attr.bImplicit

variable {machine : Machine} {object : Oid} {bOptional : Bool} {arcs rest : List Nat} {first second v : Nat}

theorem alone_iff (v : Nat) (attrs : List Attr) :
    ((header v attrs true).2 = true → nonEmpty attrs = []) ↔
      ∀ attr, (nonEmpty attrs).getLast? = some attr → attr.bImplicit := by
  rw [header_own]
  cases last : (nonEmpty attrs).getLast? with
  | none =>
    have nothing : nonEmpty attrs = [] := List.getLast?_eq_none_iff.mp last
    exact iff_of_true (fun _ => nothing) nofun
  | some attr =>
    have nonempty : nonEmpty attrs ≠ [] := by
      intro nothing
      rw [nothing] at last
      cases last
    cases implicit : attr.bImplicit <;> simp [implicit, nonempty]

theorem lengthRead_eq (some : lengthRead machine v ≠ 0) :
    lengthRead machine v = v ∧ (machine.ulongSize = .eight → v ≤ 0x7F) := by
  rw [lengthRead] at some ⊢
  split_ifs at some ⊢ with whole
  · refine ⟨rfl, fun eight => whole.resolve_left fun four => ?_⟩
    rw [eight] at four
    cases four
  · exact absurd rfl some

theorem firstArcs_second {value : Nat} (small : value < 120) (same : firstArcs value = [first, second]) :
    second < 40 := by
  rw [firstArcs] at same
  split_ifs at same
  · obtain ⟨-, tail⟩ := List.cons.inj same
    have := (List.cons.inj tail).1
    omega
  · obtain ⟨-, tail⟩ := List.cons.inj same
    have := (List.cons.inj tail).1
    omega

theorem firstArcs_merged (low : first ≤ 2) (small : second < 40) :
    merged machine first second < 120 ∧ firstArcs (merged machine first second) = [first, second] := by
  have wide := four_le_ulongSize machine
  have room : 2 ^ 32 ≤ 2 ^ (8 * ulongSize machine) := Nat.pow_le_pow_right (by decide) (by omega)
  have same : merged machine first second = first * 40 + second := Nat.mod_eq_of_lt (by omega)
  rw [same, firstArcs]
  refine ⟨by omega, ?_⟩
  split_ifs with high
  · obtain rfl : first = 2 := by omega
    simp
  · have quotient : (first * 40 + second) / 40 = first := by omega
    have remainder : (first * 40 + second) % 40 = second := by omega
    rw [quotient, remainder]

theorem size_one {value : Nat} (small : value < 128) : getSizeOfEncodedSubOID value = 1 := by
  obtain ⟨more, size, -, low⟩ := getSizeOfEncodedSubOID_bounds value
  rcases low with rfl | low
  · exact size
  · cases more with
    | zero => exact size
    | succ more =>
      have large : 128 ^ 1 ≤ 128 ^ (more + 1) := Nat.pow_le_pow_right (by decide) (by omega)
      omega

theorem length_ownOctets {value : List UInt8} (small : v ≤ 0xFFFF) (bTag : Bool) :
    (ownOctets bTag v value).length + v = left bTag [] v + value.length := by
  cases bTag with
  | false => exact Nat.add_comm _ _
  | true =>
    have size := length_encodeLength small
    have whole : left true [] v = v + getSizeOfEncodedLength 4 v + 1 := rfl
    rw [ownOctets, if_pos rfl, List.length_append, List.length_cons]
    omega

theorem length_octetsOf {attrs : List Attr} {value : List UInt8} (small : content (shown attrs) v ≤ 0xFFFF)
    (kept : ∀ attr ∈ emitted true (shown attrs), attr.Kept) :
    (octetsOf attrs v value).length + v = total (shown attrs) v + value.length := by
  have inner := Nat.le_trans (value_le_content (shown attrs) v) small
  have whole := length_header_kept true small kept
  have own := @length_ownOctets v value inner (header v (shown attrs) true).2
  have announced : left true (shown attrs) v = total (shown attrs) v := rfl
  rw [octetsOf, List.length_append]
  omega

theorem length_le_valueSize : rest.length < valueSize (first :: second :: rest) := by
  have sum : (rest.map getSizeOfEncodedSubOID).length • 1 ≤ (rest.map getSizeOfEncodedSubOID).sum := by
    refine List.card_nsmul_le_sum _ _ fun size member => ?_
    obtain ⟨arc, -, rfl⟩ := List.mem_map.mp member
    exact getSizeOfEncodedSubOID_pos arc
  rw [List.length_map, smul_eq_mul, Nat.mul_one] at sum
  rw [valueSize, List.drop_succ_cons, List.drop_zero]
  omega

theorem Fits.roundTrips (fitting : Fits machine object.attrs bOptional (first :: second :: rest))
    (holds : object.HoldsArcs (first :: second :: rest)) (low : first ≤ 2) (small : ∀ arc ∈ rest, arc < 2 ^ 32) :
    object.RoundTrips machine bOptional (first :: second :: rest) := by
  obtain rfl := fitting.present
  have short := fitting.short
  have fewer := @length_le_valueSize rest first second
  obtain ⟨merges, splits⟩ := @firstArcs_merged machine first second low fitting.second
  have one := @size_one (merged machine first second) (by omega)
  have length := length_valueOctets machine first second rest
  rw [one, Nat.add_right_cancel_iff] at length
  have alone := (alone_iff (valueSize (first :: second :: rest)) (shown object.attrs)).mpr fitting.last
  have encoded := encodingData_eq machine holds (by omega) (encodeValue_eq machine holds (by omega)) fitting.length
    (Nat.le_of_eq length.symm)
  have whole := @length_octetsOf _ _ (valueOctets machine first second rest) fitting.length fitting.kept
  have size := getSizeOfEncoded_eq machine holds (by omega)
  refine ⟨_, encoded, ?_, rfl, fun target further sound same => ?_⟩
  · rw [size]
    dsimp only
    omega
  · have read : lengthRead machine (valueSize (first :: second :: rest)) =
        ((merged machine first second :: rest).map getSizeOfEncodedSubOID).sum := by
      rw [← length_flatMap_encodeSubOID]
      change _ = (valueOctets machine first second rest).length
      rw [length, lengthRead, if_pos]
      cases size : machine.ulongSize with
      | four => exact .inl rfl
      | eight => exact .inr (fitting.shortForm size)
    have opened := openContent_octetsOf machine fitting.length fitting.kept alone
      (valueOctets machine first second rest) further
    rw [read, ← same] at opened
    have sum : ((merged machine first second :: rest).map getSizeOfEncodedSubOID).sum ≤ 4000 := by
      rw [← length_flatMap_encodeSubOID]
      change (valueOctets machine first second rest).length ≤ 4000
      omega
    obtain ⟨decoded, run, uLength, numbers⟩ :=
      decodingData_numbers (four_le_ulongSize machine) sound opened merges small sum
    refine ⟨decoded, same ▸ run, ?_, ?_⟩
    · rw [uLength, List.length_cons, List.length_cons, Nat.add_comm]
    · rw [numbers, splits]
      rfl

theorem create_sound (attrs : List Attr) : (create attrs).Sound :=
  ⟨List.length_replicate, fun _ present => by cases present⟩

theorem RoundTrips.fits (trips : object.RoundTrips machine bOptional (first :: second :: rest))
    (holds : object.HoldsArcs (first :: second :: rest)) (small : ∀ arc ∈ rest, arc < 2 ^ 32) :
    Fits machine object.attrs bOptional (first :: second :: rest) := by
  obtain ⟨encoded, written, size, -, decodes⟩ := trips
  obtain ⟨decoded, success, -, recovered⟩ := decodes (create object.attrs) [] (create_sound _) rfl
  rw [List.append_nil] at success
  obtain ⟨pEncodingUnit, uLeftSize, number, others, opened, some, short, low, same, numbers⟩ :=
    decodingData_recovers (four_le_ulongSize machine) (create_sound _) (List.cons_ne_nil _ _) success recovered
  change openContent (ulongSize machine) object.attrs encoded.written = _ at opened
  have present : bOptional = false := by
    cases bOptional with
    | false => rfl
    | true =>
      obtain rfl := Except.ok.inj written
      exact absurd opened (openContent_nil _ _)
  subst present
  -- What is decoded is short, and so is what was encoded.
  have count := length_subIdentifiers numbers
  have bound : (pEncodingUnit.take uLeftSize).countP (fun octet => endsNumber octet) ≤ 4000 :=
    Nat.le_trans List.countP_le_length (Nat.le_trans (List.length_take_le _ _) short)
  have arcs := congrArg List.length same
  rw [List.length_append, length_firstArcs, List.length_cons, List.length_cons] at arcs
  rw [List.length_cons] at count
  have few : valueSize (first :: second :: rest) ≤ 2 ^ 30 := by
    have := @valueSize_le rest first second small
    omega
  have length : content (shown object.attrs) (valueSize (first :: second :: rest)) ≤ 0xFFFF := by
    by_contra large
    obtain ⟨reason, refused⟩ := encodingData_refused machine holds few (by omega)
    rw [refused] at written
    cases written
  have inner := Nat.le_trans (value_le_content (shown object.attrs) (valueSize (first :: second :: rest))) length
  have octets := length_valueOctets machine first second rest
  have positive := getSizeOfEncodedSubOID_pos (merged machine first second)
  have encodes := encodingData_eq machine holds few (encodeValue_eq machine holds (by omega)) length (by omega)
  obtain rfl := Except.ok.inj (encodes.symm.trans written)
  rw [← List.append_nil (octetsOf _ _ _)] at opened
  obtain ⟨kept, found⟩ := openContent_cases machine length opened
  -- The size is right, so that the value is as long as it is counted.
  have whole := @length_octetsOf _ _ (valueOctets machine first second rest) length kept
  have value : (valueOctets machine first second rest).length = valueSize (first :: second :: rest) := by
    rw [getSizeOfEncoded_eq machine holds few] at size
    dsimp only at size
    omega
  have ends : ((valueOctets machine first second rest).countP fun octet => endsNumber octet) = rest.length + 1 :=
    countP_flatMap_encodeSubOID _
  obtain ⟨alone, rfl, rfl⟩ | ⟨later, counted, rfl, rfl⟩ := found
  · obtain ⟨read, shortForm⟩ := lengthRead_eq some
    rw [read] at short numbers
    rw [List.append_nil, ← value, List.take_length] at numbers
    obtain ⟨rfl, rfl⟩ := List.cons.inj (Option.some.inj (numbers.symm.trans (subIdentifiers_flatMap _)))
    have firsts : firstArcs (merged machine first second) = [first, second] :=
      (@List.append_cancel_right _ [first, second] _ _ same).symm
    exact ⟨rfl, firstArcs_second low firsts, short, shortForm, length, kept, (alone_iff _ _).mp alone⟩
  · -- Behind another tag the tag of the object itself is read as one more number.
    obtain ⟨read, -⟩ := lengthRead_eq some
    have all : (later ++
        ownOctets true (valueSize (first :: second :: rest)) (valueOctets machine first second rest)).length =
        content (shown object.attrs) (valueSize (first :: second :: rest)) := by
      have := @length_ownOctets _ (valueOctets machine first second rest) inner true
      rw [List.length_append]
      omega
    rw [read, List.append_nil, ← all, List.take_length, ownOctets, if_pos rfl, List.countP_append, List.countP_append,
      List.countP_cons_of_pos (by decide), ends] at count
    omega

theorem oid_comes_back {before : Oid} (set : before.setOIDValue arcs = some (object, .success)) (two : 2 ≤ arcs.length)
    (small : ∀ arc ∈ arcs.drop 1, arc < 2 ^ 32) :
    object.RoundTrips machine bOptional arcs ↔ Fits machine object.attrs bOptional arcs := by
  match arcs, two with
  | first :: second :: rest, _ =>
    have others : ∀ arc ∈ rest, arc < 2 ^ 32 := fun arc member => small arc (List.mem_cons_of_mem second member)
    exact ⟨fun trips => trips.fits (setOIDValue_holds set) others,
      fun fitting => fitting.roundTrips (setOIDValue_holds set) (setOIDValue_first set) others⟩

theorem oid_comes_back_sample :
    (⟨[⟨.contextForm, 1, true⟩], 4, [1, 2, 840, 113549] ++ List.replicate 12 0, none⟩ : Oid).RoundTrips
        ⟨.four, true, true⟩ false [1, 2, 840, 113549] ↔
      Fits ⟨.four, true, true⟩ [⟨.contextForm, 1, true⟩] false [1, 2, 840, 113549] :=
  @oid_comes_back _ _ _ _ (create [⟨.contextForm, 1, true⟩]) rfl (by decide) (by decide)

theorem oid_gets_lost :
    (∃ object encoded, (create []).setOIDValue [2, 48] = some (object, .success) ∧
      object.encodingData ⟨.four, true, true⟩ false = .ok encoded ∧
      object.getSizeOfEncoded ⟨.four, true, true⟩ false = 3 ∧ encoded.written = [0x06, 0x01, 0x81, 0x00]) ∧
    ∃ object encoded, (create [⟨.contextForm, 1, false⟩]).setOIDValue [1, 2, 3] = some (object, .success) ∧
      object.encodingData ⟨.four, true, true⟩ false = .ok encoded ∧
      encoded.written = [0xA1, 0x04, 0x06, 0x02, 0x2A, 0x03] ∧
      (create [⟨.contextForm, 1, false⟩]).decodingData 4 encoded.written = .error .unexpectedTag := by
  refine ⟨⟨_, _, rfl, rfl, ?_, ?_⟩, _, _, rfl, rfl, ?_, ?_⟩ <;> decide +kernel

end Oid

end RoundTrip

end CcspCommon.AnscAsn1
