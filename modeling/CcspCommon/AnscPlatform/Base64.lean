import CcspCommon.AnscPlatform.AnscString
import CcspCommon.Shared.Base64

set_option autoImplicit false

namespace CcspCommon.AnscPlatform

open CcspCommon.Shared

section Encoding

def ansc_base64_codes : Text := "ABCDEFGHIJKLMNOPQRSTUVWXYZabcdefghijklmnopqrstuvwxyz0123456789+/".toList

def pBase64Codes (index : Nat) : Char := ansc_base64_codes.getD index '\x00'

def toInt (value : Nat) : Int := (value + 0x80000000) % 0x100000000 - 0x80000000

def inInt (value : Int) : Option Int := if -0x80000000 ≤ value ∧ value < 0x80000000 then some value else none

def encodeGroups : Nat → List UInt8 → Option (Text × List UInt8)
  | 0, pData => some ([], pData)
  | div + 1, a :: b :: c :: pData => do
    let buf := [
      pBase64Codes ((a.toNat >>> 2) &&& 0x3F),
      pBase64Codes (((a.toNat <<< 4) &&& 0x30) + ((b.toNat >>> 4) &&& 0xF)),
      pBase64Codes (((b.toNat <<< 2) &&& 0x3C) + ((c.toNat >>> 6) &&& 0x3)),
      pBase64Codes (c.toNat &&& 0x3F)]
    let (written, left) ← encodeGroups div pData
    some (buf ++ written, left)
  | _ + 1, _ => none

def encodeTail : Int → List UInt8 → Option Text
  | 2, a :: b :: _ =>
    some [
      pBase64Codes ((a.toNat >>> 2) &&& 0x3F),
      pBase64Codes (((a.toNat <<< 4) &&& 0x30) + ((b.toNat >>> 4) &&& 0xF)),
      pBase64Codes ((b.toNat <<< 2) &&& 0x3C),
      '=']
  | 1, a :: _ =>
    some [
      pBase64Codes ((a.toNat >>> 2) &&& 0x3F),
      pBase64Codes ((a.toNat <<< 4) &&& 0x30),
      '=',
      '=']
  | 2, _ | 1, _ => none
  | _, _ => some []

def ansc_base64_encode_overrun_size : Int := 3

-- `AnscBase64Encode` with the terminator. There is no result where the sizes do not fit into an `int`, where no
-- memory is given for a size, or where an access is outside of the buffers.
def base64Encode (pBuf : List UInt8) : Option Text := do
  let ulSize := pBuf.length
  let div := toInt (ulSize / 3)
  let rem := toInt (ulSize % 3)
  let groups ← inInt (div * 4)
  let used ← inInt (groups + rem)
  let chars ← inInt (used + 1)
  let size ← inInt (chars + ansc_base64_encode_overrun_size)
  let (buf, pData) ← encodeGroups div.toNat pBuf
  let tail ← encodeTail rem pData
  let written := buf ++ tail ++ ['\x00']
  if (written.length : Int) ≤ size then some written else none

end Encoding

section Codes

theorem pBase64Codes_table : ∀ digit : Fin 64, pBase64Codes digit = Base64.symbol digit := by decide +kernel

theorem pBase64Codes_eq {index digit : Nat} (same : index = digit) (small : digit < 64) :
    pBase64Codes index = Base64.symbol digit :=
  same ▸ pBase64Codes_table ⟨digit, small⟩

structure Parts (octet : Nat) : Prop where
  high6 : (octet >>> 2) &&& 0x3F = octet / 4
  low2 : (octet <<< 4) &&& 0x30 = octet % 4 * 16
  high4 : (octet >>> 4) &&& 0xF = octet / 16
  low4 : (octet <<< 2) &&& 0x3C = octet % 16 * 4
  high2 : (octet >>> 6) &&& 0x3 = octet / 64
  low6 : octet &&& 0x3F = octet % 64

theorem parts_table : ∀ octet : Fin 256, ((octet.val >>> 2) &&& 0x3F = octet.val / 4 ∧
    (octet.val <<< 4) &&& 0x30 = octet.val % 4 * 16 ∧ (octet.val >>> 4) &&& 0xF = octet.val / 16) ∧
    (octet.val <<< 2) &&& 0x3C = octet.val % 16 * 4 ∧ (octet.val >>> 6) &&& 0x3 = octet.val / 64 ∧
    octet.val &&& 0x3F = octet.val % 64 := by decide +kernel

theorem parts (octet : UInt8) : Parts octet.toNat := by
  obtain ⟨⟨high6, low2, high4⟩, low4, high2, low6⟩ := parts_table ⟨octet.toNat, octet.toNat_lt⟩
  exact ⟨high6, low2, high4, low4, high2, low6⟩

theorem first_symbol (a : UInt8) {rest : Nat} (below : rest < 65536) :
    pBase64Codes ((a.toNat >>> 2) &&& 0x3F) = Base64.symbol ((a.toNat * 65536 + rest) / 262144) := by
  have small := a.toNat_lt
  refine pBase64Codes_eq ?_ (by omega)
  rw [(parts a).high6]
  omega

theorem second_symbol (a b : UInt8) {rest : Nat} (below : rest < 256) :
    pBase64Codes (((a.toNat <<< 4) &&& 0x30) + ((b.toNat >>> 4) &&& 0xF)) =
      Base64.symbol ((a.toNat * 65536 + b.toNat * 256 + rest) / 4096 % 64) := by
  have small := b.toNat_lt
  refine pBase64Codes_eq ?_ (by omega)
  rw [(parts a).low2, (parts b).high4]
  omega

theorem third_symbol (a : Nat) (b c : UInt8) :
    pBase64Codes (((b.toNat <<< 2) &&& 0x3C) + ((c.toNat >>> 6) &&& 0x3)) =
      Base64.symbol ((a * 65536 + b.toNat * 256 + c.toNat) / 64 % 64) := by
  have small := c.toNat_lt
  refine pBase64Codes_eq ?_ (by omega)
  rw [(parts b).low4, (parts c).high2]
  omega

theorem fourth_symbol (above : Nat) (c : UInt8) :
    pBase64Codes (c.toNat &&& 0x3F) = Base64.symbol ((above * 256 + c.toNat) % 64) := by
  refine pBase64Codes_eq ?_ (by omega)
  rw [(parts c).low6]
  omega

theorem second_symbol_last (a : UInt8) :
    pBase64Codes ((a.toNat <<< 4) &&& 0x30) = Base64.symbol (a.toNat * 65536 / 4096 % 64) := by
  refine pBase64Codes_eq ?_ (by omega)
  rw [(parts a).low2]
  omega

theorem third_symbol_last (a : Nat) (b : UInt8) :
    pBase64Codes ((b.toNat <<< 2) &&& 0x3C) = Base64.symbol ((a * 65536 + b.toNat * 256) / 64 % 64) := by
  refine pBase64Codes_eq ?_ (by omega)
  rw [(parts b).low4]
  omega

end Codes

section Groups

theorem encodeGroups_length {div : Nat} {pData left : List UInt8} {buf : Text}
    (encoded : encodeGroups div pData = some (buf, left)) : buf.length = div * 4 ∧ left = pData.drop (div * 3) := by
  induction div generalizing pData buf left with
  | zero =>
    cases encoded
    simp
  | succ div ih =>
    match pData, encoded with
    | a :: b :: c :: pData, encoded =>
      obtain ⟨⟨written, rest⟩, later, same⟩ := Option.bind_eq_some_iff.mp encoded
      obtain ⟨length, behind⟩ := ih later
      cases same
      constructor
      · rw [List.length_append, length, Nat.succ_mul, Nat.add_comm]
        rfl
      · rw [behind, Nat.succ_mul]
        rfl

theorem encodeGroups_short {octets : List UInt8} (short : octets.length < 3) :
    encodeGroups (octets.length / 3) octets = some ([], octets) := by
  rw [Nat.div_eq_of_lt short]
  rfl

theorem encodeGroups_encode (octets : List UInt8) :
    ∃ buf left tail, encodeGroups (octets.length / 3) octets = some (buf, left) ∧
      encodeTail (octets.length % 3 : Nat) left = some tail ∧ buf ++ tail = Base64.encode octets := by
  fun_induction Base64.encode octets with
  | case1 => exact ⟨[], [], [], encodeGroups_short (by decide), rfl, rfl⟩
  | case2 a bits =>
    refine ⟨[], [a], _, encodeGroups_short (by simp), rfl, ?_⟩
    have first := first_symbol a (show 0 < 65536 by decide)
    rw [Nat.add_zero] at first
    rw [first, second_symbol_last a]
    rfl
  | case3 a b bits =>
    have middle := b.toNat_lt
    refine ⟨[], [a, b], _, encodeGroups_short (by simp), rfl, ?_⟩
    have second := second_symbol a b (show 0 < 256 by decide)
    rw [Nat.add_zero] at second
    rw [first_symbol a (show b.toNat * 256 < 65536 by omega), second, third_symbol_last a.toNat b]
    rfl
  | case4 a b c rest bits ih =>
    obtain ⟨buf, left, tail, groups, encodes, same⟩ := ih
    have low := c.toNat_lt
    have middle := b.toNat_lt
    have length : (a :: b :: c :: rest).length = rest.length + 3 := rfl
    have first := first_symbol a (show b.toNat * 256 + c.toNat < 65536 by omega)
    have fourth := fourth_symbol (a.toNat * 256 + b.toNat) c
    rw [length, Nat.add_div_right _ (by decide), Nat.add_mod_right]
    refine ⟨_, left, tail, by rw [encodeGroups, groups]; rfl, encodes, ?_⟩
    rw [List.append_assoc, same, first, second_symbol a b low, third_symbol a.toNat b c, fourth, ← Nat.add_assoc]
    have shifted : (a.toNat * 256 + b.toNat) * 256 + c.toNat = bits := by omega
    rw [shifted]

end Groups

section Sizes

theorem encodeTail_length {rem : Int} {left : List UInt8} {tail : Text} (encoded : encodeTail rem left = some tail) :
    tail.length ≤ 4 := by
  unfold encodeTail at encoded
  split at encoded <;> cases encoded <;> simp

theorem encode_length (octets : List UInt8) : (Base64.encode octets).length = (octets.length + 2) / 3 * 4 := by
  fun_induction Base64.encode octets with
  | case1 | case2 | case3 => simp
  | case4 a b c rest bits ih =>
    rw [List.length_append, ih]
    simp only [List.length_cons, List.length_nil]
    omega

theorem toInt_of_lt {value : Nat} (small : value < 0x80000000) : toInt value = value := by
  rw [toInt]
  omega

theorem inInt_eq_some {value result : Int} :
    inInt value = some result ↔ (-0x80000000 ≤ value ∧ value < 0x80000000) ∧ value = result := by
  rw [inInt]
  split_ifs with inside
  · simp [inside]
  · simp [inside]

def Encodes (pBuf : List UInt8) : Prop :=
  ∃ text, base64Encode pBuf = some (text ++ ['\x00']) ∧ text = Base64.encode pBuf ∧ Base64.decode text = some pBuf

theorem encodes_of_small {pBuf : List UInt8} (small : pBuf.length / 3 * 4 + pBuf.length % 3 + 4 < 0x80000000) :
    Encodes pBuf := by
  obtain ⟨buf, left, tail, groups, encodes, same⟩ := encodeGroups_encode pBuf
  refine ⟨Base64.encode pBuf, ?_, rfl, Base64.decode_encode pBuf⟩
  have length := encode_length pBuf
  rw [base64Encode, toInt_of_lt (show pBuf.length / 3 < 0x80000000 by omega),
    toInt_of_lt (show pBuf.length % 3 < 0x80000000 by omega)]
  simp only [ansc_base64_encode_overrun_size, Option.bind_eq_bind]
  rw [inInt_eq_some.mpr ⟨by omega, rfl⟩, Option.bind_some, inInt_eq_some.mpr ⟨by omega, rfl⟩, Option.bind_some,
    inInt_eq_some.mpr ⟨by omega, rfl⟩, Option.bind_some, inInt_eq_some.mpr ⟨by omega, rfl⟩, Option.bind_some,
    Int.toNat_natCast, groups, Option.bind_some]
  simp only [encodes, Option.bind_some, same]
  rw [if_pos]
  rw [List.length_append, List.length_singleton, length]
  omega

theorem small_of_encodes {pBuf : List UInt8} (encodes : Encodes pBuf) :
    pBuf.length / 3 * 4 + pBuf.length % 3 + 4 < 0x80000000 := by
  obtain ⟨text, encoded, rfl, -⟩ := encodes
  simp only [base64Encode, Option.bind_eq_bind, Option.bind_eq_some_iff] at encoded
  obtain ⟨groups, inGroups, used, inUsed, chars, inChars, size, inSize, ⟨buf, left⟩, written, tail, ended, encoded⟩ :=
    encoded
  have groupsLength := (encodeGroups_length written).1
  have tailLength := encodeTail_length ended
  have remainder := toInt_of_lt (show pBuf.length % 3 < 0x80000000 by omega)
  rw [remainder] at inUsed
  dsimp only at encoded
  split_ifs at encoded with fits
  have length := congrArg List.length (Option.some.inj encoded)
  simp only [List.length_append, List.length_singleton] at length fits
  rw [encode_length] at length
  rw [inInt_eq_some] at inGroups inUsed inChars inSize
  rw [toInt] at groupsLength inGroups
  rw [ansc_base64_encode_overrun_size] at inSize
  omega

theorem base64Encode_encodes_iff (pBuf : List UInt8) :
    Encodes pBuf ↔ pBuf.length / 3 * 4 + pBuf.length % 3 + 4 < 0x80000000 :=
  ⟨small_of_encodes, encodes_of_small⟩

/-- The shortest string with a size that no `int` holds. -/
theorem long_string_not_encoded : ¬ Encodes (List.replicate 1610612733 0) := by
  intro encodes
  have small := small_of_encodes encodes
  rw [List.length_replicate] at small
  exact absurd small (by decide)

end Sizes

end CcspCommon.AnscPlatform
