import CcspCommon.Shared.Text
import CcspCommon.Shared.Tokens
import CcspCommon.Shared.Decimal
import Mathlib

set_option autoImplicit false

namespace CcspCommon.AnscPlatform

open CcspCommon.Shared

section Characters

def isUpAlpha (c : Char) : Bool := 'A' ≤ c && c ≤ 'Z'

def isLoAlpha (c : Char) : Bool := 'a' ≤ c && c ≤ 'z'

def isAlpha (c : Char) : Bool := isUpAlpha c || isLoAlpha c

def isHexAlpha (c : Char) : Bool := ('A' ≤ c && c ≤ 'F') || ('a' ≤ c && c ≤ 'f')

def isAlphaOrDigit (c : Char) : Bool := isAlpha c || c.isDigit

def isHexAlphaOrDigit (c : Char) : Bool := isHexAlpha c || c.isDigit

theorem isAlpha_of_isHexAlpha {c : Char} (hex : isHexAlpha c = true) : isAlpha c = true := by
  have upper : 'F' ≤ 'Z' := by decide
  have lower : 'f' ≤ 'z' := by decide
  simp only [isHexAlpha, Bool.or_eq_true, Bool.and_eq_true, decide_eq_true_eq] at hex
  simp only [isAlpha, isUpAlpha, isLoAlpha, Bool.or_eq_true, Bool.and_eq_true, decide_eq_true_eq]
  exact hex.imp (fun range => ⟨range.1, Char.le_trans range.2 upper⟩)
    fun range => ⟨range.1, Char.le_trans range.2 lower⟩

theorem isDigit_of_isAlpha {c : Char} (alpha : isAlpha c = true) : c.isDigit = false := by
  have large : 65 ≤ c.toNat := by
    simp only [isAlpha, isUpAlpha, isLoAlpha, Bool.or_eq_true, Bool.and_eq_true, decide_eq_true_eq, Char.le_def,
      UInt32.le_iff_toNat_le, Char.toNat_val, Char.reduceVal, UInt32.reduceToNat] at alpha
    omega
  cases digit : c.isDigit with
  | false => rfl
  | true =>
    have small : c.toNat ≤ 57 := (Char.isDigit_iff_toNat.mp digit).2
    omega

theorem isHexAlphaOrDigit_iff (c : Char) :
    isHexAlphaOrDigit c = true ↔ isAlphaOrDigit c = true ∧ ¬ (isAlpha c = true ∧ isHexAlpha c = false) := by
  have wider := @isAlpha_of_isHexAlpha c
  have apart := @isDigit_of_isAlpha c
  simp only [isHexAlphaOrDigit, isAlphaOrDigit, Bool.or_eq_true]
  cases hex : isHexAlpha c <;> cases alpha : isAlpha c <;> simp_all

end Characters

section Machine

inductive UlongSize
  | four | eight
  deriving DecidableEq, Repr

def UlongSize.bits : UlongSize → Nat
  | .four => 32
  | .eight => 64

structure Machine where
  ulongSize : UlongSize
  charIsSigned : Bool
  littleEndian : Bool
  deriving DecidableEq, Repr

abbrev Machine.Ulong (machine : Machine) : Type := BitVec machine.ulongSize.bits

def Machine.charCode (machine : Machine) (c : Char) : Int :=
  if machine.charIsSigned && 128 ≤ c.toNat then c.toNat - 256 else c.toNat

theorem UlongSize.bits_ge (size : UlongSize) : 32 ≤ size.bits := by
  cases size <;> decide

end Machine

section Tokens

def uriPathSize : Nat := 512

-- `AnscTcAllocate` with one separator; a token that does not fit its buffer makes it fail.
def tcAllocate (separator : Char) (string : Text) : Option (List Text) :=
  if (tokens separator string).all (·.length < uriPathSize) then some (tokens separator string) else none

theorem tcAllocate_joinTokens {separator : Char} {list : List Text}
    (proper : ∀ token ∈ list, IsToken separator token) (short : ∀ token ∈ list, token.length < uriPathSize) :
    tcAllocate separator (joinTokens separator list) = some list := by
  have fits : (list.all fun token => token.length < uriPathSize) = true := by simpa using short
  simp only [tcAllocate, tokens_joinTokens_self separator proper, fits, if_true]

theorem mem_joinTokens {separator c : Char} {list : List Text} (member : c ∈ joinTokens separator list) :
    c = separator ∨ ∃ token ∈ list, c ∈ token := by
  induction list with
  | nil => cases member
  | cons token rest ih =>
    cases rest with
    | nil => exact .inr ⟨token, List.mem_cons_self, member⟩
    | cons next more =>
      simp only [joinTokens, List.mem_append, List.mem_cons] at member
      obtain here | same | later := member
      · exact .inr ⟨token, List.mem_cons_self, here⟩
      · exact .inl same
      · obtain same | ⟨other, inside, there⟩ := ih later
        · exact .inl same
        · exact .inr ⟨other, List.mem_cons_of_mem token inside, there⟩

end Tokens

section Alphabets

variable (separators alphabet : Text)

def splitAnyFrom : Text → Text → List Text
  | current, [] => if current = [] then [] else [current]
  | current, c :: rest =>
    if c ∈ separators then
      if current = [] then splitAnyFrom [] rest else current :: splitAnyFrom [] rest
    else splitAnyFrom (current ++ [c]) rest

def splitAny (text : Text) : List Text := splitAnyFrom separators [] text

def tcAllocateAny (string : Text) : Option (List Text) :=
  if (splitAny separators string).all (·.length < uriPathSize) then some (splitAny separators string) else none

-- `AnscTcAllocate2` drops the tokens with other characters than those of the alphabet; no result when
-- a token is copied past its buffer.
def tcAllocate2 (string : Text) : Option (List Text) :=
  let kept := (splitAny separators string).filter fun token => token.all (alphabet.contains ·)
  if kept.all (·.length < uriPathSize) then some kept else none

variable {separators}

theorem splitAnyFrom_append {piece : Text} (free : ∀ c ∈ piece, c ∉ separators) (current rest : Text) :
    splitAnyFrom separators current (piece ++ rest) = splitAnyFrom separators (current ++ piece) rest := by
  induction piece generalizing current with
  | nil => simp
  | cons c piece ih =>
    rw [List.forall_mem_cons] at free
    rw [List.cons_append, splitAnyFrom, if_neg free.1, ih free.2, List.append_assoc, List.singleton_append]

theorem splitAny_piece {piece : Text} {separator : Char} (free : ∀ c ∈ piece, c ∉ separators)
    (here : separator ∈ separators) (rest : Text) :
    splitAny separators (piece ++ separator :: rest) =
      (if piece = [] then [] else [piece]) ++ splitAny separators rest := by
  rw [splitAny, splitAnyFrom_append free, List.nil_append, splitAnyFrom, if_pos here]
  split_ifs <;> rfl

theorem splitAny_nil : splitAny separators [] = [] := rfl

theorem splitAny_joinTokens {separator : Char} (here : separator ∈ separators) {list : List Text}
    (proper : ∀ piece ∈ list, piece ≠ [] ∧ ∀ c ∈ piece, c ∉ separators) :
    splitAny separators (joinTokens separator list) = list := by
  induction list with
  | nil => rfl
  | cons piece rest ih =>
    rw [List.forall_mem_cons] at proper
    obtain ⟨⟨nonempty, free⟩, later⟩ := proper
    cases rest with
    | nil =>
      have alone := splitAnyFrom_append free [] []
      rw [List.append_nil, List.nil_append] at alone
      rw [joinTokens, splitAny, alone, splitAnyFrom, if_neg nonempty]
    | cons next more =>
      rw [joinTokens, splitAny_piece free here, if_neg nonempty, ih later, List.singleton_append]

theorem tcAllocateAny_joinTokens {separator : Char} (here : separator ∈ separators) {list : List Text}
    (proper : ∀ piece ∈ list, piece ≠ [] ∧ ∀ c ∈ piece, c ∉ separators)
    (short : ∀ piece ∈ list, piece.length < uriPathSize) :
    tcAllocateAny separators (joinTokens separator list) = some list := by
  have fits : (list.all fun piece => piece.length < uriPathSize) = true := by simpa using short
  rw [tcAllocateAny, splitAny_joinTokens here proper, if_pos fits]

end Alphabets

section Numbers

def ulongOfInt (machine : Machine) (value : Int) : Nat := (value % 2 ^ machine.ulongSize.bits).toNat

-- `atoi` is the `int` of what `strtol` returns, which stays within a `long`.
def atoiInt (machine : Machine) (text : Text) : Int :=
  let long := max (-2 ^ (machine.ulongSize.bits - 1)) (min (2 ^ (machine.ulongSize.bits - 1) - 1) (atoi text))
  long.bmod 4294967296

theorem atoiInt_eq (machine : Machine) {text : Text} (least : -2147483648 ≤ atoi text) (most : atoi text ≤ 2147483647) :
    atoiInt machine text = atoi text := by
  have range : max (-2 ^ (machine.ulongSize.bits - 1)) (min (2 ^ (machine.ulongSize.bits - 1) - 1) (atoi text)) =
      atoi text := by
    cases machine.ulongSize <;> simp only [UlongSize.bits] <;> omega
  simp only [atoiInt, range]
  rw [Int.bmod_eq_of_le (by omega) (by omega)]

def addDigit (machine : Machine) (c : Char) : machine.Ulong × machine.Ulong → machine.Ulong × machine.Ulong
  | (total_value, decimal_times) =>
    (total_value + BitVec.ofInt _ (machine.charCode c - 48) * decimal_times, decimal_times * 10)

def getStringUlong (machine : Machine) (ulong_str : Text) : machine.Ulong :=
  if 10 < ulong_str.length then 0 else (ulong_str.foldr (addDigit machine) (0, 1)).1

theorem charCode_digit {machine : Machine} {c : Char} (digit : c.isDigit = true) :
    machine.charCode c - 48 = ((c.toNat - 48 : Nat) : Int) := by
  obtain ⟨large, small⟩ := Char.isDigit_iff_toNat.mp digit
  have low : ¬ 128 ≤ c.toNat := by
    have most : c.toNat ≤ 57 := small
    omega
  have least : 48 ≤ c.toNat := large
  simp only [Machine.charCode, low, decide_false, Bool.and_false, Bool.false_eq_true, if_false]
  omega

theorem sumDigits_eq (machine : Machine) {text : Text} (digits : ∀ c ∈ text, c.isDigit = true) :
    text.foldr (addDigit machine) (0, 1) =
      (BitVec.ofNat _ (Nat.ofDigitChars 10 text 0), BitVec.ofNat _ (10 ^ text.length)) := by
  induction text with
  | nil => rfl
  | cons c rest ih =>
    rw [List.forall_mem_cons] at digits
    have value : Nat.ofDigitChars 10 (c :: rest) 0 =
        Nat.ofDigitChars 10 rest 0 + (c.toNat - 48) * 10 ^ rest.length := by
      rw [Nat.ofDigitChars_cons, Nat.ofDigitChars_eq_ofDigitChars_zero]
      simp [Nat.mul_comm, Nat.add_comm]
    simp only [List.foldr_cons, ih digits.2, addDigit, charCode_digit digits.1, value, BitVec.ofInt_natCast,
      List.length_cons, Nat.pow_succ, BitVec.ofNat_add, BitVec.ofNat_mul]
    rfl

theorem getStringUlong_digits (machine : Machine) {text : Text} (digits : ∀ c ∈ text, c.isDigit = true)
    (short : text.length ≤ 10) : getStringUlong machine text = BitVec.ofNat _ (Nat.ofDigitChars 10 text 0) := by
  rw [getStringUlong, if_neg (by omega), sumDigits_eq machine digits]

end Numbers

section Octets

theorem isDigit_of_mem_decimal {n : Nat} {c : Char} (member : c ∈ decimal n) : c.isDigit = true :=
  Nat.isDigit_of_mem_toDigits (by decide) (by decide) member

theorem isToken_decimal {separator : Char} (apart : separator.isDigit = false) (n : Nat) :
    IsToken separator (decimal n) := by
  refine ⟨Nat.toDigits_ne_nil, fun member => ?_⟩
  rw [isDigit_of_mem_decimal member] at apart
  cases apart

theorem length_decimal_octet {n : Nat} (octet : n < 256) : (decimal n).length ≤ 3 :=
  (Nat.length_toDigits_le_iff (by decide) (by decide)).mpr (Nat.lt_of_lt_of_le octet (by decide))

theorem getStringUlong_decimal (machine : Machine) {n : Nat} (octet : n < 256) :
    getStringUlong machine (decimal n) = BitVec.ofNat _ n := by
  have short := length_decimal_octet octet
  have value : Nat.ofDigitChars 10 (decimal n) 0 = n := Nat.ofDigitChars_ten_toDigits
  rw [getStringUlong_digits machine (fun c member => isDigit_of_mem_decimal member) (by omega), value]

def octets (address : Nat) : List Nat :=
  [address / 16777216 % 256, address / 65536 % 256, address / 256 % 256, address % 256]

def octetTexts (address : Nat) : List Text := (octets address).map fun octet : Nat => decimal octet

def quadText (address : Nat) : Text := joinTokens '.' (octetTexts address)

theorem octets_lt {address : Nat} : ∀ octet ∈ octets address, octet < 256 := by
  simp only [octets, List.mem_cons, List.not_mem_nil, or_false]
  rintro octet (rfl | rfl | rfl | rfl) <;> exact Nat.mod_lt _ (by decide)

theorem octets_injective {first second : Nat} (one : first < 2 ^ 32) (two : second < 2 ^ 32)
    (same : octets first = octets second) : first = second := by
  simp only [octets, List.cons.injEq, and_true] at same
  omega

theorem isToken_octetTexts (address : Nat) : ∀ token ∈ octetTexts address, IsToken '.' token := by
  intro token member
  obtain ⟨octet, _, rfl⟩ := List.mem_map.mp member
  exact isToken_decimal (by decide) octet

theorem length_octetTexts (address : Nat) : ∀ token ∈ octetTexts address, token.length ≤ 3 := by
  intro token member
  obtain ⟨octet, inside, rfl⟩ := List.mem_map.mp member
  exact length_decimal_octet (octets_lt octet inside)

theorem tcAllocate_quadText (address : Nat) : tcAllocate '.' (quadText address) = some (octetTexts address) :=
  tcAllocate_joinTokens (isToken_octetTexts address) fun token member =>
    Nat.lt_of_le_of_lt (length_octetTexts address token member) (by decide)

theorem quadText_injective {first second : Nat} (one : first < 2 ^ 32) (two : second < 2 ^ 32)
    (same : quadText first = quadText second) : first = second := by
  have texts := joinTokens_injective '.' (isToken_octetTexts first) (isToken_octetTexts second) same
  have numbers : Function.Injective fun octet : Nat => decimal octet := fun a b equal =>
    Int.ofNat.inj (decimal_injective equal)
  exact octets_injective one two (List.map_injective_iff.mpr numbers texts)

end Octets

section Addresses

def isDigitString (tbe_string : Text) : Bool := tbe_string.all Char.isDigit

def isValidIpString (ip_addr_string : Text) : Bool :=
  if ip_addr_string.length = 0 || 16 ≤ ip_addr_string.length then false
  else
    match tcAllocate '.' ip_addr_string with
    | none => false
    | some tokens =>
      if tokens.length ≠ 4 then false
      else tokens.all fun token => token.length ≤ 3 && isDigitString token && atoi token ≤ 255

def fields (separator : Char) : Text → List Text
  | [] => [[]]
  | c :: rest =>
    if c = separator then [] :: fields separator rest
    else
      match fields separator rest with
      | [] => [[c]]
      | first :: others => (c :: first) :: others

def hexDigit (c : Char) : Nat :=
  if c.isDigit then c.toNat - '0'.toNat else if isUpAlpha c then c.toNat - 'A'.toNat + 10 else c.toNat - 'a'.toNat + 10

def inetPart (part : Text) : Option Nat :=
  match part with
  | [] => none
  | '0' :: x :: digits =>
    if x = 'x' || x = 'X' then
      if digits ≠ [] && digits.all isHexAlphaOrDigit then
        some (digits.foldl (fun n c => n * 16 + hexDigit c) 0)
      else none
    else if (x :: digits).all fun c => c.isDigit && c ≤ '7' then some (Nat.ofDigitChars 8 (x :: digits) 0)
    else none
  | digits => if isDigitString digits then some (Nat.ofDigitChars 10 digits 0) else none

def inetParts : Nat → List Nat → Option Nat
  | _, [] => none
  | 0, _ => none
  | left + 1, [last] => if last < 256 ^ (left + 1) then some last else none
  | left + 1, first :: rest =>
    if first < 256 then (inetParts left rest).map fun others => first * 256 ^ left + others else none

def byteSwap (address : Nat) : Nat :=
  address % 256 * 16777216 + address / 256 % 256 * 65536 + address / 65536 % 256 * 256 + address / 16777216 % 256

def networkOrder (machine : Machine) (address : Nat) : Nat :=
  if machine.littleEndian then byteSwap address else address

def inetAddr (machine : Machine) (cp : Text) : Nat :=
  match ((fields '.' cp).mapM inetPart).bind (inetParts 4) with
  | none => 0xFFFFFFFF
  | some address => networkOrder machine address

theorem fields_cons {separator : Char} {first : Text} (free : separator ∉ first) (rest : Text) :
    fields separator (first ++ separator :: rest) = first :: fields separator rest := by
  induction first with
  | nil => simp [fields]
  | cons c first ih =>
    simp only [List.mem_cons, not_or] at free
    simp [fields, Ne.symm free.1, ih free.2]

theorem fields_last {separator : Char} {last : Text} (free : separator ∉ last) : fields separator last = [last] := by
  induction last with
  | nil => rfl
  | cons c last ih =>
    simp only [List.mem_cons, not_or] at free
    simp [fields, Ne.symm free.1, ih free.2]

theorem isDigitString_decimal (n : Nat) : isDigitString (decimal n) = true :=
  List.all_eq_true.mpr fun _ member => isDigit_of_mem_decimal member

theorem inetPart_decimal (n : Nat) : inetPart (decimal n) = some n := by
  by_cases zero : n = 0
  next =>
    subst zero
    decide
  next =>
    have head := head_decimal_ne_zero (Nat.pos_of_ne_zero zero)
    have value : Nat.ofDigitChars 10 (decimal n) 0 = n := Nat.ofDigitChars_ten_toDigits
    have digits := isDigitString_decimal n
    unfold inetPart
    split
    next empty =>
      rw [empty] at digits value
      exact absurd value.symm zero
    next x others text =>
      rw [text] at head
      exact absurd rfl head
    next => rw [if_pos digits, value]

theorem octetTexts_eq (address : Nat) :
    octetTexts address = [decimal (address / 16777216 % 256 : Nat), decimal (address / 65536 % 256 : Nat),
      decimal (address / 256 % 256 : Nat), decimal (address % 256 : Nat)] := rfl

theorem fields_quadText (address : Nat) : fields '.' (quadText address) = octetTexts address := by
  have free (n : Nat) : '.' ∉ decimal n := (isToken_decimal (by decide) n).2
  simp only [quadText, octetTexts_eq, joinTokens]
  rw [fields_cons (free _), fields_cons (free _), fields_cons (free _), fields_last (free _)]

theorem inetAddr_quadText (machine : Machine) {address : Nat} (small : address < 2 ^ 32) :
    inetAddr machine (quadText address) = networkOrder machine address := by
  have parts : (octetTexts address).mapM inetPart = some (octets address) := by
    simp only [octetTexts_eq, List.mapM_cons, List.mapM_nil, inetPart_decimal]
    rfl
  have number : inetParts 4 (octets address) = some address := by
    have first : address / 16777216 % 256 < 256 := Nat.mod_lt _ (by decide)
    have second : address / 65536 % 256 < 256 := Nat.mod_lt _ (by decide)
    have third : address / 256 % 256 < 256 := Nat.mod_lt _ (by decide)
    have last : address % 256 < 256 ^ 1 := Nat.mod_lt _ (by decide)
    simp only [octets, inetParts, first, second, third, last, if_true, Option.map_some, Option.some.injEq]
    omega
  rw [inetAddr, fields_quadText, parts, Option.bind_some, number]

theorem length_quadText (address : Nat) : 3 < (quadText address).length ∧ (quadText address).length ≤ 15 := by
  have short (n : Nat) : (decimal (n % 256 : Nat)).length ≤ 3 := length_decimal_octet (Nat.mod_lt _ (by decide))
  have nonempty : 0 < (decimal (address % 256 : Nat)).length := Nat.length_toDigits_pos
  have first := short (address / 16777216)
  have second := short (address / 65536)
  have third := short (address / 256)
  have last := short address
  simp only [quadText, octetTexts_eq, joinTokens, List.length_append, List.length_cons]
  omega

theorem mem_quadText {address : Nat} {c : Char} (member : c ∈ quadText address) : c.isDigit = true ∨ c = '.' := by
  obtain rfl | ⟨token, inside, here⟩ := mem_joinTokens member
  · exact .inr rfl
  · obtain ⟨octet, _, rfl⟩ := List.mem_map.mp inside
    exact .inl (isDigit_of_mem_decimal here)

theorem quadText_free {address : Nat} {separator : Char} (notDigit : separator.isDigit = false)
    (notDot : separator ≠ '.') : separator ∉ quadText address := by
  intro member
  obtain digit | dot := mem_quadText member
  · rw [digit] at notDigit
    cases notDigit
  · exact notDot dot

theorem quadText_ne_nil (address : Nat) : quadText address ≠ [] := by
  intro empty
  have long := (length_quadText address).1
  rw [empty] at long
  cases long

theorem isValidIpString_quadText (address : Nat) : isValidIpString (quadText address) = true := by
  obtain ⟨long, short⟩ := length_quadText address
  have size : ((quadText address).length = 0 || 16 ≤ (quadText address).length) = false := by
    simp only [Bool.or_eq_false_iff, decide_eq_false_iff_not]
    omega
  have four : (octetTexts address).length = 4 := rfl
  simp only [isValidIpString, size, Bool.false_eq_true, if_false, tcAllocate_quadText, four, ne_eq, not_true_eq_false,
    List.all_eq_true, Bool.and_eq_true, decide_eq_true_eq]
  intro token member
  refine ⟨⟨length_octetTexts address token member, ?_⟩, ?_⟩
  · obtain ⟨octet, _, rfl⟩ := List.mem_map.mp member
    exact isDigitString_decimal octet
  · obtain ⟨octet, inside, rfl⟩ := List.mem_map.mp member
    have bound := octets_lt octet inside
    rw [atoi_decimal]
    omega

end Addresses

end CcspCommon.AnscPlatform
