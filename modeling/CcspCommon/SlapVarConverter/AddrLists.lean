import CcspCommon.AnscPlatform.Ip6Grammar
import CcspCommon.Shared.Run
import CcspCommon.SlapVarConverter.UcharArray

set_option autoImplicit false

namespace CcspCommon.SlapVarConverter

open CcspCommon.Shared CcspCommon.AnscPlatform

section Printing

variable {machine : Machine} (limit : Nat)

def dotText (address : machine.Ulong) : Text :=
  joinTokens '.' ((dots machine (address.toNat % 4294967296)).map fun dot => decimal dot.toNat)

def ip4Pieces : List machine.Ulong → List Text
  | [] => []
  | [last] => [dotText last]
  | address :: rest => (dotText address ++ [',']) :: ip4Pieces rest

def ip4AddrListToString (ip4_addr_list : List machine.Ulong) : Except Failure Text :=
  if ip4_addr_list.length = 0 then .ok []
  else printPieces limit (32 * ip4_addr_list.length + 1) (ip4Pieces ip4_addr_list) []

def separatorPieces (size i : Nat) : List Text := if i % size = 0 ∧ i ≠ 0 then [[',', ' ']] else []

-- `strcat_s` clears a string that has no room; its result is not looked at.
def strcat (room : Nat) (var_string text : Text) : Text :=
  if limit < room then var_string
  else if room ≤ var_string.length + text.length then []
  else var_string ++ text

-- The loop on `i`, over what is left of the array. Every byte is taken for the first one of an address.
def printIp6s (room : Nat) : Nat → UcharArray → Text → Except Failure Text
  | _, [], var_string => .ok var_string
  | i, value :: rest, var_string =>
    match printPieces limit room (separatorPieces 16 i) var_string with
    | .error failure => .error failure
    | .ok var_string =>
      if (value :: rest).length < 16 then .error .outside
      else printIp6s room (i + 1) rest
        (strcat limit room var_string (ip6AddressToString (some ((value :: rest).take 16))))

def ip6AddrListToString (ip6_addr_list : UcharArray) : Except Failure Text :=
  if ip6_addr_list.length = 0 then .ok [] else printIp6s limit (ip6_addr_list.length * 4 + 1) 0 ip6_addr_list []

def macPieces : Nat → UcharArray → List Text
  | _, [] => []
  | i, value :: rest => separatorPieces 6 i ++ hexByte value :: macPieces (i + 1) rest

def macAddrListToString (mac_addr_list : UcharArray) : Except Failure Text :=
  if mac_addr_list.length = 0 then .ok []
  else printPieces limit (mac_addr_list.length * 24 / 6 + 1) (macPieces 0 mac_addr_list) []

end Printing

section Reading

variable (machine : Machine)

def addrSeparators : Text := [',', ';']

-- The array is allocated for the tokens that the chain counts, in a `USHORT`; all tokens are stored.
def readTokens {A : Type} (read : Text → Except Failure (List A)) (addr_list : Text) : Except Failure (List A) :=
  match tcAllocateAny addrSeparators addr_list with
  | none => .error .null
  | some tokens =>
    if tokens.length % 65536 < tokens.length then .error .outside else (tokens.mapM read).map List.flatten

def stringToIp4AddrList (ip4_addr_list : Text) : Except Failure (List machine.Ulong) :=
  readTokens (fun token => .ok [BitVec.ofNat _ (inetAddr machine token)]) ip4_addr_list

-- The bytes stay zero when the token is rejected.
def stringToIp6AddrList (ip6_addr_list : Text) : Except Failure UcharArray :=
  readTokens (fun token =>
    match parseIp6Address machine token with
    | .ok bytes => .ok bytes
    | .error .rejected => .ok (List.replicate 16 0)
    | .error .outside => .error .outside) ip6_addr_list

def macBytes (token : Text) : List UInt8 :=
  (List.range 6).map fun i => UInt8.ofNat (getStringUlongHex machine ((token.drop (i * 3)).take 2)).toNat

def stringToMacAddrList (mac_addr_list : Text) : Except Failure UcharArray :=
  readTokens (fun token => .ok (macBytes machine token)) mac_addr_list

end Reading

section Tokens

theorem readTokens_joinTokens {A : Type} (read : Text → List A) {list : List Text}
    (proper : ∀ piece ∈ list, piece ≠ [] ∧ ∀ c ∈ piece, c ∉ addrSeparators)
    (short : ∀ piece ∈ list, piece.length < uriPathSize) :
    readTokens (fun token => .ok (read token)) (joinTokens ',' list) =
      if list.length < 65536 then .ok (list.flatMap read) else .error .outside := by
  have all : list.mapM (fun token => (.ok (read token) : Except Failure (List A))) = .ok (list.map read) := by
    induction list with
    | nil => rfl
    | cons token rest ih =>
      have later := ih (fun piece member => proper piece (List.mem_cons_of_mem token member))
        fun piece member => short piece (List.mem_cons_of_mem token member)
      rw [List.mapM_cons, later]
      rfl
  have chain : tcAllocateAny addrSeparators (joinTokens ',' list) = some list :=
    tcAllocateAny_joinTokens (by decide) proper short
  rw [readTokens, chain]
  dsimp only
  by_cases few : list.length < 65536
  next =>
    rw [if_neg (by omega), if_pos few, all]
    rfl
  next => rw [if_pos (by omega), if_neg few]

theorem printed_iff {A : Type} {count limit room : Nat} {pieces : List Text} (none : count = 0 → pieces = [])
    (some : count ≠ 0 → pieces ≠ []) (fits : pieces.flatten.length < room) (read : Text → Except Failure A)
    (value : A) :
    ((if count = 0 then .ok [] else printPieces limit room pieces []) >>= read) = .ok value ↔
      (count = 0 ∨ room ≤ limit) ∧ read pieces.flatten = .ok value := by
  by_cases zero : count = 0
  next =>
    rw [if_pos zero, none zero, and_iff_right (.inl zero)]
    rfl
  next =>
    rw [if_neg zero, or_iff_right zero]
    by_cases taken : room ≤ limit
    next =>
      rw [printPieces_ok taken (by rwa [List.length_nil, Nat.zero_add]), List.nil_append, and_iff_right taken]
      rfl
    next =>
      rw [printPieces_null (by omega) (some zero)]
      apply iff_of_false
      next => exact fun impossible => by cases impossible
      next => exact fun both => taken both.1

theorem few_iff {A : Type} {count : Nat} {read value : A} :
    ((if count < 65536 then .ok read else .error .outside : Except Failure A) = .ok value) ↔
      count < 65536 ∧ read = value := by
  split
  next few => rw [Except.ok.injEq, and_iff_right few]
  next many => exact iff_of_false (fun impossible => by cases impossible) fun both => many both.1

end Tokens

section Ip4

theorem networkOrder_lt (machine : Machine) {address : Nat} (small : address < 2 ^ 32) :
    networkOrder machine address < 2 ^ 32 := by
  rw [networkOrder]
  split
  next =>
    rw [byteSwap]
    omega
  next => exact small

theorem networkOrder_twice (machine : Machine) {address : Nat} (small : address < 2 ^ 32) :
    networkOrder machine (networkOrder machine address) = address := by
  rw [networkOrder, networkOrder]
  split
  next =>
    apply octets_injective
    next =>
      rw [byteSwap]
      omega
    next => exact small
    next => rw [octets_byteSwap, octets_byteSwap, List.reverse_reverse]
  next => rfl

variable {machine : Machine}

theorem dotText_eq {address : machine.Ulong} (small : address.toNat < 2 ^ 32) :
    dotText address = quadText (networkOrder machine address.toNat) := by
  have own := dots_networkOrder machine (networkOrder machine address.toNat)
  rw [networkOrder_twice machine small] at own
  have texts : ((octets (networkOrder machine address.toNat)).map UInt8.ofNat).map (fun dot => decimal dot.toNat) =
      octetTexts (networkOrder machine address.toNat) := by
    rw [List.map_map, octetTexts]
    apply List.map_congr_left
    intro octet member
    have value := UInt8.toNat_ofNat_of_lt' (octets_lt octet member)
    rw [Function.comp_apply, value]
  have whole : address.toNat % 4294967296 = address.toNat := Nat.mod_eq_of_lt small
  rw [dotText, whole, own, texts, quadText]

theorem inetAddr_dotText {address : machine.Ulong} (small : address.toNat < 2 ^ 32) :
    BitVec.ofNat _ (inetAddr machine (dotText address)) = address := by
  rw [dotText_eq small, inetAddr_quadText machine (networkOrder_lt machine small), networkOrder_twice machine small,
    BitVec.ofNat_toNat, BitVec.setWidth_eq]

theorem flatten_ip4Pieces (ip4_addr_list : List machine.Ulong) :
    (ip4Pieces ip4_addr_list).flatten = joinTokens ',' (ip4_addr_list.map dotText) := by
  induction ip4_addr_list with
  | nil => rfl
  | cons address rest ih =>
    cases rest with
    | nil => simp [ip4Pieces, joinTokens]
    | cons next more =>
      have step : ip4Pieces (address :: next :: more) = (dotText address ++ [',']) :: ip4Pieces (next :: more) := rfl
      rw [step, List.flatten_cons, ih, List.append_assoc]
      rfl

theorem ip4_proper {ip4_addr_list : List machine.Ulong}
    (addresses : ∀ address ∈ ip4_addr_list, address.toNat < 2 ^ 32) :
    ∀ text ∈ ip4_addr_list.map dotText, text ≠ [] ∧ (∀ c ∈ text, c ∉ addrSeparators) ∧ text.length < 16 := by
  intro text member
  obtain ⟨address, inside, same⟩ := List.mem_map.mp member
  have size := (length_quadText (networkOrder machine address.toNat)).2
  rw [← same, dotText_eq (addresses address inside)]
  refine ⟨quadText_ne_nil _, fun c here => ?_, by omega⟩
  cases mem_quadText here with
  | inl digit =>
    intro separator
    simp only [addrSeparators, List.mem_cons, List.not_mem_nil, or_false] at separator
    cases separator with
    | inl comma => rw [comma] at digit; cases digit
    | inr semicolon => rw [semicolon] at digit; cases digit
  | inr dot =>
    rw [dot]
    decide

theorem stringToIp4AddrList_eq {ip4_addr_list : List machine.Ulong}
    (addresses : ∀ address ∈ ip4_addr_list, address.toNat < 2 ^ 32) :
    stringToIp4AddrList machine (joinTokens ',' (ip4_addr_list.map dotText)) =
      if ip4_addr_list.length < 65536 then .ok ip4_addr_list else .error .outside := by
  have proper := ip4_proper addresses
  have fits : 16 ≤ uriPathSize := by decide
  have each : (ip4_addr_list.map dotText).flatMap (fun token => [BitVec.ofNat _ (inetAddr machine token)]) =
      ip4_addr_list := by
    rw [← List.map_eq_flatMap, List.map_map]
    calc ip4_addr_list.map _ = ip4_addr_list.map id :=
          List.map_congr_left fun address member => inetAddr_dotText (addresses address member)
      _ = ip4_addr_list := List.map_id _
  rw [stringToIp4AddrList, readTokens_joinTokens, List.length_map, each]
  next => exact fun text member => ⟨(proper text member).1, (proper text member).2.1⟩
  next => exact fun text member => Nat.lt_of_lt_of_le (proper text member).2.2 fits

theorem ip4_round_trips (limit : Nat) {ip4_addr_list : List machine.Ulong}
    (addresses : ∀ address ∈ ip4_addr_list, address.toNat < 2 ^ 32) :
    ip4AddrListToString limit ip4_addr_list >>= stringToIp4AddrList machine = .ok ip4_addr_list ↔
      ip4_addr_list.length < 65536 ∧ (ip4_addr_list = [] ∨ 32 * ip4_addr_list.length + 1 ≤ limit) := by
  have proper := ip4_proper addresses
  have size := length_joinTokens_le ',' fun text member => (proper text member).2.2
  rw [List.length_map] at size
  rw [ip4AddrListToString, printed_iff, flatten_ip4Pieces, stringToIp4AddrList_eq addresses, few_iff, and_iff_left rfl,
    List.length_eq_zero_iff, and_comm]
  next =>
    intro zero
    rw [List.eq_nil_of_length_eq_zero zero]
    rfl
  next =>
    intro some nothing
    cases ip4_addr_list with
    | nil => exact some rfl
    | cons address rest => cases rest <;> cases nothing
  next =>
    rw [flatten_ip4Pieces]
    omega

end Ip4

section Ip6

theorem printIp6s_fails (limit room i : Nat) {array : UcharArray} (nonempty : array ≠ []) (var_string text : Text) :
    printIp6s limit room i array var_string ≠ .ok text := by
  induction array generalizing i var_string with
  | nil => exact absurd rfl nonempty
  | cons value rest ih =>
    intro printed
    rw [printIp6s] at printed
    split at printed
    next => cases printed
    next =>
      split at printed
      next => cases printed
      next enough =>
        have more : rest ≠ [] := by
          intro empty
          rw [empty] at enough
          exact enough (by rw [List.length_singleton]; decide)
        exact ih (i + 1) more _ printed

theorem ip6_lists (machine : Machine) (limit : Nat) (array : UcharArray) :
    ip6AddrListToString limit array >>= stringToIp6AddrList machine = .ok array ↔ array = [] := by
  constructor
  next =>
    intro back
    by_contra nonempty
    have some : ¬ array.length = 0 := fun zero => nonempty (List.eq_nil_of_length_eq_zero zero)
    rw [ip6AddrListToString, if_neg some] at back
    obtain ⟨text, printed, _⟩ := bind_eq_ok back
    exact printIp6s_fails limit _ 0 nonempty [] text printed
  next =>
    intro empty
    rw [empty]
    rfl

end Ip6

section Mac

variable {machine : Machine}

theorem toList_six {A : Type} (six : Vector A 6) :
    six.toList = [six[0], six[1], six[2], six[3], six[4], six[5]] := by
  apply List.ext_getElem
  next => rw [Vector.length_toList]; rfl
  next =>
    intro index inside _
    rw [Vector.length_toList] at inside
    interval_cases index <;> simp

def macText (mac : Vector UInt8 6) : Text := hexText mac.toList

def macTexts : List (Vector UInt8 6) → List Text
  | [] => []
  | first :: rest => macText first :: rest.map fun mac => ' ' :: macText mac

def macArray (macs : List (Vector UInt8 6)) : UcharArray := macs.flatMap Vector.toList

theorem macPieces_mac (mac : Vector UInt8 6) (rest : UcharArray) (count : Nat) :
    (macPieces (6 * count) (mac.toList ++ rest)).flatten =
      (if count = 0 then [] else [',', ' ']) ++ macText mac ++ (macPieces (6 * (count + 1)) rest).flatten := by
  have start : separatorPieces 6 (6 * count) = if count = 0 then [] else [[',', ' ']] := by
    rw [separatorPieces]
    split_ifs <;> first | rfl | omega
  have inner (i : Nat) (positive : 0 < i) (below : i < 6) : separatorPieces 6 (6 * count + i) = [] := by
    rw [separatorPieces, if_neg (by omega)]
  rw [macText, toList_six]
  have next : 6 * (count + 1) = 6 * count + 6 := by omega
  simp only [List.cons_append, List.nil_append, macPieces, start, Nat.add_assoc, Nat.reduceAdd,
    inner 1 (by decide) (by decide), inner 2 (by decide) (by decide), inner 3 (by decide) (by decide),
    inner 4 (by decide) (by decide), inner 5 (by decide) (by decide), hexText, List.map_cons, List.map_nil,
    List.flatten_append, List.flatten_cons, List.flatten_nil, List.append_nil, List.append_assoc, next]
  by_cases zero : count = 0
  next => simp only [zero, if_true, List.flatten_nil, List.nil_append]
  next => simp only [zero, if_false, List.flatten_singleton]

theorem macPieces_later (macs : List (Vector UInt8 6)) {count : Nat} (positive : 0 < count) :
    (macPieces (6 * count) (macArray macs)).flatten = macs.flatMap fun mac => ',' :: ' ' :: macText mac := by
  induction macs generalizing count with
  | nil => rfl
  | cons mac rest ih =>
    have later := ih (Nat.succ_pos count)
    rw [macArray, List.flatMap_cons, macPieces_mac, if_neg (by omega), List.flatMap_cons]
    change _ ++ (macPieces (6 * (count + 1)) (macArray rest)).flatten = _
    rw [later]
    rfl

theorem joinTokens_flatMap (first : Text) (rest : List Text) :
    joinTokens ',' (first :: rest) = first ++ rest.flatMap fun text => ',' :: text := by
  induction rest generalizing first with
  | nil => rw [joinTokens, List.flatMap_nil, List.append_nil]
  | cons next more ih => rw [joinTokens, ih, List.flatMap_cons, List.cons_append]

theorem flatten_macPieces (macs : List (Vector UInt8 6)) :
    (macPieces 0 (macArray macs)).flatten = joinTokens ',' (macTexts macs) := by
  cases macs with
  | nil => rfl
  | cons first rest =>
    have start := macPieces_mac first (macArray rest) 0
    have later := macPieces_later rest Nat.one_pos
    rw [macTexts, joinTokens_flatMap, List.flatMap_map, ← later]
    exact start

theorem mem_macText {mac : Vector UInt8 6} {c : Char} (member : c ∈ macText mac) : isHexAlphaOrDigit c = true := by
  obtain ⟨text, inside, here⟩ := List.mem_flatten.mp member
  obtain ⟨value, _, same⟩ := List.mem_map.mp inside
  rw [← same] at here
  exact allHex_hexByte value c here

theorem length_macText (mac : Vector UInt8 6) : (macText mac).length = 12 := by
  rw [macText, length_hexText, Vector.length_toList]

theorem macTexts_proper (macs : List (Vector UInt8 6)) :
    ∀ text ∈ macTexts macs, text ≠ [] ∧ (∀ c ∈ text, c ∉ addrSeparators) ∧ text.length < 14 := by
  have free {mac : Vector UInt8 6} : ∀ c ∈ macText mac, c ∉ addrSeparators := by
    intro c member separator
    have hex := mem_macText member
    have none : ∀ c ∈ addrSeparators, isHexAlphaOrDigit c = false := by
      rw [addrSeparators, List.forall_mem_cons, List.forall_mem_singleton]
      constructor <;> decide
    rw [none c separator] at hex
    cases hex
  cases macs with
  | nil => exact fun text member => absurd member List.not_mem_nil
  | cons first rest =>
    rw [macTexts, List.forall_mem_cons]
    constructor
    next =>
      have size := length_macText first
      refine ⟨fun empty => ?_, free, by omega⟩
      rw [empty] at size
      cases size
    next =>
      intro text member
      obtain ⟨mac, _, same⟩ := List.mem_map.mp member
      have size := length_macText mac
      rw [← same, List.forall_mem_cons, List.length_cons]
      exact ⟨List.cons_ne_nil _ _, ⟨by decide, free⟩, by omega⟩

theorem castByte (machine : Machine) {value : Nat} (small : value < 256) (byte : UInt8) :
    UInt8.ofNat (BitVec.ofNat machine.ulongSize.bits value).toNat = byte ↔ value = byte.toNat := by
  have room : 2 ^ 32 ≤ 2 ^ machine.ulongSize.bits := Nat.pow_le_pow_right (by decide) machine.ulongSize.bits_ge
  rw [BitVec.toNat_ofNat, Nat.mod_eq_of_lt (by omega)]
  constructor
  next =>
    intro same
    rw [← same, UInt8.toNat_ofNat_of_lt' small]
  next =>
    intro same
    rw [same, UInt8.ofNat_toNat]

theorem readDigits (machine : Machine) {high low : Nat} (first : high < 16) (second : low < 16) (byte : UInt8) :
    UInt8.ofNat (getStringUlongHex machine [hexChar high, hexChar low]).toNat = byte ↔
      high * 16 + low = byte.toNat := by
  rw [getStringUlongHex_two, hexValue_hexChar _ second, hexValue_hexChar _ first, Nat.add_comm]
  exact castByte machine (by omega) byte

theorem readSpace (machine : Machine) {low : Nat} (second : low < 16) (byte : UInt8) :
    UInt8.ofNat (getStringUlongHex machine [' ', hexChar low]).toNat = byte ↔ low * 16 + low = byte.toNat := by
  have space : hexValue low ' ' = low := if_neg (by decide)
  rw [getStringUlongHex_two, hexValue_hexChar _ second, space, Nat.add_comm]
  exact castByte machine (by omega) byte

theorem readDigit (machine : Machine) {low : Nat} (second : low < 16) (byte : UInt8) :
    UInt8.ofNat (getStringUlongHex machine [hexChar low]).toNat = byte ↔ low = byte.toNat := by
  rw [getStringUlongHex_one, hexValue_hexChar _ second]
  exact castByte machine (by omega) byte

theorem readNothing (machine : Machine) (byte : UInt8) :
    UInt8.ofNat (getStringUlongHex machine []).toNat = byte ↔ 0 = byte.toNat := by
  rw [getStringUlongHex_nil]
  exact castByte machine (by decide) byte

def KeptFirst (mac : Vector UInt8 6) : Prop :=
  mac[1] = 0 ∧ mac[2] = 0 ∧ mac[3] = 0 ∧ mac[4] = 0 ∧ mac[5] = 0

def KeptLater (mac : Vector UInt8 6) : Prop :=
  mac[0].toNat / 16 = mac[0].toNat % 16 ∧ mac[2] = 0 ∧ mac[3] = 0 ∧ mac[4] = 0 ∧ mac[5] = 0

theorem byte_zero (byte : UInt8) : byte = 0 ↔ byte.toNat = 0 := UInt8.toNat_inj.symm

theorem macText_eq (mac : Vector UInt8 6) : macText mac =
    [hexChar (mac[0].toNat / 16), hexChar (mac[0].toNat % 16), hexChar (mac[1].toNat / 16),
      hexChar (mac[1].toNat % 16), hexChar (mac[2].toNat / 16), hexChar (mac[2].toNat % 16),
      hexChar (mac[3].toNat / 16), hexChar (mac[3].toNat % 16), hexChar (mac[4].toNat / 16),
      hexChar (mac[4].toNat % 16), hexChar (mac[5].toNat / 16), hexChar (mac[5].toNat % 16)] := by
  rw [macText, toList_six]
  rfl

theorem macBytes_eq (machine : Machine) (token : Text) :
    macBytes machine token = [UInt8.ofNat (getStringUlongHex machine (token.take 2)).toNat,
      UInt8.ofNat (getStringUlongHex machine ((token.drop 3).take 2)).toNat,
      UInt8.ofNat (getStringUlongHex machine ((token.drop 6).take 2)).toNat,
      UInt8.ofNat (getStringUlongHex machine ((token.drop 9).take 2)).toNat,
      UInt8.ofNat (getStringUlongHex machine ((token.drop 12).take 2)).toNat,
      UInt8.ofNat (getStringUlongHex machine ((token.drop 15).take 2)).toNat] := rfl

theorem high_lt (byte : UInt8) : byte.toNat / 16 < 16 := by
  have small := byte.toNat_lt
  omega

theorem low_lt (byte : UInt8) : byte.toNat % 16 < 16 := Nat.mod_lt _ (by decide)

theorem macBytes_first (machine : Machine) (mac : Vector UInt8 6) :
    macBytes machine (macText mac) = mac.toList ↔ KeptFirst mac := by
  have one := readDigits machine (high_lt mac[0]) (low_lt mac[0]) mac[0]
  have two := readDigits machine (low_lt mac[1]) (high_lt mac[2]) mac[1]
  have three := readDigits machine (high_lt mac[3]) (low_lt mac[3]) mac[2]
  have four := readDigits machine (low_lt mac[4]) (high_lt mac[5]) mac[3]
  rw [macBytes_eq, macText_eq, toList_six, KeptFirst]
  simp only [List.drop_succ_cons, List.drop_zero, List.drop_nil, List.take_succ_cons, List.take_zero, List.take_nil,
    List.cons.injEq, and_true, one, two, three, four, readNothing, byte_zero]
  omega

theorem macBytes_later (machine : Machine) (mac : Vector UInt8 6) :
    macBytes machine (' ' :: macText mac) = mac.toList ↔ KeptLater mac := by
  have one := readSpace machine (high_lt mac[0]) mac[0]
  have two := readDigits machine (high_lt mac[1]) (low_lt mac[1]) mac[1]
  have three := readDigits machine (low_lt mac[2]) (high_lt mac[3]) mac[2]
  have four := readDigits machine (high_lt mac[4]) (low_lt mac[4]) mac[3]
  have five := readDigit machine (low_lt mac[5]) mac[4]
  rw [macBytes_eq, macText_eq, toList_six, KeptLater]
  simp only [List.drop_succ_cons, List.drop_zero, List.drop_nil, List.take_succ_cons, List.take_zero, List.take_nil,
    List.cons.injEq, and_true, one, two, three, four, five, readNothing, byte_zero]
  omega

def KeptMacs : List (Vector UInt8 6) → Prop
  | [] => True
  | first :: rest => KeptFirst first ∧ ∀ mac ∈ rest, KeptLater mac

theorem flatMap_blocks {A B : Type} {list : List A} {f g : A → List B}
    (sizes : ∀ a ∈ list, (f a).length = (g a).length) :
    list.flatMap f = list.flatMap g ↔ ∀ a ∈ list, f a = g a := by
  induction list with
  | nil => exact iff_of_true rfl fun a member => absurd member List.not_mem_nil
  | cons first rest ih =>
    rw [List.forall_mem_cons] at sizes
    rw [List.flatMap_cons, List.flatMap_cons, List.forall_mem_cons, ← ih sizes.2]
    exact List.append_eq_append_iff_of_size_eq_left sizes.1

theorem length_macBytes (machine : Machine) (token : Text) : (macBytes machine token).length = 6 := by
  rw [macBytes, List.length_map, List.length_range]

theorem macBytes_all (machine : Machine) (macs : List (Vector UInt8 6)) :
    (macTexts macs).flatMap (macBytes machine) = macArray macs ↔ KeptMacs macs := by
  cases macs with
  | nil => exact iff_of_true rfl trivial
  | cons first rest =>
    have size (token : Text) (mac : Vector UInt8 6) : (macBytes machine token).length = mac.toList.length := by
      rw [length_macBytes, Vector.length_toList]
    have blocks : rest.flatMap (fun mac => macBytes machine (' ' :: macText mac)) = rest.flatMap Vector.toList ↔ _ :=
      flatMap_blocks fun mac _ => size (' ' :: macText mac) mac
    rw [macTexts, List.flatMap_cons, List.flatMap_map, macArray, List.flatMap_cons, KeptMacs, ← macBytes_first machine,
      List.append_eq_append_iff_of_size_eq_left (size _ first), blocks]
    simp only [macBytes_later]

theorem length_macTexts (macs : List (Vector UInt8 6)) : (macTexts macs).length = macs.length := by
  cases macs with
  | nil => rfl
  | cons first rest => rw [macTexts, List.length_cons, List.length_map, List.length_cons]

theorem length_macArray (macs : List (Vector UInt8 6)) : (macArray macs).length = 6 * macs.length := by
  induction macs with
  | nil => rfl
  | cons mac rest ih =>
    rw [macArray, List.flatMap_cons, List.length_append, Vector.length_toList]
    change 6 + (macArray rest).length = 6 * (rest.length + 1)
    omega

theorem mac_lists (machine : Machine) (limit : Nat) (macs : List (Vector UInt8 6)) :
    macAddrListToString limit (macArray macs) >>= stringToMacAddrList machine = .ok (macArray macs) ↔
      macs.length < 65536 ∧ (macs = [] ∨ 24 * macs.length + 1 ≤ limit) ∧ KeptMacs macs := by
  have size := length_macArray macs
  have proper := macTexts_proper macs
  have fits : 14 ≤ uriPathSize := by decide
  have length := length_joinTokens_le ',' fun text member => (proper text member).2.2
  rw [length_macTexts] at length
  have read : stringToMacAddrList machine (joinTokens ',' (macTexts macs)) =
      if macs.length < 65536 then .ok ((macTexts macs).flatMap (macBytes machine)) else .error .outside := by
    rw [stringToMacAddrList, readTokens_joinTokens, length_macTexts]
    next => exact fun text member => ⟨(proper text member).1, (proper text member).2.1⟩
    next => exact fun text member => Nat.lt_of_lt_of_le (proper text member).2.2 fits
  have none : (macArray macs).length = 0 ↔ macs = [] := by
    rw [size, ← List.length_eq_zero_iff]
    omega
  have room : (macArray macs).length * 24 / 6 + 1 = 24 * macs.length + 1 := by omega
  rw [macAddrListToString, printed_iff, flatten_macPieces, read, few_iff, macBytes_all, none, room, and_left_comm]
  next =>
    intro zero
    rw [none.mp zero]
    rfl
  next =>
    intro some nothing
    cases array : macArray macs with
    | nil =>
      rw [array] at some
      exact some rfl
    | cons value rest =>
      rw [array, macPieces] at nothing
      simp at nothing
  next =>
    rw [flatten_macPieces]
    omega

end Mac

section Lists

def ip4Array (machine : Machine) (addresses : List (BitVec 32)) : List machine.Ulong :=
  addresses.map (BitVec.setWidth _)

def ip6Array (addresses : List (Vector UInt8 16)) : UcharArray := addresses.flatMap Vector.toList

variable (machine : Machine) (limit : Nat)

def Ip4ListRoundTrips (addresses : List (BitVec 32)) : Prop :=
  ip4AddrListToString limit (ip4Array machine addresses) >>= stringToIp4AddrList machine =
    .ok (ip4Array machine addresses)

def Ip6ListRoundTrips (addresses : List (Vector UInt8 16)) : Prop :=
  ip6AddrListToString limit (ip6Array addresses) >>= stringToIp6AddrList machine = .ok (ip6Array addresses)

def MacListRoundTrips (addresses : List (Vector UInt8 6)) : Prop :=
  macAddrListToString limit (macArray addresses) >>= stringToMacAddrList machine = .ok (macArray addresses)

theorem address_lists :
    (∀ addresses, Ip4ListRoundTrips machine limit addresses ↔
      addresses.length < 65536 ∧ (addresses = [] ∨ 32 * addresses.length + 1 ≤ limit)) ∧
    (∀ addresses, Ip6ListRoundTrips machine limit addresses ↔ addresses = []) ∧
    ∀ addresses, MacListRoundTrips machine limit addresses ↔
      addresses.length < 65536 ∧ (addresses = [] ∨ 24 * addresses.length + 1 ≤ limit) ∧ KeptMacs addresses := by
  constructor
  next =>
    intro addresses
    have small : ∀ address ∈ ip4Array machine addresses, address.toNat < 2 ^ 32 := by
      intro address member
      obtain ⟨value, _, same⟩ := List.mem_map.mp member
      have wide := machine.ulongSize.bits_ge
      rw [← same, BitVec.toNat_setWidth_of_le wide]
      exact value.isLt
    have empty : ip4Array machine addresses = [] ↔ addresses = [] := List.map_eq_nil_iff
    have trips := ip4_round_trips limit small
    rw [empty] at trips
    rw [Ip4ListRoundTrips, trips, ip4Array, List.length_map]
  next =>
    constructor
    next =>
      intro addresses
      rw [Ip6ListRoundTrips, ip6_lists]
      cases addresses with
      | nil => exact iff_of_true rfl rfl
      | cons first rest =>
        apply iff_of_false
        next =>
          intro nothing
          have size := congrArg List.length nothing
          rw [ip6Array, List.flatMap_cons, List.length_append, Vector.length_toList, List.length_nil] at size
          omega
        next => exact List.cons_ne_nil first rest
    next => exact mac_lists machine limit

theorem addresses_lost : ¬ Ip6ListRoundTrips ⟨.eight, true, true⟩ 4096 [Vector.replicate 16 0] ∧
    ¬ MacListRoundTrips ⟨.eight, true, true⟩ 4096 [#v[1, 2, 3, 4, 5, 6]] := by
  constructor
  next =>
    intro back
    have lost : ip6AddrListToString 4096 (ip6Array [Vector.replicate 16 0]) = .error .outside := by decide +kernel
    rw [Ip6ListRoundTrips, lost] at back
    cases back
  next =>
    intro back
    have printed : macAddrListToString 4096 (macArray [#v[1, 2, 3, 4, 5, 6]]) = .ok "010203040506".toList := by
      decide +kernel
    have read : stringToMacAddrList ⟨.eight, true, true⟩ "010203040506".toList = .ok [1, 32, 4, 80, 0, 0] := by
      decide +kernel
    rw [MacListRoundTrips, printed] at back
    change stringToMacAddrList ⟨.eight, true, true⟩ "010203040506".toList = _ at back
    rw [read] at back
    exact absurd back (by decide +kernel)

end Lists

end CcspCommon.SlapVarConverter
