import CcspCommon.AnscPlatform.HexString
import CcspCommon.AnscPlatform.IpString

set_option autoImplicit false

namespace CcspCommon.AnscPlatform

open CcspCommon.Shared

section Parser

inductive Ip6Error
  | rejected | outside
deriving DecidableEq, Repr

structure Ip6Scan where
  stored : List UInt8
  colonp : Option Nat
  sawXdigit : Bool
  val : Nat
  curtok : Text

def groupBytes (val : Nat) : List UInt8 := [UInt8.ofNat (val / 256), UInt8.ofNat val]

def dots (machine : Machine) (value : Nat) : List UInt8 :=
  let bytes := (octets value).map UInt8.ofNat
  if machine.littleEndian then bytes.reverse else bytes

variable (machine : Machine) (terminated : Bool)

-- The loop on `ch`, over a text that may lack its NUL.
def ip6Loop : Text → Ip6Scan → Except Ip6Error Ip6Scan
  | [], scan => if terminated then .ok scan else .error .outside
  | ch :: src, scan =>
    -- `tolower(ch)` is in `xdigits`
    if isHexAlphaOrDigit ch then
      let val := scan.val * 16 + hexDigit ch
      if val > 0xFFFF then .error .rejected else ip6Loop src { scan with val := val, sawXdigit := true }
    else if ch = ':' then
      let scan := { scan with curtok := src }
      if !scan.sawXdigit then
        if scan.colonp.isSome then .error .rejected
        else ip6Loop src { scan with colonp := some scan.stored.length }
      else if src = [] then .error (if terminated then .rejected else .outside)
      else if scan.stored.length + 2 > 16 then .error .rejected
      else ip6Loop src { scan with stored := scan.stored ++ groupBytes scan.val, sawXdigit := false, val := 0 }
    else if ch = '.' ∧ scan.stored.length + 4 ≤ 16 then
      -- the length of `curtok` is taken
      if !terminated then .error .outside
      else if isValidIpString scan.curtok then
        .ok { scan with stored := scan.stored ++ dots machine (inetAddr machine scan.curtok), sawXdigit := false }
      else .error .rejected
    else .error .rejected

def shiftLoop (colonp n : Nat) : Nat → List UInt8 → List UInt8
  | 0, tmp => tmp
  | i + 1, tmp =>
    let tmp := shiftLoop colonp n i tmp
    (tmp.set (16 - (i + 1)) (tmp.getD (colonp + (n - (i + 1))) 0)).set (colonp + (n - (i + 1))) 0

def ip6Place (stored : List UInt8) (colonp : Option Nat) : Except Ip6Error (List UInt8) :=
  match colonp with
  | some colonp =>
    if stored.length = 16 then .error .rejected
    else
      let n := stored.length - colonp
      .ok (shiftLoop colonp n n (stored ++ List.replicate (16 - stored.length) 0))
  | none => if stored.length ≠ 16 then .error .rejected else .ok stored

def ip6Finish (scan : Ip6Scan) : Except Ip6Error (List UInt8) :=
  if scan.sawXdigit then
    if scan.stored.length + 2 > 16 then .error .rejected
    else ip6Place (scan.stored ++ groupBytes scan.val) scan.colonp
  else ip6Place scan.stored scan.colonp

def ip6Scan (src : Text) : Except Ip6Error (List UInt8) :=
  ip6Loop machine terminated src ⟨[], none, false, 0, src⟩ >>= ip6Finish

def parseIp6Address (ip6_addr : Text) : Except Ip6Error (List UInt8) :=
  if ip6_addr = [':', ':'] then .ok (List.replicate 16 0)
  else if ip6_addr.head? = some ':' ∧ ip6_addr.tail.head? ≠ some ':' then .error .rejected
  else if strstr [':', ':'] ip6_addr = some ip6_addr then
    -- `memcpy_s` takes 127 characters, and leaves no NUL behind that many
    if ip6_addr.length > 127 then .error .rejected
    else ip6Scan machine (ip6_addr.length < 127) ('0' :: ip6_addr)
  else ip6Scan machine true ip6_addr

end Parser

section Printer

def groupText (high low : UInt8) : Text :=
  if high = 0 ∧ low = 0 then ['0'] else if high = 0 then hexByte low else hexByte high ++ hexByte low

def printGroups : Bool → List UInt8 → Text
  | first, high :: low :: rest => (if first then [] else [':']) ++ groupText high low ++ printGroups false rest
  | _, _ => []

def ip6AddressToString : Option (List UInt8) → Text
  | none => [':', ':']
  | some ipAddrArray => if ipAddrArray.all (· = 0) then [':', ':'] else printGroups true ipAddrArray

end Printer

section Fields

def hexFold (val : Nat) (digits : Text) : Nat := digits.foldl (fun val ch => val * 16 + hexDigit ch) val

def AllHex (text : Text) : Prop := ∀ c ∈ text, isHexAlphaOrDigit c = true

instance (text : Text) : Decidable (AllHex text) :=
  decidable_of_iff (text.all isHexAlphaOrDigit = true) List.all_eq_true

structure IsGroup (group : Text) : Prop where
  nonempty : group ≠ []
  hex : AllHex group
  small : hexFold 0 group ≤ 0xFFFF

theorem le_hexFold (val : Nat) (digits : Text) : val ≤ hexFold val digits := by
  induction digits generalizing val with
  | nil => exact Nat.le_refl val
  | cons ch rest ih =>
    have later := ih (val * 16 + hexDigit ch)
    change val ≤ hexFold (val * 16 + hexDigit ch) rest
    omega

variable {machine : Machine} {terminated : Bool}

theorem ip6Loop_digits {digits : Text} (hex : AllHex digits) (nonempty : digits ≠ []) (src : Text) {scan : Ip6Scan}
    (small : hexFold scan.val digits ≤ 0xFFFF) :
    ip6Loop machine terminated (digits ++ src) scan =
      ip6Loop machine terminated src { scan with val := hexFold scan.val digits, sawXdigit := true } := by
  induction digits generalizing scan with
  | nil => exact absurd rfl nonempty
  | cons ch rest ih =>
    have first := hex ch List.mem_cons_self
    have more : AllHex rest := fun c member => hex c (List.mem_cons_of_mem ch member)
    have bound := le_hexFold (scan.val * 16 + hexDigit ch) rest
    change hexFold (scan.val * 16 + hexDigit ch) rest ≤ 0xFFFF at small
    rw [List.cons_append, ip6Loop, if_pos first]
    dsimp only
    rw [if_neg (by omega)]
    by_cases last : rest = []
    next => rw [last]; rfl
    next => exact ih more last small

theorem ip6Loop_large {digits : Text} (hex : AllHex digits) (src : Text) {scan : Ip6Scan} (start : scan.val ≤ 0xFFFF)
    (large : 0xFFFF < hexFold scan.val digits) :
    ip6Loop machine terminated (digits ++ src) scan = .error .rejected := by
  induction digits generalizing scan with
  | nil =>
    change 0xFFFF < scan.val at large
    omega
  | cons ch rest ih =>
    have first := hex ch List.mem_cons_self
    have more : AllHex rest := fun c member => hex c (List.mem_cons_of_mem ch member)
    rw [List.cons_append, ip6Loop, if_pos first]
    dsimp only
    split
    next => rfl
    next small => exact ih more (Nat.le_of_not_gt small) large

def IsDotted (field : Text) : Prop :=
  (field.dropWhile isHexAlphaOrDigit).head? = some '.' ∧ hexFold 0 (field.takeWhile isHexAlphaOrDigit) ≤ 0xFFFF

instance (field : Text) : Decidable (IsDotted field) := inferInstanceAs (Decidable (_ ∧ _))

variable (machine terminated)

def readTail (field curtok : Text) (stored : List UInt8) (colonp : Option Nat) :
    Except Ip6Error (List UInt8 × Option Nat) :=
  if IsDotted field ∧ stored.length + 4 ≤ 16 then
    if !terminated then .error .outside
    else if isValidIpString curtok then .ok (stored ++ dots machine (inetAddr machine curtok), colonp)
    else .error .rejected
  else .error .rejected

def readFields : List Text → List UInt8 → Option Nat → Except Ip6Error (List UInt8 × Option Nat)
  | [], _, _ => .error .rejected
  | [last], stored, colonp =>
    if AllHex last then
      if hexFold 0 last > 0xFFFF then .error .rejected
      else if !terminated then .error .outside
      else if last = [] then .ok (stored, colonp)
      else if stored.length + 2 > 16 then .error .rejected
      else .ok (stored ++ groupBytes (hexFold 0 last), colonp)
    else readTail machine terminated last last stored colonp
  | field :: next :: rest, stored, colonp =>
    if field = [] then
      if colonp.isSome then .error .rejected else readFields (next :: rest) stored (some stored.length)
    else if AllHex field then
      if hexFold 0 field > 0xFFFF then .error .rejected
      else if next = [] ∧ rest = [] then .error (if terminated then .rejected else .outside)
      else if stored.length + 2 > 16 then .error .rejected
      else readFields (next :: rest) (stored ++ groupBytes (hexFold 0 field)) colonp
    else readTail machine terminated field (joinTokens ':' (field :: next :: rest)) stored colonp

variable {machine terminated}

theorem ip6Loop_tail {field : Text} (mixed : ¬ AllHex field) (free : ':' ∉ field) (src curtok : Text)
    (stored : List UInt8)
    (colonp : Option Nat) :
    ip6Loop machine terminated (field ++ src) ⟨stored, colonp, false, 0, curtok⟩ >>= ip6Finish =
      readTail machine terminated field curtok stored colonp >>= fun result => ip6Place result.1 result.2 := by
  have whole := List.takeWhile_append_dropWhile (p := isHexAlphaOrDigit) (l := field)
  have hex : AllHex (field.takeWhile isHexAlphaOrDigit) := fun c member => List.mem_takeWhile_imp member
  cases behind : field.dropWhile isHexAlphaOrDigit with
  | nil =>
    rw [behind, List.append_nil] at whole
    rw [whole] at hex
    exact absurd hex mixed
  | cons c more =>
    have other : isHexAlphaOrDigit c = false := by
      have stops := List.head?_dropWhile_not isHexAlphaOrDigit field
      rw [behind] at stops
      simpa using stops
    have split : field ++ src = field.takeWhile isHexAlphaOrDigit ++ c :: (more ++ src) := by
      conv_lhs => rw [← whole, behind]
      simp
    have notColon : c ≠ ':' := by
      rintro rfl
      exact free (by rw [← whole, behind]; simp)
    have dotted : IsDotted field ↔ c = '.' ∧ hexFold 0 (field.takeWhile isHexAlphaOrDigit) ≤ 0xFFFF := by
      simp [IsDotted, behind]
    simp only [split, readTail, dotted]
    by_cases small : hexFold 0 (field.takeWhile isHexAlphaOrDigit) ≤ 0xFFFF
    next =>
      have step (scan : Ip6Scan) (held : scan.stored = stored ∧ scan.colonp = colonp ∧ scan.curtok = curtok) :
          ip6Loop machine terminated (c :: (more ++ src)) scan >>= ip6Finish =
            (if (c = '.' ∧ hexFold 0 (field.takeWhile isHexAlphaOrDigit) ≤ 0xFFFF) ∧ stored.length + 4 ≤ 16 then
              if !terminated then .error .outside
              else if isValidIpString curtok then .ok (stored ++ dots machine (inetAddr machine curtok), colonp)
              else .error .rejected
            else .error .rejected) >>= fun result => ip6Place result.1 result.2 := by
        rw [ip6Loop, if_neg (by simp [other]), if_neg notColon, held.1, held.2.1, held.2.2]
        simp only [small, and_true]
        split_ifs <;> rfl
      by_cases empty : field.takeWhile isHexAlphaOrDigit = []
      next =>
        rw [empty, List.nil_append, ← empty]
        exact step _ ⟨rfl, rfl, rfl⟩
      next =>
        rw [ip6Loop_digits hex empty (c :: (more ++ src)) small]
        exact step _ ⟨rfl, rfl, rfl⟩
    next =>
      rw [ip6Loop_large hex _ (Nat.zero_le _) (by simpa using small), if_neg (fun both => small both.1.2)]
      rfl

theorem joinTokens_eq_nil {next : Text} {rest : List Text} :
    joinTokens ':' (next :: rest) = [] ↔ next = [] ∧ rest = [] := by
  cases rest with
  | nil => simp [joinTokens]
  | cons other more => simp [joinTokens]

theorem ip6Loop_fields {list : List Text} (nonempty : list ≠ []) (free : ∀ field ∈ list, ':' ∉ field)
    (stored : List UInt8) (colonp : Option Nat) :
    ip6Loop machine terminated (joinTokens ':' list) ⟨stored, colonp, false, 0, joinTokens ':' list⟩ >>= ip6Finish =
      readFields machine terminated list stored colonp >>= fun result => ip6Place result.1 result.2 := by
  induction list generalizing stored colonp with
  | nil => exact absurd rfl nonempty
  | cons field rest ih =>
    rw [List.forall_mem_cons] at free
    cases rest with
    | nil =>
      rw [joinTokens, readFields]
      by_cases hex : AllHex field
      next =>
        rw [if_pos hex]
        by_cases small : hexFold 0 field ≤ 0xFFFF
        next =>
          rw [if_neg (by omega)]
          by_cases empty : field = []
          next =>
            rw [empty, ip6Loop]
            cases terminated <;> rfl
          next =>
            have read : ip6Loop machine terminated (field ++ []) ⟨stored, colonp, false, 0, field⟩ = _ :=
              ip6Loop_digits hex empty [] small
            rw [List.append_nil] at read
            rw [read, ip6Loop]
            cases terminated with
            | false => rfl
            | true =>
              simp only [if_true, Bool.not_true, Bool.false_eq_true, if_false, empty]
              change ip6Finish ⟨stored, colonp, true, hexFold 0 field, field⟩ = _
              rw [ip6Finish, if_pos rfl]
              dsimp only
              split_ifs <;> rfl
        next =>
          have read : ip6Loop machine terminated (field ++ []) ⟨stored, colonp, false, 0, field⟩ = _ :=
            ip6Loop_large hex [] (Nat.zero_le _) (by simpa using small)
          rw [List.append_nil] at read
          rw [read, if_pos (by omega)]
          rfl
      next =>
        have read : ip6Loop machine terminated (field ++ []) ⟨stored, colonp, false, 0, field⟩ >>= ip6Finish = _ :=
          ip6Loop_tail hex free.1 [] field stored colonp
        rw [List.append_nil] at read
        rw [read, if_neg hex]
    | cons next more =>
      have colon : isHexAlphaOrDigit ':' = false := by decide
      have last : joinTokens ':' (next :: more) = [] ↔ next = [] ∧ more = [] := joinTokens_eq_nil
      have later := ih (List.cons_ne_nil next more) free.2
      rw [readFields]
      by_cases empty : field = []
      next =>
        rw [if_pos empty, empty, joinTokens, List.nil_append, ip6Loop, if_neg (by simp [colon]), if_pos rfl]
        simp only [Bool.not_false, if_true]
        cases colonp with
        | some place => rfl
        | none => exact later stored (some stored.length)
      next =>
        rw [if_neg empty]
        by_cases hex : AllHex field
        next =>
          rw [if_pos hex]
          by_cases small : hexFold 0 field ≤ 0xFFFF
          next =>
            rw [if_neg (by omega), joinTokens, ip6Loop_digits hex empty _ small, ip6Loop, if_neg (by simp [colon]),
              if_pos rfl]
            simp only [Bool.not_true, Bool.false_eq_true, if_false, last]
            split_ifs
            next => rfl
            next => rfl
            next => rfl
            next => exact later (stored ++ groupBytes (hexFold 0 field)) colonp
          next =>
            rw [joinTokens, ip6Loop_large hex _ (Nat.zero_le _) (by simpa using small), if_pos (by omega)]
            rfl
        next =>
          rw [if_neg hex, ← ip6Loop_tail hex free.1 (':' :: joinTokens ':' (next :: more)), joinTokens]

end Fields

section Groups

variable {machine : Machine} {terminated : Bool}

def groupsBytes (groups : List Text) : List UInt8 := groups.flatMap fun group => groupBytes (hexFold 0 group)

theorem groupsBytes_cons (group : Text) (rest : List Text) :
    groupsBytes (group :: rest) = groupBytes (hexFold 0 group) ++ groupsBytes rest := List.flatMap_cons

theorem length_groupsBytes (groups : List Text) : (groupsBytes groups).length = 2 * groups.length := by
  induction groups with
  | nil => rfl
  | cons group rest ih =>
    rw [groupsBytes_cons, List.length_append, ih, List.length_cons]
    change 2 + 2 * rest.length = _
    omega

theorem readFields_groups {groups : List Text} (proper : ∀ group ∈ groups, IsGroup group) {next : Text}
    {rest : List Text}
    (goes : ¬ (next = [] ∧ rest = [])) {stored : List UInt8} (room : stored.length + 2 * groups.length ≤ 16)
    (colonp : Option Nat) :
    readFields machine terminated (groups ++ next :: rest) stored colonp =
      readFields machine terminated (next :: rest) (stored ++ groupsBytes groups) colonp := by
  induction groups generalizing stored with
  | nil => rw [List.nil_append, groupsBytes, List.flatMap_nil, List.append_nil]
  | cons group others ih =>
    rw [List.forall_mem_cons] at proper
    rw [List.length_cons] at room
    have two : (groupBytes (hexFold 0 group)).length = 2 := rfl
    have more : (stored ++ groupBytes (hexFold 0 group)).length + 2 * others.length ≤ 16 := by
      rw [List.length_append]
      omega
    have later := ih proper.2 more
    have small := proper.1.small
    rw [groupsBytes_cons, ← List.append_assoc, ← later, List.cons_append]
    cases others with
    | nil =>
      rw [List.nil_append, readFields, if_neg proper.1.nonempty, if_pos proper.1.hex, if_neg (by omega), if_neg goes,
        if_neg (by omega)]
    | cons other more =>
      rw [List.cons_append, readFields, if_neg proper.1.nonempty, if_pos proper.1.hex, if_neg (by omega),
        if_neg (by simp), if_neg (by omega)]

theorem readFields_last {group : Text} (proper : IsGroup group) {stored : List UInt8} (room : stored.length + 2 ≤ 16)
    (colonp : Option Nat) :
    readFields machine true [group] stored colonp = .ok (stored ++ groupBytes (hexFold 0 group), colonp) := by
  have small := proper.small
  rw [readFields, if_pos proper.hex, if_neg (by omega), if_neg (by decide), if_neg proper.nonempty, if_neg (by omega)]

theorem readFields_all {groups : List Text} (proper : ∀ group ∈ groups, IsGroup group) (nonempty : groups ≠ [])
    {stored : List UInt8} (room : stored.length + 2 * groups.length ≤ 16) (colonp : Option Nat) :
    readFields machine true groups stored colonp = .ok (stored ++ groupsBytes groups, colonp) := by
  obtain ⟨first, last, split⟩ := (List.eq_nil_or_concat' groups).resolve_left nonempty
  have two : (groupBytes (hexFold 0 last)).length = 2 := rfl
  rw [split] at proper room
  rw [List.length_append, List.length_singleton] at room
  have lastGroup := proper last (by simp)
  have earlier : ∀ group ∈ first, IsGroup group := fun group member => proper group (List.mem_append_left _ member)
  have size := length_groupsBytes first
  rw [split, readFields_groups earlier (fun empty => lastGroup.nonempty empty.1) (by omega),
    readFields_last lastGroup (by rw [List.length_append]; omega), groupsBytes, groupsBytes, List.flatMap_append,
    List.flatMap_singleton, List.append_assoc]

end Groups

section RoundTrip

variable {machine : Machine}

def groupTexts : List UInt8 → List Text
  | high :: low :: rest => groupText high low :: groupTexts rest
  | _ => []

theorem hexChar_hex {value : Nat} (small : value < 16) :
    isHexAlphaOrDigit (hexChar value) = true ∧ hexDigit (hexChar value) = value := hexChar_digit ⟨value, small⟩

theorem allHex_hexByte (value : UInt8) : AllHex (hexByte value) := by
  have small := value.toNat_lt
  intro c member
  simp only [hexByte, List.mem_cons, List.not_mem_nil, or_false] at member
  cases member with
  | inl first => rw [first]; exact (hexChar_hex (by omega)).1
  | inr second => rw [second]; exact (hexChar_hex (by omega)).1

theorem hexFold_hexByte (val : Nat) (value : UInt8) : hexFold val (hexByte value) = val * 256 + value.toNat := by
  have small := value.toNat_lt
  have high := (hexChar_hex (show value.toNat / 16 < 16 by omega)).2
  have low := (hexChar_hex (show value.toNat % 16 < 16 by omega)).2
  change (val * 16 + hexDigit (hexChar (value.toNat / 16))) * 16 + hexDigit (hexChar (value.toNat % 16)) = _
  rw [high, low]
  omega

theorem hexFold_append (val : Nat) (first second : Text) :
    hexFold val (first ++ second) = hexFold (hexFold val first) second :=
  List.foldl_append

theorem groupBytes_pair (high low : UInt8) : groupBytes (high.toNat * 256 + low.toNat) = [high, low] := by
  have first := high.toNat_lt
  have second := low.toNat_lt
  have quotient : (high.toNat * 256 + low.toNat) / 256 = high.toNat := by omega
  have rest : UInt8.ofNat (high.toNat * 256 + low.toNat) = low := by
    apply UInt8.toNat_inj.mp
    rw [UInt8.toNat_ofNat']
    omega
  rw [groupBytes, quotient, rest, UInt8.ofNat_toNat]

theorem groupText_group (high low : UInt8) :
    IsGroup (groupText high low) ∧ hexFold 0 (groupText high low) = high.toNat * 256 + low.toNat := by
  have first := high.toNat_lt
  have second := low.toNat_lt
  rw [groupText]
  split_ifs with zero single
  next =>
    have value : hexFold 0 ['0'] = 0 := rfl
    have hex : AllHex ['0'] := List.forall_mem_singleton.mpr rfl
    rw [zero.1, zero.2, UInt8.toNat_zero]
    exact ⟨⟨List.cons_ne_nil _ _, hex, by omega⟩, value⟩
  next =>
    have value := hexFold_hexByte 0 low
    rw [single]
    refine ⟨⟨List.cons_ne_nil _ _, allHex_hexByte low, by omega⟩, ?_⟩
    rw [value, UInt8.toNat_zero]
  next =>
    have value : hexFold 0 (hexByte high ++ hexByte low) = high.toNat * 256 + low.toNat := by
      rw [hexFold_append, hexFold_hexByte, hexFold_hexByte, Nat.zero_mul, Nat.zero_add]
    refine ⟨⟨List.cons_ne_nil _ _, fun c member => ?_, by omega⟩, value⟩
    cases List.mem_append.mp member with
    | inl here => exact allHex_hexByte high c here
    | inr here => exact allHex_hexByte low c here

theorem isGroup_groupTexts (bytes : List UInt8) : ∀ group ∈ groupTexts bytes, IsGroup group := by
  induction bytes using groupTexts.induct with
  | case1 high low rest ih =>
    rw [groupTexts, List.forall_mem_cons]
    exact ⟨(groupText_group high low).1, ih⟩
  | case2 bytes short =>
    rw [groupTexts]
    · exact fun group member => absurd member List.not_mem_nil
    · exact short

theorem groupsBytes_groupTexts {bytes : List UInt8} {count : Nat} (even : bytes.length = 2 * count) :
    groupsBytes (groupTexts bytes) = bytes ∧ (groupTexts bytes).length = count := by
  induction count generalizing bytes with
  | zero =>
    rw [List.eq_nil_of_length_eq_zero even]
    exact ⟨rfl, rfl⟩
  | succ count ih =>
    obtain ⟨high, rest, first⟩ := List.exists_of_length_succ bytes (n := 2 * count + 1) (by omega)
    rw [first, List.length_cons] at even
    obtain ⟨low, more, second⟩ := List.exists_of_length_succ rest (n := 2 * count) (by omega)
    rw [second, List.length_cons] at even
    obtain ⟨same, size⟩ := ih (show more.length = 2 * count by omega)
    rw [first, second, groupTexts, groupsBytes_cons, same, (groupText_group high low).2, groupBytes_pair,
      List.length_cons, size]
    exact ⟨rfl, rfl⟩

theorem printGroups_eq (bytes : List UInt8) : printGroups true bytes = joinTokens ':' (groupTexts bytes) := by
  have behind (bytes : List UInt8) :
      printGroups false bytes = if groupTexts bytes = [] then [] else ':' :: joinTokens ':' (groupTexts bytes) := by
    induction bytes using groupTexts.induct with
    | case1 high low rest ih =>
      rw [printGroups, ih, groupTexts]
      cases groupTexts rest with
      | nil => simp [joinTokens]
      | cons next more => simp [joinTokens]
    | case2 bytes short =>
      rw [printGroups, groupTexts]
      · rfl
      · exact short
      · exact short
  cases bytes with
  | nil => rfl
  | cons high rest =>
    cases rest with
    | nil => rfl
    | cons low rest =>
      rw [printGroups, behind, groupTexts]
      cases groupTexts rest with
      | nil => simp [joinTokens]
      | cons next more => simp [joinTokens]

theorem head_joinTokens {first : Text} (nonempty : first ≠ []) (rest : List Text) :
    (joinTokens ':' (first :: rest)).head? = first.head? := by
  cases rest with
  | nil => rw [joinTokens]
  | cons next more => rw [joinTokens, List.head?_append_of_ne_nil _ nonempty]

theorem parseIp6Address_plain {text : Text} (head : text.head? ≠ some ':') :
    parseIp6Address machine text = ip6Scan machine true text := by
  have whole : text ≠ [':', ':'] := by
    rintro rfl
    exact head rfl
  have begins : strstr [':', ':'] text ≠ some text := by
    intro found
    obtain ⟨rest, same⟩ := (strstr_self (List.cons_ne_nil _ _)).mp found
    rw [same] at head
    exact head rfl
  rw [parseIp6Address, if_neg whole, if_neg (fun both => head both.1), if_neg begins]

theorem ip6_round_trip (machine : Machine) {bytes : List UInt8} (full : bytes.length = 16) :
    parseIp6Address machine (ip6AddressToString (some bytes)) = .ok bytes := by
  rw [ip6AddressToString]
  split
  next zero =>
    have same : bytes = List.replicate 16 0 := by
      apply List.eq_replicate_iff.mpr
      exact ⟨full, fun value member => by simpa using List.all_eq_true.mp zero value member⟩
    rw [parseIp6Address, if_pos rfl, same]
  next =>
    obtain ⟨stored, eight⟩ := groupsBytes_groupTexts (show bytes.length = 2 * 8 from full)
    have groups := isGroup_groupTexts bytes
    have nonempty : groupTexts bytes ≠ [] := by
      intro empty
      rw [empty] at eight
      cases eight
    have free : ∀ field ∈ groupTexts bytes, ':' ∉ field := by
      intro field member colon
      have hex := (groups field member).hex ':' colon
      revert hex
      decide
    have read : readFields machine true (groupTexts bytes) [] none = _ :=
      readFields_all groups nonempty (by rw [eight]; decide) none
    have loop : ip6Loop machine true _ _ >>= ip6Finish = _ := ip6Loop_fields nonempty free [] none
    rw [read, List.nil_append, stored] at loop
    have placed : ip6Place bytes none = .ok bytes := if_neg (by simpa using full)
    have scanned : ip6Scan machine true (joinTokens ':' (groupTexts bytes)) = .ok bytes := by
      rw [ip6Scan, loop]
      exact placed
    have head : (joinTokens ':' (groupTexts bytes)).head? ≠ some ':' := by
      cases texts : groupTexts bytes with
      | nil => exact absurd texts nonempty
      | cons first rest =>
        have inside : first ∈ groupTexts bytes := by rw [texts]; exact List.mem_cons_self
        rw [head_joinTokens (groups first inside).nonempty]
        exact fun colon => free first inside (List.mem_of_mem_head? colon)
    rw [printGroups_eq, parseIp6Address_plain head, scanned]

theorem ip6_round_trip_sample : [0xFE, 0x80, 0, 0, 0, 5, 1, 2, 3, 4, 5, 6, 7, 8, 0, 0].length = 16 ∧
    parseIp6Address ⟨.four, true, true⟩
      (ip6AddressToString (some [0xFE, 0x80, 0, 0, 0, 5, 1, 2, 3, 4, 5, 6, 7, 8, 0, 0])) =
      .ok [0xFE, 0x80, 0, 0, 0, 5, 1, 2, 3, 4, 5, 6, 7, 8, 0, 0] :=
  ⟨by decide, ip6_round_trip ⟨.four, true, true⟩ (by decide)⟩

end RoundTrip

end CcspCommon.AnscPlatform
