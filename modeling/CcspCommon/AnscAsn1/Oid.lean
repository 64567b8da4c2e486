import CcspCommon.AnscAsn1.Tags
import CcspCommon.Shared.Decimal
import CcspCommon.Shared.Run
import CcspCommon.Shared.Tokens

set_option autoImplicit false

namespace CcspCommon.AnscAsn1

open CcspCommon.Shared

section Strings

-- `w` is the size of `ULONG` in bytes.
variable (w : Nat)

def checkOIDString : Bool → Text → Option Text
  | _, [] => some []
  | true, c :: rest => if c.isDigit then (c :: ·) <$> checkOIDString false rest else none
  | false, c :: rest =>
    if c.isDigit then (c :: ·) <$> checkOIDString false rest
    else
      let c := if c = ' ' then '.' else c
      if c ≠ '.' ∨ rest = [] then none else (c :: ·) <$> checkOIDString true rest

def stringToUlong (digits : Text) : Nat :=
  let value := min (leadingDigits digits) (2 ^ (8 * w - 1) - 1) % 2 ^ 32
  if value < 2 ^ 31 then value else 2 ^ (8 * w) - 2 ^ 32 + value

-- `ParsingOIDStringValue`: the values of the array, and the input as it is left behind. The values
-- are read off a copy of the input that was made before its spaces were replaced.
def parsingOIDStringValue (pInput : Text) : Option (List Nat × Text) :=
  if pInput.length < 3 then none
  else (checkOIDString true pInput).map fun changed => ((pInput.splitOn '.').map (stringToUlong w), changed)

def reverseDigits : Nat → Nat → Text
  | 0, _ => []
  | fuel + 1, remain => if remain > 0 then Nat.digitChar (remain % 10) :: reverseDigits fuel (remain / 10) else []

def getUlongString (ulValue : Nat) : Text := if ulValue = 0 then ['0'] else (reverseDigits ulValue ulValue).reverse

/-- The loop of `ExportOIDValueToString`. A number of 16 digits fills `pTmpBuffer` and its end is not
found. -/
def exportLoop : List Nat → Option Text
  | [] => some []
  | value :: rest =>
    let pTmpBuffer := getUlongString value
    if pTmpBuffer.length ≥ 16 then none
    else (exportLoop rest).map fun later => if rest = [] then pTmpBuffer else pTmpBuffer ++ '.' :: later

end Strings

section Object

variable (w : Nat)

def maximumOidDepth : Nat := 16

structure Oid where
  attrs : List Attr
  uLength : Nat
  pOIDChain : List Nat
  pAdvOID : Option (List Nat)
deriving DecidableEq

namespace Oid

def create (attrs : List Attr) : Oid := ⟨attrs, 0, List.replicate maximumOidDepth 0, none⟩

def getOIDBuffer (object : Oid) : List Nat := object.pAdvOID.getD object.pOIDChain

def putOIDBuffer (object : Oid) (array : List Nat) : Oid :=
  match object.pAdvOID with
  | some _ => { object with pAdvOID := some array }
  | none => { object with pOIDChain := array }

inductive Status
  | success | invalidValue
deriving DecidableEq

-- `AnscAsn1OIDSetOIDValue`; there is no result when the values are copied into an array that was
-- freed.
def setOIDValue (object : Oid) (pOIDArray : List Nat) : Option (Oid × Status) :=
  match pOIDArray with
  | [] => some ({ object with uLength := 0 }, .success)
  | first :: _ =>
    if first > 2 then some (object, .invalidValue)
    else if pOIDArray.length > maximumOidDepth then
      some ({ object with uLength := pOIDArray.length, pAdvOID := some pOIDArray }, .success)
    else
      -- `pAdvOID` was freed, and `GetOIDBuffer` still leads to it.
      match object.pAdvOID with
      | some _ => none
      | none =>
        some ({ object with
          uLength := pOIDArray.length, pOIDChain := pOIDArray ++ object.pOIDChain.drop pOIDArray.length }, .success)

def fill (array values : List Nat) : Option (List Nat) :=
  if values.length > array.length then none else some (values ++ array.drop values.length)

def setStringOIDValue (object : Oid) (pOIDString : Text) : Option (Oid × Status) :=
  match parsingOIDStringValue w pOIDString with
  | none => some (object, .invalidValue)
  | some (counted, pOIDString) =>
    match parsingOIDStringValue w pOIDString with
    | none => none
    | some (values, _) =>
      let uSize := counted.length
      let filled := if uSize > maximumOidDepth then
          (fill (List.replicate uSize 0) values).map fun array => { object with pAdvOID := some array }
        else (fill object.pOIDChain values).map fun array => { object with pOIDChain := array }
      filled.map fun object =>
        if values.headD 0 > 2 then (object, .invalidValue)
        else ({ object with uLength := values.length }, .success)

def getStringOIDValue (object : Oid) : Option (Option Text) :=
  if object.uLength = 0 then some none
  else if object.getOIDBuffer.length < object.uLength then none
  else (exportLoop (object.getOIDBuffer.take object.uLength)).map some

end Oid

end Object

section Decoding

variable (w : Nat)

def octetSum : List UInt8 → Nat
  | [] => 0
  | octet :: rest => (octet &&& 0x7F).toNat * 0x80 ^ rest.length + octetSum rest

def getUlongFromOID (octets : List UInt8) : Nat :=
  if octets.length > w + 1 then 0
  else if octets.length = w + 1 ∧ octets.headD 0 > 0x8F then 0
  else octetSum octets % 2 ^ (8 * w)

namespace Oid

/-- Where the octets of the value stand, and how many they are. The tag of the object is looked for
at the beginning of the data, also behind attributes. -/
def openContent (attrs : List Attr) (data : List UInt8) : Except Asn1Error (List UInt8 × Nat) := do
  let state ← attrListDecodingData w attrs data
  let (pEncodingUnit, uLeftSize) ← if state.bTag then do
      let info ← tagInfoParsingData w data
      if info.firstOctetOfTag ≠ 0x06 then .error .unexpectedTag
      else if info.ulSizeOfTag ≠ 1 then .error .unacceptableValueSize
      else if info.bIsInfinite then .error .invalidEncodeLength
      else .ok (data.drop (1 + info.ulSizeOfLength), info.ulContentLength)
    else .ok (state.pEncodingUnit, state.uleftSize)
  if state.uInfinite > 0 then .error .invalidEncodeLength else .ok (pEncodingUnit, uLeftSize)

def grow (object : Oid) (counter : Nat) : Except Asn1Error Oid :=
  if counter ≠ 0 ∧ counter % maximumOidDepth = 0 then
    match object.pAdvOID with
    | none => .ok { object with
        pAdvOID := some (object.pOIDChain.take maximumOidDepth ++ List.replicate counter 0) }
    | some pTmpBuffer =>
      if pTmpBuffer.length < counter then .error .fault
      else .ok { object with pAdvOID := some (pTmpBuffer.take counter ++ List.replicate maximumOidDepth 0) }
  else .ok object

def write (object : Oid) (index value : Nat) : Except Asn1Error Oid :=
  if index < object.getOIDBuffer.length then .ok (object.putOIDBuffer (object.getOIDBuffer.set index value))
  else .error .fault

def writeSubOID (object : Oid) (counter value : Nat) : Except Asn1Error (Oid × Nat) := do
  let object ← object.write counter value
  if counter = 0 then
    if value ≥ 80 then
      if value ≥ 120 then .error .badOidValue
      else
        let object ← object.write 1 (value - 80)
        let object ← object.write 0 2
        .ok (object, 2)
    else
      let object ← object.write 1 (value % 40)
      let object ← object.write 0 (value / 40)
      .ok (object, 2)
  else .ok (object, counter + 1)

def decodeLoop : Nat → Oid → List UInt8 → Nat → Nat → Except Asn1Error (Oid × List UInt8)
  | 0, object, data, _, counter => .ok ({ object with uLength := counter }, data)
  | fuel + 1, object, data, ulOctetsLeft, counter =>
    if ulOctetsLeft = 0 then .ok ({ object with uLength := counter }, data)
    else do
      let more ← continuation data
      let first ← octet data 0
      if more + 1 > w + 1 then .error .invalidValue
      else if more + 1 = w + 1 ∧ first > 0x8F then .error .invalidValue
      else
        let object ← object.grow counter
        let (object, counter) ← object.writeSubOID counter (getUlongFromOID w (data.take (more + 1)))
        if ulOctetsLeft < more + 1 then .error .invalidEncodeLength
        else decodeLoop fuel object (data.drop (more + 1)) (ulOctetsLeft - (more + 1)) counter

def decodingData (object : Oid) (data : List UInt8) : Except Asn1Error (Oid × List UInt8) := do
  let (pEncodingUnit, uLeftSize) ← openContent w object.attrs data
  if uLeftSize = 0 then .ok ({ object with uLength := 0 }, pEncodingUnit)
  else if uLeftSize > 4000 then .error .unacceptableValueSize
  else decodeLoop w uLeftSize object pEncodingUnit uLeftSize 0

end Oid

end Decoding

section Texts

theorem reverseDigits_eq {fuel value : Nat} (positive : 0 < value) (enough : value ≤ fuel) :
    (reverseDigits fuel value).reverse = Nat.toDigits 10 value := by
  induction fuel generalizing value with
  | zero => omega
  | succ fuel ih =>
    rw [reverseDigits, if_pos positive, List.reverse_cons]
    by_cases single : value < 10
    · have none : reverseDigits fuel (value / 10) = [] := by
        rw [Nat.div_eq_of_lt single]
        cases fuel <;> rfl
      rw [none, Nat.toDigits_of_lt_base single, Nat.mod_eq_of_lt single]
      rfl
    · rw [ih (by omega) (by omega), ← Nat.toDigits_of_base_le (by decide) (by omega)]

theorem getUlongString_eq (ulValue : Nat) : getUlongString ulValue = Nat.toDigits 10 ulValue := by
  rw [getUlongString]
  split_ifs with zero
  · rw [zero]
    rfl
  · exact reverseDigits_eq (by omega) (Nat.le_refl _)

def dotted (arcs : List Nat) : Text := joinTokens '.' (arcs.map (Nat.toDigits 10))

theorem exportLoop_eq {arcs : List Nat} (short : ∀ value ∈ arcs, value < 10 ^ 15) :
    exportLoop arcs = some (dotted arcs) := by
  induction arcs with
  | nil => rfl
  | cons value rest ih =>
    have fits : (getUlongString value).length ≤ 15 := by
      rw [getUlongString_eq]
      exact (Nat.length_toDigits_le_iff (by decide) (by decide)).mpr (short value List.mem_cons_self)
    rw [exportLoop, if_neg (by omega), ih fun other member => short other (List.mem_cons_of_mem value member),
      Option.map_some, getUlongString_eq]
    cases rest <;> rfl

def dot (c : Char) : Char := if c = ' ' then '.' else c

def spelled (text : Text) : List Nat := ((text.map dot).splitOn '.').map leadingDigits

theorem checkOIDString_digit (previous : Bool) {c : Char} (digit : c.isDigit = true) (rest : Text) :
    checkOIDString previous (c :: rest) = (c :: ·) <$> checkOIDString false rest := by
  cases previous <;> rw [checkOIDString, if_pos digit]

theorem dot_of_isDigit {c : Char} (digit : c.isDigit = true) : dot c = c := by
  apply if_neg
  rintro rfl
  exact absurd digit (by decide)

theorem checkOIDString_eq {previous : Bool} {text changed : Text}
    (checked : checkOIDString previous text = some changed) :
    changed = text.map dot ∧ checkOIDString previous changed = some changed := by
  induction text generalizing previous changed with
  | nil =>
    obtain rfl : [] = changed := by
      rw [checkOIDString] at checked
      exact Option.some.inj checked
    exact ⟨rfl, checked⟩
  | cons c rest ih =>
    by_cases digit : c.isDigit = true
    · rw [checkOIDString_digit previous digit] at checked
      obtain ⟨later, checks, rfl⟩ := Option.map_eq_some_iff.mp checked
      obtain ⟨same, again⟩ := ih checks
      rw [checkOIDString_digit previous digit, again, List.map_cons, dot_of_isDigit digit, ← same]
      exact ⟨rfl, rfl⟩
    · cases previous with
      | true =>
        rw [checkOIDString, if_neg digit] at checked
        cases checked
      | false =>
        rw [checkOIDString, if_neg digit] at checked
        change (if dot c ≠ '.' ∨ rest = [] then none else (dot c :: ·) <$> checkOIDString true rest) = _ at checked
        by_cases wrong : dot c ≠ '.' ∨ rest = []
        · rw [if_pos wrong] at checked
          cases checked
        rw [if_neg wrong] at checked
        obtain ⟨later, checks, rfl⟩ := Option.map_eq_some_iff.mp checked
        obtain ⟨same, again⟩ := ih checks
        have isDot : dot c = '.' := by
          by_contra other
          exact wrong (.inl other)
        have some : later ≠ [] := by
          rintro rfl
          exact wrong (.inr (List.map_eq_nil_iff.mp same.symm))
        rw [isDot, List.map_cons, isDot, ← same, checkOIDString, if_neg (by decide)]
        dsimp only
        rw [if_neg (by simpa using some), again]
        exact ⟨rfl, rfl⟩

def WellFormed (text : Text) : Prop := 3 ≤ text.length ∧ (checkOIDString true text).isSome

variable {w : Nat}

theorem stringToUlong_eq (wide : 4 ≤ w) {digits : Text} (small : leadingDigits digits < 2 ^ 31) :
    stringToUlong w digits = leadingDigits digits := by
  have bound : 2 ^ 31 ≤ 2 ^ (8 * w - 1) := Nat.pow_le_pow_right (by decide) (by omega)
  have least : min (leadingDigits digits) (2 ^ (8 * w - 1) - 1) = leadingDigits digits := Nat.min_eq_left (by omega)
  rw [stringToUlong, least, Nat.mod_eq_of_lt (by omega)]
  exact if_pos small

theorem parsingOIDStringValue_none {text : Text} (malformed : ¬ WellFormed text) :
    parsingOIDStringValue w text = none := by
  rw [parsingOIDStringValue]
  split_ifs with short
  · rfl
  · cases checked : checkOIDString true text with
    | none => rfl
    | some changed => exact (malformed ⟨by omega, by rw [checked]; rfl⟩).elim

theorem parsingOIDStringValue_eq (wide : 4 ≤ w) {text : Text} (formed : WellFormed text)
    (small : ∀ value ∈ spelled text, value < 2 ^ 31) :
    parsingOIDStringValue w text = some ((text.splitOn '.').map (stringToUlong w), text.map dot) ∧
      ∃ rest, parsingOIDStringValue w (text.map dot) = some (spelled text, rest) := by
  obtain ⟨long, checked⟩ := formed
  obtain ⟨changed, checked⟩ := Option.isSome_iff_exists.mp checked
  obtain ⟨rfl, again⟩ := checkOIDString_eq checked
  have values : ((text.map dot).splitOn '.').map (stringToUlong w) = spelled text := by
    apply List.map_congr_left
    intro piece member
    exact stringToUlong_eq wide (small _ (List.mem_map_of_mem member))
  rw [parsingOIDStringValue, if_neg (by omega), checked, parsingOIDStringValue, List.length_map,
    if_neg (by omega), again, Option.map_some, Option.map_some, values]
  exact ⟨rfl, _, rfl⟩

theorem length_splitOn_cons (c : Char) (text : Text) :
    ((c :: text).splitOn '.').length = (text.splitOn '.').length + if c = '.' then 1 else 0 := by
  rw [List.splitOn_cons_eq_if_modifyHead]
  by_cases isDot : c = '.'
  · rw [if_pos (beq_iff_eq.mpr isDot), if_pos isDot, List.length_cons]
  · rw [if_neg (mt beq_iff_eq.mp isDot), if_neg isDot, List.length_modifyHead]
    rfl

theorem length_splitOn_le (text : Text) : (text.splitOn '.').length ≤ (spelled text).length := by
  rw [spelled, List.length_map]
  induction text with
  | nil => exact Nat.le_refl _
  | cons c rest ih =>
    rw [List.map_cons, length_splitOn_cons, length_splitOn_cons]
    by_cases isDot : c = '.'
    · rw [isDot, if_pos rfl, if_pos (by decide)]
      omega
    · rw [if_neg isDot]
      omega

theorem map_dot_of_no_space {text : Text} (none : ' ' ∉ text) : text.map dot = text := by
  have same : ∀ c ∈ text, dot c = id c := by
    intro c member
    apply if_neg
    rintro rfl
    exact none member
  rw [List.map_congr_left same, List.map_id]

end Texts

section SubIdentifiers

def subIdentifiers : Nat → Bool → List UInt8 → Option (List Nat)
  | _, false, [] => some []
  | _, true, [] => none
  | value, _, octet :: rest =>
    let value := value * 128 + (octet &&& 0x7F).toNat
    if octet &&& 0x80 = 0 then (value :: ·) <$> subIdentifiers 0 false rest else subIdentifiers value true rest

def firstArcs (value : Nat) : List Nat := if value ≥ 80 then [2, value - 80] else [value / 40, value % 40]

def oidOf (content : List UInt8) : Option (List Nat) :=
  (subIdentifiers 0 false content).map fun values =>
    match values with
    | [] => []
    | value :: rest => firstArcs value ++ rest

theorem subIdentifiers_group {front : List UInt8} (continued : ∀ octet ∈ front, octet &&& 0x80 ≠ 0) {last : UInt8}
    (ended : last &&& 0x80 = 0) (rest : List UInt8) (value : Nat) (inside : Bool) :
    subIdentifiers value inside (front ++ last :: rest) =
      ((value * 128 ^ (front.length + 1) + octetSum (front ++ [last])) :: ·) <$> subIdentifiers 0 false rest := by
  induction front generalizing value inside with
  | nil =>
    have sum : value * 128 ^ ([] : List UInt8).length.succ + octetSum ([] ++ [last]) =
        value * 128 + (last &&& 0x7F).toNat := by simp [octetSum]
    rw [List.nil_append, subIdentifiers, if_pos ended]
    exact congrArg (fun first => (first :: ·) <$> subIdentifiers 0 false rest) sum.symm
  | cons octet front ih =>
    rw [List.cons_append, subIdentifiers, if_neg (continued octet List.mem_cons_self),
      ih fun other member => continued other (List.mem_cons_of_mem octet member)]
    have sum : (value * 128 + (octet &&& 0x7F).toNat) * 128 ^ (front.length + 1) + octetSum (front ++ [last]) =
        value * 128 ^ (front.length + 1 + 1) + octetSum (octet :: front ++ [last]) := by
      rw [List.cons_append, octetSum, List.length_append, List.length_singleton, Nat.pow_succ 128 (front.length + 1),
        Nat.add_mul, Nat.mul_comm (128 ^ (front.length + 1)) 128, Nat.mul_assoc, Nat.add_assoc]
    exact congrArg (fun first => (first :: ·) <$> subIdentifiers 0 false rest) sum

theorem continuation_split {data : List UInt8} {more : Nat} (counted : continuation data = .ok more) :
    ∃ front last rest, data = front ++ last :: rest ∧ front.length = more ∧ (∀ octet ∈ front, octet &&& 0x80 ≠ 0) ∧
      last &&& 0x80 = 0 := by
  induction data generalizing more with
  | nil => cases counted
  | cons octet data ih =>
    rw [continuation] at counted
    by_cases ended : octet &&& 0x80 = 0
    · rw [if_pos ended] at counted
      obtain rfl := Except.ok.inj counted
      exact ⟨[], octet, data, rfl, rfl, List.forall_mem_nil _, ended⟩
    · rw [if_neg ended] at counted
      cases later : continuation data with
      | error reason =>
        rw [later] at counted
        cases counted
      | ok count =>
        rw [later] at counted
        obtain rfl := Except.ok.inj counted
        obtain ⟨front, last, rest, rfl, rfl, continued, last_ended⟩ := ih later
        exact ⟨octet :: front, last, rest, rfl, rfl, List.forall_mem_cons.mpr ⟨ended, continued⟩, last_ended⟩

theorem octetSum_lt (octets : List UInt8) : octetSum octets < 128 ^ octets.length := by
  induction octets with
  | nil => decide
  | cons octet rest ih =>
    have digit : (octet &&& 0x7F).toNat < 128 := by
      rw [UInt8.toNat_and]
      exact Nat.lt_of_le_of_lt Nat.and_le_right (by decide)
    have digits : ((octet &&& 0x7F).toNat + 1) * 128 ^ rest.length ≤ 128 * 128 ^ rest.length :=
      Nat.mul_le_mul_right _ digit
    rw [octetSum, List.length_cons, Nat.pow_succ, Nat.mul_comm (128 ^ rest.length)]
    rw [Nat.add_mul, Nat.one_mul] at digits
    omega

theorem low_digits : ∀ value : Fin 256, ¬ UInt8.ofNat value > 0x8F → UInt8.ofNat value &&& 0x80 ≠ 0 →
    (UInt8.ofNat value &&& 0x7F).toNat < 16 := by
  decide +kernel

theorem low_digit (octet : UInt8) (low : ¬ octet > 0x8F) (continued : octet &&& 0x80 ≠ 0) :
    (octet &&& 0x7F).toNat < 16 := by
  have digit := low_digits ⟨octet.toNat, octet.toNat_lt⟩
  rw [UInt8.ofNat_toNat] at digit
  exact digit low continued

variable {w : Nat}

theorem getUlongFromOID_eq (wide : 4 ≤ w) {front : List UInt8} (continued : ∀ octet ∈ front, octet &&& 0x80 ≠ 0)
    (last : UInt8) (few : ¬ front.length + 1 > w + 1)
    (low : ¬ (front.length + 1 = w + 1 ∧ (front ++ [last]).headD 0 > 0x8F)) :
    getUlongFromOID w (front ++ [last]) = octetSum (front ++ [last]) := by
  have length : (front ++ [last]).length = front.length + 1 := by simp
  rw [getUlongFromOID, length, if_neg few, if_neg low]
  apply Nat.mod_eq_of_lt
  have bound := octetSum_lt (front ++ [last])
  rw [length] at bound
  have power : ∀ n, 128 ^ n = 2 ^ (7 * n) := fun n => by rw [Nat.pow_mul]
  by_cases short : front.length + 1 ≤ w
  · calc octetSum (front ++ [last]) < 128 ^ (front.length + 1) := bound
      _ = 2 ^ (7 * (front.length + 1)) := power _
      _ ≤ 2 ^ (8 * w) := Nat.pow_le_pow_right (by decide) (by omega)
  · obtain ⟨first, front, rfl⟩ := List.exists_cons_of_length_pos (show 0 < front.length by omega)
    have digit := low_digit first (fun high => low ⟨by omega, high⟩) (continued first List.mem_cons_self)
    have rest := octetSum_lt (front ++ [last])
    have size : (front ++ [last]).length = w := by
      simp at few short ⊢
      omega
    rw [size] at rest
    have digits : ((first &&& 0x7F).toNat + 1) * 128 ^ w ≤ 16 * 128 ^ w := Nat.mul_le_mul_right _ digit
    rw [Nat.add_mul, Nat.one_mul] at digits
    have whole : 16 * 128 ^ w ≤ 2 ^ (8 * w) := by
      calc 16 * 128 ^ w = 2 ^ 4 * 2 ^ (7 * w) := by rw [power]
        _ = 2 ^ (4 + 7 * w) := (Nat.pow_add 2 4 (7 * w)).symm
        _ ≤ 2 ^ (8 * w) := Nat.pow_le_pow_right (by decide) (by omega)
    rw [List.cons_append, octetSum, size]
    omega

end SubIdentifiers

section Arrays

namespace Oid

structure Sound (object : Oid) : Prop where
  chain : object.pOIDChain.length = maximumOidDepth
  adv : ∀ array, object.pAdvOID = some array → maximumOidDepth ≤ array.length

variable {object : Oid}

theorem Sound.buffer (sound : object.Sound) : maximumOidDepth ≤ object.getOIDBuffer.length := by
  rw [getOIDBuffer]
  cases adv : object.pAdvOID with
  | none => exact Nat.le_of_eq sound.chain.symm
  | some array => exact sound.adv array adv

theorem getOIDBuffer_put (object : Oid) (array : List Nat) : (object.putOIDBuffer array).getOIDBuffer = array := by
  rw [putOIDBuffer]
  cases adv : object.pAdvOID with
  | none => rfl
  | some old => rfl

theorem attrs_put (object : Oid) (array : List Nat) : (object.putOIDBuffer array).attrs = object.attrs := by
  rw [putOIDBuffer]
  split <;> rfl

theorem Sound.put (sound : object.Sound) {array : List Nat} (same : array.length = object.getOIDBuffer.length) :
    (object.putOIDBuffer array).Sound := by
  have long := sound.buffer
  rw [putOIDBuffer]
  cases adv : object.pAdvOID with
  | none =>
    rw [getOIDBuffer, adv] at same
    exact ⟨same.trans sound.chain, fun other present => by cases present⟩
  | some old =>
    refine ⟨sound.chain, fun other present => ?_⟩
    obtain rfl := Option.some.inj present
    omega

def Room (object : Oid) (counter : Nat) : Prop :=
  counter ≤ maximumOidDepth ∨
    (object.getOIDBuffer.length % maximumOidDepth = 0 ∧ counter ≤ object.getOIDBuffer.length)

def Grown (object : Oid) (counter : Nat) : Prop :=
  counter < object.getOIDBuffer.length ∧
    (counter < maximumOidDepth ∨ object.getOIDBuffer.length % maximumOidDepth = 0)

structure Stores (object : Oid) (arcs : List Nat) : Prop where
  sound : object.Sound
  room : object.Room arcs.length
  stored : arcs <+: object.getOIDBuffer

theorem Stores.grow {arcs : List Nat} (stores : object.Stores arcs) :
    ∃ grown, object.grow arcs.length = .ok grown ∧ grown.attrs = object.attrs ∧ grown.Stores arcs ∧
      grown.Grown arcs.length := by
  obtain ⟨sound, room, stored⟩ := stores
  have long := sound.buffer
  have enough := stored.length_le
  rw [Oid.grow]
  by_cases border : arcs.length ≠ 0 ∧ arcs.length % maximumOidDepth = 0
  · -- A new array of `counter + MAXIMUM_OID_DEPTH` values, with the old ones in front.
    have renewed (array : List Nat) (front : List Nat) (same : array = front ++ List.replicate maximumOidDepth 0)
        (size : front.length = arcs.length) (stored : arcs <+: front) :
        ({ object with pAdvOID := some array } : Oid).Stores arcs ∧
          ({ object with pAdvOID := some array } : Oid).Grown arcs.length := by
      have length : array.length = arcs.length + maximumOidDepth := by
        rw [same, List.length_append, size, List.length_replicate]
      have positive : 0 < maximumOidDepth := by decide
      have aligned : array.length % maximumOidDepth = 0 := by
        rw [length, Nat.add_mod_right]
        exact border.2
      have inside : arcs.length < array.length := by omega
      refine ⟨⟨⟨sound.chain, fun other present => ?_⟩, .inr ⟨aligned, Nat.le_of_lt inside⟩, ?_⟩, inside, .inr aligned⟩
      · obtain rfl := Option.some.inj present
        omega
      · change arcs <+: array
        rw [same]
        exact stored.trans (List.prefix_append _ _)
    rw [if_pos border]
    cases adv : object.pAdvOID with
    | none =>
      have same : object.getOIDBuffer = object.pOIDChain := by rw [getOIDBuffer, adv]; rfl
      rw [same, sound.chain] at enough
      rw [same] at stored
      have full : arcs.length = maximumOidDepth := by
        have := border.2
        simp only [maximumOidDepth] at *
        omega
      have whole : object.pOIDChain.take maximumOidDepth = object.pOIDChain :=
        List.take_of_length_le (Nat.le_of_eq sound.chain)
      obtain ⟨stores, room⟩ := renewed (object.pOIDChain.take maximumOidDepth ++ List.replicate arcs.length 0)
        object.pOIDChain (by rw [whole, full]) (by rw [sound.chain, full]) stored
      exact ⟨_, rfl, rfl, stores, room⟩
    | some array =>
      have same : object.getOIDBuffer = array := by rw [getOIDBuffer, adv]; rfl
      rw [same] at enough stored
      dsimp only
      rw [if_neg (by omega)]
      obtain ⟨stores, room⟩ := renewed (array.take arcs.length ++ List.replicate maximumOidDepth 0)
        (array.take arcs.length) rfl (List.length_take_of_le enough) (List.prefix_take_iff.mpr ⟨stored, Nat.le_refl _⟩)
      exact ⟨_, rfl, rfl, stores, room⟩
  · rw [if_neg border]
    refine ⟨object, rfl, rfl, ⟨sound, room, stored⟩, ?_⟩
    simp only [Room, Grown, maximumOidDepth] at *
    omega

theorem prefix_set {arcs buffer : List Nat} (stored : arcs <+: buffer) (value : Nat)
    (inside : arcs.length < buffer.length) :
    arcs ++ [value] <+: buffer.set arcs.length value := by
  obtain ⟨rest, rfl⟩ := stored
  rw [List.length_append] at inside
  obtain ⟨old, rest, rfl⟩ := List.exists_cons_of_length_pos (show 0 < rest.length by omega)
  rw [List.set_append_right _ _ (Nat.le_refl _), Nat.sub_self, List.set_cons_zero]
  exact ⟨rest, by simp⟩

theorem Stores.writeSubOID {arcs : List Nat} (stores : object.Stores arcs) (grown : object.Grown arcs.length)
    (later : arcs.length ≠ 0) (value : Nat) :
    ∃ written, object.writeSubOID arcs.length value = .ok (written, arcs.length + 1) ∧ written.attrs = object.attrs ∧
      written.Stores (arcs ++ [value]) := by
  have long := stores.sound.buffer
  refine ⟨object.putOIDBuffer (object.getOIDBuffer.set arcs.length value), ?_, attrs_put _ _,
    stores.sound.put List.length_set, ?_, ?_⟩
  · rw [Oid.writeSubOID, write, if_pos grown.1]
    exact if_neg later
  · simp only [Room, Grown, getOIDBuffer_put, List.length_set, List.length_append, List.length_singleton,
      maximumOidDepth] at *
    omega
  · rw [getOIDBuffer_put]
    exact prefix_set stores.stored value grown.1

theorem write_eq (inside : 2 ≤ object.getOIDBuffer.length) {index : Nat} (first : index < 2) (value : Nat) :
    object.write index value = .ok (object.putOIDBuffer (object.getOIDBuffer.set index value)) :=
  if_pos (by omega)

theorem Sound.writeSubOID (sound : object.Sound) {value : Nat} {result : Oid × Nat}
    (success : object.writeSubOID 0 value = .ok result) :
    result.2 = 2 ∧ result.1.attrs = object.attrs ∧ result.1.Stores (firstArcs value) := by
  have long := sound.buffer
  have two : 2 ≤ maximumOidDepth := by decide
  have begun : object.write 0 value = .ok (object.putOIDBuffer (object.getOIDBuffer.set 0 value)) :=
    write_eq (by omega) (by decide) value
  -- Both numbers are written over it.
  have writes (a b : Nat) : ∃ written : Oid,
      (do let object ← (object.putOIDBuffer (object.getOIDBuffer.set 0 value)).write 1 b
          let object ← object.write 0 a
          Except.ok (object, 2)) = .ok (written, 2) ∧
        written.attrs = object.attrs ∧ written.Stores [a, b] := by
    obtain ⟨x, y, rest, same⟩ : ∃ x y rest, object.getOIDBuffer = x :: y :: rest := by
      match buffer : object.getOIDBuffer with
      | x :: y :: rest => exact ⟨x, y, rest, rfl⟩
      | [x] | [] =>
        rw [buffer] at long
        simp only [List.length_cons, List.length_nil, maximumOidDepth] at long
        omega
    rw [write_eq (by rw [getOIDBuffer_put, List.length_set]; omega) (by decide), ok_bind,
      write_eq (by simp only [getOIDBuffer_put, List.length_set]; omega) (by decide), ok_bind]
    simp only [getOIDBuffer_put, same, List.set_cons_zero, List.set_cons_succ]
    refine ⟨_, rfl, by simp only [attrs_put], ?_, .inl two, ?_⟩
    · refine ((sound.put ?_).put ?_).put ?_ <;> simp [getOIDBuffer_put, same]
    · rw [getOIDBuffer_put]
      exact ⟨rest, rfl⟩
  rw [Oid.writeSubOID, begun, ok_bind, if_pos rfl] at success
  rw [firstArcs]
  by_cases high : value ≥ 80
  · rw [if_pos high] at success ⊢
    by_cases bad : value ≥ 120
    · rw [if_pos bad] at success
      cases success
    · obtain ⟨written, same, attrs, stores⟩ := writes 2 (value - 80)
      rw [if_neg bad, same] at success
      obtain rfl := Except.ok.inj success
      exact ⟨rfl, attrs, stores⟩
  · obtain ⟨written, same, attrs, stores⟩ := writes (value / 40) (value % 40)
    rw [if_neg high, same] at success
    rw [if_neg high]
    obtain rfl := Except.ok.inj success
    exact ⟨rfl, attrs, stores⟩

end Oid

end Arrays

section Decoded

namespace Oid

variable {w : Nat} {object : Oid}

theorem decodeLoop_round (wide : 4 ≤ w) {fuel counter ulOctetsLeft : Nat} {data : List UInt8}
    {result : Oid × List UInt8}
    (some : ulOctetsLeft ≠ 0) (success : decodeLoop w (fuel + 1) object data ulOctetsLeft counter = .ok result) :
    ∃ size value grown written next, 0 < size ∧ size ≤ ulOctetsLeft ∧
      (∀ rest, subIdentifiers 0 false (data.take size ++ rest) = (value :: ·) <$> subIdentifiers 0 false rest) ∧
      object.grow counter = .ok grown ∧ grown.writeSubOID counter value = .ok (written, next) ∧
      decodeLoop w fuel written (data.drop size) (ulOctetsLeft - size) next = .ok result := by
  rw [decodeLoop, if_neg some] at success
  obtain ⟨more, counted, success⟩ := bind_eq_ok success
  obtain ⟨first, head, success⟩ := bind_eq_ok success
  obtain ⟨front, last, rest, rfl, rfl, continued, ended⟩ := continuation_split counted
  by_cases many : front.length + 1 > w + 1
  · rw [if_pos many] at success
    cases success
  by_cases high : front.length + 1 = w + 1 ∧ first > 0x8F
  · rw [if_neg many, if_pos high] at success
    cases success
  rw [if_neg many, if_neg high] at success
  obtain ⟨grown, grows, success⟩ := bind_eq_ok success
  obtain ⟨⟨written, next⟩, writes, success⟩ := bind_eq_ok success
  dsimp only at success
  by_cases cut : ulOctetsLeft < front.length + 1
  · rw [if_pos cut] at success
    cases success
  rw [if_neg cut] at success
  have group : (front ++ last :: rest).take (front.length + 1) = front ++ [last] := by
    rw [List.append_cons]
    exact List.take_left' (by simp)
  have number := getUlongFromOID_eq wide continued last many (by
    rintro ⟨size, top⟩
    refine high ⟨size, ?_⟩
    cases front with
    | nil => exact Except.ok.inj head ▸ top
    | cons octet front => exact Except.ok.inj head ▸ top)
  rw [group, number] at writes
  refine ⟨front.length + 1, octetSum (front ++ [last]), grown, written, next, by omega, by omega, fun rest => ?_, grows,
    writes, success⟩
  rw [group, List.append_assoc, List.singleton_append, subIdentifiers_group continued ended, Nat.zero_mul, Nat.zero_add]

theorem stores_uLength {arcs : List Nat} (stores : object.Stores arcs) (uLength : Nat) :
    ({ object with uLength := uLength } : Oid).Stores arcs :=
  ⟨⟨stores.sound.chain, stores.sound.adv⟩, stores.room, stores.stored⟩

structure Decodes (object decoded : Oid) (arcs : List Nat) (content : List UInt8) (values : List Nat) : Prop where
  numbers : subIdentifiers 0 false content = some values
  attrs : decoded.attrs = object.attrs
  uLength : decoded.uLength = (arcs ++ values).length
  stores : decoded.Stores (arcs ++ values)

theorem decodes_nothing {arcs : List Nat} (stores : object.Stores arcs) {data rest : List UInt8} {decoded : Oid}
    (same : (Except.ok ({ object with uLength := arcs.length }, data) : Except Asn1Error _) = .ok (decoded, rest)) :
    object.Decodes decoded arcs [] [] := by
  obtain ⟨rfl, rfl⟩ := Prod.mk.inj (Except.ok.inj same)
  refine ⟨rfl, rfl, by rw [List.append_nil], ?_⟩
  rw [List.append_nil]
  exact stores_uLength stores _

theorem decodeLoop_stores (wide : 4 ≤ w) {fuel ulOctetsLeft : Nat} {data rest : List UInt8} {arcs : List Nat}
    {decoded : Oid}
    (stores : object.Stores arcs) (later : arcs.length ≠ 0) (enough : ulOctetsLeft ≤ fuel)
    (success : decodeLoop w fuel object data ulOctetsLeft arcs.length = .ok (decoded, rest)) :
    ∃ values, object.Decodes decoded arcs (data.take ulOctetsLeft) values := by
  induction fuel generalizing object data ulOctetsLeft arcs with
  | zero =>
    obtain rfl : ulOctetsLeft = 0 := by omega
    exact ⟨[], decodes_nothing stores success⟩
  | succ fuel ih =>
    by_cases none : ulOctetsLeft = 0
    · rw [decodeLoop, if_pos none] at success
      rw [none]
      exact ⟨[], decodes_nothing stores success⟩
    obtain ⟨size, value, grown, written, next, positive, inside, group, grows, writes, success⟩ :=
      decodeLoop_round wide none success
    obtain ⟨_, same, attrs, stores, room⟩ := stores.grow
    obtain rfl := Except.ok.inj (grows.symm.trans same)
    obtain ⟨_, same, writtenAttrs, stores⟩ := stores.writeSubOID room later value
    obtain ⟨rfl, rfl⟩ := Prod.mk.inj (Except.ok.inj (writes.symm.trans same))
    have length : arcs.length + 1 = (arcs ++ [value]).length := by simp
    rw [length] at success
    obtain ⟨values, decodes⟩ := ih stores (by omega) (by omega) success
    have decodedLength := decodes.uLength
    have decodedStores := decodes.stores
    rw [List.append_assoc] at decodedLength decodedStores
    refine ⟨value :: values, ?_, decodes.attrs.trans (writtenAttrs.trans attrs), decodedLength, decodedStores⟩
    rw [← Nat.add_sub_cancel' inside, List.take_add, group, decodes.numbers]
    rfl

def decodedValue (w : Nat) (attrs : List Attr) (data : List UInt8) : Option (List Nat) :=
  match openContent w attrs data with
  | .ok (pEncodingUnit, uLeftSize) => oidOf (pEncodingUnit.take uLeftSize)
  | .error _ => none

theorem decodingData_stores (wide : 4 ≤ w) (sound : object.Sound) {data rest : List UInt8} {decoded : Oid}
    (success : object.decodingData w data = .ok (decoded, rest)) :
    ∃ arcs, decodedValue w object.attrs data = some arcs ∧ decoded.attrs = object.attrs ∧
      decoded.uLength = arcs.length ∧ decoded.Stores arcs := by
  obtain ⟨⟨pEncodingUnit, uLeftSize⟩, opened, success⟩ := bind_eq_ok success
  rw [decodedValue, opened]
  dsimp only at success ⊢
  have empty : object.Stores [] := ⟨sound, .inl (Nat.zero_le _), List.nil_prefix⟩
  by_cases none : uLeftSize = 0
  · rw [if_pos none] at success
    obtain ⟨rfl, rfl⟩ := Prod.mk.inj (Except.ok.inj success)
    rw [none]
    exact ⟨[], rfl, rfl, rfl, stores_uLength empty 0⟩
  rw [if_neg none] at success
  by_cases long : uLeftSize > 4000
  · rw [if_pos long] at success
    cases success
  rw [if_neg long] at success
  obtain ⟨fuel, rfl⟩ := Nat.exists_eq_succ_of_ne_zero none
  obtain ⟨size, value, grown, written, next, positive, inside, group, grows, writes, success⟩ :=
    decodeLoop_round wide none success
  obtain rfl : object = grown := Except.ok.inj grows
  obtain ⟨two, attrs, stores⟩ := sound.writeSubOID writes
  dsimp only at two attrs stores
  have length : next = (firstArcs value).length := by
    rw [two, firstArcs]
    split_ifs <;> rfl
  rw [length] at success
  obtain ⟨values, decodes⟩ := decodeLoop_stores wide stores (by omega) (by omega) success
  refine ⟨firstArcs value ++ values, ?_, decodes.attrs.trans attrs, decodes.uLength, decodes.stores⟩
  rw [← Nat.add_sub_cancel' inside, List.take_add, oidOf, group, decodes.numbers]
  rfl

end Oid

end Decoded

end CcspCommon.AnscAsn1
