import CcspCommon.AnscPlatform.AnscString
import CcspCommon.HttpMboChunked.ChunkLine

set_option autoImplicit false

namespace CcspCommon.HttpSmpo

open CcspCommon.AnscPlatform CcspCommon.HttpMboChunked

section Decoding

def decodeUrlGetHex (uc : UInt8) : Option UInt8 :=
  if 0x30 ≤ uc ∧ uc ≤ 0x39 then some (uc - 0x30)
  else if 0x61 ≤ uc ∧ uc ≤ 0x66 then some (uc - 0x61 + 10)
  else if 0x41 ≤ uc ∧ uc ≤ 0x46 then some (uc - 0x41 + 10)
  else none

def plusToSpace (uc : UInt8) : UInt8 := if uc = 0x2B then 0x20 else uc

/-- What the loop of `HttpSmpoDecodeUrlEncode` writes, and whether it comes to the end. It writes behind what
it has read, so that decoding in place changes nothing that is still to be read. -/
def decodeUrl : List UInt8 → List UInt8 × Bool
  | [] => ([], true)
  | uc1 :: rest =>
    match rest with
    | high :: low :: later =>
      if uc1 = 0x25 then
        match decodeUrlGetHex high, decodeUrlGetHex low with
        | some uc1, some uc2 => (((uc1 <<< 4) + uc2) :: (decodeUrl later).1, (decodeUrl later).2)
        | _, _ => ([], false)
      else (plusToSpace uc1 :: (decodeUrl (high :: low :: later)).1, (decodeUrl (high :: low :: later)).2)
    | [last] => (plusToSpace uc1 :: (decodeUrl [last]).1, (decodeUrl [last]).2)
    | [] => ([plusToSpace uc1], true)

/-- A string of `raw.length + 1` bytes decoded in place: its bytes and its length, which stays when the
decoding fails. -/
def decodeInPlace (raw : List UInt8) : List UInt8 × Nat :=
  let (decoded, success) := decodeUrl raw
  if success then (decoded ++ 0 :: (raw ++ [0]).drop (decoded.length + 1), decoded.length)
  else (decoded ++ (raw ++ [0]).drop decoded.length, raw.length)

theorem decodeUrl_length (raw : List UInt8) : (decodeUrl raw).1.length ≤ raw.length := by
  fun_induction decodeUrl raw with
  | case1 => exact Nat.le_refl 0
  | case2 high low later uc1 uc2 _ _ ih =>
    simp only [List.length_cons]
    omega
  | case3 => exact Nat.zero_le _
  | case4 uc1 high low later _ ih =>
    simp only [List.length_cons] at ih ⊢
    omega
  | case5 uc1 last ih =>
    simp only [List.length_cons] at ih ⊢
    omega
  | case6 => exact Nat.le_refl 1

theorem decodeInPlace_length (raw : List UInt8) :
    (decodeInPlace raw).2 ≤ raw.length ∧ (decodeInPlace raw).1.length = raw.length + 1 := by
  have shorter := decodeUrl_length raw
  cases success : (decodeUrl raw).2 with
  | true =>
    simp only [decodeInPlace, success, if_true, List.length_append, List.length_cons, List.length_drop, List.length_nil]
    omega
  | false =>
    simp only [decodeInPlace, success, Bool.false_eq_true, if_false, List.length_append, List.length_cons,
      List.length_drop, List.length_nil]
    omega

def hexDigit (value : UInt8) : UInt8 := if value < 10 then 0x30 + value else 0x61 + (value - 10)

def percentEncode (text : List UInt8) : List UInt8 := 
  text.flatMap fun c : UInt8 => [0x25, hexDigit (c / 16), hexDigit (c % 16)]

theorem decodeUrlGetHex_hexDigit {value : UInt8} (small : value < 16) :
    decodeUrlGetHex (hexDigit value) = some value := by
  have digits : ∀ digit : Fin 16,
      decodeUrlGetHex (hexDigit (UInt8.ofNat digit.val)) = some (UInt8.ofNat digit.val) := by
    decide
  rw [← @UInt8.ofNat_toNat value]
  exact digits ⟨value.toNat, UInt8.lt_iff_toNat_lt.mp small⟩

theorem decodeUrl_percentEncode (text : List UInt8) : decodeUrl (percentEncode text) = (text, true) := by
  induction text with
  | nil => rfl
  | cons c text ih =>
    have small := c.toNat_lt
    have high : c / 16 < 16 := by
      simp only [UInt8.lt_iff_toNat_lt, UInt8.toNat_div, UInt8.reduceToNat]
      omega
    have low : c % 16 < 16 := by
      simp only [UInt8.lt_iff_toNat_lt, UInt8.toNat_mod, UInt8.reduceToNat]
      omega
    have whole : ((c / 16) <<< 4) + c % 16 = c := by
      simp only [← UInt8.toNat_inj, UInt8.toNat_add, UInt8.toNat_shiftLeft, UInt8.toNat_div, UInt8.toNat_mod,
        UInt8.reduceToNat, Nat.shiftLeft_eq]
      have four : 2 ^ (4 % 8) = 16 := rfl
      rw [four]
      omega
    rw [percentEncode, List.flatMap_cons, ← percentEncode]
    simp only [List.cons_append, List.nil_append, decodeUrl, if_true, decodeUrlGetHex_hexDigit high,
      decodeUrlGetHex_hexDigit low, ih, whole]

theorem decodeInPlace_percentEncode (text : List UInt8) :
    (decodeInPlace (percentEncode text)).2 = text.length ∧ text ++ [0] <+: (decodeInPlace (percentEncode text)).1 := by
  rw [decodeInPlace, decodeUrl_percentEncode]
  exact ⟨rfl, _, List.append_assoc text [0] _⟩

end Decoding

section Model

inductive FormDataType
  | text | binary | base64
  deriving DecidableEq

structure FormElement where
  formIndex : Nat
  hashIndex : Nat
  valueType : FormDataType
  name : Option (List UInt8)
  headers : Option (List UInt8)
  value : Option (List UInt8)
  size : Nat
  deriving DecidableEq

def initFormElement : FormElement := ⟨0, 0, .text, none, none, none, 0⟩

def ampersand : UInt8 := 0x26

def equalSign : UInt8 := 0x3D

def formElement (pName : List UInt8) : Option FormElement :=
  match memchr equalSign pName with
  | none => some { initFormElement with name := some (decodeInPlace pName).1 }
  | some pValue =>
    let ulNameLen := pName.length - pValue.length
    let ulValue := pName.length - ulNameLen - 1
    if ulNameLen = 0 then none
    else if ulValue ≠ 0 then
      some { initFormElement with
        name := some (decodeInPlace (pName.take ulNameLen)).1
        value := some (decodeInPlace (pValue.drop 1)).1
        size := (decodeInPlace (pValue.drop 1)).2 }
    else some { initFormElement with name := some (decodeInPlace (pName.take ulNameLen)).1 }

variable (machine : Machine)

def sizeofUlong : Nat := machine.ulongSize.bits / 8

def sizeofFormInput : Nat := sizeofUlong machine

def sizeofFormElement : Nat := 8 * sizeofUlong machine

def formInputSize (ulCount : Nat) : Nat :=
  (sizeofFormInput machine + ulCount * sizeofFormElement machine) % 2 ^ machine.ulongSize.bits

def nextItem (pBuf : List UInt8) : List UInt8 × List UInt8 :=
  match memchr ampersand pBuf with
  | some pAmp => (pBuf.take (pBuf.length - pAmp.length), pAmp.drop 1)
  | none => (pBuf, [])

theorem nextItem_length {pBuf : List UInt8} (some : pBuf ≠ []) : (nextItem pBuf).2.length < pBuf.length := by
  rw [nextItem]
  split
  next pAmp found =>
    obtain ⟨front, rest, rfl, -, rfl⟩ := memchr_split found
    simp only [List.drop_succ_cons, List.drop_zero, List.length_append, List.length_cons]
    omega
  next => exact List.length_pos_of_ne_nil some

-- The loop of `HttpSmpoParseQueryString`; there is no result where an element lies outside of the block.
def parseItems (ulCount : Nat) (elements : List FormElement) (pBuf : List UInt8) : Option (List FormElement) :=
  if pBuf = [] then some elements
  else if elements.length ≥ ulCount then some elements
  else if (nextItem pBuf).1 = [] then parseItems ulCount elements (nextItem pBuf).2
  else if sizeofFormInput machine + (elements.length + 1) * sizeofFormElement machine ≤
      formInputSize machine ulCount then
    match formElement (nextItem pBuf).1 with
    | some pElement => parseItems ulCount (elements ++ [pElement]) (nextItem pBuf).2
    | none => parseItems ulCount elements (nextItem pBuf).2
  else none
termination_by pBuf.length
decreasing_by all_goals exact nextItem_length ‹_›

def parseQueryString (buffer : List UInt8) : Option (Option (List FormElement)) :=
  let ulCount := (buffer.count ampersand + 1) % 2 ^ machine.ulongSize.bits
  (parseItems machine ulCount [] buffer).map fun elements => if elements = [] then none else some elements

end Model

section Purpose

def queryItem (item : List UInt8) : Option (List UInt8 × Option (List UInt8)) :=
  let name := item.takeWhile (· ≠ equalSign)
  if name = [] then none
  else some (name, if equalSign ∈ item then some ((item.dropWhile (· ≠ equalSign)).tail) else none)

def elementOf : List UInt8 × Option (List UInt8) → FormElement
  | (name, none) => { initFormElement with name := some (decodeInPlace name).1 }
  | (name, some []) => { initFormElement with name := some (decodeInPlace name).1 }
  | (name, some (first :: rest)) =>
    { initFormElement with
      name := some (decodeInPlace name).1
      value := some (decodeInPlace (first :: rest)).1
      size := (decodeInPlace (first :: rest)).2 }

def queryElements (text : List UInt8) : List FormElement :=
  (text.splitOn ampersand).filterMap fun item => (queryItem item).map elementOf

/-- The places of the array that the items are written to: one for every name, and the next one for an item
that gives its place back. -/
def placesUsed : List (List UInt8) → Nat
  | [] => 0
  | item :: rest =>
    if item = [] then placesUsed rest
    else if (queryItem item).isSome then placesUsed rest + 1
    else max 1 (placesUsed rest)

variable (machine : Machine)

def ParsesInside (text : List UInt8) : Prop :=
  parseQueryString machine text = some (if queryElements text = [] then none else some (queryElements text))

def PlacesFit (text : List UInt8) : Prop :=
  placesUsed (text.splitOn ampersand) = 0 ∨
    sizeofFormInput machine + placesUsed (text.splitOn ampersand) * sizeofFormElement machine ≤
      formInputSize machine (text.count ampersand + 1)

end Purpose

section Items

theorem queryItem_plain {name : List UInt8} (nonempty : name ≠ []) (free : equalSign ∉ name) :
    queryItem name = some (name, none) := by
  have whole : name.takeWhile (· ≠ equalSign) = name :=
    List.takeWhile_eq_self_iff.mpr fun byte member => decide_eq_true (ne_of_mem_of_not_mem member free)
  rw [queryItem, whole, if_neg nonempty, if_neg free]

theorem queryItem_assigned {name : List UInt8} (free : equalSign ∉ name) (value : List UInt8) :
    queryItem (name ++ equalSign :: value) = if name = [] then none else some (name, some value) := by
  have every : ∀ byte ∈ name, decide (byte ≠ equalSign) = true :=
    fun byte member => decide_eq_true (ne_of_mem_of_not_mem member free)
  have taken : (name ++ equalSign :: value).takeWhile (· ≠ equalSign) = name := by
    rw [List.takeWhile_append_of_pos every, List.takeWhile_cons_of_neg (by simp), List.append_nil]
  have dropped : (name ++ equalSign :: value).dropWhile (· ≠ equalSign) = equalSign :: value := by
    rw [List.dropWhile_append_of_pos every, List.dropWhile_cons_of_neg (by simp)]
  have inside : equalSign ∈ name ++ equalSign :: value := List.mem_append_right name List.mem_cons_self
  rw [queryItem]
  simp only [taken, dropped, List.tail_cons, if_pos inside]

theorem formElement_eq {item : List UInt8} (nonempty : item ≠ []) :
    formElement item = (queryItem item).map elementOf := by
  rw [formElement]
  split
  next absent =>
    rw [memchr_eq_none, List.count_eq_zero] at absent
    rw [queryItem_plain nonempty absent]
    rfl
  next pValue found =>
    obtain ⟨name, value, rfl, free, rfl⟩ := memchr_split found
    have nameLen : (name ++ equalSign :: value).length - (equalSign :: value).length = name.length := by
      rw [List.length_append, Nat.add_sub_cancel]
    have valueLen : (name ++ equalSign :: value).length - name.length - 1 = value.length := by
      simp only [List.length_append, List.length_cons]
      omega
    simp only [nameLen, valueLen, List.take_left, List.drop_succ_cons, List.drop_zero, queryItem_assigned free value]
    by_cases nameless : name = []
    next => rw [if_pos (List.length_eq_zero_iff.mpr nameless), if_pos nameless, Option.map_none]
    next =>
      rw [if_neg (mt List.length_eq_zero_iff.mp nameless), if_neg nameless, Option.map_some]
      cases value with
      | nil => rfl
      | cons first rest => rfl

theorem queryItem_nil : queryItem [] = none := rfl

theorem splitOn_nextItem {pBuf : List UInt8} (nonempty : pBuf ≠ []) :
    pBuf.splitOn ampersand = (nextItem pBuf).1 :: (nextItem pBuf).2.splitOn ampersand ∧
        pBuf.count ampersand = (nextItem pBuf).2.count ampersand + 1 ∨
      pBuf.splitOn ampersand = [(nextItem pBuf).1] ∧ (nextItem pBuf).2 = [] ∧ (nextItem pBuf).1 ≠ [] := by
  rw [nextItem]
  split
  next pAmp found =>
    obtain ⟨item, rest, rfl, free, rfl⟩ := memchr_split found
    have itemLen : (item ++ ampersand :: rest).length - (ampersand :: rest).length = item.length := by
      rw [List.length_append, Nat.add_sub_cancel]
    left
    simp only [itemLen, List.take_left, List.drop_succ_cons, List.drop_zero]
    refine ⟨List.splitOn_append_cons_self_of_not_mem free rest, ?_⟩
    rw [List.count_append, List.count_eq_zero.mpr free, List.count_cons_self, Nat.zero_add]
  next absent =>
    rw [memchr_eq_none, List.count_eq_zero] at absent
    exact .inr ⟨List.splitOn_eq_singleton absent, rfl, nonempty⟩

theorem queryElements_nextItem {pBuf : List UInt8} (nonempty : pBuf ≠ []) :
    queryElements pBuf = ((queryItem (nextItem pBuf).1).map elementOf).toList ++ queryElements (nextItem pBuf).2 := by
  obtain ⟨items, -⟩ | ⟨items, last, -⟩ := splitOn_nextItem nonempty
  next =>
    rw [queryElements, items, List.filterMap_cons]
    cases queryItem (nextItem pBuf).1 <;> rfl
  next =>
    rw [queryElements, items, last, List.filterMap_cons]
    cases queryItem (nextItem pBuf).1 <;> rfl

theorem placesUsed_nextItem {pBuf : List UInt8} (nonempty : pBuf ≠ []) :
    placesUsed (pBuf.splitOn ampersand) =
      placesUsed ((nextItem pBuf).1 :: (nextItem pBuf).2.splitOn ampersand) := by
  obtain ⟨items, -⟩ | ⟨items, last, -⟩ := splitOn_nextItem nonempty
  next => rw [items]
  next =>
    rw [items, last]
    rfl

end Items

section Runs

variable (machine : Machine)

def Inside (ulCount places : Nat) : Prop :=
  sizeofFormInput machine + places * sizeofFormElement machine ≤ formInputSize machine ulCount

instance (ulCount places : Nat) : Decidable (Inside machine ulCount places) := inferInstanceAs (Decidable (_ ≤ _))

theorem Inside.le {machine : Machine} {ulCount places fewer : Nat} (inside : Inside machine ulCount places)
    (less : fewer ≤ places) : Inside machine ulCount fewer :=
  Nat.le_trans (Nat.add_le_add_left (Nat.mul_le_mul_right _ less) _) inside

theorem placesUsed_cons {item : List UInt8} (nonempty : item ≠ []) (rest : List (List UInt8)) :
    placesUsed (item :: rest) = max 1 (placesUsed rest + (formElement item).toList.length) := by
  rw [placesUsed, if_neg nonempty, formElement_eq nonempty]
  cases queryItem item with
  | none => rfl
  | some pair =>
    rw [if_pos Option.isSome_some, Option.map_some, Option.toList_some, List.length_singleton]
    omega

theorem queryElements_cons {pBuf : List UInt8} (nonempty : pBuf ≠ []) (item : (nextItem pBuf).1 ≠ []) :
    queryElements pBuf = (formElement (nextItem pBuf).1).toList ++ queryElements (nextItem pBuf).2 := by
  rw [queryElements_nextItem nonempty, formElement_eq item]

theorem count_nextItem {pBuf : List UInt8} (nonempty : pBuf ≠ []) (more : (nextItem pBuf).2 ≠ []) :
    pBuf.count ampersand = (nextItem pBuf).2.count ampersand + 1 := by
  obtain ⟨-, counted⟩ | ⟨-, last, -⟩ := splitOn_nextItem nonempty
  next => exact counted
  next => exact absurd last more

theorem usedPlaces_step {inside : Nat → Prop} {result ended : Prop} {start pushed more : Nat} (most : pushed ≤ 1)
    (fits : inside (start + 1))
    (later : ((∀ places, start + pushed < places → places ≤ start + pushed + more → inside places) → result) ∧
      (ended → ∀ places, start + pushed < places → places ≤ start + pushed + more → inside places)) :
    ((∀ places, start < places → places ≤ start + max 1 (more + pushed) → inside places) → result) ∧
      (ended → ∀ places, start < places → places ≤ start + max 1 (more + pushed) → inside places) := by
  refine ⟨fun all => later.1 fun places beyond less => all places (by omega) (by omega),
    fun parsed places beyond less => ?_⟩
  by_cases next : places = start + 1
  next => exact next ▸ fits
  next => exact later.2 parsed places (by omega) (by omega)

theorem parseItems_eq (ulCount : Nat) (elements : List FormElement) (pBuf : List UInt8)
    (enough : pBuf ≠ [] → elements.length + pBuf.count ampersand < ulCount) :
    ((∀ places, elements.length < places → places ≤ elements.length + placesUsed (pBuf.splitOn ampersand) →
      Inside machine ulCount places) →
        parseItems machine ulCount elements pBuf = some (elements ++ queryElements pBuf)) ∧
    (parseItems machine ulCount elements pBuf ≠ none →
      ∀ places, elements.length < places → places ≤ elements.length + placesUsed (pBuf.splitOn ampersand) →
        Inside machine ulCount places) := by
  fun_induction parseItems machine ulCount elements pBuf with
  | case1 elements =>
    refine ⟨fun _ => congrArg some (List.append_nil elements).symm, fun _ places more less => ?_⟩
    have none : placesUsed ([].splitOn ampersand) = 0 := rfl
    omega
  | case2 elements pBuf nonempty full =>
    have within := enough nonempty
    omega
  | case3 elements pBuf nonempty within item ih =>
    rw [placesUsed_nextItem nonempty, placesUsed, if_pos item, queryElements_nextItem nonempty, item]
    apply ih
    intro more
    have counted := count_nextItem nonempty more
    have before := enough nonempty
    omega
  | case4 elements pBuf nonempty within item fits pElement known ih =>
    rw [placesUsed_nextItem nonempty, placesUsed_cons item, queryElements_cons nonempty item, known,
      Option.toList_some, List.length_singleton, ← List.append_assoc]
    rw [List.length_append, List.length_singleton] at ih
    refine usedPlaces_step (Nat.le_refl 1) fits (ih fun more => ?_)
    have counted := count_nextItem nonempty more
    have before := enough nonempty
    omega
  | case5 elements pBuf nonempty within item fits known ih =>
    rw [placesUsed_nextItem nonempty, placesUsed_cons item, queryElements_cons nonempty item, known,
      Option.toList_none, List.length_nil, List.nil_append]
    refine usedPlaces_step (Nat.zero_le 1) fits (ih fun more => ?_)
    have counted := count_nextItem nonempty more
    have before := enough nonempty
    omega
  | case6 elements pBuf nonempty within item outside =>
    refine ⟨fun inside => absurd (inside (elements.length + 1) (by omega) ?_) outside, fun ended => absurd rfl ended⟩
    rw [placesUsed_nextItem nonempty, placesUsed_cons item]
    omega

theorem placesUsed_separators (count : Nat) :
    placesUsed ((List.replicate count ampersand).splitOn ampersand) = 0 := by
  induction count with
  | zero => rfl
  | succ count ih =>
    have split := List.splitOn_append_cons_self_of_not_mem (a := ampersand) List.not_mem_nil
      (List.replicate count ampersand)
    rw [List.replicate_succ, ← List.nil_append (ampersand :: _), split, placesUsed, if_pos rfl, ih]

theorem queryElements_separators (count : Nat) : queryElements (List.replicate count ampersand) = [] := by
  induction count with
  | zero => rfl
  | succ count ih =>
    have split := List.splitOn_append_cons_self_of_not_mem (a := ampersand) List.not_mem_nil
      (List.replicate count ampersand)
    rw [List.replicate_succ, ← List.nil_append (ampersand :: _), queryElements, split, List.filterMap_cons,
      queryItem_nil]
    exact ih

theorem placesUsed_letter (count : Nat) :
    1 ≤ placesUsed ((0x61 :: List.replicate (count + 1) ampersand).splitOn ampersand) := by
  have split := @List.splitOn_append_cons_self_of_not_mem _ [0x61] _ _ ampersand (by decide)
    (List.replicate count ampersand)
  rw [List.replicate_succ, ← List.singleton_append, split, placesUsed_cons (List.cons_ne_nil _ _)]
  exact Nat.le_max_left _ _

theorem length_splitOn (text : List UInt8) : (text.splitOn ampersand).length = text.count ampersand + 1 := by
  induction text with
  | nil => rfl
  | cons byte text ih =>
    rw [List.splitOn_cons_eq_if_modifyHead, List.count_cons]
    split
    next => rw [List.length_cons, ih]
    next => rw [List.length_modifyHead, ih, Nat.add_zero]

theorem placesUsed_le_length (items : List (List UInt8)) : placesUsed items ≤ items.length := by
  induction items with
  | nil => exact Nat.le_refl 0
  | cons item items ih =>
    rw [placesUsed, List.length_cons]
    split
    next => omega
    next => split <;> omega

theorem placesUsed_le (text : List UInt8) : placesUsed (text.splitOn ampersand) ≤ text.count ampersand + 1 :=
  length_splitOn text ▸ placesUsed_le_length _

theorem placesFit_iff (text : List UInt8) : PlacesFit machine text ↔
    ∀ places, 0 < places → places ≤ placesUsed (text.splitOn ampersand) →
      Inside machine (text.count ampersand + 1) places := by
  constructor
  next =>
    rintro (none | inside) places some less
    next => omega
    next => exact Inside.le inside less
  next =>
    intro inside
    by_cases none : placesUsed (text.splitOn ampersand) = 0
    next => exact .inl none
    next => exact .inr (inside _ (Nat.pos_of_ne_zero none) (Nat.le_refl _))

theorem parsesInside_iff {text : List UInt8} (counts : text.count ampersand + 1 < 2 ^ machine.ulongSize.bits) :
    ParsesInside machine text ↔ PlacesFit machine text := by
  rw [ParsesInside, parseQueryString, Nat.mod_eq_of_lt counts, placesFit_iff]
  have run := parseItems_eq machine (text.count ampersand + 1) [] text fun _ => by
    rw [List.length_nil]
    omega
  simp only [List.length_nil, Nat.zero_add, List.nil_append] at run
  constructor
  next =>
    intro parsed
    apply run.2
    intro outside
    rw [outside] at parsed
    cases parsed
  next =>
    intro inside
    rw [run.1 inside, Option.map_some]

theorem placesFit_of_small {text : List UInt8} (small : sizeofFormInput machine +
    (text.count ampersand + 1) * sizeofFormElement machine < 2 ^ machine.ulongSize.bits) :
    PlacesFit machine text := by
  refine .inr ?_
  rw [formInputSize, Nat.mod_eq_of_lt small]
  exact Nat.add_le_add_left (Nat.mul_le_mul_right _ (placesUsed_le text)) _

theorem query_string_parsed (text : List UInt8) (held : text.length < 2 ^ machine.ulongSize.bits) :
    ParsesInside machine text ↔ PlacesFit machine text := by
  have most := List.count_le_length (a := ampersand) (l := text)
  by_cases counts : text.count ampersand + 1 < 2 ^ machine.ulongSize.bits
  next => exact parsesInside_iff machine counts
  -- the count wraps: there are only separators, and no place is asked for
  have wraps : text.count ampersand + 1 = 2 ^ machine.ulongSize.bits := by omega
  have separators : text = List.replicate text.length ampersand := by
    rw [List.eq_replicate_iff]
    refine ⟨rfl, fun byte member => ?_⟩
    exact (List.count_eq_length.mp (by omega) byte member).symm
  refine iff_of_true ?_ (.inl ?_)
  next =>
    have stops : parseItems machine 0 [] text = some [] := by
      rw [parseItems]
      split
      next => rfl
      next => exact if_pos (Nat.zero_le _)
    rw [ParsesInside, parseQueryString, wraps, Nat.mod_self, stops, separators, queryElements_separators]
    rfl
  next =>
    rw [separators]
    exact placesUsed_separators _

theorem query_string_parsed_pair : ParsesInside ⟨.four, false, true⟩ [0x61, 0x3D, 0x31, 0x26, 0x26, 0x62] :=
  (query_string_parsed _ _ (by decide)).mpr (.inr (by decide))

theorem query_string_overruns : ¬ ∀ (machine : Machine) (text : List UInt8),
    text.length < 2 ^ machine.ulongSize.bits → ParsesInside machine text := by
  intro every
  have size : (0x61 :: List.replicate (134217726 + 1) ampersand).length < 2 ^ 32 := by
    rw [List.length_cons, List.length_replicate]
    decide
  have count : (0x61 :: List.replicate (134217726 + 1) ampersand).count ampersand + 1 = 134217728 := by
    rw [List.count_cons_of_ne (by decide), List.count_replicate_self]
  have fits := (parsesInside_iff ⟨.four, false, true⟩ (count.symm ▸ by decide)).mp (every ⟨.four, false, true⟩ _ size)
  have inside := (placesFit_iff _ _).mp fits 1 Nat.one_pos (placesUsed_letter 134217726)
  rw [count] at inside
  exact absurd inside (by decide)

end Runs

end CcspCommon.HttpSmpo
