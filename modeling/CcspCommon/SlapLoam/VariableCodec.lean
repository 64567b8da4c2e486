import CcspCommon.SlapLoam.ImcpVariable

set_option autoImplicit false

namespace CcspCommon.SlapLoam

open CcspCommon.AnscAsn1 (ulongSize networkMemory)
open CcspCommon.AnscPlatform
open CcspCommon.Shared (writeAt writeAt_part writeAt_room foldlM_appends)

section Codec

variable (machine : Machine)

def Variant.octets : Variant → List UInt8
  | other .. => []
  | bool value | uint32 value | ptr value | handle value | object value => networkMemory machine value
  | int value => networkMemory machine (ulongOfInt machine value)
  | boolArray array | uint32Array array | ptrArray array | handleArray array | objectArray array =>
    (array.getD []).flatMap (networkMemory machine)
  | intArray array => (array.getD []).flatMap fun value => networkMemory machine (ulongOfInt machine value)
  | charArray array | ucharArray array => array.getD []
  | string none => []
  | string (some varString) => varString ++ [0]
  | stringArray array => (array.getD []).flatMap fun element => element.getD [] ++ [0]

def packed (contentType varSyntax flags : Nat) (data : List UInt8) : List UInt8 :=
  networkMemory machine contentType ++ (networkMemory machine varSyntax ++
    (networkMemory machine data.length ++ (networkMemory machine flags ++ data)))

def SlapVariable.encode (slap_var : SlapVariable) : List UInt8 :=
  packed machine slap_var.contentType slap_var.variant.varSyntax 0 (slap_var.variant.octets machine)

/-- The numbers fit the four octets of a `ULONG` that travel, and a string ends where it ends. An `int` has the
size of a `ULONG`; on other machines it takes more octets than are counted for it. -/
def Variant.Fits : Variant → Prop
  | other varSyntax _ => varSyntax < 2 ^ 32
  | bool value | uint32 value | ptr value | handle value | object value => value < 2 ^ 32
  | int value => ulongSize machine = intSize ∧ -2 ^ 31 ≤ value ∧ value < 2 ^ 31
  | boolArray array | uint32Array array | ptrArray array | handleArray array | objectArray array =>
    ∀ value ∈ array.getD [], value < 2 ^ 32
  | intArray array => ulongSize machine = intSize ∧ ∀ value ∈ array.getD [], -2 ^ 31 ≤ value ∧ value < 2 ^ 31
  | charArray _ | ucharArray _ => True
  | string varString => 0 ∉ varString.getD []
  | stringArray array => ∀ element ∈ array.getD [], 0 ∉ element.getD []

instance (variant : Variant) : Decidable (variant.Fits machine) := by
  cases variant <;> unfold Variant.Fits <;> infer_instance

structure SlapVariable.Fits (slap_var : SlapVariable) : Prop where
  contentType : slap_var.contentType < 2 ^ 32
  variant : slap_var.variant.Fits machine
  size : (slap_var.variant.octets machine).length + varHeaderSize machine < 2 ^ 32

-- NULL is an empty array behind a message, or an empty string in an array.
def Variant.received : Variant → Variant
  | boolArray array => .boolArray (some (array.getD []))
  | charArray array => .charArray (some (array.getD []))
  | intArray array => .intArray (some (array.getD []))
  | stringArray array => .stringArray (some ((array.getD []).map fun element => some (element.getD [])))
  | ucharArray array => .ucharArray (some (array.getD []))
  | uint32Array array => .uint32Array (some (array.getD []))
  | ptrArray array => .ptrArray (some (array.getD []))
  | handleArray array => .handleArray (some (array.getD []))
  | objectArray array => .objectArray (some (array.getD []))
  | variant => variant

def SlapVariable.received (slap_var : SlapVariable) : SlapVariable :=
  ⟨none, slap_var.contentType, 0, 0, slap_var.variant.received⟩

end Codec

section Fields

variable {machine : Machine} {contentType varSyntax flags : Nat} {data : List UInt8}

@[simp] theorem length_packed (contentType varSyntax flags : Nat) (data : List UInt8) :
    (packed machine contentType varSyntax flags data).length = varHeaderSize machine + data.length := by
  simp only [packed, List.length_append, length_networkMemory, varHeaderSize]
  omega

@[simp] theorem length_encode (slap_var : SlapVariable) :
    (slap_var.encode machine).length = varHeaderSize machine + (slap_var.variant.octets machine).length :=
  length_packed ..

theorem getUlong_skip (front block : List UInt8) (place : Nat) :
    getUlong machine (front ++ block) (front.length + place) = getUlong machine block place := by
  simp only [getUlong, List.length_append, List.drop_length_add_append]
  exact if_congr (by omega) rfl rfl

theorem getUlong_front {value : Nat} (small : value < 2 ^ 32) (behind : List UInt8) :
    getUlong machine (networkMemory machine value ++ behind) 0 = some value := by
  rw [getUlong, if_pos (by simp), List.drop_zero, ulongFromNToH_network small]

theorem getUlong_word (value place : Nat) (behind : List UInt8) :
    getUlong machine (networkMemory machine value ++ behind) (ulongSize machine + place) =
      getUlong machine behind place := by
  rw [← length_networkMemory machine value, getUlong_skip]

variable (front back : List UInt8)

theorem getContentType_packed (small : contentType < 2 ^ 32) :
    getContentType machine (front ++ (packed machine contentType varSyntax flags data ++ back)) front.length =
      some contentType := by
  have skipped (block : List UInt8) : getUlong machine (front ++ block) front.length = getUlong machine block 0 :=
    getUlong_skip front block 0
  rw [getContentType, skipped, packed, List.append_assoc, getUlong_front small]

theorem getSyntax_packed (small : varSyntax < 2 ^ 32) :
    getSyntax machine (front ++ (packed machine contentType varSyntax flags data ++ back)) front.length =
      some varSyntax := by
  have one : ulongSize machine = ulongSize machine + 0 := rfl
  rw [getSyntax, getUlong_skip, packed, List.append_assoc, one, getUlong_word, List.append_assoc, getUlong_front small]

theorem getLength_packed (small : data.length < 2 ^ 32) :
    getLength machine (front ++ (packed machine contentType varSyntax flags data ++ back)) front.length =
      some data.length := by
  have two : 2 * ulongSize machine = ulongSize machine + (ulongSize machine + 0) := by omega
  simp only [getLength, getUlong_skip, packed, List.append_assoc, two, getUlong_word, getUlong_front small]

theorem getFlags_packed (small : flags < 2 ^ 32) :
    getFlags machine (front ++ (packed machine contentType varSyntax flags data ++ back)) front.length =
      some flags := by
  have three : 3 * ulongSize machine = ulongSize machine + (ulongSize machine + (ulongSize machine + 0)) := by omega
  simp only [getFlags, getUlong_skip, packed, List.append_assoc, three, getUlong_word, getUlong_front small]

theorem split_data :
    ∃ head, front ++ (packed machine contentType varSyntax flags data ++ back) = head ++ (data ++ back) ∧
      head.length = getData machine front.length := by
  refine ⟨front ++ (networkMemory machine contentType ++ (networkMemory machine varSyntax ++
    (networkMemory machine data.length ++ networkMemory machine flags))), ?_, ?_⟩
  next => simp only [packed, List.append_assoc]
  next =>
    simp only [List.length_append, length_networkMemory, getData, varHeaderSize]
    omega

end Fields

section Writing

variable {machine : Machine}

theorem setUlong_part (front : List UInt8) (old value : Nat) (back : List UInt8) :
    setUlong machine (front ++ (networkMemory machine old ++ back)) front.length value =
      some (front ++ (networkMemory machine value ++ back)) :=
  writeAt_part front (by simp) back

theorem setUlong_room (front : List UInt8) {room : List UInt8} (enough : ulongSize machine ≤ room.length)
    (value : Nat) :
    setUlong machine (front ++ room) front.length value =
      some (front ++ (networkMemory machine value ++ room.drop (ulongSize machine))) := by
  have fits : (networkMemory machine value).length ≤ room.length := by simpa using enough
  have written := writeAt_room front room fits
  rwa [length_networkMemory] at written

theorem appendData_packed (front : List UInt8) (contentType varSyntax flags : Nat) {held data room : List UInt8}
    (small : (held ++ data).length < 2 ^ 32) (enough : data.length ≤ room.length) :
    appendData machine (front ++ (packed machine contentType varSyntax flags held ++ room)) front.length data =
      some (front ++ (packed machine contentType varSyntax flags (held ++ data) ++ room.drop data.length)) := by
  have smaller : held.length < 2 ^ 32 := by
    simp only [List.length_append] at small
    omega
  have bits : 2 ^ 32 ≤ 2 ^ (8 * ulongSize machine) := by
    obtain ⟨-, size⟩ | ⟨-, size⟩ := CcspCommon.AnscAsn1.ulongSize_cases machine <;> simp [size]
  have sum : ulong machine (held.length + data.length) = (held ++ data).length := by
    rw [← List.length_append]
    exact Nat.mod_eq_of_lt (by omega)
  have end_of_data : getData machine front.length + held.length =
      (front ++ packed machine contentType varSyntax flags held).length := by
    simp only [getData, List.length_append, length_packed]
    omega
  have length : getLength machine (front ++ (packed machine contentType varSyntax flags held ++ room)) front.length =
      some held.length := getLength_packed front room smaller
  have written := writeAt_room (front ++ packed machine contentType varSyntax flags held) room enough
  rw [← end_of_data, List.append_assoc] at written
  have length_place : front.length + 2 * ulongSize machine =
      (front ++ (networkMemory machine contentType ++ networkMemory machine varSyntax)).length := by
    simp only [List.length_append, length_networkMemory]
    omega
  simp only [appendData, Option.bind_eq_bind, length, Option.bind_some, written, setLength, sum, length_place]
  have updated := @setUlong_part machine
    (front ++ (networkMemory machine contentType ++ networkMemory machine varSyntax)) held.length (held ++ data).length
    (networkMemory machine flags ++ (held ++ (data ++ room.drop data.length)))
  simpa [packed, List.append_assoc] using updated

theorem setUlong_next (front words : List UInt8) {room : List UInt8} (enough : ulongSize machine ≤ room.length)
    {place : Nat} (next : place = front.length + words.length) (value : Nat) :
    setUlong machine (front ++ (words ++ room)) place value =
      some (front ++ ((words ++ networkMemory machine value) ++ room.drop (ulongSize machine))) := by
  rw [next, ← List.length_append, ← List.append_assoc, setUlong_room _ enough]
  simp only [List.append_assoc]

theorem startImcpVar_spec (front : List UInt8) {room : List UInt8} (enough : varHeaderSize machine ≤ room.length)
    (contentType varSyntax : Nat) :
    startImcpVar machine (front ++ room) contentType varSyntax front.length =
      some (front ++ (packed machine contentType varSyntax 0 [] ++ room.drop (varHeaderSize machine))) := by
  simp only [varHeaderSize] at enough
  have first : ulongSize machine ≤ room.length := by omega
  have second : ulongSize machine ≤ (room.drop (ulongSize machine)).length := by simp; omega
  have third : ulongSize machine ≤ ((room.drop (ulongSize machine)).drop (ulongSize machine)).length := by simp; omega
  have fourth : ulongSize machine ≤
      (((room.drop (ulongSize machine)).drop (ulongSize machine)).drop (ulongSize machine)).length := by simp; omega
  have four : ulongSize machine + ulongSize machine + ulongSize machine + ulongSize machine =
    varHeaderSize machine := by
    simp only [varHeaderSize]
    omega
  simp only [startImcpVar, Option.bind_eq_bind, setLength, setFlags, setUlong_room front first contentType,
    Option.bind_some]
  rw [setUlong_next front _ second (by simp) varSyntax, Option.bind_some,
    setUlong_next front _ third (by simp; omega) 0, Option.bind_some, setUlong_next front _ fourth (by simp; omega) 0]
  simp [packed, List.drop_drop, four, List.append_assoc]

theorem foldlM_packed {B : Type} (front : List UInt8) (contentType varSyntax flags : Nat) {piece : B → List UInt8}
    {step : List UInt8 → B → Option (List UInt8)}
    (appends : ∀ block item, step block item = appendData machine block front.length (piece item)) {items : List B}
    {room : List UInt8} (small : (items.flatMap piece).length < 2 ^ 32)
    (enough : (items.flatMap piece).length ≤ room.length) :
    items.foldlM step (front ++ (packed machine contentType varSyntax flags [] ++ room)) =
      some (front ++ (packed machine contentType varSyntax flags (items.flatMap piece) ++
        room.drop (items.flatMap piece).length)) := by
  let state (held : List UInt8) : List UInt8 :=
    front ++ (packed machine contentType varSyntax flags held ++ room.drop held.length)
  have one (held : List UInt8) (item : B) (fits : (held ++ piece item).length ≤ (items.flatMap piece).length) :
      step (state held) item = some (state (held ++ piece item)) := by
    have inside : (piece item).length ≤ (room.drop held.length).length := by
      rw [List.length_append] at fits
      rw [List.length_drop]
      omega
    simp only [state, appends, appendData_packed front contentType varSyntax flags (fits.trans_lt small) inside,
      List.drop_drop, List.length_append]
  have loop : items.foldlM step (state []) = some (state ([] ++ items.flatMap piece)) :=
    foldlM_appends one items (by simp)
  simpa [state] using loop

theorem appendVariant_spec (front : List UInt8) (contentType varSyntax : Nat) {variant : Variant} {room : List UInt8}
    (small : (variant.octets machine).length < 2 ^ 32) (enough : (variant.octets machine).length ≤ room.length) :
    appendVariant machine (front ++ (packed machine contentType varSyntax 0 [] ++ room)) front.length variant =
      some (front ++ (packed machine contentType varSyntax 0 (variant.octets machine) ++
        room.drop (variant.octets machine).length)) := by
  have once {data : List UInt8} (same : variant.octets machine = data) :
      appendData machine (front ++ (packed machine contentType varSyntax 0 [] ++ room)) front.length data =
        some (front ++ (packed machine contentType varSyntax 0 data ++ room.drop data.length)) := by
    subst same
    exact appendData_packed front _ _ _ small enough
  cases variant with
  | other unknown => simp [appendVariant, Variant.octets]
  | bool value | uint32 value | ptr value | handle value | object value => exact once rfl
  | int value => exact once rfl
  | boolArray array | uint32Array array | ptrArray array | handleArray array | objectArray array =>
    exact foldlM_packed front _ _ _ (fun _ _ => rfl) small enough
  | intArray array => exact foldlM_packed front _ _ _ (fun _ _ => rfl) small enough
  | charArray array | ucharArray array =>
    have octets : (array.getD []).flatMap (fun value => [value]) = array.getD [] := by simp
    simp only [Variant.octets] at small enough ⊢
    rw [← octets] at small enough
    have appends (block : List UInt8) (value : UInt8) :
        appendUchar machine block front.length value = appendData machine block front.length [value] := rfl
    have loop := foldlM_packed front contentType varSyntax 0 appends small enough
    simpa only [appendVariant, octets] using loop
  | string varString =>
    cases varString with
    | none => simp [appendVariant, Variant.octets]
    | some varString => exact once rfl
  | stringArray array =>
    refine foldlM_packed front _ _ _ (fun block element => ?_) small enough
    cases element <;> rfl

theorem convToImcpVar_spec (front : List UInt8) {slap_var : SlapVariable} {room : List UInt8}
    (small : (slap_var.variant.octets machine).length < 2 ^ 32)
    (enough : (slap_var.encode machine).length ≤ room.length) :
    convToImcpVar machine (front ++ room) slap_var front.length =
      some (front ++ (slap_var.encode machine ++ room.drop (slap_var.encode machine).length)) := by
  rw [length_encode] at enough ⊢
  have inside : (slap_var.variant.octets machine).length ≤ (room.drop (varHeaderSize machine)).length := by
    rw [List.length_drop]
    omega
  have header : varHeaderSize machine ≤ room.length := by omega
  rw [convToImcpVar, startImcpVar_spec front header, Option.bind_eq_bind, Option.bind_some,
    appendVariant_spec front _ _ small inside, List.drop_drop]
  rfl

end Writing

section Reading

variable {machine : Machine}

theorem getUlong_at (front : List UInt8) {value : Nat} (small : value < 2 ^ 32) (back : List UInt8) :
    getUlong machine (front ++ (networkMemory machine value ++ back)) front.length = some value := by
  have skipped : getUlong machine (front ++ (networkMemory machine value ++ back)) front.length =
      getUlong machine (networkMemory machine value ++ back) 0 := getUlong_skip front _ 0
  rw [skipped, getUlong_front small]

theorem ulongsFromImcpVar_spec (front : List UInt8) {values : List Nat} (small : ∀ value ∈ values, value < 2 ^ 32)
    (back : List UInt8) :
    ulongsFromImcpVar machine (front ++ (values.flatMap (networkMemory machine) ++ back)) front.length values.length =
      some values := by
  induction values generalizing front with
  | nil => rfl
  | cons value rest ih =>
    simp only [List.forall_mem_cons] at small
    have next : front.length + ulongSize machine = (front ++ networkMemory machine value).length := by simp
    have later := ih (front ++ networkMemory machine value) small.2
    simp only [List.append_assoc] at later
    simp only [List.flatMap_cons, List.append_assoc, List.length_cons, ulongsFromImcpVar, getUlong_at front small.1,
      Option.bind_eq_bind, Option.bind_some, next, later, Option.pure_def]

theorem length_ulongs (values : List Nat) :
    (values.flatMap (networkMemory machine)).length = values.length * ulongSize machine := by
  simp [List.length_flatMap]

theorem allocUlongArray_spec (front : List UInt8) {values : List Nat} (small : ∀ value ∈ values, value < 2 ^ 32)
    (back : List UInt8) :
    allocUlongArrayFromImcpVar machine (front ++ (values.flatMap (networkMemory machine) ++ back)) front.length
      (values.flatMap (networkMemory machine)).length = some values := by
  rw [allocUlongArrayFromImcpVar, length_ulongs, Nat.mul_div_cancel _ (ulongSize_pos machine),
    ulongsFromImcpVar_spec front small]

theorem stringAt_spec (front : List UInt8) {text : List UInt8} (ends : 0 ∉ text) (back : List UInt8) :
    stringAt (front ++ (text ++ 0 :: back)) front.length = some text := by
  have whole : (text ++ 0 :: back).takeWhile (· ≠ 0) = text := by
    have filled : ∀ octet ∈ text, decide (octet ≠ 0) = true :=
      fun octet member => decide_eq_true fun zero => ends (zero ▸ member)
    rw [List.takeWhile_append_of_pos filled]
    simp
  rw [stringAt, List.drop_left, if_pos (by simp), whole]

theorem stringsFromImcpVar_spec (front : List UInt8) {texts : List (List UInt8)} (ends : ∀ text ∈ texts, 0 ∉ text)
    (back : List UInt8) :
    stringsFromImcpVar (front ++ (texts.flatMap (· ++ [0]) ++ back)) front.length texts.length =
      some (texts.map some) := by
  induction texts generalizing front with
  | nil => rfl
  | cons text rest ih =>
    simp only [List.forall_mem_cons] at ends
    have next : front.length + text.length + 1 = (front ++ (text ++ [0])).length := by
      simp only [List.length_append, List.length_singleton]
      omega
    have later := ih (front ++ (text ++ [0])) ends.2
    have first := stringAt_spec front ends.1 (rest.flatMap (· ++ [0]) ++ back)
    simp only [List.append_assoc, List.singleton_append] at later first
    simp only [List.flatMap_cons, List.append_assoc, List.nil_append, List.cons_append, List.length_cons,
      stringsFromImcpVar, first, Option.bind_eq_bind, Option.bind_some, next, later, Option.pure_def, List.map_cons]

theorem count_zeros {texts : List (List UInt8)} (ends : ∀ text ∈ texts, 0 ∉ text) :
    (texts.flatMap (· ++ [0])).count 0 = texts.length := by
  induction texts with
  | nil => rfl
  | cons text rest ih =>
    simp only [List.forall_mem_cons] at ends
    simp [List.count_eq_zero_of_not_mem ends.1, ih ends.2]

theorem allocUcharArray_spec (front octets back : List UInt8) :
    allocUcharArrayFromImcpVar (front ++ (octets ++ back)) front.length octets.length = some octets := by
  simp [allocUcharArrayFromImcpVar]

theorem allocStringArray_spec (front : List UInt8) {texts : List (List UInt8)} (ends : ∀ text ∈ texts, 0 ∉ text)
    (back : List UInt8) :
    allocStringArrayFromImcpVar (front ++ (texts.flatMap (· ++ [0]) ++ back)) front.length
      (texts.flatMap (· ++ [0])).length = some (texts.map some) := by
  simp only [allocStringArrayFromImcpVar, allocUcharArray_spec, Option.bind_eq_bind, Option.bind_some, count_zeros ends,
    stringsFromImcpVar_spec front ends]

theorem intOfUlong_ulongOfInt {value : Int} (word : ulongSize machine = intSize) (low : -2 ^ 31 ≤ value)
    (high : value < 2 ^ 31) :
    ulongOfInt machine value < 2 ^ 32 ∧ intOfUlong (ulongOfInt machine value) = value := by
  have bits : machine.ulongSize.bits = 32 := by
    rw [ulongSize, intSize] at word
    cases size : machine.ulongSize with
    | four => rfl
    | eight => rw [size] at word; cases word
  simp only [ulongOfInt, intOfUlong, bits]
  constructor
  · omega
  · split <;> omega

theorem allocIntArray_spec (front : List UInt8) {values : List Int} (word : ulongSize machine = intSize)
    (range : ∀ value ∈ values, -2 ^ 31 ≤ value ∧ value < 2 ^ 31) (back : List UInt8) :
    allocIntArrayFromImcpVar machine
      (front ++ (values.flatMap (fun value => networkMemory machine (ulongOfInt machine value)) ++ back)) front.length
      (values.flatMap fun value => networkMemory machine (ulongOfInt machine value)).length = some values := by
  have ulongs : values.flatMap (fun value => networkMemory machine (ulongOfInt machine value)) =
      (values.map (ulongOfInt machine)).flatMap (networkMemory machine) := by
    rw [List.flatMap_map]
  have small : ∀ value ∈ values.map (ulongOfInt machine), value < 2 ^ 32 := by
    simp only [List.forall_mem_map]
    exact fun value member => (intOfUlong_ulongOfInt word (range value member).1 (range value member).2).1
  have back_again : (values.map (ulongOfInt machine)).map intOfUlong = values := by
    rw [List.map_map]
    conv_rhs => rw [← List.map_id values]
    refine List.map_congr_left fun value member => ?_
    exact (intOfUlong_ulongOfInt word (range value member).1 (range value member).2).2
  have count : (values.map (ulongOfInt machine)).length * ulongSize machine / intSize =
      (values.map (ulongOfInt machine)).length := by
    rw [word]
    exact Nat.mul_div_cancel _ (by decide)
  rw [allocIntArrayFromImcpVar, ulongs, length_ulongs, count, ulongsFromImcpVar_spec front small]
  simp [back_again]

theorem variantFromImcpVar_spec (front : List UInt8) (contentType flags : Nat) {variant : Variant}
    (fits : variant.Fits machine) (small : (variant.octets machine).length < 2 ^ 32) (back : List UInt8) :
    variantFromImcpVar machine (front ++ (packed machine contentType variant.varSyntax flags (variant.octets machine) ++
      back)) front.length variant.varSyntax = some variant.received := by
  have length : getLength machine (front ++ (packed machine contentType variant.varSyntax flags
      (variant.octets machine) ++ back)) front.length = some (variant.octets machine).length :=
    getLength_packed front back small
  obtain ⟨head, split, data⟩ : ∃ head, front ++ (packed machine contentType variant.varSyntax flags
      (variant.octets machine) ++ back) = head ++ (variant.octets machine ++ back) ∧
        head.length = getData machine front.length := split_data front back
  rw [split] at length ⊢
  simp only [variantFromImcpVar, length, ← data, Option.bind_some]
  cases variant with
  | other varSyntax unknown =>
    simp only [Variant.varSyntax]
    split <;> first | omega | simp [unknown, Variant.received]
  | bool value | uint32 value | ptr value | handle value | object value =>
    simp [Variant.varSyntax, Variant.octets, Variant.received, getUlong_at head fits]
  | int value =>
    obtain ⟨word, low, high⟩ := fits
    obtain ⟨fits, same⟩ := intOfUlong_ulongOfInt word low high
    simp [Variant.varSyntax, Variant.octets, Variant.received, getUlong_at head fits, same]
  | boolArray array | uint32Array array | ptrArray array | handleArray array | objectArray array =>
    simp only [Variant.varSyntax, Variant.octets, Variant.received, allocUlongArray_spec head fits]
    simp
  | intArray array =>
    simp only [Variant.varSyntax, Variant.octets, Variant.received, allocIntArray_spec head fits.1 fits.2]
    simp
  | charArray array | ucharArray array =>
    simp only [Variant.varSyntax, Variant.octets, Variant.received, allocUcharArray_spec]
    simp
  | string varString =>
    cases varString with
    | none => simp [Variant.varSyntax, Variant.octets, Variant.received]
    | some varString =>
      have text : stringAt (head ++ (varString ++ 0 :: back)) head.length = some varString :=
        stringAt_spec head fits back
      simp [Variant.varSyntax, Variant.octets, Variant.received, text]
  | stringArray array =>
    have texts : (array.getD []).flatMap (fun element => element.getD [] ++ [0]) =
        ((array.getD []).map fun element => element.getD []).flatMap (· ++ [0]) := by
      rw [List.flatMap_map]
    have ends : ∀ text ∈ (array.getD []).map fun element => element.getD [], 0 ∉ text := by
      rw [List.forall_mem_map]
      exact fits
    simp only [Variant.varSyntax, Variant.octets, Variant.received, texts, allocStringArray_spec head ends]
    simp

theorem convFromImcpVar_encode (front : List UInt8) {slap_var : SlapVariable} (fits : slap_var.Fits machine)
    (back : List UInt8) :
    convFromImcpVar machine (front ++ (slap_var.encode machine ++ back)) front.length = some slap_var.received := by
  have data : (slap_var.variant.octets machine).length < 2 ^ 32 := by
    have := fits.size
    omega
  have kind : slap_var.variant.varSyntax < 2 ^ 32 := by
    have variant := fits.variant
    cases same : slap_var.variant with
    | other varSyntax unknown => simpa only [same, Variant.Fits, Variant.varSyntax] using variant
    | _ => simp [Variant.varSyntax]
  have flags : getFlags machine (front ++ (slap_var.encode machine ++ back)) front.length = some 0 :=
    getFlags_packed front back (by decide)
  have name : nameFromImcpVar machine (front ++ (slap_var.encode machine ++ back)) front.length
      slap_var.variant.varSyntax = some none := by
    by_cases object : slap_var.variant.varSyntax = 15 <;> simp [nameFromImcpVar, object, flags]
  simp only [SlapVariable.encode] at name ⊢
  simp only [convFromImcpVar, getContentType_packed front back fits.contentType, getSyntax_packed front back kind, name,
    variantFromImcpVar_spec front _ _ fits.variant data, Option.bind_eq_bind, Option.bind_some]
  rfl

def encodeObject (machine : Machine) (contentType varObject ulObjType : Nat) (pObjName : List UInt8) : List UInt8 :=
  packed machine contentType 15 (flagObjType ||| flagObjName)
    (networkMemory machine varObject ++ (networkMemory machine ulObjType ++ (pObjName ++ [0])))

theorem convFromImcpVar_object (front : List UInt8) {contentType varObject : Nat} (content : contentType < 2 ^ 32)
    (object : varObject < 2 ^ 32) (ulObjType : Nat) {pObjName : List UInt8} (ends : 0 ∉ pObjName) (back : List UInt8) :
    convFromImcpVar machine (front ++ (encodeObject machine contentType varObject ulObjType pObjName ++ back))
      front.length = some ⟨some pObjName, contentType, 0, 0, .object varObject⟩ := by
  obtain ⟨head, split, data⟩ :
    ∃ head, front ++ (encodeObject machine contentType varObject ulObjType pObjName ++ back) =
      head ++ ((networkMemory machine varObject ++ (networkMemory machine ulObjType ++ (pObjName ++ [0]))) ++ back) ∧
        head.length = getData machine front.length := split_data front back
  have flags : getFlags machine (front ++ (encodeObject machine contentType varObject ulObjType pObjName ++ back))
      front.length = some (flagObjType ||| flagObjName) := getFlags_packed front back (by decide)
  have handle : getUlong machine (front ++ (encodeObject machine contentType varObject ulObjType pObjName ++ back))
      (getData machine front.length) = some varObject := by
    rw [split, ← data, List.append_assoc, getUlong_at head object]
  have name : stringAt (front ++ (encodeObject machine contentType varObject ulObjType pObjName ++ back))
      (getData machine front.length + 2 * ulongSize machine) = some pObjName := by
    have place : getData machine front.length + 2 * ulongSize machine =
        (head ++ (networkMemory machine varObject ++ networkMemory machine ulObjType)).length := by
      simp only [List.length_append, length_networkMemory, data]
      omega
    have text := stringAt_spec (head ++ (networkMemory machine varObject ++ networkMemory machine ulObjType)) ends back
    rw [split, place]
    simpa only [List.append_assoc, List.cons_append, List.nil_append] using text
  simp only [encodeObject] at flags handle name ⊢
  simp only [convFromImcpVar, getContentType_packed front back content,
    getSyntax_packed front back (show 15 < 2 ^ 32 by decide), nameFromImcpVar, variantFromImcpVar, flags,
    handle, name, Option.bind_eq_bind, Option.bind_some]
  rfl

end Reading

end CcspCommon.SlapLoam
