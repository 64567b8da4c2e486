import CcspCommon.AnscPlatform.DList
import CcspCommon.HttpSmpo.BoundarySearch
import CcspCommon.HttpSmpo.HeaderParam
import CcspCommon.HttpSmpo.QueryString

set_option autoImplicit false

namespace CcspCommon.HttpSmpo

open CcspCommon.AnscPlatform (ushort)
open CcspCommon.Shared
open CcspCommon.HttpMboChunked (carriageReturn lineFeed memchr memchr_here)

section Model

def lineBreaker : List UInt8 := [carriageReturn, lineFeed]

def doubleLineBreaker : List UInt8 := lineBreaker ++ lineBreaker

def contentDisposition : List UInt8 := ascii "Content-Disposition"

def contentType : List UInt8 := ascii "Content-Type"

def multipartFieldNameText : List UInt8 := ascii "name="

inductive Missing
  | boundary
  | fieldName
  | lineBreaker
  deriving DecidableEq

def cText (memory : List UInt8) : List UInt8 := memory.takeWhile (· ≠ 0)

-- `HttpSmpoMultipartFieldName`. It compares with the end of the line before it looks whether there is a name.
def multipartFieldName (pHeaders : List UInt8) : Except Missing (Option (List UInt8)) :=
  match firstAt contentDisposition (cText pHeaders) with
  | none => .ok none
  | some place =>
    let pStr := (cText pHeaders).drop (place + contentDisposition.length)
    match firstAt lineBreaker pStr with
    | none => .ok none
    | some pLineEnd =>
      match firstAt multipartFieldNameText pStr with
      | none => .error .fieldName
      | some pName =>
        if pName ≥ pLineEnd then .ok none
        else match memchr doubleQuote ((pStr.take pLineEnd).drop (pName + multipartFieldNameText.length)) with
          | none => .ok none
          | some opening =>
            match memchr doubleQuote (opening.drop 1) with
            | none => .ok none
            | some closing => .ok (some ((opening.drop 1).take (opening.length - 1 - closing.length)))

structure MultipartPart where
  ulType : FormDataType
  header : List UInt8
  name : List UInt8
  value : List UInt8
  deriving DecidableEq

def multipartContentType (pHeaders : List UInt8) (ulHeaderLen : Nat) : FormDataType :=
  match firstAt contentType (cText pHeaders) with
  | none => .text
  | some pStr => if pStr ≥ ulHeaderLen then .text else .binary

def partFrom (pBoundary : CString) (pHeader : List UInt8) : Except Missing (Option (MultipartPart × List UInt8)) :=
  match firstAt doubleLineBreaker (cText pHeader) with
  | none => .ok none
  | some ulHeaders =>
    let ulHeaderLen := ulHeaders + 2
    let pValue := pHeader.drop (ulHeaders + 4)
    match multipartFindBoundary pBoundary pValue.length pValue with
    | none => .ok none
    | some (pEnd, _) =>
      match multipartFieldName pHeader with
      | .error missing => .error missing
      | .ok none => .ok none
      | .ok (some pName) =>
        if pName = [] then .ok none
        -- The length of the value wraps.
        else if pEnd < 4 then .error .lineBreaker
        else .ok (some (⟨multipartContentType pHeader ulHeaderLen, pHeader.take ulHeaderLen, pName,
          pValue.take (pEnd - 4)⟩, pValue.drop (pEnd - 2)))

def getMultipartPart (pBoundary : CString) (pBuf : List UInt8) :
    Except Missing (Option (MultipartPart × List UInt8)) :=
  match multipartFindBoundary pBoundary pBuf.length pBuf with
  -- The headers are looked for behind a NULL.
  | none => .error .boundary
  | some (_, true) => .ok none
  | some (pStr, false) =>
    let pHeader := pBuf.drop (pStr + 2 + pBoundary.val.length)
    if pHeader = [] then .ok none else partFrom pBoundary pHeader

def elementOfPart (part : MultipartPart) : FormElement where
  formIndex := 0
  hashIndex := 0
  valueType := part.ulType
  name := some (part.name ++ [0])
  headers := some (part.header ++ [0])
  value := some (part.value ++ [0])
  size := part.value.length

theorem partFrom_length {pBoundary : CString} {pHeader rest : List UInt8} {part : MultipartPart}
    (nonempty : pHeader ≠ []) (read : partFrom pBoundary pHeader = .ok (some (part, rest))) :
    rest.length < pHeader.length := by
  have enough := List.length_pos_of_ne_nil nonempty
  rw [partFrom] at read
  grind

theorem getMultipartPart_length {pBoundary : CString} {pBuf rest : List UInt8} {part : MultipartPart}
    (read : getMultipartPart pBoundary pBuf = .ok (some (part, rest))) : rest.length < pBuf.length := by
  rw [getMultipartPart] at read
  split at read
  next => cases read
  next => cases read
  next pStr _ =>
    simp only at read
    split at read
    next => cases read
    next nonempty =>
      have less := partFrom_length nonempty read
      have fewer := List.length_drop (i := pStr + 2 + pBoundary.val.length) (l := pBuf)
      omega

def multipartParts (pBoundary : CString) (partList : List MultipartPart) (pData : List UInt8) :
    Except Missing (List MultipartPart) :=
  if pData = [] then .ok partList
  else match _h : getMultipartPart pBoundary pData with
    | .error missing => .error missing
    | .ok none => .ok partList
    | .ok (some (pPart, pNextPart)) => multipartParts pBoundary (pPart :: partList) pNextPart
termination_by pData.length
decreasing_by exact getMultipartPart_length _h

/-- The form for the depth of the list, which is a `USHORT`, with every part that is popped; there is none
where an element lies behind the block. -/
def formOfParts (partList : List MultipartPart) : Option (List FormElement) :=
  let ulParts := ushort partList.length
  if partList.length ≤ ulParts then some (partList.map elementOfPart) else none

def parseMultipart (pBoundary : CString) (buffer : List UInt8) : Except Missing (Option (List FormElement)) :=
  (multipartParts pBoundary [] buffer).map formOfParts

end Model

section Purpose

structure MultipartBoundary where
  string : CString
  oneLine : carriageReturn ∉ string.val

structure FormPart (boundary : MultipartBoundary) where
  name : List UInt8
  value : List UInt8
  named : name ≠ []
  nameFree : ∀ c ∈ name, c ≠ 0 ∧ c ≠ doubleQuote ∧ c ≠ carriageReturn ∧ c ≠ lineFeed
  valueFree : ¬ delimiter boundary.string <:+: value

variable {boundary : MultipartBoundary}

def formDataText : List UInt8 := ascii ": form-data; "

def FormPart.disposition (part : FormPart boundary) : List UInt8 :=
  formDataText ++ (multipartFieldNameText ++ (doubleQuote :: (part.name ++ [doubleQuote])))

def FormPart.header (part : FormPart boundary) : List UInt8 := contentDisposition ++ part.disposition

def FormPart.content (part : FormPart boundary) : List UInt8 :=
  part.header ++ (doubleLineBreaker ++ (part.value ++ lineBreaker))

def encodeParts : List (FormPart boundary) → List UInt8
  | [] => delimiter boundary.string ++ (multipartBoundaryDeli ++ lineBreaker)
  | part :: parts => delimiter boundary.string ++ (lineBreaker ++ (part.content ++ encodeParts parts))

def FormPart.entry (part : FormPart boundary) : Option (List UInt8) × Option (List UInt8) × Nat :=
  (some (part.name ++ [0]), some (part.value ++ [0]), part.value.length)

def FormElement.entry (element : FormElement) : Option (List UInt8) × Option (List UInt8) × Nat :=
  (element.name, element.value, element.size)

def EndsProperly (pBoundary : CString) (buffer : List UInt8) : Prop :=
  parseMultipart pBoundary buffer ≠ .error .boundary

def RoundTrips (parts : List (FormPart boundary)) : Prop :=
  ∃ elements, parseMultipart boundary.string (encodeParts parts) = .ok (some elements) ∧
    (elements.map FormElement.entry).Perm (parts.map FormPart.entry)

end Purpose

section RoundTrip

variable {boundary : MultipartBoundary} (part : FormPart boundary)

theorem cText_append {front : List UInt8} (terminated : 0 ∉ front) (rest : List UInt8) :
    cText (front ++ rest) = front ++ cText rest :=
  List.takeWhile_append_of_pos fun _ inside => decide_eq_true fun nul => terminated (nul ▸ inside)

theorem FormPart.disposition_terminated : 0 ∉ part.disposition := by
  have name : 0 ∉ part.name := fun inside => (part.nameFree 0 inside).1 rfl
  simp only [disposition, List.mem_append, List.mem_cons, List.not_mem_nil, or_false, not_or]
  exact ⟨by decide +kernel, by decide +kernel, by decide, name, by decide⟩

theorem FormPart.disposition_oneLine : carriageReturn ∉ part.disposition := by
  have name : carriageReturn ∉ part.name := fun inside => (part.nameFree _ inside).2.2.1 rfl
  simp only [disposition, List.mem_append, List.mem_cons, List.not_mem_nil, or_false, not_or]
  exact ⟨by decide +kernel, by decide +kernel, by decide, name, by decide⟩

theorem FormPart.header_terminated : 0 ∉ part.header := by
  rw [header, List.mem_append, not_or]
  exact ⟨by decide +kernel, part.disposition_terminated⟩

theorem FormPart.header_oneLine : carriageReturn ∉ part.header := by
  rw [header, List.mem_append, not_or]
  exact ⟨by decide +kernel, part.disposition_oneLine⟩

theorem FormPart.cText_header (rest : List UInt8) :
    cText (part.header ++ (doubleLineBreaker ++ rest)) = part.header ++ (doubleLineBreaker ++ cText rest) := by
  rw [cText_append part.header_terminated, cText_append (by decide)]

theorem FormPart.firstAt_doubleLineBreaker (rest : List UInt8) :
    firstAt doubleLineBreaker (cText (part.header ++ (doubleLineBreaker ++ rest))) = some part.header.length := by
  rw [part.cText_header]
  exact firstAt_here part.header_oneLine (cText rest)

theorem FormPart.multipartFieldName (rest : List UInt8) :
    multipartFieldName (part.header ++ (doubleLineBreaker ++ rest)) = .ok (some part.name) := by
  have quoted : doubleQuote ∉ part.name := fun inside => (part.nameFree _ inside).2.1 rfl
  have start : firstAt contentDisposition (part.header ++ (doubleLineBreaker ++ cText rest)) = some 0 := by
    rw [header, List.append_assoc]
    exact firstAt_prefix _ _
  have behind : (part.header ++ (doubleLineBreaker ++ cText rest)).drop (0 + contentDisposition.length) =
      part.disposition ++ (doubleLineBreaker ++ cText rest) := by
    rw [header, List.append_assoc, Nat.zero_add, List.drop_left]
  have lineEnd : firstAt lineBreaker (part.disposition ++ (doubleLineBreaker ++ cText rest)) =
      some part.disposition.length := firstAt_here part.disposition_oneLine _
  have name : firstAt multipartFieldNameText (part.disposition ++ (doubleLineBreaker ++ cText rest)) =
      some formDataText.length := by
    rw [disposition, List.append_assoc, List.append_assoc]
    exact firstAt_here (by decide +kernel) _
  have shorter : ¬ formDataText.length ≥ part.disposition.length := by
    rw [disposition, List.length_append, List.length_append, List.length_cons]
    omega
  have line : ((part.disposition ++ (doubleLineBreaker ++ cText rest)).take part.disposition.length).drop
      (formDataText.length + multipartFieldNameText.length) = doubleQuote :: (part.name ++ [doubleQuote]) := by
    rw [List.take_left, disposition, ← List.append_assoc, ← List.length_append, List.drop_left]
  have opening : memchr doubleQuote (doubleQuote :: (part.name ++ [doubleQuote])) =
      some (doubleQuote :: (part.name ++ [doubleQuote])) := if_pos rfl
  have closing : memchr doubleQuote (part.name ++ [doubleQuote]) = some [doubleQuote] := memchr_here quoted []
  have size : (part.name ++ [doubleQuote]).take ((doubleQuote :: (part.name ++ [doubleQuote])).length - 1 -
      [doubleQuote].length) = part.name := by
    rw [List.length_cons, Nat.add_sub_cancel, List.length_append, Nat.add_sub_cancel, List.take_left]
  rw [HttpSmpo.multipartFieldName, part.cText_header, start]
  simp only [behind, lineEnd, name, if_neg shorter, line, opening, List.drop_one, List.tail_cons, closing, size]

theorem delimiter_oneLine (boundary : MultipartBoundary) : carriageReturn ∉ delimiter boundary.string := by
  rw [delimiter, List.mem_append, not_or]
  exact ⟨by decide, boundary.oneLine⟩

theorem firstAt_delimiter_line {text : List UInt8} (free : ¬ delimiter boundary.string <:+: text) (tail : List UInt8) :
    firstAt (delimiter boundary.string) (text ++ (lineBreaker ++ (delimiter boundary.string ++ tail))) =
      some (text.length + 2) := by
  refine firstAt_eq_some.mpr ⟨?_, fun earlier less here => ?_⟩
  next =>
    have there := occursAt_here (text ++ lineBreaker) (delimiter boundary.string) tail
    rwa [List.append_assoc, List.length_append] at there
  next =>
    rcases Nat.lt_or_ge text.length earlier with behind | begins
    next =>
      obtain ⟨rest, same⟩ := here.split
      have second : (text ++ (lineBreaker ++ (delimiter boundary.string ++ tail))).drop earlier =
          lineFeed :: (delimiter boundary.string ++ tail) := by
        rw [show earlier = text.length + 1 by omega, ← List.drop_drop, List.drop_left]
        rfl
      rw [second] at same
      cases same
    next =>
      have ends := here.ends_before (delimiter_oneLine boundary) begins
      have inside := (occursAt_append_iff ends _).mp here
      exact free inside.inside

theorem FormPart.firstAt_delimiter (tail : List UInt8) :
    firstAt (delimiter boundary.string) (part.value ++ (lineBreaker ++ (delimiter boundary.string ++ tail))) =
      some (part.value.length + 2) := firstAt_delimiter_line part.valueFree tail

theorem encodeParts_delimiter (parts : List (FormPart boundary)) :
    ∃ tail, encodeParts parts = delimiter boundary.string ++ tail := by
  cases parts with
  | nil => exact ⟨_, rfl⟩
  | cons part parts => exact ⟨_, rfl⟩

theorem FormPart.partFrom (tail : List UInt8) :
    ∃ read, partFrom boundary.string (part.content ++ (delimiter boundary.string ++ tail)) =
        .ok (some (read, delimiter boundary.string ++ tail)) ∧
      (elementOfPart read).entry = part.entry := by
  have text : part.content ++ (delimiter boundary.string ++ tail) =
      part.header ++ (doubleLineBreaker ++ (part.value ++ (lineBreaker ++ (delimiter boundary.string ++ tail)))) := by
    simp only [content, List.append_assoc]
  have value : (part.header ++ (doubleLineBreaker ++
      (part.value ++ (lineBreaker ++ (delimiter boundary.string ++ tail))))).drop (part.header.length + 4) =
        part.value ++ (lineBreaker ++ (delimiter boundary.string ++ tail)) := by
    rw [← List.drop_drop, List.drop_left]
    rfl
  have copied : (part.value ++ (lineBreaker ++ (delimiter boundary.string ++ tail))).take
      (part.value.length + 2 + 2 - 4) = part.value := by
    rw [show part.value.length + 2 + 2 - 4 = part.value.length by omega, List.take_left]
  have later : (part.value ++ (lineBreaker ++ (delimiter boundary.string ++ tail))).drop
      (part.value.length + 2 + 2 - 2) = delimiter boundary.string ++ tail := by
    rw [Nat.add_sub_cancel, ← List.drop_drop, List.drop_left]
    rfl
  rw [text, HttpSmpo.partFrom, part.firstAt_doubleLineBreaker]
  simp only [value, multipartFindBoundary_whole, part.firstAt_delimiter, Option.map_some, part.multipartFieldName,
    if_neg part.named, if_neg (show ¬ part.value.length + 2 + 2 < 4 by omega), copied, later]
  exact ⟨_, rfl, rfl⟩

theorem FormPart.getMultipartPart (parts : List (FormPart boundary)) :
    ∃ read, getMultipartPart boundary.string (encodeParts (part :: parts)) =
        .ok (some (read, encodeParts parts)) ∧
      (elementOfPart read).entry = part.entry := by
  obtain ⟨tail, next⟩ := encodeParts_delimiter parts
  obtain ⟨read, result, same⟩ := part.partFrom tail
  refine ⟨read, ?_, same⟩
  have notLast : ¬ ((encodeParts (part :: parts)).drop (0 + (delimiter boundary.string).length)).take 2 =
      multipartBoundaryDeli := by
    rw [encodeParts, Nat.zero_add, List.drop_left]
    exact fun same => absurd (show lineBreaker = multipartBoundaryDeli from same) (by decide)
  have first : firstAt (delimiter boundary.string) (encodeParts (part :: parts)) = some 0 := firstAt_prefix _ _
  have header : (encodeParts (part :: parts)).drop (0 + 2 + 2 + boundary.string.val.length) =
      part.content ++ encodeParts parts := by
    have size : 0 + 2 + 2 + boundary.string.val.length = (delimiter boundary.string).length + 2 := by
      rw [delimiter, List.length_append, multipartBoundaryDeli, List.length_cons, List.length_cons, List.length_nil]
      omega
    rw [size, encodeParts, ← List.drop_drop, List.drop_left]
    rfl
  have some : part.content ++ encodeParts parts ≠ [] := List.append_ne_nil_of_left_ne_nil (List.cons_ne_nil _ _) _
  rw [HttpSmpo.getMultipartPart, multipartFindBoundary_whole, first, Option.map_some, decide_eq_false notLast]
  simp only [header, if_neg some]
  rw [next, result]

theorem getMultipartPart_end (boundary : MultipartBoundary) :
    getMultipartPart boundary.string (encodeParts ([] : List (FormPart boundary))) = .ok none := by
  have first : firstAt (delimiter boundary.string) (encodeParts ([] : List (FormPart boundary))) = some 0 :=
    firstAt_prefix _ _
  have last : ((encodeParts ([] : List (FormPart boundary))).drop (0 + (delimiter boundary.string).length)).take 2 =
      multipartBoundaryDeli := by
    rw [encodeParts, Nat.zero_add, List.drop_left]
    rfl
  rw [getMultipartPart, multipartFindBoundary_whole, first, Option.map_some, decide_eq_true last]

theorem encodeParts_ne_nil (parts : List (FormPart boundary)) : encodeParts parts ≠ [] := by
  obtain ⟨tail, same⟩ := encodeParts_delimiter parts
  rw [same]
  exact List.append_ne_nil_of_left_ne_nil (delimiter_ne_nil boundary.string) tail

theorem multipartParts_encodeParts (parts : List (FormPart boundary)) (partList : List MultipartPart) :
    ∃ read, multipartParts boundary.string partList (encodeParts parts) = .ok (read ++ partList) ∧
      (read.map fun part => (elementOfPart part).entry) = (parts.map FormPart.entry).reverse := by
  induction parts generalizing partList with
  | nil =>
    refine ⟨[], ?_, rfl⟩
    rw [multipartParts, if_neg (encodeParts_ne_nil [])]
    split
    next missing wrong =>
      rw [getMultipartPart_end boundary] at wrong
      cases wrong
    next => rfl
    next wrong =>
      rw [getMultipartPart_end boundary] at wrong
      cases wrong
  | cons part parts ih =>
    obtain ⟨first, result, same⟩ := part.getMultipartPart parts
    obtain ⟨read, later, entries⟩ := ih (first :: partList)
    refine ⟨read ++ [first], ?_, ?_⟩
    next =>
      rw [multipartParts, if_neg (encodeParts_ne_nil (part :: parts))]
      split
      next missing wrong =>
        rw [result] at wrong
        cases wrong
      next wrong =>
        rw [result] at wrong
        cases wrong
      next pPart pNextPart right =>
        rw [result] at right
        cases right
        rw [later, List.append_assoc, List.singleton_append]
    next => rw [List.map_append, entries, List.map_singleton, same, List.map_cons, List.reverse_cons]

theorem le_ushort_iff (n : Nat) : n ≤ ushort n ↔ n < 65536 := by
  rw [ushort]
  omega

theorem roundTrips_iff (parts : List (FormPart boundary)) : RoundTrips parts ↔ parts.length < 65536 := by
  obtain ⟨read, result, entries⟩ := multipartParts_encodeParts parts []
  rw [List.append_nil] at result
  have length : read.length = parts.length := by simpa using congrArg List.length entries
  have form : parseMultipart boundary.string (encodeParts parts) = .ok (formOfParts read) := by
    rw [parseMultipart, result]
    rfl
  rw [RoundTrips, form, ← length, ← le_ushort_iff, formOfParts]
  by_cases fits : read.length ≤ ushort read.length
  next =>
    refine iff_of_true ⟨read.map elementOfPart, by rw [if_pos fits], ?_⟩ fits
    rw [List.map_map]
    exact entries ▸ List.reverse_perm _
  next =>
    refine iff_of_false ?_ fits
    rintro ⟨elements, wrong, -⟩
    rw [if_neg fits] at wrong
    cases wrong

end RoundTrip

section Ends

variable {pBoundary : CString}

def Missing.OfField (missing : Missing) : Prop := missing = .fieldName ∨ missing = .lineBreaker

theorem multipartFieldName_error {pHeaders : List UInt8} {missing : Missing}
    (wrong : multipartFieldName pHeaders = .error missing) : missing.OfField := by
  rw [multipartFieldName] at wrong
  split at wrong
  next => cases wrong
  next =>
    simp only at wrong
    split at wrong
    next => cases wrong
    next =>
      split at wrong
      next =>
        cases wrong
        exact Or.inl rfl
      next =>
        split at wrong
        next => cases wrong
        next =>
          split at wrong
          next => cases wrong
          next => split at wrong <;> cases wrong

theorem partFrom_error {pHeader : List UInt8} {missing : Missing}
    (wrong : partFrom pBoundary pHeader = .error missing) : missing.OfField := by
  rw [partFrom] at wrong
  split at wrong
  next => cases wrong
  next =>
    simp only at wrong
    split at wrong
    next => cases wrong
    next =>
      split at wrong
      next other known =>
        cases wrong
        exact multipartFieldName_error known
      next => cases wrong
      next =>
        split at wrong
        next => cases wrong
        next =>
          split at wrong
          next =>
            cases wrong
            exact Or.inr rfl
          next => cases wrong

theorem partFrom_delimiter {pHeader rest : List UInt8} {part : MultipartPart}
    (read : partFrom pBoundary pHeader = .ok (some (part, rest))) : delimiter pBoundary <+: rest := by
  rw [partFrom] at read
  split at read
  next => cases read
  next =>
    simp only [multipartFindBoundary_whole] at read
    split at read
    next => cases read
    next pEnd last known =>
      obtain ⟨place, found, same⟩ := Option.map_eq_some_iff.mp known
      split at read
      next => cases read
      next => cases read
      next =>
        split at read
        next => cases read
        next =>
          split at read
          next => cases read
          next =>
            cases same
            cases read
            exact (firstAt_eq_some.mp found).1

theorem getMultipartPart_absent {pBuf : List UInt8} (absent : firstAt (delimiter pBoundary) pBuf = none) :
    getMultipartPart pBoundary pBuf = .error .boundary := by
  rw [getMultipartPart, multipartFindBoundary_whole, absent]
  rfl

theorem getMultipartPart_error {pBuf : List UInt8} {place : Nat}
    (present : firstAt (delimiter pBoundary) pBuf = some place) {missing : Missing}
    (wrong : getMultipartPart pBoundary pBuf = .error missing) : missing.OfField := by
  rw [getMultipartPart, multipartFindBoundary_whole, present] at wrong
  split at wrong
  next absent => cases absent
  next => cases wrong
  next =>
    simp only at wrong
    split at wrong
    next => cases wrong
    next => exact partFrom_error wrong

theorem getMultipartPart_delimiter {pBuf rest : List UInt8} {part : MultipartPart}
    (read : getMultipartPart pBoundary pBuf = .ok (some (part, rest))) : delimiter pBoundary <+: rest := by
  rw [getMultipartPart] at read
  split at read
  next => cases read
  next => cases read
  next =>
    simp only at read
    split at read
    next => cases read
    next => exact partFrom_delimiter read

theorem multipartParts_error {pData : List UInt8} {place : Nat}
    (present : firstAt (delimiter pBoundary) pData = some place) {partList : List MultipartPart} {missing : Missing}
    (wrong : multipartParts pBoundary partList pData = .error missing) : missing.OfField := by
  induction length : pData.length using Nat.strong_induction_on generalizing pData place partList with
  | _ bound ih =>
    rw [multipartParts] at wrong
    split at wrong
    next => cases wrong
    next =>
      split at wrong
      next other known =>
        cases wrong
        exact getMultipartPart_error present known
      next => cases wrong
      next pPart pNextPart known =>
        obtain ⟨rest, starts⟩ := getMultipartPart_delimiter known
        have first : firstAt (delimiter pBoundary) pNextPart = some 0 := starts ▸ firstAt_prefix _ rest
        exact ih pNextPart.length (length ▸ getMultipartPart_length known) first wrong rfl

theorem parseMultipart_error {buffer : List UInt8} {missing : Missing} :
    parseMultipart pBoundary buffer = .error missing ↔ multipartParts pBoundary [] buffer = .error missing := by
  rw [parseMultipart]
  cases multipartParts pBoundary [] buffer <;> simp [Except.map]

theorem endsProperly_iff (pBoundary : CString) (buffer : List UInt8) :
    EndsProperly pBoundary buffer ↔ buffer = [] ∨ ∃ place, OccursAt (delimiter pBoundary) buffer place := by
  rw [EndsProperly, ne_eq, parseMultipart_error]
  constructor
  next =>
    intro found
    rw [or_iff_not_imp_left]
    intro nonempty
    by_contra nowhere
    have absent := firstAt_eq_none.mpr fun place here => nowhere ⟨place, here⟩
    refine found ?_
    rw [multipartParts, if_neg nonempty]
    split
    next other known =>
      rw [getMultipartPart_absent absent] at known
      cases known
      rfl
    next known =>
      rw [getMultipartPart_absent absent] at known
      cases known
    next known =>
      rw [getMultipartPart_absent absent] at known
      cases known
  next =>
    rintro (empty | ⟨place, here⟩)
    next =>
      rw [empty, multipartParts, if_pos rfl]
      exact nofun
    next =>
      cases present : firstAt (delimiter pBoundary) buffer with
      | none => exact absurd here (firstAt_eq_none.mp present place)
      | some first =>
        intro wrong
        cases multipartParts_error present wrong <;> contradiction

theorem multipart_parsed (boundary : MultipartBoundary) (parts : List (FormPart boundary)) (pBoundary : CString)
    (buffer : List UInt8) :
    (RoundTrips parts ↔ parts.length < 65536) ∧ (EndsProperly pBoundary buffer ↔
      buffer = [] ∨ ∃ place, OccursAt (delimiter pBoundary) buffer place) :=
  ⟨roundTrips_iff parts, endsProperly_iff pBoundary buffer⟩

theorem multipart_without_boundary : ¬ ∀ (boundary : MultipartBoundary) (parts : List (FormPart boundary))
    (pBoundary : CString) (buffer : List UInt8), RoundTrips parts ∧ EndsProperly pBoundary buffer := by
  intro every
  have ends := (every ⟨⟨[0x62], by decide⟩, by decide⟩ [] ⟨[0x62], by decide⟩ [0x78]).2
  have absent : firstAt (delimiter ⟨[0x62], by decide⟩) [0x78] = none := by decide
  rcases (endsProperly_iff _ _).mp ends with empty | ⟨place, here⟩
  next => cases empty
  next => exact firstAt_eq_none.mp absent place here

end Ends

end CcspCommon.HttpSmpo
