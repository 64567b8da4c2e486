import CcspCommon.HttpSmpo.FormData

set_option autoImplicit false

namespace CcspCommon.HttpSmpo

open CcspCommon.Shared CcspCommon.AnscPlatform
open CcspCommon.HttpMboChunked (carriageReturn lineFeed semicolon memchr memchr_here)

section Model

-- The loop that looks for the end of the headers in front of `ulTotalSize`. It compares with what stands behind, too.
def headersEnd : Nat → List UInt8 → Nat → Option Nat
  | 0, _, _ => none
  | _, [], _ => none
  | left + 1, c :: rest, pPos =>
    if c = carriageReturn ∧ 4 ≤ pPos ∧ rest.take 3 = [lineFeed, carriageReturn, lineFeed] then some pPos
    else headersEnd left rest (pPos + 1)

variable (pBoundary pFieldName : CString) (queue : List Bdo)

def nextEntry (handle : Nat) : Option Nat := if handle + 1 < queue.length then some (handle + 1) else none

-- The buffer and the offset behind the headers. There is no result where `pStartBdo` becomes NULL.
def dataStart (pBodyBdo : Nat) : Nat → List Copied → Option (Option Nat × Nat)
  | _, [] => none
  | ulTotalOffset, pStartBdo :: rest =>
    if ulTotalOffset > pStartBdo.bytes.length ∧ ulTotalOffset ≥ pBoundary.val.length + 4 then
      if pStartBdo.handle + 1 = pBodyBdo then some (nextEntry queue pBodyBdo, 0)
      else dataStart pBodyBdo (ulTotalOffset - pStartBdo.bytes.length) rest
    else some (some pStartBdo.handle, ulTotalOffset + pStartBdo.skipped)

def formFieldFrom (memory : Nat → List UInt8) (ulOffset : Nat) (all : List Copied) :
    Window → List Copied → Option (Option (Option Nat × Nat))
  | _, [] => some none
  | window, body :: rest =>
    let window := window.push body
    let ulTotalSize := window.pBuf.data.length
    -- The difference of the two wraps.
    if ulTotalSize < ulOffset ∨ ulTotalSize - ulOffset > pBoundary.val.length + 4 then
      let pBuf := window.pBuf.data ++ (window.pBuf.behind ++ memory body.handle)
      match headersEnd ulTotalSize pBuf 0 with
      | none => formFieldFrom memory ulOffset all window rest
      | some pPos =>
        match multipartFieldName (pBuf.drop (pBoundary.val.length + 4)) with
        | .error _ => none
        | .ok none => some none
        | .ok (some pName) =>
          if pName.length = pFieldName.val.length ∧ anscEqualString2 pFieldName.val pName pName.length false then
            (dataStart pBoundary queue body.handle (pPos + 4) all).map some
          else some none
    else formFieldFrom memory ulOffset all window rest

-- `HttpSmpoGetFormField` at a position, with what stands in memory behind its block. There is no result where it
-- goes on from NULL.
def getFormField (memory : Nat → List UInt8) (position : Nat × Nat) : Option (Option (Option Nat × Nat)) :=
  formFieldFrom pBoundary pFieldName queue memory position.2 (copied queue (some position.1) position.2) emptyWindow
    (copied queue (some position.1) position.2)

structure Located where
  hStartField : Nat
  ulFieldOffset : Nat
  hStartBdo : Option Nat
  ulStartOffset : Nat
  hEndBdo : Option Nat
  ulEndOffset : Nat
  deriving DecidableEq

structure FieldMemory where
  search : Option Nat → Nat → Nat → List UInt8
  headers : Nat × Nat → Nat → List UInt8

def sizeAt (handle : Nat) : Nat := (queue[handle]?.map Bdo.blockSize).getD 0

def searchLeft (pStartBdo : Option Nat) (ulOffset1 : Nat) : Nat ×ₗ Nat :=
  match pStartBdo with
  | none => toLex (queue.length + 1, 0)
  | some handle => toLex (queue.length - handle, sizeAt queue handle + 1 - ulOffset1)

theorem searchLeft_step {memory : Nat → List UInt8} {pStartBdo : Option Nat} {ulOffset1 : Nat} {position : Nat × Nat}
    (found : findNextBoundary pBoundary memory queue pStartBdo ulOffset1 = some position) :
    searchLeft queue (some position.1) (position.2 + 1) < searchLeft queue pStartBdo ulOffset1 := by
  obtain ⟨⟨pBdo, here, within⟩, behind⟩ := findNextBoundary_inside found
  have less := (List.getElem?_eq_some_iff.mp here).1
  have size : sizeAt queue position.1 = pBdo.blockSize := by rw [sizeAt, here]; rfl
  cases pStartBdo with
  | none =>
    refine Prod.Lex.toLex_lt_toLex.mpr (Or.inl ?_)
    simp only
    omega
  | some handle =>
    obtain ⟨order, later⟩ := behind handle rfl
    refine Prod.Lex.toLex_lt_toLex.mpr ?_
    by_cases same : position.1 = handle
    next =>
      have beyond := later same
      refine Or.inr ⟨by rw [same], ?_⟩
      rw [same] at size
      simp only [same]
      omega
    next =>
      refine Or.inl ?_
      simp only
      omega

def locateFrom (memory : FieldMemory) (pStartBdo : Option Nat) (ulOffset1 : Nat) : Option (Option Located) :=
  match _found : findNextBoundary pBoundary (memory.search pStartBdo ulOffset1) queue pStartBdo ulOffset1 with
  | none => some none
  | some position =>
    match getFormField pBoundary pFieldName queue (memory.headers position) position with
    | none => none
    | some none => locateFrom memory (some position.1) (position.2 + 1)
    | some (some (hBdo, ulDataOffset)) =>
      -- The search for the end begins in the buffer of the data, but behind the offset of the field.
      let found := findNextBoundary pBoundary (memory.search hBdo (position.2 + 1)) queue hBdo (position.2 + 1)
      some (some ⟨position.1, position.2, hBdo, ulDataOffset, found.map Prod.fst, (found.map Prod.snd).getD 0⟩)
termination_by searchLeft queue pStartBdo ulOffset1
decreasing_by exact searchLeft_step pBoundary queue _found

def locateFieldData (memory : FieldMemory) : Option (Option Located) :=
  locateFrom pBoundary pFieldName queue memory none 0

end Model

section Purpose

structure FieldPart (boundary : MultipartBoundary) where
  opening : List UInt8
  disposition : List UInt8
  parameters : List UInt8
  key : List UInt8
  name : List UInt8
  nameText : List UInt8
  more : List UInt8
  value : List UInt8
  dispositionName : CaseVariant contentDisposition disposition
  keyName : CaseVariant multipartFieldNameText key
  separated : ∃ front, ∃ c ∈ [htab, space, semicolon], parameters = front ++ [c]
  named : name ≠ []
  nameFree : ∀ c ∈ name, c ≠ 0 ∧ c ≠ doubleQuote ∧ c ≠ carriageReturn ∧ c ≠ lineFeed
  written : nameText = doubleQuote :: (name ++ [doubleQuote]) ∨ nameText = name ∧ ∀ c ∈ name, c ∉ separators
  terminated : 0 ∉ opening ++ (parameters ++ more)
  oneBlock : ¬ doubleLineBreaker <:+: lineBreaker ++ (opening ++ (disposition ++ (parameters ++ (key ++ (nameText ++
    (more ++ lineBreaker))))))
  valueFree : ¬ lineBreaker ++ delimiter boundary.string <:+: lineBreaker ++ value

variable {boundary : MultipartBoundary}

namespace FieldPart

variable (part : FieldPart boundary)

def parametersText : List UInt8 := part.parameters ++ (part.key ++ (part.nameText ++ part.more))

def header : List UInt8 := part.opening ++ (part.disposition ++ part.parametersText)

def lead : List UInt8 := delimiter boundary.string ++ (lineBreaker ++ (part.header ++ doubleLineBreaker))

def text : List UInt8 := part.lead ++ (part.value ++ lineBreaker)

structure Plain : Prop where
  disposition : firstAt contentDisposition part.header = some part.opening.length
  oneLine : carriageReturn ∉ part.parameters
  key : firstAt multipartFieldNameText part.parametersText = some part.parameters.length
  quoted : part.nameText = doubleQuote :: (part.name ++ [doubleQuote])
  free : ¬ delimiter boundary.string <:+: lineBreaker ++ (part.header ++ (doubleLineBreaker ++ part.value))

end FieldPart

def partsText (parts : List (FieldPart boundary)) : List UInt8 := parts.flatMap FieldPart.text

def closing (boundary : MultipartBoundary) : List UInt8 := delimiter boundary.string ++ multipartBoundaryDeli

structure FieldForm (boundary : MultipartBoundary) where
  preamble : List UInt8
  before : List (FieldPart boundary)
  field : FieldPart boundary
  after : List (FieldPart boundary)
  epilogue : List UInt8
  preambleLine : preamble = [] ∨ ∃ line, preamble = line ++ lineBreaker
  preambleUncut : ¬ lineBreaker ++ delimiter boundary.string <:+: lineBreaker ++ preamble
  first : ∀ part ∈ before, part.name ≠ field.name

namespace FieldForm

variable (form : FieldForm boundary)

def ending : List UInt8 := partsText form.after ++ (closing boundary ++ form.epilogue)

def text : List UInt8 := form.preamble ++ (partsText form.before ++ (form.field.text ++ form.ending))

def rest : List UInt8 := form.preamble ++ (partsText form.before ++ form.ending)

def partPlace (earlier : List (FieldPart boundary)) : Nat := form.preamble.length + (partsText earlier).length

def fieldPlace : Nat := form.partPlace form.before

def dataPlace : Nat := form.fieldPlace + form.field.lead.length

def endPlace : Nat := form.fieldPlace + form.field.text.length

theorem fieldName_terminated : 0 ∉ form.field.name := fun inside => (form.field.nameFree 0 inside).1 rfl

def fieldName : CString := ⟨form.field.name, form.fieldName_terminated⟩

end FieldForm

-- Where the bytes behind the data first complete an end of the headers that the data only begin, there is none.
def headersNotMisled (pBoundary : CString) (memory : Nat → List UInt8) (ulOffset : Nat) :
    Window → List Copied → Bool
  | _, [] => true
  | window, body :: rest =>
    let window := window.push body
    let ulTotalSize := window.pBuf.data.length
    if ulTotalSize < ulOffset ∨ ulTotalSize - ulOffset > pBoundary.val.length + 4 then
      match firstAt doubleLineBreaker (window.pBuf.data.drop 4) with
      | some _ => true
      | none =>
        firstAt doubleLineBreaker ((window.pBuf.data ++ (window.pBuf.behind ++ memory body.handle).take 3).drop 4) =
            none ∧
          headersNotMisled pBoundary memory ulOffset window rest = true
    else headersNotMisled pBoundary memory ulOffset window rest

variable (queue : List Bdo) (memory : FieldMemory)

def SearchNotMisled (boundary : MultipartBoundary) (hBdo : Option Nat) (ulOffset : Nat) : Prop :=
  notMisled boundary.string (memory.search hBdo ulOffset) emptyWindow (copied queue hBdo ulOffset) = true

structure FieldForm.LocatedAt (form : FieldForm boundary) (position : Nat × Nat) : Prop where
  inside : ∀ pBdo ∈ queue[position.1]?, position.2 + form.field.lead.length ≤ pBdo.blockSize
  many : sizeAt queue position.1 - position.2 < position.2 ∨
    form.fieldPlace + (position.2 + (boundary.string.val.length + 4)) < form.text.length
  notMisled : SearchNotMisled queue memory boundary (some position.1) (position.2 + 1)

structure FieldForm.Locatable (form : FieldForm boundary) : Prop where
  plain : ∀ part ∈ form.before ++ [form.field], part.Plain
  preambleFree : ¬ delimiter boundary.string <:+: form.preamble
  apart : ∀ part ∈ form.before, ¬ CaseVariant form.field.name part.name
  start : SearchNotMisled queue memory boundary none 0
  front : ∀ earlier part later, form.before = earlier ++ part :: later →
    ∀ position, SearchPosition queue position → placeOf queue position = form.partPlace earlier →
      headersNotMisled boundary.string (memory.headers position) position.2 emptyWindow
          (copied queue (some position.1) position.2) = true ∧
        SearchNotMisled queue memory boundary (some position.1) (position.2 + 1)
  field : ∀ position, SearchPosition queue position → placeOf queue position = form.fieldPlace →
    form.LocatedAt queue memory position

structure Located.Finds (located : Located) (form : FieldForm boundary) (hEndBdo : Nat) : Prop where
  field : SearchPosition queue (located.hStartField, located.ulFieldOffset)
  fieldPlace : placeOf queue (located.hStartField, located.ulFieldOffset) = form.fieldPlace
  sameBdo : located.hStartBdo = some located.hStartField
  data : located.ulStartOffset = located.ulFieldOffset + form.field.lead.length
  endBdo : located.hEndBdo = some hEndBdo
  ends : SearchPosition queue (hEndBdo, located.ulEndOffset)
  order : located.hStartField ≤ hEndBdo
  endPlace : placeOf queue (hEndBdo, located.ulEndOffset) = form.endPlace

end Purpose

section Headers

theorem startsBlank_iff (c : UInt8) (rest : List UInt8) :
    doubleLineBreaker <+: c :: rest ↔ c = carriageReturn ∧ rest.take 3 = [lineFeed, carriageReturn, lineFeed] := by
  rw [show doubleLineBreaker = carriageReturn :: [lineFeed, carriageReturn, lineFeed] from rfl,
    List.cons_prefix_cons, List.prefix_iff_eq_take, eq_comm, @eq_comm _ [lineFeed, carriageReturn, lineFeed]]
  rfl

theorem headersEnd_some {left place pPos : Nat} {text : List UInt8} (inside : place < left) (far : 4 ≤ pPos + place)
    (here : OccursAt doubleLineBreaker text place)
    (first : ∀ earlier < place, ¬ OccursAt doubleLineBreaker text earlier) :
    headersEnd left text pPos = some (pPos + place) := by
  induction text generalizing left place pPos with
  | nil => exact absurd (here.length_le (by decide)) (Nat.not_succ_le_zero (place + 3))
  | cons c rest ih =>
    obtain ⟨left, rfl⟩ := Nat.exists_eq_add_one_of_ne_zero (Nat.ne_zero_of_lt inside)
    rw [headersEnd]
    cases place with
    | zero =>
      obtain ⟨same, more⟩ := (startsBlank_iff c rest).mp here
      rw [if_pos ⟨same, far, more⟩, Nat.add_zero]
    | succ place =>
      have other := first 0 (Nat.succ_pos place)
      rw [if_neg fun found => other ((startsBlank_iff c rest).mpr ⟨found.1, found.2.2⟩),
        @ih left place (pPos + 1) (by omega) (by omega) here fun earlier less => first (earlier + 1) (by omega)]
      exact congrArg some (by omega)

theorem headersEnd_none {left pPos : Nat} {text : List UInt8}
    (absent : ∀ place < left, 4 ≤ pPos + place → ¬ OccursAt doubleLineBreaker text place) :
    headersEnd left text pPos = none := by
  induction text generalizing left pPos with
  | nil => cases left <;> rfl
  | cons c rest ih =>
    cases left with
    | zero => rfl
    | succ left =>
      have other := absent 0 (Nat.succ_pos left)
      rw [headersEnd,
        if_neg fun found => other found.2.1 ((startsBlank_iff c rest).mpr ⟨found.1, found.2.2⟩)]
      exact ih fun place less far => absent (place + 1) (by omega) (by omega)

theorem CaseVariant.mem_toLower {name variant : List UInt8} (same : CaseVariant name variant) {c : UInt8}
    (inside : c ∈ variant) : toLower c ∈ name.map toLower := by
  rw [(caseVariant_iff name variant).mp same]
  exact List.mem_map_of_mem inside

theorem CaseVariant.refl (name : List UInt8) : CaseVariant name name := (caseVariant_iff name name).mpr rfl

variable {boundary : MultipartBoundary} (part : FieldPart boundary)

namespace FieldPart

theorem disposition_length : part.disposition.length = contentDisposition.length := part.dispositionName.length.symm

theorem key_length : part.key.length = multipartFieldNameText.length := part.keyName.length.symm

theorem key_oneLine : carriageReturn ∉ part.key := fun inside =>
  absurd (part.keyName.mem_toLower inside) (by decide +kernel)

theorem name_free {c : UInt8} (special : c = 0 ∨ c = doubleQuote ∨ c = carriageReturn ∨ c = lineFeed) :
    c ∉ part.name := by
  intro inside
  obtain ⟨nul, quote, cr, lf⟩ := part.nameFree c inside
  rcases special with same | same | same | same
  next => exact nul same
  next => exact quote same
  next => exact cr same
  next => exact lf same

theorem nameText_free {c : UInt8} (special : c = 0 ∨ c = carriageReturn) : c ∉ part.nameText := by
  have name : c ∉ part.name := part.name_free (special.imp_right fun same => Or.inr (Or.inl same))
  have quote : c ≠ doubleQuote := by rcases special with same | same <;> rw [same] <;> decide
  rcases part.written with same | ⟨same, _⟩
  next => simp [same, name, quote]
  next => rwa [same]

theorem header_terminated : 0 ∉ part.header := by
  have rest := part.terminated
  have disposition : 0 ∉ part.disposition := fun inside =>
    absurd (part.dispositionName.mem_toLower inside) (by decide +kernel)
  have key : 0 ∉ part.key := fun inside => absurd (part.keyName.mem_toLower inside) (by decide +kernel)
  have nameText := part.nameText_free (Or.inl rfl)
  simp only [List.mem_append, not_or] at rest
  simp [header, parametersText, rest, disposition, key, nameText]

def upper : List UInt8 := delimiter boundary.string ++ (lineBreaker ++ part.header)

theorem lead_eq : part.lead = part.upper ++ doubleLineBreaker := by simp only [lead, upper, List.append_assoc]

theorem length_lead : part.lead.length = part.upper.length + 4 := by
  rw [lead_eq, List.length_append]
  rfl

theorem four_le_upper : 4 ≤ part.upper.length := by
  have two := two_le_delimiter boundary.string
  simp only [upper, List.length_append, show lineBreaker.length = 2 from rfl]
  omega

theorem no_earlier_blank (rest : List UInt8) :
    ∀ earlier < part.upper.length, ¬ OccursAt doubleLineBreaker (part.lead ++ rest) earlier := by
  intro earlier less here
  have split : part.lead ++ rest = delimiter boundary.string ++ (lineBreaker ++ (part.header ++
      (doubleLineBreaker ++ rest))) := by simp only [lead, List.append_assoc]
  rw [split] at here
  rcases Nat.lt_or_ge earlier (delimiter boundary.string).length with inDelimiter | behind
  next => exact not_occursAt_free (delimiter_oneLine boundary) _ inDelimiter here
  next =>
    obtain ⟨place, rfl⟩ := Nat.exists_eq_add_of_le behind
    rw [occursAt_append_right] at here
    have upper : part.upper.length = (delimiter boundary.string).length + (2 + part.header.length) := by
      simp only [FieldPart.upper, List.length_append]
      rfl
    have block : lineBreaker ++ (part.header ++ (doubleLineBreaker ++ rest)) =
        (lineBreaker ++ (part.header ++ lineBreaker)) ++ (lineBreaker ++ rest) := by
      simp only [doubleLineBreaker, List.append_assoc]
    have size : (lineBreaker ++ (part.header ++ lineBreaker)).length = part.header.length + 4 := by
      simp only [List.length_append, show lineBreaker.length = 2 from rfl]
      omega
    rcases Nat.lt_or_ge part.header.length place with last | inside
    next =>
      -- one place in front of the blank line the second byte is wrong
      obtain ⟨more, same⟩ := here.split
      have second : (lineBreaker ++ (part.header ++ (doubleLineBreaker ++ rest))).drop (place + 1) =
          doubleLineBreaker ++ rest := by
        rw [← List.append_assoc, List.drop_left']
        rw [List.length_append, show lineBreaker.length = 2 from rfl]
        omega
      rw [← List.drop_drop, same] at second
      cases second
    next =>
      rw [block, occursAt_append_iff (by rw [size]; exact Nat.add_le_add_right inside 4)] at here
      refine part.oneBlock ?_
      have whole := here.inside
      simpa only [header, parametersText, List.append_assoc] using whole

theorem blank_here (rest : List UInt8) : OccursAt doubleLineBreaker (part.lead ++ rest) part.upper.length := by
  rw [lead_eq, List.append_assoc]
  exact occursAt_here part.upper doubleLineBreaker rest

variable {part}

theorem Plain.multipartFieldName (plain : part.Plain) (rest : List UInt8) :
    multipartFieldName (part.header ++ (doubleLineBreaker ++ rest)) = .ok (some part.name) := by
  have text : cText (part.header ++ (doubleLineBreaker ++ rest)) =
      part.header ++ (doubleLineBreaker ++ cText rest) := by
    rw [cText_append part.header_terminated, cText_append (by decide)]
  have start : firstAt contentDisposition (part.header ++ (doubleLineBreaker ++ cText rest)) =
      some part.opening.length := firstAt_append_right (by decide +kernel) plain.disposition _
  have behind : (part.header ++ (doubleLineBreaker ++ cText rest)).drop
      (part.opening.length + contentDisposition.length) = part.parametersText ++ (doubleLineBreaker ++ cText rest) := by
    rw [header, List.append_assoc, ← List.drop_drop, List.drop_left, List.append_assoc, ← part.disposition_length,
      List.drop_left]
  have name : firstAt multipartFieldNameText (part.parametersText ++ (doubleLineBreaker ++ cText rest)) =
      some part.parameters.length := firstAt_append_right (by decide +kernel) plain.key _
  generalize back : part.more ++ (doubleLineBreaker ++ cText rest) = more at *
  have line : part.parametersText ++ (doubleLineBreaker ++ cText rest) =
      (part.parameters ++ (part.key ++ part.nameText)) ++ more := by
    simp only [parametersText, ← back, List.append_assoc]
  have oneLine : carriageReturn ∉ part.parameters ++ (part.key ++ part.nameText) := by
    simp [plain.oneLine, part.key_oneLine, part.nameText_free (Or.inr rfl)]
  obtain ⟨pLineEnd, lineEnd⟩ : ∃ pLineEnd, firstAt lineBreaker more = some pLineEnd := by
    cases known : firstAt lineBreaker more with
    | some pLineEnd => exact ⟨pLineEnd, rfl⟩
    | none =>
      have here := occursAt_here part.more lineBreaker (lineBreaker ++ cText rest)
      rw [← List.append_assoc lineBreaker] at here
      exact absurd (back ▸ here) (firstAt_eq_none.mp known _)
  have found : firstAt lineBreaker (part.parametersText ++ (doubleLineBreaker ++ cText rest)) =
      some ((part.parameters ++ (part.key ++ part.nameText)).length + pLineEnd) := by
    rw [line, show lineBreaker = carriageReturn :: [lineFeed] from rfl, firstAt_append_left oneLine]
    exact (congrArg (Option.map _) lineEnd).trans rfl
  have inLine : ¬ part.parameters.length ≥ (part.parameters ++ (part.key ++ part.nameText)).length + pLineEnd := by
    rw [List.length_append, List.length_append, part.key_length]
    have five : multipartFieldNameText.length = 5 := by decide +kernel
    omega
  have opening : ((part.parametersText ++ (doubleLineBreaker ++ cText rest)).take
      ((part.parameters ++ (part.key ++ part.nameText)).length + pLineEnd)).drop
        (part.parameters.length + multipartFieldNameText.length) =
      doubleQuote :: (part.name ++ doubleQuote :: more.take pLineEnd) := by
    rw [line, List.take_length_add_append, List.append_assoc, ← List.drop_drop, List.drop_left, List.append_assoc,
      ← part.key_length, List.drop_left, plain.quoted, List.cons_append, List.append_assoc, List.singleton_append]
  have quote : memchr doubleQuote (doubleQuote :: (part.name ++ doubleQuote :: more.take pLineEnd)) =
      some (doubleQuote :: (part.name ++ doubleQuote :: more.take pLineEnd)) := if_pos rfl
  have ending : memchr doubleQuote (part.name ++ doubleQuote :: more.take pLineEnd) =
      some (doubleQuote :: more.take pLineEnd) := memchr_here (part.name_free (Or.inr (Or.inl rfl))) _
  have size : (part.name ++ doubleQuote :: more.take pLineEnd).take
      ((doubleQuote :: (part.name ++ doubleQuote :: more.take pLineEnd)).length - 1 -
        (doubleQuote :: more.take pLineEnd).length) = part.name := by
    rw [List.length_cons, Nat.add_sub_cancel, List.length_append, Nat.add_sub_cancel, List.take_left]
  rw [HttpSmpo.multipartFieldName, text, start]
  simp only [behind, found, name, if_neg inLine, opening, quote, List.drop_one, List.tail_cons, ending, size]

variable (part)

theorem drop_lead (rest : List UInt8) : (part.lead ++ rest).drop (boundary.string.val.length + 4) =
    part.header ++ (doubleLineBreaker ++ rest) := by
  have size : boundary.string.val.length + 4 = (delimiter boundary.string ++ lineBreaker).length := by
    rw [List.length_append, delimiter, List.length_append, Nat.add_comm multipartBoundaryDeli.length]
    rfl
  rw [size, lead, ← List.append_assoc, List.append_assoc, List.drop_left, List.append_assoc]

theorem headersEnd_whole (data back : List UInt8) :
    headersEnd (part.lead ++ data).length (part.lead ++ data ++ back) 0 = some part.upper.length := by
  have inside : part.upper.length < (part.lead ++ data).length := by
    rw [List.length_append, length_lead]
    omega
  rw [List.append_assoc, headersEnd_some inside (by rw [Nat.zero_add]; exact part.four_le_upper)
    (part.blank_here (data ++ back)) (part.no_earlier_blank (data ++ back)), Nat.zero_add]

variable {part}

theorem no_blank_cut {data : List UInt8} (cut : data <+: part.lead) (less : data.length < part.lead.length) :
    firstAt doubleLineBreaker (data.drop 4) = none := by
  refine firstAt_eq_none.mpr fun place here => ?_
  rw [occursAt_drop] at here
  obtain ⟨rest, same⟩ := cut
  have fits := here.length_le (by decide)
  have four : doubleLineBreaker.length = 4 := rfl
  have size := part.length_lead
  refine part.no_earlier_blank [] (4 + place) (by omega) ?_
  rw [List.append_nil, ← same]
  exact here.append (by decide) rest

theorem headersEnd_cut {data back : List UInt8}
    (absent : firstAt doubleLineBreaker ((data ++ back.take 3).drop 4) = none) :
    headersEnd data.length (data ++ back) 0 = none := by
  refine headersEnd_none fun place less far here => ?_
  have fits := here.length_le (by decide)
  have four : doubleLineBreaker.length = 4 := rfl
  refine firstAt_eq_none.mp absent (place - 4) ?_
  rw [occursAt_drop, show 4 + (place - 4) = place by omega]
  have split : data ++ back = data ++ back.take 3 ++ back.drop 3 := by rw [List.append_assoc, List.take_append_drop]
  rw [split] at here
  refine (occursAt_append_iff ?_ _).mp here
  simp only [List.length_append, List.length_take] at fits ⊢
  omega

end FieldPart

end Headers

section Fields

variable {boundary : MultipartBoundary} {part : FieldPart boundary} {pFieldName : CString} {queue : List Bdo}
  {memory : Nat → List UInt8} {ulOffset : Nat} {all : List Copied} {tail : List UInt8}

theorem window_cases {window : Window} {rest : List Copied}
    (whole : window.pBuf.data ++ copiedBytes rest = part.lead ++ tail) :
    (window.pBuf.data <+: part.lead ∧ window.pBuf.data.length < part.lead.length) ∨
      ∃ data, window.pBuf.data = part.lead ++ data := by
  have first : window.pBuf.data <+: part.lead ++ tail := ⟨_, whole⟩
  have second : part.lead <+: part.lead ++ tail := List.prefix_append _ _
  rcases Nat.lt_or_ge window.pBuf.data.length part.lead.length with less | more
  next => exact Or.inl ⟨List.prefix_of_prefix_length_le first second (Nat.le_of_lt less), less⟩
  next =>
    obtain ⟨data, same⟩ := List.prefix_of_prefix_length_le second first more
    exact Or.inr ⟨data, same.symm⟩

theorem push_whole {window : Window} {body : Copied} {rest : List Copied} {text : List UInt8}
    (whole : window.pBuf.data ++ copiedBytes (body :: rest) = text) :
    (window.push body).pBuf.data ++ copiedBytes rest = text := by
  rw [push_data, List.append_assoc, ← copiedBytes_cons]
  exact whole

theorem formFieldFrom_other (plain : part.Plain) (other : ¬ CaseVariant pFieldName.val part.name)
    {window : Window} {rest : List Copied} (whole : window.pBuf.data ++ copiedBytes rest = part.lead ++ tail)
    (trusted : headersNotMisled boundary.string memory ulOffset window rest = true) :
    formFieldFrom boundary.string pFieldName queue memory ulOffset all window rest = some none := by
  induction rest generalizing window with
  | nil => rfl
  | cons body rest ih =>
    have further := push_whole whole
    rw [headersNotMisled] at trusted
    rw [formFieldFrom]
    split
    next enough =>
      rw [if_pos enough] at trusted
      rcases window_cases further with ⟨cut, less⟩ | ⟨data, held⟩
      next =>
        rw [FieldPart.no_blank_cut cut less] at trusted
        simp only [Bool.decide_and, Bool.and_eq_true, decide_eq_true_eq] at trusted
        simp only [FieldPart.headersEnd_cut trusted.1]
        exact ih further trusted.2
      next =>
        have differs : ¬ (part.name.length = pFieldName.val.length ∧
            anscEqualString2 pFieldName.val part.name part.name.length false = true) := fun both =>
          other ((anscEqualString2_iff pFieldName.property both.1).mp both.2)
        simp only [held, part.headersEnd_whole]
        rw [List.append_assoc, part.drop_lead, plain.multipartFieldName]
        simp only [if_neg differs]
    next few =>
      rw [if_neg few] at trusted
      exact ih further trusted

theorem formFieldFrom_field (plain : part.Plain) (named : pFieldName.val = part.name) {first : Copied}
    {more : List Copied} (inside : part.lead.length ≤ first.bytes.length)
    {window : Window} {rest : List Copied} (some : rest ≠ [])
    (whole : window.pBuf.data ++ copiedBytes rest = part.lead ++ tail)
    (held : ∀ body later, rest = body :: later → ∃ data, (window.push body).pBuf.data = part.lead ++ data)
    (many : (∃ body later, rest = body :: later ∧ (window.push body).pBuf.data.length < ulOffset) ∨
      ulOffset + (boundary.string.val.length + 4) < (part.lead ++ tail).length) :
    formFieldFrom boundary.string pFieldName queue memory ulOffset (first :: more) window rest =
      Option.some (Option.some (Option.some first.handle, part.lead.length + first.skipped)) := by
  induction rest generalizing window with
  | nil => exact absurd rfl some
  | cons body rest ih =>
    have further := push_whole whole
    obtain ⟨data, known⟩ := held body rest rfl
    rw [formFieldFrom]
    split
    next =>
      have same : part.name.length = pFieldName.val.length ∧
          anscEqualString2 pFieldName.val part.name part.name.length false = true := by
        rw [named]
        exact ⟨rfl, (anscEqualString2_iff (named ▸ pFieldName.property) rfl).mpr (CaseVariant.refl _)⟩
      have near : ¬ (part.upper.length + 4 > first.bytes.length ∧
          part.upper.length + 4 ≥ boundary.string.val.length + 4) := by
        rw [part.length_lead] at inside
        omega
      simp only [known, part.headersEnd_whole]
      rw [List.append_assoc, part.drop_lead, plain.multipartFieldName]
      simp only [if_pos same, dataStart, if_neg near, part.length_lead, Option.map_some]
    next few =>
      have size := congrArg List.length further
      rw [List.length_append] at size
      cases rest with
      | nil =>
        rw [show copiedBytes [] = [] from rfl, List.length_nil] at size
        rcases many with ⟨other, later, same, less⟩ | enough
        next =>
          cases same
          omega
        next => omega
      | cons next later =>
        have enough : ulOffset + (boundary.string.val.length + 4) < (part.lead ++ tail).length := by
          refine many.resolve_left ?_
          rintro ⟨other, later, same, less⟩
          cases same
          omega
        refine ih (List.cons_ne_nil _ _) further (fun other later same => ?_) (Or.inr enough)
        refine ⟨data ++ other.bytes, ?_⟩
        rw [push_data, known, List.append_assoc]

end Fields

section Searches

variable {boundary : MultipartBoundary}

def StartsPart (boundary : MultipartBoundary) (text : List UInt8) : Prop :=
  ∃ tail, text = delimiter boundary.string ++ tail ∧ 2 ≤ tail.length

theorem FieldPart.text_starts (part : FieldPart boundary) (rest : List UInt8) :
    StartsPart boundary (part.text ++ rest) := by
  refine ⟨lineBreaker ++ (part.header ++ (doubleLineBreaker ++ (part.value ++ (lineBreaker ++ rest)))), ?_, ?_⟩
  next => simp only [FieldPart.text, FieldPart.lead, List.append_assoc]
  next =>
    rw [List.length_append]
    exact Nat.le_add_right 2 _

theorem partsText_starts (parts : List (FieldPart boundary)) {rest : List UInt8}
    (starts : StartsPart boundary rest) : StartsPart boundary (partsText parts ++ rest) := by
  cases parts with
  | nil => exact starts
  | cons part parts =>
    rw [partsText, List.flatMap_cons, List.append_assoc]
    exact part.text_starts _

theorem FieldForm.ending_starts (form : FieldForm boundary) : StartsPart boundary form.ending := by
  refine partsText_starts form.after ⟨multipartBoundaryDeli ++ form.epilogue, ?_, ?_⟩
  next => rw [closing, List.append_assoc]
  next =>
    rw [List.length_append]
    exact Nat.le_add_right 2 _

theorem FieldPart.Plain.next_delimiter {part : FieldPart boundary} (plain : part.Plain) {rest : List UInt8}
    (starts : StartsPart boundary rest) :
    firstAt (delimiter boundary.string) ((part.text ++ rest).drop 1) = some (part.text.drop 1).length := by
  obtain ⟨tail, rfl, _⟩ := starts
  generalize body : part.header ++ (doubleLineBreaker ++ part.value) = content
  have free := plain.free
  rw [body] at free
  have two := two_le_delimiter boundary.string
  have split : part.text = delimiter boundary.string ++ (lineBreaker ++ content ++ lineBreaker) := by
    simp only [text, lead, ← body, List.append_assoc]
  have behind : (part.text ++ (delimiter boundary.string ++ tail)).drop 1 =
      ((delimiter boundary.string).drop 1 ++ (lineBreaker ++ content)) ++
        (lineBreaker ++ (delimiter boundary.string ++ tail)) := by
    rw [split, List.append_assoc, List.drop_append_of_le_length (by omega)]
    simp only [List.append_assoc]
  have absent : ¬ delimiter boundary.string <:+: (delimiter boundary.string).drop 1 ++ (lineBreaker ++ content) := by
    rintro ⟨front, back, same⟩
    have here := occursAt_here front (delimiter boundary.string) back
    rw [← List.append_assoc, same] at here
    rcases Nat.lt_or_ge ((delimiter boundary.string).drop 1).length front.length with later | begins
    next =>
      obtain ⟨place, size⟩ := Nat.exists_eq_add_of_le (Nat.le_of_lt later)
      rw [size, occursAt_append_right] at here
      exact free here.inside
    next =>
      have ends := here.ends_before (delimiter_oneLine boundary) begins
      rw [List.length_drop] at ends
      omega
  rw [behind, firstAt_delimiter_line absent, split]
  simp only [List.length_append, List.length_drop, show lineBreaker.length = 2 from rfl]
  exact congrArg some (by omega)

variable {queue : List Bdo} {memory : FieldMemory}

theorem searchedText_position {position : Nat × Nat} (searched : SearchPosition queue position) :
    searchedText queue (some position.1) position.2 = (bytes queue).drop (placeOf queue position) := by
  obtain ⟨pBdo, here, within⟩ := searched
  rw [searchedText, startPlace, here, Option.map_some, Option.getD_some, placeOf, Nat.min_eq_left (by omega)]

theorem startPlace_position {position : Nat × Nat} (searched : SearchPosition queue position) :
    startPlace queue (some position.1) (position.2 + 1) = placeOf queue position + 1 ∨
      startPlace queue (some position.1) (position.2 + 1) = placeOf queue position ∧
        sizeAt queue position.1 = 0 := by
  obtain ⟨pBdo, here, within⟩ := searched
  rw [startPlace, sizeAt, here, Option.map_some, Option.getD_some, placeOf]
  omega

theorem findNextBoundary_first {hBdo : Option Nat} {ulOffset : Nat} {gap rest : List UInt8}
    (trusted : SearchNotMisled queue memory boundary hBdo ulOffset)
    (text : searchedText queue hBdo ulOffset = gap ++ rest) (starts : StartsPart boundary rest)
    (first : firstAt (delimiter boundary.string) (gap ++ rest) = some gap.length) :
    ∃ position, findNextBoundary boundary.string (memory.search hBdo ulOffset) queue hBdo ulOffset = some position ∧
      SearchPosition queue position ∧ placeOf queue position = startPlace queue hBdo ulOffset + gap.length := by
  have enough : ∀ first, firstAt (delimiter boundary.string) (searchedText queue hBdo ulOffset) = some first →
      first + (boundary.string.val.length + 4) ≤ (searchedText queue hBdo ulOffset).length := by
    intro place found
    rw [text, first] at found
    obtain ⟨tail, same, two⟩ := starts
    rw [text, ← Option.some.inj found, same, delimiter]
    simp only [List.length_append, show multipartBoundaryDeli.length = 2 from rfl]
    omega
  have found := (nextBoundaryFrom_iff (memory.search hBdo ulOffset) enough
    (searchStart boundary.string queue hBdo ulOffset)).mpr trusted
  rw [IsFirst, text, first] at found
  obtain ⟨position, result, place⟩ := found
  exact ⟨position, result, (findNextBoundary_inside result).1, place⟩

end Searches

section Location

variable {boundary : MultipartBoundary} {form : FieldForm boundary} {queue : List Bdo} {memory : FieldMemory}

theorem partsText_append (earlier later : List (FieldPart boundary)) :
    partsText (earlier ++ later) = partsText earlier ++ partsText later := List.flatMap_append

theorem drop_partPlace (cut : bytes queue = form.text) {earlier later : List (FieldPart boundary)}
    (parts : form.before = earlier ++ later) :
    (bytes queue).drop (form.partPlace earlier) = partsText later ++ (form.field.text ++ form.ending) := by
  rw [cut, FieldForm.text, FieldForm.partPlace, parts, partsText_append, ← List.drop_drop, List.drop_left,
    List.append_assoc, List.drop_left]

theorem remaining_starts (form : FieldForm boundary) (later : List (FieldPart boundary)) :
    StartsPart boundary (partsText later ++ (form.field.text ++ form.ending)) :=
  partsText_starts later (form.field.text_starts form.ending)

theorem copied_position {position : Nat × Nat} (searched : SearchPosition queue position) :
    copiedBytes (copied queue (some position.1) position.2) = (bytes queue).drop (placeOf queue position) := by
  rw [copiedBytes_copied, searchedText_position searched]

theorem copied_cons {position : Nat × Nat} {pBdo : Bdo} (here : queue[position.1]? = some pBdo) :
    ∃ more, copied queue (some position.1) position.2 =
      ⟨position.1, position.2, pBdo.block.drop position.2⟩ :: more := by
  obtain ⟨less, same⟩ := List.getElem?_eq_some_iff.mp here
  rw [copied, Option.getD_some, List.drop_eq_getElem_cons less, copiedFrom, if_pos rfl, same]
  exact ⟨_, rfl⟩

theorem getFormField_field (cut : bytes queue = form.text) (plain : form.field.Plain) {position : Nat × Nat}
    (searched : SearchPosition queue position) (place : placeOf queue position = form.fieldPlace)
    (located : form.LocatedAt queue memory position) :
    getFormField boundary.string form.fieldName queue (memory.headers position) position =
      some (some (some position.1, form.field.lead.length + position.2)) := by
  have text := copied_position searched
  rw [place] at text
  obtain ⟨pBdo, here, _⟩ := searched
  obtain ⟨more, all⟩ := copied_cons here
  have size := pBdo.length_block
  have inside := located.inside pBdo here
  have many := located.many
  rw [sizeAt, here, Option.map_some, Option.getD_some] at many
  have whole : copiedBytes (copied queue (some position.1) position.2) =
      form.field.lead ++ (form.field.value ++ (lineBreaker ++ form.ending)) := by
    rw [text, FieldForm.fieldPlace, drop_partPlace cut (List.append_nil _).symm]
    simp only [partsText, List.flatMap_nil, List.nil_append, FieldPart.text, List.append_assoc]
  rw [getFormField, all]
  rw [all] at whole
  refine formFieldFrom_field plain rfl ?_ (List.cons_ne_nil _ _) whole (fun body later same => ?_) ?_
  next =>
    rw [List.length_drop]
    omega
  next =>
    cases same
    rw [push_data]
    refine Exists.imp (fun data same => same.symm) (List.prefix_of_prefix_length_le (List.prefix_append _ _)
      ⟨_, whole⟩ ?_)
    rw [List.length_drop]
    omega
  next =>
    rcases many with few | enough
    next =>
      refine Or.inl ⟨_, _, rfl, ?_⟩
      rw [push_data]
      exact Nat.lt_of_le_of_lt (Nat.le_of_eq (by simp [emptyWindow, size])) few
    next =>
      refine Or.inr ?_
      have length := congrArg List.length (whole.symm.trans (all ▸ text))
      rw [List.length_drop, cut] at length
      omega

theorem getFormField_other (cut : bytes queue = form.text) {earlier later : List (FieldPart boundary)}
    {part : FieldPart boundary} (parts : form.before = earlier ++ part :: later) (plain : part.Plain)
    (other : ¬ CaseVariant form.field.name part.name) {position : Nat × Nat}
    (searched : SearchPosition queue position) (place : placeOf queue position = form.partPlace earlier)
    (trusted : headersNotMisled boundary.string (memory.headers position) position.2 emptyWindow
      (copied queue (some position.1) position.2) = true) :
    getFormField boundary.string form.fieldName queue (memory.headers position) position = some none := by
  have whole : copiedBytes (copied queue (some position.1) position.2) =
      part.lead ++ (part.value ++ (lineBreaker ++ (partsText later ++ (form.field.text ++ form.ending)))) := by
    rw [copied_position searched, place, drop_partPlace cut parts]
    simp only [partsText, List.flatMap_cons, FieldPart.text, List.append_assoc]
  rw [getFormField]
  exact formFieldFrom_other plain other whole trusted

structure Approach (form : FieldForm boundary) (queue : List Bdo) (pStartBdo : Option Nat) (ulOffset1 : Nat)
    (earlier later : List (FieldPart boundary)) (gap : List UInt8) : Prop where
  parts : form.before = earlier ++ later
  text : searchedText queue pStartBdo ulOffset1 = gap ++ (partsText later ++ (form.field.text ++ form.ending))
  first : firstAt (delimiter boundary.string) (gap ++ (partsText later ++ (form.field.text ++ form.ending))) =
    some gap.length
  place : startPlace queue pStartBdo ulOffset1 + gap.length = form.partPlace earlier

theorem Approach.start (cut : bytes queue = form.text) (free : ¬ delimiter boundary.string <:+: form.preamble) :
    Approach form queue none 0 [] form.before form.preamble := by
  refine ⟨rfl, ?_, ?_, ?_⟩
  next =>
    rw [searchedText, startPlace, List.drop_zero, cut]
    rfl
  next =>
    obtain ⟨tail, same, _⟩ := remaining_starts form form.before
    rw [same]
    rcases form.preambleLine with none | ⟨line, ended⟩
    next =>
      rw [none]
      exact firstAt_prefix _ _
    next =>
      rw [ended] at free ⊢
      have inLine : ¬ delimiter boundary.string <:+: line := fun inside =>
        free (inside.trans (List.prefix_append _ _).isInfix)
      rw [List.append_assoc, firstAt_delimiter_line inLine, List.length_append]
      rfl
  next => rw [startPlace, FieldForm.partPlace, partsText, List.flatMap_nil, List.length_nil, Nat.zero_add, Nat.add_zero]

theorem FieldPart.text_pos (part : FieldPart boundary) : 1 ≤ part.text.length := by
  rw [FieldPart.text, List.length_append, part.length_lead]
  omega

theorem drop_part (part : FieldPart boundary) (rest : List UInt8) :
    (part.text ++ rest).drop 1 = part.text.drop 1 ++ rest := List.drop_append_of_le_length part.text_pos

theorem Approach.next (cut : bytes queue = form.text) {earlier later : List (FieldPart boundary)}
    {part : FieldPart boundary} (parts : form.before = earlier ++ part :: later) (plain : part.Plain)
    {position : Nat × Nat} (searched : SearchPosition queue position)
    (place : placeOf queue position = form.partPlace earlier) :
    ∃ earlier later gap, Approach form queue (some position.1) (position.2 + 1) earlier later gap := by
  have remaining := drop_partPlace cut parts
  rcases startPlace_position searched with further | ⟨again, _⟩
  next =>
    have split : form.before = (earlier ++ [part]) ++ later := by rw [parts, List.append_assoc, List.singleton_append]
    have text : searchedText queue (some position.1) (position.2 + 1) =
        part.text.drop 1 ++ (partsText later ++ (form.field.text ++ form.ending)) := by
      rw [searchedText, further, place, ← List.drop_drop, remaining, partsText, List.flatMap_cons, List.append_assoc,
        drop_part]
      rfl
    have first := plain.next_delimiter (remaining_starts form later)
    rw [drop_part] at first
    have nonempty := part.text_pos
    refine ⟨earlier ++ [part], later, part.text.drop 1, split, text, first, ?_⟩
    rw [further, place, List.length_drop, FieldForm.partPlace, FieldForm.partPlace, partsText_append,
      List.length_append, show partsText [part] = part.text from List.flatMap_singleton _ _]
    omega
  next =>
    obtain ⟨tail, same, _⟩ := remaining_starts form (part :: later)
    refine ⟨earlier, part :: later, [], parts, ?_, ?_, ?_⟩
    next => rw [searchedText, again, place, remaining, List.nil_append]
    next =>
      rw [List.nil_append, same]
      exact firstAt_prefix _ _
    next => rw [again, place, List.length_nil, Nat.add_zero]

theorem ending_found (cut : bytes queue = form.text) (plain : form.field.Plain) {position : Nat × Nat}
    (searched : SearchPosition queue position) (place : placeOf queue position = form.fieldPlace)
    (located : form.LocatedAt queue memory position) :
    ∃ ending, findNextBoundary boundary.string (memory.search (some position.1) (position.2 + 1)) queue
        (some position.1) (position.2 + 1) = some ending ∧ SearchPosition queue ending ∧ position.1 ≤ ending.1 ∧
      placeOf queue ending = form.endPlace := by
  have remaining := drop_partPlace cut (List.append_nil form.before).symm
  have long := form.field.length_lead
  have nonempty := form.field.text_pos
  have further : startPlace queue (some position.1) (position.2 + 1) = placeOf queue position + 1 := by
    refine (startPlace_position searched).resolve_right fun same => ?_
    obtain ⟨pBdo, here, _⟩ := searched
    have inside := located.inside pBdo here
    have size := same.2
    rw [sizeAt, here, Option.map_some, Option.getD_some] at size
    omega
  have text : searchedText queue (some position.1) (position.2 + 1) = form.field.text.drop 1 ++ form.ending := by
    rw [searchedText, further, place, ← List.drop_drop, FieldForm.fieldPlace, remaining, partsText,
      List.flatMap_nil, List.nil_append, drop_part]
  have first := plain.next_delimiter form.ending_starts
  rw [drop_part] at first
  obtain ⟨ending, found, inside, where'⟩ := findNextBoundary_first located.notMisled text form.ending_starts first
  have order := ((findNextBoundary_inside found).2 position.1 rfl).1
  refine ⟨ending, found, inside, order, ?_⟩
  rw [where', further, place, List.length_drop, FieldForm.endPlace]
  omega

theorem locateFrom_turn {pBoundary pFieldName : CString} {pStartBdo : Option Nat} {ulOffset1 : Nat}
    {position : Nat × Nat}
    (found : findNextBoundary pBoundary (memory.search pStartBdo ulOffset1) queue pStartBdo ulOffset1 =
      some position) :
    locateFrom pBoundary pFieldName queue memory pStartBdo ulOffset1 =
      match getFormField pBoundary pFieldName queue (memory.headers position) position with
      | none => none
      | some none => locateFrom pBoundary pFieldName queue memory (some position.1) (position.2 + 1)
      | some (some (hBdo, ulDataOffset)) =>
        let found := findNextBoundary pBoundary (memory.search hBdo (position.2 + 1)) queue hBdo (position.2 + 1)
        some (some ⟨position.1, position.2, hBdo, ulDataOffset, found.map Prod.fst, (found.map Prod.snd).getD 0⟩) := by
  rw [locateFrom]
  split
  next absent =>
    rw [absent] at found
    cases found
  next other known =>
    obtain rfl : other = position := Option.some.inj (known.symm.trans found)
    rfl

theorem locateFrom_finds (cut : bytes queue = form.text) (locatable : form.Locatable queue memory)
    {pStartBdo : Option Nat} {ulOffset1 : Nat} {earlier later : List (FieldPart boundary)} {gap : List UInt8}
    (approach : Approach form queue pStartBdo ulOffset1 earlier later gap)
    (trusted : SearchNotMisled queue memory boundary pStartBdo ulOffset1) :
    ∃ located hEndBdo, locateFrom boundary.string form.fieldName queue memory pStartBdo ulOffset1 =
        some (some located) ∧ located.Finds queue form hEndBdo := by
  induction left : searchLeft queue pStartBdo ulOffset1 using WellFoundedLT.induction
    generalizing pStartBdo ulOffset1 earlier later gap with
  | _ bound ih =>
    obtain ⟨position, found, searched, place⟩ :=
      findNextBoundary_first trusted approach.text (remaining_starts form later) approach.first
    have less := searchLeft_step boundary.string queue found
    rw [approach.place] at place
    rw [locateFrom_turn found]
    cases later with
    | nil =>
      have parts : form.before = earlier := approach.parts.trans (List.append_nil earlier)
      rw [← parts] at place
      have plain := locatable.plain form.field (List.mem_append_right _ List.mem_cons_self)
      have located := locatable.field position searched place
      obtain ⟨ending, final, inside, order, endPlace⟩ := ending_found cut plain searched place located
      rw [getFormField_field cut plain searched place located]
      simp only [final, Option.map_some, Option.getD_some]
      exact ⟨_, ending.1, rfl, searched, place, rfl, Nat.add_comm _ _, rfl, inside, order, endPlace⟩
    | cons part later =>
      have member : part ∈ form.before := by
        rw [approach.parts]
        exact List.mem_append_right _ List.mem_cons_self
      have plain := locatable.plain part (List.mem_append_left _ member)
      obtain ⟨headers, search⟩ := locatable.front earlier part later approach.parts position searched place
      obtain ⟨earlier', later', gap', further⟩ := Approach.next cut approach.parts plain searched place
      rw [getFormField_other cut approach.parts plain (locatable.apart part member) searched place headers]
      exact ih _ (left ▸ less) further search rfl

theorem locateFieldData_finds (cut : bytes queue = form.text) (locatable : form.Locatable queue memory) :
    ∃ located hEndBdo, locateFieldData boundary.string form.fieldName queue memory = some (some located) ∧
      located.Finds queue form hEndBdo :=
  locateFrom_finds cut locatable (Approach.start cut locatable.preambleFree) locatable.start

end Location

end CcspCommon.HttpSmpo
