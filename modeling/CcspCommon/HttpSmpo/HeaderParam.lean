import CcspCommon.HttpMboChunked.ChunkLine
import CcspCommon.HttpSmpo.HeaderXInfo
import CcspCommon.Shared.Occurrence

set_option autoImplicit false

namespace CcspCommon.HttpSmpo

open CcspCommon.Shared
open CcspCommon.HttpMboChunked (carriageReturn lineFeed semicolon memchr memchr_split memchr_eq_none)

section Model

abbrev space : UInt8 := 0x20

abbrev htab : UInt8 := 0x09

abbrev doubleQuote : UInt8 := 0x22

abbrev equals : UInt8 := 0x3D

-- `HttpSmpoUtilLinearWhiteSpace`: what is left of the text. Behind its last byte there is a NUL or a
-- semicolon, and no LF.
def linearWhiteSpace : List UInt8 → List UInt8
  | [] => []
  | c :: rest =>
    if c ≠ space ∧ c ≠ htab ∧ c ≠ carriageReturn then c :: rest
    else if c = carriageReturn ∧ rest.head? = some lineFeed then
      match rest with
      | _ :: after :: later =>
        -- A folded line needs a byte behind its first one.
        if later = [] ∨ (after ≠ space ∧ after ≠ htab) then c :: rest else linearWhiteSpace later
      | _ => c :: rest
    else linearWhiteSpace rest

theorem linearWhiteSpace_split (text : List UInt8) :
    ∃ blank, text = blank ++ linearWhiteSpace text ∧
      ∀ c ∈ blank, c ∈ [space, htab, carriageReturn, lineFeed] := by
  fun_induction linearWhiteSpace text with
  | case1 => exact ⟨[], rfl, fun c inside => absurd inside List.not_mem_nil⟩
  | case2 => exact ⟨[], rfl, fun c inside => absurd inside List.not_mem_nil⟩
  | case3 => exact ⟨[], rfl, fun c inside => absurd inside List.not_mem_nil⟩
  | case4 c known second after later folded line ih =>
    obtain ⟨blank, same, blanks⟩ := ih
    have secondLine : second = lineFeed := Option.some.inj line.2
    refine ⟨c :: second :: after :: blank, by rw [List.cons_append, List.cons_append, List.cons_append, ← same], ?_⟩
    simp only [not_or, not_and_or, Decidable.not_not] at folded
    simp only [List.mem_cons]
    rintro d (rfl | rfl | rfl | inside)
    · simp [line.1]
    · simp [secondLine]
    · rcases folded.2 with after | after <;> simp [after]
    · simpa using blanks d inside
  | case5 => exact ⟨[], rfl, fun c inside => absurd inside List.not_mem_nil⟩
  | case6 c rest known notLine ih =>
    obtain ⟨blank, same, blanks⟩ := ih
    refine ⟨c :: blank, by rw [List.cons_append, ← same], ?_⟩
    simp only [not_and_or, Decidable.not_not] at known
    simp only [List.mem_cons]
    rintro d (rfl | inside)
    · rcases known with known | known | known <;> simp [known]
    · simpa using blanks d inside

theorem linearWhiteSpace_length (text : List UInt8) : (linearWhiteSpace text).length ≤ text.length := by
  obtain ⟨blank, same, _⟩ := linearWhiteSpace_split text
  have lengths := congrArg List.length same
  rw [List.length_append] at lengths
  omega

/-- The part of `HttpSmpoGetHeaderParam` that checks the `ulLen` bytes at `pCur`. The name is looked for up to
the NUL. -/
def checkParam (name pCur : List UInt8) (ulLen : Nat) : Option (List UInt8) :=
  match firstAt name pCur with
  | none => none
  | some pName =>
    let pValue := pName + name.length
    if pName ≤ ulLen ∧ pValue < ulLen then
      match linearWhiteSpace ((pCur.take ulLen).drop pValue) with
      | [] => none
      | c :: value => if c = equals ∧ value ≠ [] then some value else none
    else none

def paramFrom (name text : List UInt8) : Option (List UInt8) :=
  let pCur := linearWhiteSpace text
  match _h : memchr semicolon pCur with
  | none => checkParam name pCur pCur.length
  | some pNext =>
    match checkParam name pCur (pCur.length - pNext.length) with
    | some value => some value
    | none => paramFrom name (pNext.drop 1)
termination_by text.length
decreasing_by
  obtain ⟨front, rest, same, _, found⟩ := memchr_split _h
  have less := linearWhiteSpace_length text
  have lengths : (linearWhiteSpace text).length = _ := congrArg List.length same
  rw [List.length_append, List.length_cons] at lengths
  rw [found, List.drop_one, List.tail_cons]
  omega

def getHeaderParam (parameters name : CString) : Option (List UInt8) := paramFrom name.val parameters.val

end Model

section Purpose

def separators : List UInt8 := [0, htab, lineFeed, carriageReturn, space, doubleQuote, semicolon]

structure ParamName where
  octets : List UInt8
  nonempty : octets ≠ []
  plain : ∀ c ∈ octets, c ≠ equals ∧ c ∉ separators

inductive ParamValue
  | plain (octets : List UInt8) (nonempty : octets ≠ []) (free : ∀ c ∈ octets, c ∉ separators)
  | quoted (octets : List UInt8) (free : ∀ c ∈ octets, c ≠ 0 ∧ c ≠ doubleQuote)

def ParamValue.octets : ParamValue → List UInt8
  | plain octets _ _ => octets
  | quoted octets _ => octets

def ParamValue.text : ParamValue → List UInt8
  | plain octets _ _ => octets
  | quoted octets _ => doubleQuote :: octets ++ [doubleQuote]

def ParamValue.IsPlain : ParamValue → Prop
  | plain _ _ _ => True
  | quoted _ _ => False

structure HeaderParam where
  indent : List UInt8
  name : ParamName
  gap : List UInt8
  value : ParamValue
  blank : ∀ c ∈ indent ++ gap, c = space ∨ c = htab

def HeaderParam.opening (param : HeaderParam) : List UInt8 :=
  param.indent ++ (param.name.octets ++ (param.gap ++ [equals]))

def HeaderParam.text (param : HeaderParam) : List UInt8 := param.opening ++ param.value.text

structure PartHeader where
  value : ParamValue
  params : List HeaderParam

def paramsText (params : List HeaderParam) : List UInt8 := params.flatMap fun param => semicolon :: param.text

def PartHeader.text (header : PartHeader) : List UInt8 := header.value.text ++ paramsText header.params

def PartHeader.param (header : PartHeader) (name : ParamName) : Option HeaderParam :=
  header.params.find? fun param => param.name.octets = name.octets

def PartHeader.front (header : PartHeader) (name : ParamName) : List UInt8 :=
  header.value.text ++ paramsText (header.params.takeWhile fun param => param.name.octets ≠ name.octets)

/-- What a piece between two semicolons offers for a name: the bytes behind an equals sign behind the name's first
place. -/
def offered (name piece : List UInt8) : Option (List UInt8) :=
  match firstAt name piece with
  | none => none
  | some pName =>
    match linearWhiteSpace (piece.drop (pName + name.length)) with
    | [] => none
    | c :: value => if c = equals ∧ value ≠ [] then some value else none

def InPlainSight (header : PartHeader) (name : ParamName) : Prop :=
  (∀ piece ∈ (header.front name).splitOn semicolon, offered name.octets piece = none) ∧
    ∀ param ∈ header.param name, param.value.IsPlain

def SameByChance (header : PartHeader) (name : ParamName) : Prop :=
  ∃ param ∈ header.param name,
    ((header.front name).splitOn semicolon).findSome? (offered name.octets) = some param.value.octets

theorem ParamValue.terminated (value : ParamValue) : 0 ∉ value.text := by
  intro inside
  cases value with
  | plain octets nonempty free => exact absurd (free 0 inside) (by decide)
  | quoted octets free =>
    rw [text, List.mem_append, List.mem_cons, List.mem_singleton] at inside
    rcases inside with (first | inner) | last
    · cases first
    · exact absurd rfl (free 0 inner).1
    · cases last

theorem ParamName.terminated (name : ParamName) : 0 ∉ name.octets :=
  fun inside => absurd (name.plain 0 inside).2 (by decide)

theorem HeaderParam.terminated (param : HeaderParam) : 0 ∉ param.text := by
  have blanks : 0 ∉ param.indent ++ param.gap := fun inside => absurd (param.blank 0 inside) (by decide)
  rw [List.mem_append, not_or] at blanks
  have name := param.name.terminated
  have value := param.value.terminated
  simp only [text, opening, List.mem_append, List.mem_singleton, not_or]
  exact ⟨⟨blanks.1, name, blanks.2, by decide⟩, value⟩

theorem PartHeader.terminated (header : PartHeader) : 0 ∉ header.text := by
  rw [text, List.mem_append, not_or]
  refine ⟨header.value.terminated, ?_⟩
  rw [paramsText, List.mem_flatMap]
  rintro ⟨param, _, inside⟩
  rcases List.mem_cons.mp inside with first | inner
  · cases first
  · exact param.terminated inner

def ParamName.cString (name : ParamName) : CString := ⟨name.octets, name.terminated⟩

def PartHeader.cString (header : PartHeader) : CString := ⟨header.text, header.terminated⟩

def LooksUp (header : PartHeader) (name : ParamName) : Prop :=
  getHeaderParam header.cString name.cString = (header.param name).map fun param => param.value.octets

end Purpose

section Pieces

variable (name : ParamName)

theorem ParamName.exists_cons : ∃ first rest, name.octets = first :: rest := List.exists_cons_of_ne_nil name.nonempty

theorem ParamName.not_blank {c : UInt8} (inside : c ∈ name.octets) :
    c ∉ [space, htab, carriageReturn, lineFeed] := by
  intro blank
  refine (name.plain c inside).2 ?_
  simp only [List.mem_cons, List.not_mem_nil, or_false] at blank
  rcases blank with rfl | rfl | rfl | rfl <;> decide

theorem offered_blank {blank : List UInt8} (blanks : ∀ c ∈ blank, c ∈ [space, htab, carriageReturn, lineFeed])
    (piece : List UInt8) : offered name.octets (blank ++ piece) = offered name.octets piece := by
  obtain ⟨first, rest, spelled⟩ := name.exists_cons
  have free : first ∉ blank :=
    fun inside => name.not_blank (spelled ▸ List.mem_cons_self) (blanks first inside)
  rw [offered, offered, spelled, firstAt_append_left free]
  cases firstAt (first :: rest) piece with
  | none => rfl
  | some place => simp only [Option.map_some, Nat.add_assoc, List.drop_append, Nat.add_sub_cancel_left,
      List.drop_eq_nil_of_le (Nat.le_add_right _ _), List.nil_append]

theorem checkParam_eq (piece more : List UInt8) :
    checkParam name.octets (piece ++ more) piece.length = offered name.octets piece := by
  rw [checkParam, offered]
  match found : firstAt name.octets piece with
  | none =>
    match other : firstAt name.octets (piece ++ more) with
    | none => rfl
    | some place =>
      have behind : ¬ place + name.octets.length ≤ piece.length := by
        intro fits
        rw [firstAt_part other fits] at found
        cases found
      simp only [if_neg fun both : place ≤ piece.length ∧ place + name.octets.length < piece.length =>
        behind (Nat.le_of_lt both.2)]
  | some place =>
    rw [firstAt_append_right name.nonempty found]
    simp only
    split
    next inside => rw [List.take_left]
    next outside =>
      rw [List.drop_eq_nil_of_le (by omega)]
      rfl

theorem findSome?_blank {blank : List UInt8} (blanks : ∀ c ∈ blank, c ∈ [space, htab, carriageReturn, lineFeed])
    (text : List UInt8) :
    ((blank ++ text).splitOn semicolon).findSome? (offered name.octets) =
      (text.splitOn semicolon).findSome? (offered name.octets) := by
  have free : semicolon ∉ blank := fun inside => absurd (blanks semicolon inside) (by decide)
  cases known : memchr semicolon text with
  | none =>
    have absent : semicolon ∉ text := List.count_eq_zero.mp (memchr_eq_none.mp known)
    rw [List.splitOn_eq_singleton absent, List.splitOn_eq_singleton fun inside =>
      (List.mem_append.mp inside).elim free absent, List.findSome?_singleton, List.findSome?_singleton,
      offered_blank name blanks]
  | some found =>
    obtain ⟨piece, rest, same, plain, _⟩ := memchr_split known
    rw [same, ← List.append_assoc, List.splitOn_append_cons_self_of_not_mem plain,
      List.splitOn_append_cons_self_of_not_mem fun inside => (List.mem_append.mp inside).elim free plain,
      List.findSome?_cons, List.findSome?_cons, offered_blank name blanks]

theorem paramFrom_eq (text : List UInt8) :
    paramFrom name.octets text = (text.splitOn semicolon).findSome? (offered name.octets) := by
  induction length : text.length using Nat.strong_induction_on generalizing text with
  | _ bound ih =>
    obtain ⟨blank, same, blanks⟩ := linearWhiteSpace_split text
    have shorter := linearWhiteSpace_length text
    have pieces : (text.splitOn semicolon).findSome? (offered name.octets) =
        ((linearWhiteSpace text).splitOn semicolon).findSome? (offered name.octets) := by
      conv_lhs => rw [same]
      exact findSome?_blank name blanks _
    rw [paramFrom, pieces]
    split
    next known =>
      have absent : semicolon ∉ linearWhiteSpace text := List.count_eq_zero.mp (memchr_eq_none.mp known)
      have whole := checkParam_eq name (linearWhiteSpace text) []
      rw [List.append_nil] at whole
      rw [whole, List.splitOn_eq_singleton absent, List.findSome?_singleton]
    next pNext known =>
      obtain ⟨piece, rest, pCur, plain, found⟩ := memchr_split known
      have size : (linearWhiteSpace text).length - pNext.length = piece.length := by
        rw [pCur, found, List.length_append, Nat.add_sub_cancel]
      have less : rest.length < bound := by
        have lengths := congrArg List.length pCur
        rw [List.length_append, List.length_cons] at lengths
        omega
      have later := ih rest.length less rest rfl
      rw [size, pCur, checkParam_eq, List.splitOn_append_cons_self_of_not_mem plain, List.findSome?_cons, found,
        List.drop_one, List.tail_cons, later]
      cases offered name.octets piece <;> rfl

end Pieces

section Headers

theorem splitOn_first (text : List UInt8) :
    ∃ later, text.splitOn semicolon = text.takeWhile (· ≠ semicolon) :: later := by
  cases known : memchr semicolon text with
  | none =>
    have absent : semicolon ∉ text := List.count_eq_zero.mp (memchr_eq_none.mp known)
    have whole : text.takeWhile (· ≠ semicolon) = text := by
      rw [List.takeWhile_eq_self_iff]
      exact fun c inside => decide_eq_true fun same => absent (same ▸ inside)
    exact ⟨[], by rw [List.splitOn_eq_singleton absent, whole]⟩
  | some found =>
    obtain ⟨piece, rest, same, plain, _⟩ := memchr_split known
    have inside : ∀ c ∈ piece, decide (c ≠ semicolon) = true := fun c member =>
      decide_eq_true fun found => plain (found ▸ member)
    have first : text.takeWhile (· ≠ semicolon) = piece := by
      rw [same, List.takeWhile_append_of_pos inside, List.takeWhile_cons_of_neg (by simp), List.append_nil]
    exact ⟨rest.splitOn semicolon, by rw [first, same, List.splitOn_append_cons_self_of_not_mem plain]⟩

theorem linearWhiteSpace_other {c : UInt8} (other : c ≠ space ∧ c ≠ htab ∧ c ≠ carriageReturn) (rest : List UInt8) :
    linearWhiteSpace (c :: rest) = c :: rest := by
  rw [linearWhiteSpace.eq_def]
  exact if_pos other

theorem linearWhiteSpace_blank {c : UInt8} (blank : c = space ∨ c = htab) (rest : List UInt8) :
    linearWhiteSpace (c :: rest) = linearWhiteSpace rest := by
  have notReturn : c ≠ carriageReturn := by rcases blank with rfl | rfl <;> decide
  have skipped : ¬ (c ≠ space ∧ c ≠ htab ∧ c ≠ carriageReturn) := fun ⟨notSpace, notTab, _⟩ =>
    blank.elim notSpace notTab
  rw [linearWhiteSpace.eq_def]
  simp only [if_neg skipped]
  exact if_neg fun line => notReturn line.1

theorem linearWhiteSpace_gap {gap : List UInt8} (blanks : ∀ c ∈ gap, c = space ∨ c = htab) (rest : List UInt8) :
    linearWhiteSpace (gap ++ equals :: rest) = equals :: rest := by
  induction gap with
  | nil => exact linearWhiteSpace_other (by decide) rest
  | cons c gap ih =>
    have known := blanks c List.mem_cons_self
    rw [List.cons_append, linearWhiteSpace_blank known]
    exact ih fun d inside => blanks d (List.mem_cons_of_mem c inside)

theorem offered_opening (param : HeaderParam) {raw : List UInt8} (nonempty : raw ≠ []) :
    offered param.name.octets (param.opening ++ raw) = some raw := by
  obtain ⟨first, rest, spelled⟩ := param.name.exists_cons
  have free : first ∉ param.indent := by
    intro inside
    refine param.name.not_blank (spelled ▸ List.mem_cons_self) ?_
    rcases param.blank first (List.mem_append_left _ inside) with rfl | rfl <;> decide
  have text : param.opening ++ raw =
      param.indent ++ (first :: rest ++ (param.gap ++ equals :: raw)) := by
    simp only [HeaderParam.opening, spelled, List.append_assoc, List.singleton_append]
  have behind : (param.indent ++ (first :: rest ++ (param.gap ++ equals :: raw))).drop
      (param.indent.length + (first :: rest).length) = param.gap ++ equals :: raw := by
    rw [← List.append_assoc, ← List.length_append, List.drop_left]
  rw [offered, text, spelled, firstAt_here free]
  simp only [behind, linearWhiteSpace_gap fun c inside => param.blank c (List.mem_append_right _ inside)]
  exact if_pos ⟨trivial, nonempty⟩

theorem HeaderParam.opening_free (param : HeaderParam) : semicolon ∉ param.opening := by
  have blanks : semicolon ∉ param.indent ++ param.gap := fun inside => absurd (param.blank _ inside) (by decide)
  have name : semicolon ∉ param.name.octets := fun inside => absurd (param.name.plain _ inside).2 (by decide)
  rw [List.mem_append, not_or] at blanks
  simp only [opening, List.mem_append, List.mem_singleton, not_or]
  exact ⟨blanks.1, name, blanks.2, by decide⟩

theorem offered_own (param : HeaderParam) {back : List UInt8} (ends : back.head? = none ∨ back.head? = some semicolon) :
    ∃ raw later, (param.text ++ back).splitOn semicolon = (param.opening ++ raw) :: later ∧
      offered param.name.octets (param.opening ++ raw) = some raw ∧
      (raw = param.value.octets ↔ param.value.IsPlain) := by
  obtain ⟨later, pieces⟩ := splitOn_first (param.text ++ back)
  have inside : ∀ c ∈ param.opening, decide (c ≠ semicolon) = true := fun c member =>
    decide_eq_true fun found => param.opening_free (found ▸ member)
  have first : (param.text ++ back).takeWhile (· ≠ semicolon) =
      param.opening ++ (param.value.text ++ back).takeWhile (· ≠ semicolon) := by
    rw [HeaderParam.text, List.append_assoc, List.takeWhile_append_of_pos inside]
  refine ⟨_, later, pieces.trans (congrArg (· :: later) first), ?_⟩
  match value : param.value with
  | .plain octets nonempty free =>
    have whole : ∀ c ∈ octets, decide (c ≠ semicolon) = true := fun c member =>
      decide_eq_true fun found => absurd (free c member) (found ▸ by decide)
    have none : back.takeWhile (· ≠ semicolon) = [] := by
      cases back with
      | nil => rfl
      | cons c back =>
        have known : c = semicolon := ends.elim (fun absurd => by cases absurd) Option.some.inj
        rw [known, List.takeWhile_cons_of_neg (by simp)]
    have raw : ((ParamValue.plain octets nonempty free).text ++ back).takeWhile (· ≠ semicolon) = octets := by
      rw [ParamValue.text, List.takeWhile_append_of_pos whole, none, List.append_nil]
    rw [raw]
    exact ⟨offered_opening param nonempty, iff_of_true rfl trivial⟩
  | .quoted octets free =>
    have raw : ((ParamValue.quoted octets free).text ++ back).takeWhile (· ≠ semicolon) =
        doubleQuote :: (octets ++ [doubleQuote] ++ back).takeWhile (· ≠ semicolon) := by
      rw [ParamValue.text, List.cons_append, List.cons_append, List.takeWhile_cons_of_pos (by decide)]
    rw [raw]
    refine ⟨offered_opening param (List.cons_ne_nil _ _), iff_of_false (fun same => ?_) fun plain => plain⟩
    have member : doubleQuote ∈ (ParamValue.quoted octets free).octets := same ▸ List.mem_cons_self
    exact (free doubleQuote member).2 rfl

theorem paramsText_append (params more : List HeaderParam) :
    paramsText (params ++ more) = paramsText params ++ paramsText more := List.flatMap_append

theorem paramsText_head (params : List HeaderParam) :
    (paramsText params).head? = none ∨ (paramsText params).head? = some semicolon := by
  cases params with
  | nil => exact Or.inl rfl
  | cons param params => exact Or.inr rfl

theorem paramFrom_absent (header : PartHeader) (name : ParamName) (absent : header.param name = none) :
    paramFrom name.octets header.text =
      ((header.front name).splitOn semicolon).findSome? (offered name.octets) := by
  have all : (header.params.takeWhile fun param => param.name.octets ≠ name.octets) = header.params := by
    rw [List.takeWhile_eq_self_iff]
    intro param member
    have other := List.find?_eq_none.mp absent param member
    simpa using other
  rw [paramFrom_eq, PartHeader.front, all, PartHeader.text]

theorem paramFrom_present {header : PartHeader} {name : ParamName} {param : HeaderParam}
    (present : header.param name = some param) :
    ∃ raw, (raw = param.value.octets ↔ param.value.IsPlain) ∧ paramFrom name.octets header.text =
      (((header.front name).splitOn semicolon).findSome? (offered name.octets)).or (some raw) := by
  obtain ⟨found, before, after, params, others⟩ := List.find?_eq_some_iff_append.mp present
  have named : param.name.octets = name.octets := of_decide_eq_true found
  have front : (header.params.takeWhile fun param => param.name.octets ≠ name.octets) = before := by
    have differ : ∀ other ∈ before, decide (other.name.octets ≠ name.octets) = true := by
      intro other member
      have unlike := others other member
      simpa using unlike
    rw [params, List.takeWhile_append_of_pos differ, List.takeWhile_cons_of_neg (by simp [named]), List.append_nil]
  obtain ⟨raw, later, own, offers, same⟩ := offered_own param (paramsText_head after)
  have text : header.text = header.front name ++ semicolon :: (param.text ++ paramsText after) := by
    rw [PartHeader.text, PartHeader.front, front, params, paramsText_append, List.append_assoc]
    rfl
  refine ⟨raw, same, ?_⟩
  rw [paramFrom_eq, text, List.splitOn_append_cons_self, List.findSome?_append, own, List.findSome?_cons, ← named,
    offers]

theorem header_param_found (header : PartHeader) (name : ParamName) :
    LooksUp header name ↔ InPlainSight header name ∨ SameByChance header name := by
  have looked : getHeaderParam header.cString name.cString = paramFrom name.octets header.text := rfl
  rw [LooksUp, looked, InPlainSight, SameByChance]
  cases present : header.param name with
  | none =>
    rw [paramFrom_absent header name present, Option.map_none, List.findSome?_eq_none_iff]
    constructor
    next => exact fun nothing => Or.inl ⟨nothing, fun param found => by cases found⟩
    next =>
      rintro (sight | ⟨param, found, _⟩)
      · exact sight.1
      · cases found
  | some param =>
    obtain ⟨raw, own, result⟩ := paramFrom_present present
    have only : ∀ other, other ∈ some param ↔ param = other := fun other => Option.mem_some
    rw [result, Option.map_some]
    simp only [only, exists_eq_left', forall_eq']
    cases front : ((header.front name).splitOn semicolon).findSome? (offered name.octets) with
    | none =>
      have nothing := List.findSome?_eq_none_iff.mp front
      rw [Option.none_or, Option.some.injEq, own]
      exact ⟨fun plain => Or.inl ⟨nothing, plain⟩, fun right => right.elim And.right fun chance => by cases chance⟩
    | some other =>
      have offers : ¬ ∀ piece ∈ (header.front name).splitOn semicolon, offered name.octets piece = none := by
        rw [← List.findSome?_eq_none_iff, front]
        exact Option.some_ne_none other
      rw [Option.some_or]
      exact ⟨Or.inr, fun right => right.elim (fun sight => absurd sight.1 offers) id⟩

def plainParam (name value : List UInt8) (named : name ≠ []) (valued : value ≠ [])
    (plain : ∀ c ∈ name, c ≠ equals ∧ c ∉ separators) (free : ∀ c ∈ value, c ∉ separators) : HeaderParam :=
  ⟨[space], ⟨name, named, plain⟩, [], .plain value valued free, by decide +kernel⟩

def filenameParam : HeaderParam :=
  plainParam [0x66, 0x69, 0x6C, 0x65, 0x6E, 0x61, 0x6D, 0x65] [0x61] (List.cons_ne_nil _ _) (List.cons_ne_nil _ _)
    (by decide +kernel) (by decide +kernel)

def nameParam : HeaderParam :=
  plainParam [0x6E, 0x61, 0x6D, 0x65] [0x62] (by decide) (by decide) (by decide +kernel) (by decide +kernel)

-- `v; filename=a; name=b` offers `a` for `name`.
theorem header_param_confused : ¬ ∀ (header : PartHeader) (name : ParamName), LooksUp header name := by
  intro every
  have result := every ⟨.plain [0x76] (by decide) (by decide +kernel), [filenameParam, nameParam]⟩ nameParam.name
  have taken := paramFrom_eq nameParam.name
    (PartHeader.text ⟨.plain [0x76] (by decide) (by decide +kernel), [filenameParam, nameParam]⟩)
  have other := taken.symm.trans result
  exact absurd other (by decide +kernel)

end Headers

end CcspCommon.HttpSmpo
