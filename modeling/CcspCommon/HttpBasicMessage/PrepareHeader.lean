import CcspCommon.HttpMboChunked.ChunkLine

set_option autoImplicit false

namespace CcspCommon.HttpBasicMessage

open CcspCommon.HttpMboChunked (carriageReturn lineFeed)

section Model

abbrev horizontalTab : UInt8 := 0x09

abbrev space : UInt8 := 0x20

abbrev doubleQuote : UInt8 := 0x22

def isLws (single : UInt8) : Bool := single = horizontalTab || single = space

def isDq (single : UInt8) : Bool := single = doubleQuote

def isBlank (single : UInt8) : Bool := isLws single || single = carriageReturn || single = lineFeed

def prepareLoop (dstStream : List UInt8) (isQuoted : Bool) : List UInt8 → List UInt8
  | [] => dstStream
  | first :: rest =>
    if isQuoted then prepareLoop (dstStream ++ [first]) (!isDq first) rest
    else if isBlank first then
      if dstStream.length = 0 then prepareLoop (dstStream ++ [space]) false rest
      else if !isLws (dstStream.getD (dstStream.length - 1) 0) then prepareLoop (dstStream ++ [space]) false rest
      else prepareLoop dstStream false rest
    else prepareLoop (dstStream ++ [first]) (isDq first) rest

def trimLoop (dstStream : List UInt8) : Nat → Nat
  | 0 => 0
  | dstSize + 1 => if !isLws (dstStream.getD dstSize 0) then dstSize + 1 else trimLoop dstStream dstSize

def prepareHeader (rawBuffer : List UInt8) : List UInt8 :=
  let dstStream := prepareLoop [] false rawBuffer
  dstStream.take (trimLoop dstStream dstStream.length)

end Model

section Squeezing

-- What the first loop writes behind a blank or another byte.
def squeeze : Bool → Bool → List UInt8 → List UInt8
  | _, _, [] => []
  | _, true, first :: rest => first :: squeeze (isLws first) (!isDq first) rest
  | behindBlank, false, first :: rest =>
    if isBlank first then (if behindBlank then [] else [space]) ++ squeeze true false rest
    else first :: squeeze false (isDq first) rest

def endsBlank (dstStream : List UInt8) : Bool := dstStream.getLast?.any isLws

theorem endsBlank_concat (dstStream : List UInt8) (last : UInt8) : endsBlank (dstStream ++ [last]) = isLws last := by
  rw [endsBlank, List.getLast?_concat, Option.any_some]

theorem isLws_eq_false {single : UInt8} (solid : isBlank single = false) : isLws single = false := by
  rw [isBlank, Bool.or_eq_false_iff, Bool.or_eq_false_iff] at solid
  exact solid.1.1

theorem endsBlank_eq (dstStream : List UInt8) :
    endsBlank dstStream = (dstStream.length ≠ 0 && isLws (dstStream.getD (dstStream.length - 1) 0)) := by
  cases dstStream using List.reverseRecOn with
  | nil => rfl
  | append_singleton dstStream last =>
    rw [endsBlank_concat, List.length_append, List.length_singleton, Nat.add_sub_cancel, List.getD_append_right _ _ _ _
      (Nat.le_refl _), Nat.sub_self]
    simp

theorem prepareLoop_eq (dstStream : List UInt8) (isQuoted : Bool) (text : List UInt8) :
    prepareLoop dstStream isQuoted text = dstStream ++ squeeze (endsBlank dstStream) isQuoted text := by
  induction text generalizing dstStream isQuoted with
  | nil => cases isQuoted <;> simp [prepareLoop, squeeze]
  | cons first rest ih =>
    cases isQuoted with
    | true =>
      rw [prepareLoop, if_pos rfl, ih, endsBlank_concat, squeeze, List.append_assoc, List.singleton_append]
    | false =>
      rw [prepareLoop, if_neg Bool.false_ne_true, squeeze]
      cases blank : isBlank first with
      | false =>
        rw [if_neg Bool.false_ne_true, if_neg Bool.false_ne_true, ih, endsBlank_concat, isLws_eq_false blank,
          List.append_assoc, List.singleton_append]
      | true =>
        have written := (ih (dstStream ++ [space]) false).trans (List.append_assoc _ _ _)
        rw [endsBlank_concat, show isLws space = true from rfl] at written
        have tests := endsBlank_eq dstStream
        rw [if_pos rfl, if_pos rfl]
        split
        next empty =>
          rw [empty, decide_eq_false (fun some => some rfl), Bool.false_and] at tests
          rw [written, tests, if_neg Bool.false_ne_true]
        next some =>
          rw [decide_eq_true some, Bool.true_and] at tests
          rw [← tests]
          cases behind : endsBlank dstStream with
          | false => rw [Bool.not_false, if_pos rfl, written, if_neg Bool.false_ne_true]
          | true => rw [Bool.not_true, if_neg Bool.false_ne_true, if_pos rfl, ih, behind, List.nil_append]

theorem length_squeeze_le (behindBlank isQuoted : Bool) (text : List UInt8) :
    (squeeze behindBlank isQuoted text).length ≤ text.length := by
  fun_induction squeeze behindBlank isQuoted text with
  | case1 => exact Nat.le_refl 0
  | case2 => exact Nat.succ_le_succ ‹_›
  | case3 behindBlank first rest blank ih =>
    rw [List.length_append, List.length_cons]
    split
    next => exact Nat.le_trans (Nat.le_of_eq (Nat.zero_add _)) (Nat.le_succ_of_le ih)
    next =>
      rw [List.length_singleton]
      omega
  | case4 => exact Nat.succ_le_succ ‹_›

theorem squeeze_idem (behindBlank isQuoted : Bool) (text : List UInt8) :
    squeeze behindBlank isQuoted (squeeze behindBlank isQuoted text) = squeeze behindBlank isQuoted text := by
  fun_induction squeeze behindBlank isQuoted text with
  | case1 _ isQuoted => cases isQuoted <;> rfl
  | case2 behindBlank first rest ih => rw [squeeze, ih]
  | case3 behindBlank first rest blank ih =>
    cases behindBlank with
    | true => exact ih
    | false =>
      rw [if_neg Bool.false_ne_true, List.singleton_append, squeeze, if_pos (by rfl), ih]
      rfl
  | case4 behindBlank first rest solid ih => rw [squeeze, if_neg solid, ih]

theorem squeeze_front {behindBlank isQuoted : Bool} {front back : List UInt8}
    (same : squeeze behindBlank isQuoted (front ++ back) = front ++ back) :
    squeeze behindBlank isQuoted front = front := by
  induction front generalizing behindBlank isQuoted with
  | nil => cases isQuoted <;> rfl
  | cons first front ih =>
    rw [List.cons_append] at same
    cases isQuoted with
    | true =>
      rw [squeeze, List.cons.injEq] at same
      rw [squeeze, ih same.2]
    | false =>
      rw [squeeze] at same ⊢
      split at same
      next blank =>
        rw [if_pos blank]
        cases behindBlank with
        | true =>
          have few := length_squeeze_le true false (front ++ back)
          rw [if_pos rfl, List.nil_append] at same
          rw [same, List.length_cons] at few
          exact absurd few (Nat.not_succ_le_self _)
        | false =>
          rw [if_neg Bool.false_ne_true, List.singleton_append, List.cons.injEq] at same ⊢
          exact ⟨same.1, ih same.2⟩
      next solid =>
        rw [List.cons.injEq] at same
        rw [if_neg solid, ih same.2]

end Squeezing

section Trimming

theorem trimLoop_eq (dstStream : List UInt8) {dstSize : Nat} (within : dstSize ≤ dstStream.length) :
    dstStream.take (trimLoop dstStream dstSize) = (dstStream.take dstSize).rdropWhile isLws := by
  induction dstSize with
  | zero => rfl
  | succ dstSize ih =>
    have last : dstStream.take (dstSize + 1) = dstStream.take dstSize ++ [dstStream.getD dstSize 0] := by
      rw [List.take_add_one, List.getElem?_eq_getElem within, Option.toList_some, List.getD_eq_getElem?_getD,
        List.getElem?_eq_getElem within, Option.getD_some]
    rw [trimLoop, last]
    cases blank : isLws (dstStream.getD dstSize 0) with
    | false =>
      rw [Bool.not_false, if_pos rfl, List.rdropWhile_concat_neg _ _ _ (Bool.eq_false_iff.mp blank), last]
    | true =>
      rw [Bool.not_true, if_neg Bool.false_ne_true, List.rdropWhile_concat_pos _ _ _ blank, ih (Nat.le_of_lt within)]

theorem prepareHeader_eq (rawBuffer : List UInt8) :
    prepareHeader rawBuffer = (squeeze false false rawBuffer).rdropWhile isLws := by
  rw [prepareHeader, trimLoop_eq _ (Nat.le_refl _), List.take_length, prepareLoop_eq]
  rfl

theorem prepareHeader_idem (rawBuffer : List UInt8) :
    prepareHeader (prepareHeader rawBuffer) = prepareHeader rawBuffer := by
  obtain ⟨back, whole⟩ := List.rdropWhile_prefix isLws (squeeze false false rawBuffer)
  have same := squeeze_idem false false rawBuffer
  rw [← whole] at same
  have front := squeeze_front same
  rw [prepareHeader_eq, prepareHeader_eq, front, List.rdropWhile_idempotent]

theorem length_prepareHeader_le (rawBuffer : List UInt8) : (prepareHeader rawBuffer).length ≤ rawBuffer.length := by
  rw [prepareHeader_eq]
  exact Nat.le_trans (List.rdropWhile_prefix isLws _).length_le (length_squeeze_le false false rawBuffer)

end Trimming

section QuotedStrings

def quotedStrings : Option (List UInt8) → List UInt8 → List (List UInt8)
  | _, [] => []
  | none, first :: rest => quotedStrings (if isDq first then some [] else none) rest
  | some body, first :: rest =>
    if isDq first then body :: quotedStrings none rest else quotedStrings (some (body ++ [first])) rest

theorem isDq_eq_false {single : UInt8} (blank : isBlank single = true) : isDq single = false := by
  rw [isDq, decide_eq_false_iff_not]
  rintro rfl
  cases blank

theorem quotedStrings_skip {blanks : List UInt8} (blank : ∀ single ∈ blanks, isBlank single = true)
    (text : List UInt8) : quotedStrings none (blanks ++ text) = quotedStrings none text := by
  induction blanks with
  | nil => rfl
  | cons first blanks ih =>
    obtain ⟨here, later⟩ := List.forall_mem_cons.mp blank
    rw [List.cons_append, quotedStrings, isDq_eq_false here, if_neg Bool.false_ne_true, ih later]

theorem quotedStrings_squeeze (behindBlank : Bool) (opened : Option (List UInt8)) (text : List UInt8) :
    quotedStrings opened (squeeze behindBlank opened.isSome text) = quotedStrings opened text := by
  induction text generalizing behindBlank opened with
  | nil => cases opened <;> rfl
  | cons first rest ih =>
    cases opened with
    | some body =>
      rw [Option.isSome_some, squeeze, quotedStrings, quotedStrings]
      cases isDq first with
      | true => rw [if_pos rfl, if_pos rfl]; exact congrArg _ (ih (isLws first) none)
      | false =>
        rw [if_neg Bool.false_ne_true, if_neg Bool.false_ne_true]
        exact ih (isLws first) (some (body ++ [first]))
    | none =>
      rw [Option.isSome_none, squeeze]
      split
      next blank =>
        have blanks : ∀ single ∈ (if behindBlank then [] else [space]), isBlank single = true := by
          cases behindBlank with
          | true => exact List.forall_mem_nil _
          | false => exact List.forall_mem_singleton.mpr rfl
        rw [quotedStrings_skip blanks]
        have here := @quotedStrings_skip [first] (List.forall_mem_singleton.mpr blank) rest
        exact (ih true none).trans here.symm
      next =>
        rw [quotedStrings, quotedStrings]
        cases isDq first with
        | true => rw [if_pos rfl]; exact ih false (some [])
        | false => rw [if_neg Bool.false_ne_true]; exact ih false none

theorem quotedStrings_end {back : List UInt8} (free : ∀ single ∈ back, isDq single = false)
    (opened : Option (List UInt8)) (front : List UInt8) :
    quotedStrings opened (front ++ back) = quotedStrings opened front := by
  induction front generalizing opened with
  | nil =>
    rw [List.nil_append]
    induction back generalizing opened with
    | nil => rfl
    | cons first back ih =>
      obtain ⟨here, later⟩ := List.forall_mem_cons.mp free
      cases opened <;> simp only [quotedStrings, here, Bool.false_eq_true, if_false] <;> exact ih later _
  | cons first front ih =>
    cases opened <;> rw [List.cons_append, quotedStrings, quotedStrings]
    next => exact ih _
    next => rw [ih, ih]

theorem quotedStrings_prepareHeader (rawBuffer : List UInt8) :
    quotedStrings none (prepareHeader rawBuffer) = quotedStrings none rawBuffer := by
  have whole : (squeeze false false rawBuffer).rdropWhile isLws ++ (squeeze false false rawBuffer).rtakeWhile isLws =
      squeeze false false rawBuffer := List.rdropWhile_append_rtakeWhile
  have free : ∀ single ∈ (squeeze false false rawBuffer).rtakeWhile isLws, isDq single = false := by
    intro single inside
    refine isDq_eq_false ?_
    rw [isBlank, List.mem_rtakeWhile_imp inside, Bool.true_or, Bool.true_or]
  have kept := quotedStrings_end free none (prepareHeader rawBuffer)
  rw [prepareHeader_eq, whole] at kept
  rw [prepareHeader_eq, ← kept]
  exact quotedStrings_squeeze false none rawBuffer

theorem header_prepared (rawBuffer : List UInt8) :
    (prepareHeader rawBuffer).length ≤ rawBuffer.length ∧
      quotedStrings none (prepareHeader rawBuffer) = quotedStrings none rawBuffer ∧
        prepareHeader (prepareHeader rawBuffer) = prepareHeader rawBuffer :=
  ⟨length_prepareHeader_le rawBuffer, quotedStrings_prepareHeader rawBuffer, prepareHeader_idem rawBuffer⟩

end QuotedStrings

end CcspCommon.HttpBasicMessage
