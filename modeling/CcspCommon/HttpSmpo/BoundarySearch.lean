import CcspCommon.HttpMboChunked.ChunkLine
import CcspCommon.HttpSmpo.HeaderXInfo
import CcspCommon.Shared.Occurrence

set_option autoImplicit false

namespace CcspCommon.HttpSmpo

open CcspCommon.Shared
open CcspCommon.HttpMboChunked (memchr memchr_split memchr_eq_none)

abbrev hyphen : UInt8 := 0x2D

def multipartBoundaryDeli : List UInt8 := [hyphen, hyphen]

def delimiter (pBoundary : CString) : List UInt8 := multipartBoundaryDeli ++ pBoundary.val

-- `HttpSmpoMultipartFindBoundary` in the memory from `pBuf` on: where the string behind the two hyphens stands,
-- and whether two more follow it. The string and what follows it may stand behind the `ulBufLen` bytes.
def multipartFindBoundary (pBoundary : CString) (ulBufLen : Nat) (pBuf : List UInt8) : Option (Nat × Bool) :=
  if ulBufLen < 2 then none
  else
    let searched := pBuf.take (ulBufLen - 1)
    match memchr hyphen searched with
    | none => none
    | some found =>
      let pFirstH := searched.length - found.length
      let pStr := pBuf.drop (pFirstH + 2)
      if (pBuf.drop (pFirstH + 1)).head? = some hyphen ∧
          anscEqualString2 pStr pBoundary.val pBoundary.val.length true then
        some (pFirstH + 2, (pStr.drop pBoundary.val.length).take 2 = multipartBoundaryDeli)
      else
        (multipartFindBoundary pBoundary (ulBufLen - pFirstH - 1) (pBuf.drop (pFirstH + 1))).map fun next =>
          (pFirstH + 1 + next.1, next.2)
termination_by ulBufLen

theorem equalFrom_prefix {pattern : List UInt8} (terminated : 0 ∉ pattern) (text : List UInt8) :
    equalFrom id pattern.length text pattern = true ↔ pattern <+: text := by
  induction pattern generalizing text with
  | nil => exact iff_of_true rfl List.nil_prefix
  | cons c pattern ih =>
    have later := ih fun inside => terminated (List.mem_cons_of_mem c inside)
    have notNul : c ≠ 0 := fun nul => terminated (nul ▸ List.mem_cons_self)
    cases text with
    | nil => simp [equalFrom, Ne.symm notNul]
    | cons d text =>
      rw [List.length_cons, equalFrom, List.cons_prefix_cons, ← later]
      by_cases same : c = d
      next => simp [same ▸ notNul, same]
      next => simp [same, Ne.symm same]

theorem delimiter_prefix (pBoundary : CString) (rest : List UInt8) :
    delimiter pBoundary <+: hyphen :: rest ↔
      rest.head? = some hyphen ∧ anscEqualString2 rest.tail pBoundary.val pBoundary.val.length true := by
  rw [delimiter, multipartBoundaryDeli, List.cons_append, List.cons_prefix_cons, List.cons_append, List.nil_append,
    anscEqualString2, if_pos rfl, equalFrom_prefix pBoundary.property]
  cases rest with
  | nil => simp
  | cons second rest =>
    rw [List.cons_prefix_cons, List.head?_cons, Option.some.injEq, List.tail_cons]
    exact ⟨fun starts => ⟨starts.2.1.symm, starts.2.2⟩, fun starts => ⟨rfl, starts.1.symm, starts.2⟩⟩

theorem firstAt_delimiter (pBoundary : CString) {front : List UInt8} (free : hyphen ∉ front) (rest : List UInt8) :
    firstAt (delimiter pBoundary) (front ++ hyphen :: rest) =
      if rest.head? = some hyphen ∧ anscEqualString2 rest.tail pBoundary.val pBoundary.val.length true then
        some front.length
      else (firstAt (delimiter pBoundary) rest).map (front.length + 1 + ·) := by
  have moved := @firstAt_append_left _ _ (hyphen :: pBoundary.val) _ _ free (hyphen :: rest)
  rw [delimiter, multipartBoundaryDeli, List.cons_append, List.cons_append, List.nil_append, moved]
  have starts := delimiter_prefix pBoundary rest
  rw [delimiter, multipartBoundaryDeli, List.cons_append, List.cons_append, List.nil_append] at starts
  rw [← List.isPrefixOf_iff_prefix] at starts
  rw [firstAt_cons]
  split
  next here => rw [if_pos (starts.mp here), Option.map_some, Nat.add_zero]
  next other =>
    rw [if_neg fun here => other (starts.mpr here), Option.map_map]
    exact congrArg (Option.map · _) (funext fun place => by simp only [Function.comp_apply]; omega)

theorem firstAt_delimiter_behind (pBoundary : CString) {searched more : List UInt8} (absent : hyphen ∉ searched)
    {place : Nat} (found : firstAt (delimiter pBoundary) (searched ++ more) = some place) :
    searched.length ≤ place := by
  refine Nat.le_of_not_lt fun inside => ?_
  exact @not_occursAt_free _ _ (hyphen :: pBoundary.val) _ absent more _ inside (firstAt_eq_some.mp found).1

theorem multipartFindBoundary_eq (pBoundary : CString) {ulBufLen : Nat} {pBuf : List UInt8}
    (held : ulBufLen ≤ pBuf.length) :
    multipartFindBoundary pBoundary ulBufLen pBuf =
      match firstAt (delimiter pBoundary) pBuf with
      | none => none
      | some place =>
        if place + 1 < ulBufLen then
          some (place + 2, (pBuf.drop (place + (delimiter pBoundary).length)).take 2 = multipartBoundaryDeli)
        else none := by
  induction ulBufLen using Nat.strong_induction_on generalizing pBuf with
  | _ ulBufLen ih =>
    have size : (pBuf.take (ulBufLen - 1)).length = ulBufLen - 1 := List.length_take_of_le (by omega)
    rw [multipartFindBoundary]
    split
    next few =>
      cases firstAt (delimiter pBoundary) pBuf with
      | none => rfl
      | some place => simp only [if_neg (show ¬ place + 1 < ulBufLen by omega)]
    next =>
      simp only
      split
      next known =>
        have absent : hyphen ∉ pBuf.take (ulBufLen - 1) := List.count_eq_zero.mp (memchr_eq_none.mp known)
        cases found : firstAt (delimiter pBoundary) pBuf with
        | none => rfl
        | some place =>
          rw [← List.take_append_drop (ulBufLen - 1) pBuf] at found
          have behind := firstAt_delimiter_behind pBoundary absent found
          simp only [if_neg (show ¬ place + 1 < ulBufLen by omega)]
      next found known =>
        obtain ⟨front, later, searched, free, same⟩ := memchr_split known
        have pFirstH : (pBuf.take (ulBufLen - 1)).length - found.length = front.length := by
          rw [searched, same, List.length_append, Nat.add_sub_cancel]
        have inside : front.length + 1 < ulBufLen := by
          rw [searched, List.length_append, List.length_cons] at size
          omega
        obtain ⟨rest, whole⟩ : ∃ rest, pBuf = front ++ hyphen :: rest := by
          refine ⟨later ++ pBuf.drop (ulBufLen - 1), ?_⟩
          rw [← List.cons_append, ← List.append_assoc, ← searched, List.take_append_drop]
        have tail : pBuf.drop (front.length + 1) = rest := by
          rw [whole, ← List.drop_drop, List.drop_left, List.drop_one, List.tail_cons]
        have second : pBuf.drop (front.length + 2) = rest.tail := by
          rw [← tail, List.tail_drop]
        have restSize : pBuf.length = front.length + (rest.length + 1) := by
          rw [whole, List.length_append, List.length_cons]
        rw [pFirstH, tail, second]
        conv_rhs => rw [whole, firstAt_delimiter pBoundary free]
        split
        next here =>
          simp only [if_pos inside]
          have behindIt : rest.tail.drop pBoundary.val.length =
              pBuf.drop (front.length + (delimiter pBoundary).length) := by
            rw [← second, List.drop_drop, delimiter, List.length_append, ← Nat.add_assoc]
            rfl
          rw [← whole, behindIt]
        next other =>
          rw [ih (ulBufLen - front.length - 1) (by omega) (by omega)]
          cases firstAt (delimiter pBoundary) rest with
          | none => rfl
          | some place =>
            simp only [Option.map_some]
            by_cases fits : place + 1 < ulBufLen - front.length - 1
            next =>
              have fitsToo : front.length + 1 + place + 1 < ulBufLen := by omega
              have behindIt : (rest.drop (place + (delimiter pBoundary).length)) =
                  pBuf.drop (front.length + 1 + place + (delimiter pBoundary).length) := by
                rw [← tail, List.drop_drop]
                exact congrArg (List.drop · pBuf) (by omega)
              rw [if_pos fits, if_pos fitsToo, ← whole, behindIt]
              rfl
            next =>
              rw [if_neg fits, if_neg (show ¬ front.length + 1 + place + 1 < ulBufLen by omega)]
              rfl

theorem two_le_delimiter (pBoundary : CString) : 2 ≤ (delimiter pBoundary).length := by
  rw [delimiter, List.length_append]
  exact Nat.le_add_right 2 _

theorem delimiter_ne_nil (pBoundary : CString) : delimiter pBoundary ≠ [] := List.cons_ne_nil _ _

theorem multipartFindBoundary_whole (pBoundary : CString) (pBuf : List UInt8) :
    multipartFindBoundary pBoundary pBuf.length pBuf = (firstAt (delimiter pBoundary) pBuf).map fun place =>
      (place + 2, decide ((pBuf.drop (place + (delimiter pBoundary).length)).take 2 = multipartBoundaryDeli)) := by
  rw [multipartFindBoundary_eq pBoundary (Nat.le_refl _)]
  cases found : firstAt (delimiter pBoundary) pBuf with
  | none => rfl
  | some place =>
    have fits := (firstAt_eq_some.mp found).1.length_le (delimiter_ne_nil pBoundary)
    have two := two_le_delimiter pBoundary
    simp only [if_pos (show place + 1 < pBuf.length by omega), Option.map_some]

theorem multipartFindBoundary_part (pBoundary : CString) (data behind : List UInt8) :
    (multipartFindBoundary pBoundary data.length (data ++ behind)).map Prod.fst =
      (firstAt (delimiter pBoundary) (data ++ behind.take pBoundary.val.length)).map (· + 2) := by
  have size : (delimiter pBoundary).length = pBoundary.val.length + 2 := by
    rw [delimiter, List.length_append, Nat.add_comm]
    rfl
  have whole : data ++ behind = data ++ behind.take pBoundary.val.length ++ behind.drop pBoundary.val.length := by
    rw [List.append_assoc, List.take_append_drop]
  have held : data.length ≤ (data ++ behind).length := by
    rw [List.length_append]
    exact Nat.le_add_right _ _
  rw [multipartFindBoundary_eq pBoundary held]
  cases near : firstAt (delimiter pBoundary) (data ++ behind.take pBoundary.val.length) with
  | some place =>
    have fits := (firstAt_eq_some.mp near).1.length_le (delimiter_ne_nil pBoundary)
    rw [List.length_append, List.length_take] at fits
    rw [whole, firstAt_append_right (delimiter_ne_nil pBoundary) near]
    simp only [if_pos (show place + 1 < data.length by omega), Option.map_some]
  | none =>
    cases far : firstAt (delimiter pBoundary) (data ++ behind) with
    | none => rfl
    | some place =>
      have fits := (firstAt_eq_some.mp far).1.length_le (delimiter_ne_nil pBoundary)
      have outside : ¬ place + 1 < data.length := by
        intro inside
        rw [whole] at far
        have found := firstAt_part far (by
          rw [List.length_append] at fits
          rw [List.length_append, List.length_take]
          omega)
        rw [near] at found
        cases found
      simp only [if_neg outside, Option.map_none]

end CcspCommon.HttpSmpo
