import CcspCommon.HttpSmpo.BoundarySearch

set_option autoImplicit false

namespace CcspCommon.HttpMessageBody

open CcspCommon.Shared
open CcspCommon.HttpMboChunked (memchr memchr_split memchr_eq_none memchr_here memchr_append)
open CcspCommon.HttpSmpo (CString anscEqualString2 equalFrom_prefix)

section Model

-- `HttpMboFindBoundaryPos`: the position that it stores, when it finds one. `pEnd` is the last byte of the data,
-- so that the condition of the loop asks for one byte more than the boundary has.
def findBoundaryPos (pBoundary : CString) (pData : List UInt8) : Option Nat :=
  if pBoundary.val.length < pData.length then
    match memchr (pBoundary.val.headD 0) pData with
    | none => none
    | some pNext =>
      let position := pData.length - pNext.length
      if pNext.length < pBoundary.val.length then none
      else if anscEqualString2 pNext pBoundary.val pBoundary.val.length true then some position
      else (findBoundaryPos pBoundary (pData.drop (position + 1))).map fun later => position + 1 + later
  else none
termination_by pData.length

end Model

section Search

variable {pBoundary : CString} {first : UInt8} {pattern : List UInt8}

theorem findBoundaryPos_short {pData : List UInt8} (few : pData.length ≤ pBoundary.val.length) :
    findBoundaryPos pBoundary pData = none := by
  rw [findBoundaryPos, if_neg (Nat.not_lt_of_le few)]

theorem findBoundaryPos_absent (starts : pBoundary.val = first :: pattern) {pData : List UInt8}
    (absent : first ∉ pData) : findBoundaryPos pBoundary pData = none := by
  have none : memchr (pBoundary.val.headD 0) pData = .none := by
    rw [starts, List.headD_cons]
    exact memchr_eq_none.mpr (List.count_eq_zero.mpr absent)
  rw [findBoundaryPos]
  split
  next => rw [none]
  next => rfl

theorem findBoundaryPos_turn (starts : pBoundary.val = first :: pattern) {front : List UInt8} (free : first ∉ front)
    (rest : List UInt8) (more : pBoundary.val.length < (front ++ first :: rest).length) :
    findBoundaryPos pBoundary (front ++ first :: rest) =
      if (first :: rest).length < pBoundary.val.length then none
      else if pBoundary.val <+: first :: rest then some front.length
      else (findBoundaryPos pBoundary rest).map (front.length + 1 + ·) := by
  have found : memchr (pBoundary.val.headD 0) (front ++ first :: rest) = some (first :: rest) := by
    rw [starts, List.headD_cons]
    exact memchr_here free rest
  have position : (front ++ first :: rest).length - (first :: rest).length = front.length := by
    rw [List.length_append, Nat.add_sub_cancel]
  have behind : (front ++ first :: rest).drop (front.length + 1) = rest := by
    rw [← List.drop_drop, List.drop_left]
    rfl
  have same : anscEqualString2 (first :: rest) pBoundary.val pBoundary.val.length true = true ↔
      pBoundary.val <+: first :: rest := equalFrom_prefix pBoundary.property _
  rw [findBoundaryPos, if_pos more, found]
  simp only [position, behind]
  split
  next => rfl
  next =>
    by_cases here : pBoundary.val <+: first :: rest
    next => rw [if_pos (same.mpr here), if_pos here]
    next => rw [if_neg (mt same.mp here), if_neg here]

/-- The boundary ends the data and is nowhere in front, and the loop would have to start where it begins: nothing
is in front of it, or the byte that it begins with. -/
def EndsUnseen (pBoundary : CString) (pData : List UInt8) : Prop :=
  ∃ front : List UInt8, pData = front ++ pBoundary.val ∧ firstAt pBoundary.val pData = some front.length ∧
    (front = [] ∨ front.getLast? = pBoundary.val.head?)

theorem firstAt_turn (starts : pBoundary.val = first :: pattern) {front : List UInt8} (free : first ∉ front)
    (rest : List UInt8) :
    firstAt pBoundary.val (front ++ first :: rest) =
      if pBoundary.val <+: first :: rest then some front.length
      else (firstAt pBoundary.val rest).map (front.length + 1 + ·) := by
  have moved := @firstAt_append_left _ _ pattern _ _ free (first :: rest)
  rw [← starts] at moved
  rw [moved, firstAt_cons]
  simp only [List.isPrefixOf_iff_prefix]
  split
  next => rfl
  next =>
    rw [Option.map_map]
    exact congrArg (Option.map · _) (funext fun place => by simp only [Function.comp_apply]; omega)

theorem endsUnseen_turn (starts : pBoundary.val = first :: pattern) {front : List UInt8} (free : first ∉ front)
    {rest : List UInt8} (other : ¬ pBoundary.val <+: first :: rest) :
    EndsUnseen pBoundary (front ++ first :: rest) ↔ EndsUnseen pBoundary rest := by
  have turn := firstAt_turn starts free rest
  rw [if_neg other] at turn
  have head : pBoundary.val.head? = some first := by rw [starts, List.head?_cons]
  constructor
  next =>
    rintro ⟨before, whole, found, last⟩
    obtain ⟨place, foundRest, same⟩ := Option.map_eq_some_iff.mp (turn.symm.trans found)
    rcases List.append_eq_append_iff.mp whole with ⟨inner, rfl, parts⟩ | ⟨inner, rfl, -⟩
    next =>
      rw [List.length_append] at same
      cases inner with
      | nil =>
        rw [List.length_nil] at same
        omega
      | cons second inner =>
        rw [List.cons_append, List.cons.injEq] at parts
        rw [List.length_cons] at same
        refine ⟨inner, parts.2, by rw [foundRest]; congr 1; omega, ?_⟩
        rcases last with none | last
        next => cases (List.append_eq_nil_iff.mp none).2
        next =>
          rw [List.getLast?_append, List.getLast?_cons] at last
          cases inner using List.reverseRecOn with
          | nil => exact .inl rfl
          | append_singleton inner final =>
            rw [List.getLast?_concat] at last ⊢
            exact .inr last
    next =>
      rw [List.length_append] at same
      omega
  next =>
    rintro ⟨before, whole, found, last⟩
    refine ⟨front ++ first :: before, ?_, ?_, .inr ?_⟩
    next => rw [whole, List.append_assoc, List.cons_append]
    next =>
      rw [turn, found, Option.map_some, List.length_append, List.length_cons]
      congr 1
      omega
    next =>
      rw [List.getLast?_append, List.getLast?_cons, head]
      rcases last with rfl | last
      next => rfl
      next => rw [last, head]; rfl

theorem endsUnseen_short (some : pBoundary.val ≠ []) {pData : List UInt8} (few : pData.length ≤ pBoundary.val.length)
    {place : Nat} (found : firstAt pBoundary.val pData = Option.some place) : EndsUnseen pBoundary pData := by
  obtain ⟨here, -⟩ := firstAt_eq_some.mp found
  have fits := here.length_le some
  obtain rfl : place = 0 := by omega
  have whole : pBoundary.val = pData := List.IsPrefix.eq_of_length here (by omega)
  exact ⟨[], whole.symm, found, .inl rfl⟩

theorem firstAt_behind (starts : pBoundary.val = first :: pattern) {front : List UInt8} (free : first ∉ front)
    {rest : List UInt8} (few : rest.length < pBoundary.val.length) : firstAt pBoundary.val (front ++ rest) = none := by
  refine firstAt_eq_none.mpr fun place here => ?_
  have fits := here.length_le (starts ▸ List.cons_ne_nil _ _)
  rw [List.length_append] at fits
  rw [starts] at here
  exact not_occursAt_free free rest (by omega) here

theorem not_endsUnseen_here (starts : pBoundary.val = first :: pattern) {front : List UInt8} (free : first ∉ front)
    {rest : List UInt8} (more : pBoundary.val.length < (front ++ first :: rest).length)
    (here : pBoundary.val <+: first :: rest) : ¬ EndsUnseen pBoundary (front ++ first :: rest) := by
  rintro ⟨before, whole, found, last⟩
  rw [firstAt_turn starts free rest, if_pos here, Option.some.injEq] at found
  obtain ⟨rfl, -⟩ := List.append_inj whole found
  have size := congrArg List.length whole
  rcases last with rfl | last
  next =>
    rw [List.nil_append, List.nil_append] at size
    rw [List.nil_append] at more
    omega
  next =>
    rw [starts, List.head?_cons] at last
    exact free (List.mem_of_getLast? last)

theorem findBoundaryPos_eq (some : pBoundary.val ≠ []) (pData : List UInt8) :
    (EndsUnseen pBoundary pData → findBoundaryPos pBoundary pData = none) ∧
      (¬ EndsUnseen pBoundary pData → findBoundaryPos pBoundary pData = firstAt pBoundary.val pData) := by
  obtain ⟨first, pattern, starts⟩ := List.exists_cons_of_ne_nil some
  induction whole : pData.length using Nat.strong_induction_on generalizing pData with
  | _ size ih =>
    by_cases more : pBoundary.val.length < pData.length
    next =>
      by_cases inside : first ∈ pData
      next =>
        obtain ⟨front, rest, rfl, free⟩ := List.eq_append_cons_of_mem inside
        have turn := findBoundaryPos_turn starts free rest more
        by_cases few : (first :: rest).length < pBoundary.val.length
        next =>
          rw [if_pos few] at turn
          rw [turn, firstAt_behind starts free few]
          exact ⟨fun _ => rfl, fun _ => rfl⟩
        rw [if_neg few] at turn
        by_cases here : pBoundary.val <+: first :: rest
        next =>
          rw [turn, firstAt_turn starts free rest, if_pos here, if_pos here]
          exact ⟨fun unseen => absurd unseen (not_endsUnseen_here starts free more here), fun _ => rfl⟩
        next =>
          have shorter : rest.length < size := by
            rw [← whole, List.length_append, List.length_cons]
            omega
          obtain ⟨missed, found⟩ := ih rest.length shorter rest rfl
          rw [turn, if_neg here, endsUnseen_turn starts free here, firstAt_turn starts free rest, if_neg here]
          exact ⟨fun unseen => by rw [missed unseen]; rfl, fun seen => by rw [found seen]⟩
      next =>
        have nowhere : firstAt pBoundary.val pData = none := by
          have behind := @firstAt_behind _ _ _ starts _ inside [] (List.length_pos_of_ne_nil some)
          rw [List.append_nil] at behind
          exact behind
        rw [findBoundaryPos_absent starts inside, nowhere]
        exact ⟨fun _ => rfl, fun _ => rfl⟩
    next =>
      rw [findBoundaryPos_short (Nat.le_of_not_lt more)]
      refine ⟨fun _ => rfl, fun seen => ?_⟩
      cases found : firstAt pBoundary.val pData with
      | none => rfl
      | some place => exact absurd (endsUnseen_short some (Nat.le_of_not_lt more) found) seen

structure FindsFirst (pBoundary : CString) (pData : List UInt8) : Prop where
  found : (findBoundaryPos pBoundary pData).isSome ↔ ∃ place, OccursAt pBoundary.val pData place
  first : ∀ place, findBoundaryPos pBoundary pData = some place →
    OccursAt pBoundary.val pData place ∧ ∀ earlier < place, ¬ OccursAt pBoundary.val pData earlier

theorem findsFirst_iff (pBoundary : CString) (pData : List UInt8) :
    FindsFirst pBoundary pData ↔ findBoundaryPos pBoundary pData = firstAt pBoundary.val pData := by
  constructor
  next =>
    intro finds
    cases answer : findBoundaryPos pBoundary pData with
    | none =>
      refine (firstAt_eq_none.mpr fun place here => ?_).symm
      have found := finds.found.mpr ⟨place, here⟩
      rw [answer] at found
      cases found
    | some place => exact (firstAt_eq_some.mpr (finds.first place answer)).symm
  next =>
    intro same
    refine ⟨?_, fun place answer => firstAt_eq_some.mp (same.symm.trans answer)⟩
    rw [same]
    cases answer : firstAt pBoundary.val pData with
    | none => exact iff_of_false Bool.false_ne_true fun ⟨place, here⟩ => firstAt_eq_none.mp answer place here
    | some place => exact iff_of_true rfl ⟨place, (firstAt_eq_some.mp answer).1⟩

theorem boundary_found (some : pBoundary.val ≠ []) (pData : List UInt8) :
    FindsFirst pBoundary pData ↔ ¬ EndsUnseen pBoundary pData := by
  obtain ⟨missed, found⟩ := findBoundaryPos_eq some pData
  rw [findsFirst_iff]
  refine ⟨fun same unseen => ?_, found⟩
  rw [missed unseen] at same
  obtain ⟨front, -, there, -⟩ := unseen
  rw [there] at same
  cases same

def sampleBoundary : CString := ⟨[0x2D, 0x2D, 0x62], by simp⟩

def severalHyphens : List UInt8 := [0x2D, 0x2D, 0x61, 0x2D, 0x2D, 0x62, 0x2D, 0x2D, 0x62]

theorem boundary_found_end : FindsFirst sampleBoundary severalHyphens ∧
    findBoundaryPos sampleBoundary severalHyphens = some 3 := by
  have first : firstAt sampleBoundary.val severalHyphens = some 3 := by decide
  have finds := (boundary_found (List.cons_ne_nil _ _) severalHyphens).mpr (by
    rintro ⟨front, whole, there, -⟩
    have length : front.length = 3 := Option.some.inj (there.symm.trans first)
    have sizes := congrArg List.length whole
    rw [List.length_append, length] at sizes
    cases sizes)
  exact ⟨finds, ((findsFirst_iff _ _).mp finds).trans first⟩

theorem boundary_found_alone : ¬ ∀ (pBoundary : CString) (pData : List UInt8), pBoundary.val ≠ [] →
    1 ≤ pData.length → FindsFirst pBoundary pData := by
  intro every
  have finds := every sampleBoundary sampleBoundary.val (List.cons_ne_nil _ _) (by decide)
  have found := finds.found.mpr ⟨0, List.prefix_refl _⟩
  rw [findBoundaryPos_short (Nat.le_refl _)] at found
  cases found

end Search

end CcspCommon.HttpMessageBody
