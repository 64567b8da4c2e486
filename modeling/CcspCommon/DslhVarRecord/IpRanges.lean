import CcspCommon.AnscPlatform.AnscString

set_option autoImplicit false

namespace CcspCommon.DslhVarRecord

open CcspCommon.Shared CcspCommon.AnscPlatform

section Spaces

def delSpaces : Nat → Nat → Text → Text
  | 0, _, pListString => pListString
  | turns + 1, i, pListString =>
    if i < pListString.length then
      let ulPosition := ((pListString.drop i).takeWhile (· = ' ')).length
      delSpaces turns (i + 1) (pListString.take i ++ pListString.drop (i + ulPosition))
    else pListString

def delSpaceInCommaSeparator (pListString : Text) : Text × Bool :=
  if pListString.length = 0 || !pListString.contains ' ' then (pListString, true)
  else
    let pListString := delSpaces pListString.length 0 pListString
    (pListString, !pListString.contains ' ')

def withoutSpaces (text : Text) : Text := text.filter fun c => c ≠ ' '

theorem delSpaces_end (turns : Nat) {i : Nat} {text : Text} (done : text.length ≤ i) :
    delSpaces turns i text = text := by
  cases turns with
  | zero => rfl
  | succ turns => rw [delSpaces, if_neg (Nat.not_lt_of_le done)]

theorem drop_takeWhile_length (p : Char → Bool) (text : Text) :
    text.drop (text.takeWhile p).length = text.dropWhile p := by
  have split : text.takeWhile p ++ text.dropWhile p = text := List.takeWhile_append_dropWhile
  calc
    text.drop (text.takeWhile p).length =
        (text.takeWhile p ++ text.dropWhile p).drop (text.takeWhile p).length := by rw [split]
    _ = text.dropWhile p := List.drop_left

theorem withoutSpaces_dropWhile (text : Text) : withoutSpaces (text.dropWhile (· = ' ')) = withoutSpaces text := by
  have leading : (text.takeWhile (· = ' ')).filter (fun c => c ≠ ' ') = [] := by
    refine List.filter_eq_nil_iff.mpr fun c member => ?_
    simpa using List.mem_takeWhile_imp member
  conv_rhs => rw [← List.takeWhile_append_dropWhile (p := (· = ' ')) (l := text)]
  rw [withoutSpaces, withoutSpaces, List.filter_append, leading, List.nil_append]

theorem withoutSpaces_cons {text later : Text} {c : Char} (behind : text.dropWhile (· = ' ') = c :: later) :
    withoutSpaces text = c :: withoutSpaces later := by
  have solid : c ≠ ' ' := by
    have head := List.head?_dropWhile_not (· = ' ') text
    rw [behind] at head
    simpa using head
  rw [← withoutSpaces_dropWhile, behind, withoutSpaces, List.filter_cons_of_pos (by simpa using solid), withoutSpaces]

theorem delSpaces_eq {turns : Nat} {first rest : Text} (enough : rest.length ≤ turns) :
    delSpaces turns first.length (first ++ rest) = first ++ withoutSpaces rest := by
  induction turns generalizing first rest with
  | zero =>
    obtain rfl := List.length_eq_zero_iff.mp (Nat.le_zero.mp enough)
    simp [delSpaces, withoutSpaces]
  | succ turns ih =>
    by_cases more : first.length < (first ++ rest).length
    next =>
      have closed : (first ++ rest).take first.length ++
          (first ++ rest).drop (first.length + (rest.takeWhile (· = ' ')).length) =
            first ++ rest.dropWhile (· = ' ') := by
        rw [List.take_left', List.drop_append, List.drop_of_length_le (by omega), List.nil_append,
          Nat.add_sub_cancel_left, drop_takeWhile_length]
        rfl
      rw [delSpaces, if_pos more, List.drop_left' rfl]
      simp only [closed]
      cases behind : rest.dropWhile (· = ' ') with
      | nil =>
        rw [← withoutSpaces_dropWhile, behind, List.append_nil, delSpaces_end _ (Nat.le_succ _)]
        simp [withoutSpaces]
      | cons c later =>
        have shorter : later.length ≤ turns := by
          have bound := List.length_dropWhile_le (· = ' ') rest
          rw [behind, List.length_cons] at bound
          omega
        have next := @ih (first ++ [c]) later shorter
        simp only [List.length_append, List.length_singleton, List.append_assoc, List.singleton_append] at next
        rw [next, withoutSpaces_cons behind]
    next =>
      have empty : rest = [] := by
        rw [List.length_append] at more
        exact List.length_eq_zero_iff.mp (by omega)
      subst empty
      rw [delSpaces, if_neg more]
      rfl

theorem delSpaceInCommaSeparator_eq (text : Text) : delSpaceInCommaSeparator text = (withoutSpaces text, true) := by
  by_cases spaces : ' ' ∈ text
  next =>
    have long : text.length ≠ 0 := fun nothing => by
      rw [List.length_eq_zero_iff.mp nothing] at spaces
      cases spaces
    have clean := @delSpaces_eq _ [] _ (Nat.le_refl text.length)
    simp only [List.length_nil, List.nil_append] at clean
    have gone : ' ' ∉ withoutSpaces text := by simp [withoutSpaces]
    simp [delSpaceInCommaSeparator, spaces, clean, gone, List.length_eq_zero_iff.not.mp long]
  next =>
    have same : withoutSpaces text = text := by
      refine List.filter_eq_self.mpr fun c member => ?_
      have solid : c ≠ ' ' := fun space => spaces (space ▸ member)
      simpa using solid
    simp [delSpaceInCommaSeparator, spaces, same]

end Spaces

section Model

-- One entry of the list; what stands behind a second dash is not looked at.
def isValidRange (machine : Machine) (entry : Text) : Bool :=
  match tcAllocate '-' entry with
  | some (first :: second :: _) =>
    isValidIpString first && isValidIpString second && inetAddr machine first ≤ inetAddr machine second
  | _ => false

def isValidIpAddRangeList (machine : Machine) : Option Text → Bool
  | none => true
  | some pAddRangeList =>
    if pAddRangeList.length = 0 then true
    else
      let (pAddRangeList, deleted) := delSpaceInCommaSeparator pAddRangeList
      if deleted then
        if pAddRangeList.length = 0 then false
        else
          match tcAllocate ',' pAddRangeList with
          | none => false
          | some entries => entries.all (isValidRange machine)
      else false

end Model

section Ranges

def rangeText (range : Nat × Nat) : Text := quadText range.1 ++ '-' :: quadText range.2

structure ListText (ranges : List (Nat × Nat)) (text : Text) : Prop where
  small : ∀ range ∈ ranges, range.1 < 2 ^ 32 ∧ range.2 < 2 ^ 32
  whole : text = joinTokens ',' (ranges.map rangeText)

def RangeListText (text : Text) : Prop := ∃ ranges, ListText ranges text ∧ ∀ range ∈ ranges, range.1 ≤ range.2

-- What is let through: spaces anywhere, empty entries and fields, and anything behind a second dash.
def LooseList (machine : Machine) (text : Text) : Prop :=
  text = [] ∨ withoutSpaces text ≠ [] ∧ ∃ entries, tcAllocate ',' (withoutSpaces text) = some entries ∧
    ∀ entry ∈ entries, ∃ first second rest, tcAllocate '-' entry = some (first :: second :: rest) ∧
      isValidIpString first = true ∧ isValidIpString second = true ∧ inetAddr machine first ≤ inetAddr machine second

def RangeCheckExact (machine : Machine) (text : Text) : Prop :=
  isValidIpAddRangeList machine (some text) = true ↔ RangeListText text

variable {machine : Machine} {text : Text} {ranges : List (Nat × Nat)}

theorem isValidRange_iff (entry : Text) : isValidRange machine entry = true ↔
    ∃ first second rest, tcAllocate '-' entry = some (first :: second :: rest) ∧
      isValidIpString first = true ∧ isValidIpString second = true ∧
        inetAddr machine first ≤ inetAddr machine second := by
  cases fields : tcAllocate '-' entry with
  | none => simp [isValidRange, fields]
  | some tokens =>
    match tokens, fields with
    | [], fields => simp [isValidRange, fields]
    | [_], fields => simp [isValidRange, fields]
    | first :: second :: rest, fields => simp [isValidRange, fields, and_assoc]

theorem isValidIpAddRangeList_iff (text : Text) :
    isValidIpAddRangeList machine (some text) = true ↔ LooseList machine text := by
  by_cases empty : text = []
  next => simp [isValidIpAddRangeList, LooseList, empty]
  next =>
    simp only [isValidIpAddRangeList, List.length_eq_zero_iff, empty, if_false, delSpaceInCommaSeparator_eq, if_true,
      LooseList, false_or, ← isValidRange_iff]
    by_cases nothing : withoutSpaces text = []
    · simp [nothing]
    · simp only [nothing, if_false, ne_eq, not_false_eq_true, true_and]
      cases tcAllocate ',' (withoutSpaces text) <;> simp

theorem rangeText_eq (range : Nat × Nat) : rangeText range = joinTokens '-' [quadText range.1, quadText range.2] := rfl

theorem rangeText_free {range : Nat × Nat} {separator : Char} (notDigit : separator.isDigit = false)
    (notDot : separator ≠ '.') (notDash : separator ≠ '-') : separator ∉ rangeText range := by
  have free (address : Nat) : separator ∉ quadText address := quadText_free notDigit notDot
  simp [rangeText, free, notDash]

theorem isToken_rangeText (range : Nat × Nat) : IsToken ',' (rangeText range) :=
  ⟨by simp [rangeText], rangeText_free (by decide) (by decide) (by decide)⟩

theorem length_rangeText (range : Nat × Nat) : (rangeText range).length < uriPathSize := by
  have first := (length_quadText range.1).2
  have second := (length_quadText range.2).2
  simp only [rangeText, List.length_append, List.length_cons, uriPathSize]
  omega

theorem tcAllocate_rangeText (range : Nat × Nat) :
    tcAllocate '-' (rangeText range) = some [quadText range.1, quadText range.2] := by
  have proper : ∀ token ∈ [quadText range.1, quadText range.2], IsToken '-' token := by
    intro token member
    obtain rfl | rfl : token = quadText range.1 ∨ token = quadText range.2 := by simpa using member
    · exact ⟨quadText_ne_nil _, quadText_free (by decide) (by decide)⟩
    · exact ⟨quadText_ne_nil _, quadText_free (by decide) (by decide)⟩
  rw [rangeText_eq]
  refine tcAllocate_joinTokens proper fun token member => ?_
  obtain rfl | rfl : token = quadText range.1 ∨ token = quadText range.2 := by simpa using member
  · exact Nat.lt_of_le_of_lt (length_quadText _).2 (by decide)
  · exact Nat.lt_of_le_of_lt (length_quadText _).2 (by decide)

theorem isValidRange_rangeText {range : Nat × Nat} (first : range.1 < 2 ^ 32) (second : range.2 < 2 ^ 32) :
    isValidRange machine (rangeText range) = true ↔
      networkOrder machine range.1 ≤ networkOrder machine range.2 := by
  simp only [isValidRange, tcAllocate_rangeText, isValidIpString_quadText, inetAddr_quadText machine first,
    inetAddr_quadText machine second, Bool.and_true, Bool.true_and, decide_eq_true_eq]

theorem ListText.withoutSpaces (list : ListText ranges text) : withoutSpaces text = text := by
  refine List.filter_eq_self.mpr fun c member => ?_
  rw [list.whole] at member
  have solid : c ≠ ' ' := by
    rintro rfl
    obtain comma | ⟨token, inside, here⟩ := mem_joinTokens member
    · exact absurd comma (by decide)
    · obtain ⟨range, _, rfl⟩ := List.mem_map.mp inside
      exact rangeText_free (by decide) (by decide) (by decide) here
  simpa using solid

theorem ListText.tcAllocate (list : ListText ranges text) : tcAllocate ',' text = some (ranges.map rangeText) := by
  rw [list.whole]
  refine tcAllocate_joinTokens ?_ ?_
  · intro token member
    obtain ⟨range, _, rfl⟩ := List.mem_map.mp member
    exact isToken_rangeText range
  · intro token member
    obtain ⟨range, _, rfl⟩ := List.mem_map.mp member
    exact length_rangeText range

theorem ListText.loose_iff (list : ListText ranges text) :
    LooseList machine text ↔ ∀ range ∈ ranges, networkOrder machine range.1 ≤ networkOrder machine range.2 := by
  have ordered : (∀ entry ∈ ranges.map rangeText, isValidRange machine entry = true) ↔
      ∀ range ∈ ranges, networkOrder machine range.1 ≤ networkOrder machine range.2 := by
    rw [List.forall_mem_map]
    exact forall₂_congr fun range member =>
      isValidRange_rangeText (list.small range member).1 (list.small range member).2
  simp only [LooseList, list.withoutSpaces, list.tcAllocate, Option.some.injEq, exists_eq_left', ← isValidRange_iff,
    ordered]
  by_cases empty : text = []
  · have nothing : ranges = [] := by
      have fields := list.tcAllocate
      rw [empty] at fields
      exact List.map_eq_nil_iff.mp (Option.some.inj fields).symm
    simp [empty, nothing]
  · simp [empty]

theorem rangeText_injective {range other : Nat × Nat} (small : range.1 < 2 ^ 32 ∧ range.2 < 2 ^ 32)
    (also : other.1 < 2 ^ 32 ∧ other.2 < 2 ^ 32) (same : rangeText range = rangeText other) : range = other := by
  have fields := tcAllocate_rangeText range
  rw [same, tcAllocate_rangeText, Option.some.injEq, List.cons.injEq, List.cons.injEq] at fields
  exact Prod.ext (quadText_injective small.1 also.1 fields.1.symm)
    (quadText_injective small.2 also.2 fields.2.1.symm)

theorem map_rangeText_injective {others : List (Nat × Nat)}
    (small : ∀ range ∈ ranges, range.1 < 2 ^ 32 ∧ range.2 < 2 ^ 32)
    (also : ∀ range ∈ others, range.1 < 2 ^ 32 ∧ range.2 < 2 ^ 32)
    (same : ranges.map rangeText = others.map rangeText) : ranges = others := by
  induction ranges generalizing others with
  | nil => exact (List.map_eq_nil_iff.mp same.symm).symm
  | cons range rest ih =>
    cases others with
    | nil => cases same
    | cons other more =>
      rw [List.forall_mem_cons] at small also
      obtain ⟨first, later⟩ := List.cons.inj same
      rw [rangeText_injective small.1 also.1 first, ih small.2 also.2 later]

theorem ListText.unique {others : List (Nat × Nat)} (list : ListText ranges text) (other : ListText others text) :
    ranges = others :=
  map_rangeText_injective list.small other.small
    (Option.some.inj (list.tcAllocate.symm.trans other.tcAllocate))

theorem rangeCheck_exact_iff (machine : Machine) (text : Text) :
    RangeCheckExact machine text ↔
      (∃ ranges, ListText ranges text ∧
        ((∀ range ∈ ranges, networkOrder machine range.1 ≤ networkOrder machine range.2) ↔
          ∀ range ∈ ranges, range.1 ≤ range.2)) ∨
      (¬ ∃ ranges, ListText ranges text) ∧ ¬ LooseList machine text := by
  rw [RangeCheckExact, isValidIpAddRangeList_iff]
  by_cases list : ∃ ranges, ListText ranges text
  next =>
    obtain ⟨ranges, list⟩ := list
    have ordered : RangeListText text ↔ ∀ range ∈ ranges, range.1 ≤ range.2 :=
      ⟨fun ⟨others, other, order⟩ => list.unique other ▸ order, fun order => ⟨ranges, list, order⟩⟩
    have present : ∃ ranges, ListText ranges text := ⟨ranges, list⟩
    rw [list.loose_iff, ordered]
    constructor
    · exact fun agrees => .inl ⟨ranges, list, agrees⟩
    · rintro (⟨others, other, agrees⟩ | ⟨absent, _⟩)
      · exact list.unique other ▸ agrees
      · exact absurd present absent
  next =>
    have never : ¬ RangeListText text := fun ⟨ranges, other, _⟩ => list ⟨ranges, other⟩
    have without : ¬ ∃ ranges, ListText ranges text ∧
        ((∀ range ∈ ranges, networkOrder machine range.1 ≤ networkOrder machine range.2) ↔
          ∀ range ∈ ranges, range.1 ≤ range.2) := fun ⟨ranges, other, _⟩ => list ⟨ranges, other⟩
    simp only [never, without, list, iff_false, false_or, not_false_eq_true, true_and]

theorem low_octet_decides : ¬ RangeCheckExact ⟨.four, true, true⟩ "10.0.0.9-10.0.1.2".toList := by
  intro agrees
  have list : RangeListText "10.0.0.9-10.0.1.2".toList := by
    refine ⟨[(167772169, 167772418)], ⟨?_, by decide⟩, ?_⟩
    · intro range member
      obtain rfl := List.mem_singleton.mp member
      omega
    · intro range member
      obtain rfl := List.mem_singleton.mp member
      omega
  exact absurd (agrees.mpr list) (by decide)

end Ranges

end CcspCommon.DslhVarRecord
