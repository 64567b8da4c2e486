import CcspCommon.DslhVarRecord.IpRanges

set_option autoImplicit false

namespace CcspCommon.DslhVarRecord.InPlace

open CcspCommon.Shared

section Model

def nul : Char := '\x00'

def stringAt (memory : Text) : Text := memory.takeWhile fun c => c ≠ nul

def countSpaces (memory : Text) (i : Nat) : Nat → Nat → Nat
  | 0, ulPosition => ulPosition
  | left + 1, ulPosition =>
    if memory.getD (i + ulPosition) nul ≠ ' ' then ulPosition else countSpaces memory i left (ulPosition + 1)

-- The loop over `j`, which moves the terminating NUL too.
def closeUp (i ulPosition : Nat) : Nat → Nat → Text → Text
  | 0, _, memory => memory
  | left + 1, j, memory => closeUp i ulPosition left (j + 1) (memory.set (i + j) (memory.getD (i + j + ulPosition) nul))

def removeTurn (i : Nat) (memory : Text) : Text :=
  let ulListStringLen := (stringAt memory).length
  let ulPosition := countSpaces memory i (ulListStringLen - i) 0
  if ulPosition ≠ 0 then closeUp i ulPosition (ulListStringLen - i - ulPosition + 1) 0 memory else memory

-- The loop over `i`, which has not ended while there is no answer.
def removeLoop : Nat → Nat → Text → Option Text
  | 0, _, _ => none
  | turns + 1, i, memory =>
    if i < (stringAt memory).length then removeLoop turns (i + 1) (removeTurn i memory) else some memory

def delSpaceInCommaSeparator (turns : Nat) : Option Text → Option (Bool × Option Text)
  | none => some (true, none)
  | some pListString =>
    if (stringAt pListString).length = 0 || !(stringAt pListString).contains ' ' then some (true, some pListString)
    else (removeLoop turns 0 pListString).map fun pListString =>
      (!(stringAt pListString).contains ' ', some pListString)

end Model

section Turns

theorem stringAt_append {text : Text} (terminated : nul ∉ text) (behind : Text) :
    stringAt (text ++ nul :: behind) = text := by
  have plain : ∀ c ∈ text, decide (c ≠ nul) = true :=
    fun c inside => decide_eq_true fun same => terminated (same ▸ inside)
  rw [stringAt, List.takeWhile_append_of_pos plain, List.takeWhile_cons_of_neg (by simp), List.append_nil]

theorem countSpaces_eq {memory : Text} {i ulPosition : Nat} {text behind : Text}
    (here : memory.drop (i + ulPosition) = text ++ nul :: behind) :
    countSpaces memory i text.length ulPosition = ulPosition + (text.takeWhile (· = ' ')).length := by
  induction text generalizing ulPosition with
  | nil => rfl
  | cons c text ih =>
    have first : memory.getD (i + ulPosition) nul = c := by
      rw [List.getD_eq_getElem?_getD, ← List.head?_drop, here]
      rfl
    rw [List.length_cons, countSpaces, first]
    by_cases space : c = ' '
    next =>
      have later : memory.drop (i + (ulPosition + 1)) = text ++ nul :: behind := by
        rw [← Nat.add_assoc, ← List.drop_drop, here]
        rfl
      rw [if_neg (by simp [space]), ih later, List.takeWhile_cons_of_pos (by simp [space]), List.length_cons]
      omega
    next => rw [if_pos space, List.takeWhile_cons_of_neg (by simp [space]), List.length_nil, Nat.add_zero]

theorem closeUp_eq {i j : Nat} {first gap : Text} (place : i + j = first.length) (some : gap ≠ [])
    (moved behind : Text) :
    ∃ stale : Text, stale.length = gap.length ∧
      closeUp i gap.length moved.length j (first ++ (gap ++ (moved ++ behind))) =
        first ++ (moved ++ (stale ++ behind)) := by
  induction moved generalizing j first gap with
  | nil => exact ⟨gap, rfl, rfl⟩
  | cons c moved ih =>
    obtain ⟨overwritten, gap, rfl⟩ := List.exists_cons_of_ne_nil some
    have size : (gap ++ [c]).length = (overwritten :: gap).length := by
      rw [List.length_append, List.length_singleton, List.length_cons]
    have later : i + (j + 1) = (first ++ [c]).length := by
      rw [List.length_append, List.length_singleton, ← place, Nat.add_assoc]
    obtain ⟨stale, same, closed⟩ := ih later (List.append_ne_nil_of_right_ne_nil gap (List.cons_ne_nil c []))
    refine ⟨stale, same.trans size, ?_⟩
    have read : (first ++ (overwritten :: gap ++ (c :: moved ++ behind))).getD
        (i + j + (overwritten :: gap).length) nul = c := by
      rw [List.getD_eq_getElem?_getD, place, List.getElem?_append_right (Nat.le_add_right _ _), Nat.add_sub_cancel_left,
        List.getElem?_append_right (Nat.le_refl _), Nat.sub_self]
      rfl
    have written : (first ++ (overwritten :: gap ++ (c :: moved ++ behind))).set (i + j) c =
        first ++ [c] ++ (gap ++ [c] ++ (moved ++ behind)) := by
      rw [place, List.set_append_right _ _ (Nat.le_refl _), Nat.sub_self, List.append_assoc, List.append_assoc]
      rfl
    have turn : (c :: moved).length = moved.length + 1 := rfl
    rw [turn, closeUp, read, written, ← size, closed, List.append_assoc]
    rfl

theorem removeTurn_eq {first text : Text} (clean : nul ∉ first) (terminated : nul ∉ text) (behind : Text) :
    ∃ stale : Text, stale.length = (text.takeWhile (· = ' ')).length ∧
      removeTurn first.length (first ++ (text ++ nul :: behind)) =
        first ++ (text.dropWhile (· = ' ') ++ nul :: (stale ++ behind)) := by
  have string : stringAt (first ++ (text ++ nul :: behind)) = first ++ text := by
    rw [← List.append_assoc, stringAt_append fun inside => (List.mem_append.mp inside).elim clean terminated]
  have left : (first ++ text).length - first.length = text.length := by
    rw [List.length_append, Nat.add_sub_cancel_left]
  have counted : countSpaces (first ++ (text ++ nul :: behind)) first.length text.length 0 =
      (text.takeWhile (· = ' ')).length :=
    (countSpaces_eq (List.drop_left)).trans (Nat.zero_add _)
  have parts : text.takeWhile (· = ' ') ++ text.dropWhile (· = ' ') = text := List.takeWhile_append_dropWhile
  rw [removeTurn]
  simp only [string, left, counted]
  generalize text.takeWhile (· = ' ') = gap at parts ⊢
  generalize text.dropWhile (· = ' ') = kept at parts ⊢
  subst parts
  split
  next some =>
    have nonempty : gap ≠ [] := fun none => some (List.length_eq_zero_iff.mpr none)
    obtain ⟨stale, same, closed⟩ := closeUp_eq (Nat.add_zero first.length) nonempty (kept ++ [nul]) behind
    have moved : (gap ++ kept).length - gap.length + 1 = (kept ++ [nul]).length := by
      rw [List.length_append, Nat.add_sub_cancel_left, List.length_append, List.length_singleton]
    have memory : gap ++ kept ++ nul :: behind = gap ++ (kept ++ [nul] ++ behind) := by
      rw [List.append_assoc, List.append_assoc, List.singleton_append]
    refine ⟨stale, same, ?_⟩
    rw [moved, memory, closed, List.append_assoc, List.singleton_append]
  next none =>
    obtain rfl : gap = [] := List.length_eq_zero_iff.mp (Decidable.not_not.mp none)
    exact ⟨[], rfl, rfl⟩

theorem removeLoop_end {turns i : Nat} (some : 0 < turns) {memory : Text} (done : (stringAt memory).length ≤ i) :
    removeLoop turns i memory = Option.some memory := by
  obtain ⟨turns, rfl⟩ := Nat.exists_eq_succ_of_ne_zero (Nat.ne_of_gt some)
  rw [removeLoop, if_neg (Nat.not_lt_of_le done)]

theorem removeLoop_eq {turns : Nat} {first text : Text} (clean : nul ∉ first) (terminated : nul ∉ text)
    (enough : text.length < turns) (behind : Text) :
    ∃ stale : Text, (withoutSpaces text).length + stale.length = text.length ∧
      removeLoop turns first.length (first ++ (text ++ nul :: behind)) =
        some (first ++ (withoutSpaces text ++ nul :: (stale ++ behind))) := by
  induction turns generalizing first text behind with
  | zero => exact absurd enough (Nat.not_lt_zero _)
  | succ turns ih =>
    have string : stringAt (first ++ (text ++ nul :: behind)) = first ++ text := by
      rw [← List.append_assoc, stringAt_append fun inside => (List.mem_append.mp inside).elim clean terminated]
    rw [removeLoop, string]
    split
    next more =>
      obtain ⟨stale, few, closed⟩ := removeTurn_eq clean terminated behind
      have parts : text.takeWhile (· = ' ') ++ text.dropWhile (· = ' ') = text := List.takeWhile_append_dropWhile
      have size := congrArg List.length parts
      have kept := withoutSpaces_dropWhile text
      have terminatedRest : nul ∉ text.dropWhile (· = ' ') :=
        fun inside => terminated (List.dropWhile_subset _ inside)
      rw [List.length_append] at size more
      rw [closed]
      cases rest : text.dropWhile (· = ' ') with
      | nil =>
        rw [rest] at size kept
        have string : stringAt (first ++ ([] ++ nul :: (stale ++ behind))) = first := stringAt_append clean _
        refine ⟨stale, ?_, ?_⟩
        next =>
          rw [← kept, withoutSpaces, List.filter_nil]
          exact (Nat.zero_add _).trans (few.trans size)
        next =>
          rw [removeLoop_end (by omega) (by rw [string]; exact Nat.le_succ _), ← kept]
          rfl
      | cons c later =>
        rw [rest] at size terminatedRest
        have cleanToo : nul ∉ first ++ [c] := by
          intro inside
          refine (List.mem_append.mp inside).elim clean fun last => terminatedRest ?_
          exact List.mem_singleton.mp last ▸ List.mem_cons_self
        have next : first ++ (c :: later ++ nul :: (stale ++ behind)) =
            first ++ [c] ++ (later ++ nul :: (stale ++ behind)) := by
          rw [List.append_assoc, List.singleton_append, List.cons_append]
        have place : first.length + 1 = (first ++ [c]).length := (@List.length_append _ first [c]).symm
        rw [List.length_cons] at size
        obtain ⟨more, total, deleted⟩ :=
          ih cleanToo (fun inside => terminatedRest (List.mem_cons_of_mem c inside)) (by omega) (stale ++ behind)
        have same := withoutSpaces_cons rest
        refine ⟨more ++ stale, ?_, ?_⟩
        next =>
          rw [same, List.length_cons, List.length_append]
          omega
        next =>
          rw [next, place, deleted, same, List.append_assoc, List.singleton_append, List.cons_append,
            List.append_assoc]
    next none =>
      rw [List.length_append] at none
      obtain rfl : text = [] := List.length_eq_zero_iff.mp (by omega)
      exact ⟨[], rfl, rfl⟩

theorem withoutSpaces_self {text : Text} (none : ' ' ∉ text) : withoutSpaces text = text := by
  refine List.filter_eq_self.mpr fun c inside => ?_
  have solid : c ≠ ' ' := fun same => none (same ▸ inside)
  simpa using solid

theorem space_not_mem (text : Text) : ' ' ∉ withoutSpaces text := by
  intro inside
  have solid := (List.mem_filter.mp inside).2
  simp at solid

theorem delSpaceInCommaSeparator_eq {text : Text} (terminated : nul ∉ text) {turns : Nat} (enough : text.length < turns)
    (behind : Text) :
    ∃ stale : Text, (withoutSpaces text).length + stale.length = text.length ∧
      delSpaceInCommaSeparator turns (some (text ++ nul :: behind)) =
        some (true, some (withoutSpaces text ++ nul :: (stale ++ behind))) := by
  have string := stringAt_append terminated behind
  rw [delSpaceInCommaSeparator, string]
  split
  next early =>
    have none : ' ' ∉ text := by
      intro inside
      have some := List.length_pos_of_mem inside
      have found : text.contains ' ' = true := List.contains_iff_mem.mpr inside
      rw [found, Bool.not_true, Bool.or_false, decide_eq_true_eq] at early
      omega
    rw [withoutSpaces_self none]
    exact ⟨[], rfl, rfl⟩
  next =>
    obtain ⟨stale, size, deleted⟩ := removeLoop_eq List.not_mem_nil terminated enough behind
    have terminatedToo : nul ∉ withoutSpaces text := fun inside => terminated (List.mem_of_mem_filter inside)
    have gone : (withoutSpaces text).contains ' ' = false := by
      rw [Bool.eq_false_iff]
      exact fun found => space_not_mem text (List.contains_iff_mem.mp found)
    have left := stringAt_append terminatedToo (stale ++ behind)
    refine ⟨stale, size, ?_⟩
    rw [List.length_nil, List.nil_append, List.nil_append] at deleted
    rw [deleted, Option.map_some, left, gone, Bool.not_false]

theorem delSpaceInCommaSeparator_refines {text : Text} (terminated : nul ∉ text) {turns : Nat}
    (enough : text.length < turns) (behind : Text) :
    ∃ memory : Text, delSpaceInCommaSeparator turns (some (text ++ nul :: behind)) =
        some ((DslhVarRecord.delSpaceInCommaSeparator text).2, some memory) ∧
      stringAt memory = (DslhVarRecord.delSpaceInCommaSeparator text).1 ∧
        memory.drop (text.length + 1) = behind := by
  obtain ⟨stale, size, deleted⟩ := delSpaceInCommaSeparator_eq terminated enough behind
  have terminatedToo : nul ∉ withoutSpaces text := fun inside => terminated (List.mem_of_mem_filter inside)
  have moved : withoutSpaces text ++ nul :: (stale ++ behind) = withoutSpaces text ++ [nul] ++ stale ++ behind := by
    rw [List.append_assoc, List.append_assoc, List.singleton_append]
  have front : text.length + 1 = (withoutSpaces text ++ [nul] ++ stale).length := by
    rw [List.length_append, List.length_append, List.length_singleton]
    omega
  rw [DslhVarRecord.delSpaceInCommaSeparator_eq]
  refine ⟨_, deleted, stringAt_append terminatedToo _, ?_⟩
  rw [moved, front, List.drop_left]

theorem spaces_deleted {text : Text} (terminated : nul ∉ text) {turns : Nat} (enough : text.length < turns)
    (behind : Text) :
    ∃ memory : Text, delSpaceInCommaSeparator turns (some (text ++ nul :: behind)) = some (true, some memory) ∧
      stringAt memory = text.filter (fun c => c ≠ ' ') ∧ memory.drop (text.length + 1) = behind := by
  obtain ⟨memory, deleted, string, rest⟩ := delSpaceInCommaSeparator_refines terminated enough behind
  rw [DslhVarRecord.delSpaceInCommaSeparator_eq] at deleted string
  exact ⟨memory, deleted, string, rest⟩

theorem spaces_deleted_everywhere :
    ∃ memory : Text, delSpaceInCommaSeparator 7 (some ([' ', 'a', ' ', ' ', 'b', ' '] ++ nul :: ['x'])) =
        some (true, some memory) ∧
      stringAt memory = [' ', 'a', ' ', ' ', 'b', ' '].filter (fun c => c ≠ ' ') ∧ memory.drop 7 = ['x'] :=
  spaces_deleted (by decide) (by decide) ['x']

end Turns

end CcspCommon.DslhVarRecord.InPlace
