import CcspCommon.AnscPlatform.AnscString

set_option autoImplicit false

namespace CcspCommon.SlapVarHelper

open CcspCommon.AnscPlatform (Machine)

section Variables

inductive VarSyntax
  | other | bool | boolArray | charArray | int | intArray | string | stringArray | ucharArray | uint32 | uint32Array
  | ptr | ptrArray | handle | handleArray | object | objectArray | var
deriving DecidableEq, Repr

structure SlapVariable where
  name : Nat
  contentType : Nat
  usageType : Nat
  varSyntax : VarSyntax
  reqSenderID : Nat
  variant : Nat
deriving DecidableEq, Repr

def initVariable : SlapVariable := ⟨0, 0, 0, .other, 0, 0⟩

def VarSyntax.isAllocated : VarSyntax → Bool
  | .boolArray | .charArray | .intArray | .string | .stringArray | .ucharArray | .uint32Array | .ptrArray
  | .handleArray | .objectArray => true
  | _ => false

def SlapVariable.freed (tbc_var : SlapVariable) : List Nat :=
  (if tbc_var.name ≠ 0 then [tbc_var.name] else []) ++
    if tbc_var.varSyntax.isAllocated && tbc_var.variant ≠ 0 then [tbc_var.variant] else []

end Variables

section Lists

abbrev capacity : Nat := 64

abbrev ParamArray : Type := Vector SlapVariable capacity

structure ParamList where
  paramCount : Nat
  paramArray : ParamArray
deriving DecidableEq, Repr

/-- An access outside of the array, or a loop that does not end. -/
inductive Fault
  | outside | endless
deriving DecidableEq, Repr

def moveSlot (array : ParamArray) (source target : Nat) : Except Fault ParamArray :=
  match array[source]? with
  | none => .error .outside
  | some value =>
    if target < capacity then .ok ((array.setIfInBounds target value).setIfInBounds source initVariable)
    else .error .outside

def cleanLoop : Nat → ParamArray → Except Fault (ParamArray × List Nat)
  | 0, array => .ok (array, [])
  | ii + 1, array =>
    match cleanLoop ii array with
    | .error fault => .error fault
    | .ok (array, freed) =>
      match array[ii]? with
      | none => .error .outside
      | some value => .ok (array.setIfInBounds ii initVariable, freed ++ value.freed)

def leftLoop (shift_num : Nat) : Nat → ParamArray → Except Fault ParamArray
  | 0, array => .ok array
  | ii + 1, array =>
    match leftLoop shift_num ii array with
    | .error fault => .error fault
    | .ok array => moveSlot array (ii + shift_num) ii

def shiftLeftParamList (tbs_list : ParamList) (tbs_num : Nat) : Except Fault (ParamList × List Nat) :=
  let shift_num := min tbs_list.paramCount tbs_num
  match cleanLoop shift_num tbs_list.paramArray with
  | .error fault => .error fault
  | .ok (array, freed) =>
    match leftLoop shift_num (tbs_list.paramCount - shift_num) array with
    | .error fault => .error fault
    | .ok array => .ok (⟨tbs_list.paramCount - shift_num, array⟩, freed)

def before (machine : Machine) (ii : Nat) : Nat :=
  (ii + (2 ^ machine.ulongSize.bits - 1)) % 2 ^ machine.ulongSize.bits

def rightLoop (machine : Machine) (shift_num : Nat) : Nat → Nat → ParamArray → Except Fault ParamArray
  | 0, _, _ => .error .endless
  | turns + 1, ii, array =>
    if shift_num ≤ ii then
      match moveSlot array (ii - shift_num) ii with
      | .error fault => .error fault
      | .ok array => rightLoop machine shift_num turns (before machine ii) array
    else .ok array

-- No run makes more turns than there are slots and two.
def shiftRightParamList (machine : Machine) (tbs_list : ParamList) (tbs_num : Nat) :
    Except Fault (ParamList × List Nat) :=
  match rightLoop machine tbs_num (capacity + 2)
    (before machine (tbs_list.paramCount + tbs_num)) tbs_list.paramArray with
  | .error fault => .error fault
  | .ok array =>
    match cleanLoop tbs_num array with
    | .error fault => .error fault
    | .ok (array, freed) => .ok (⟨tbs_list.paramCount + tbs_num, array⟩, freed)

end Lists

section Slots

theorem moveSlot_slots (array : ParamArray) {source target : Nat} (first : source < capacity)
    (second : target < capacity) :
    ∃ after, moveSlot array source target = .ok after ∧ ∀ index : Nat, after[index]? =
      if index = source then some initVariable else if index = target then array[source]? else array[index]? := by
  have value : array[source]? = some array[source] := Vector.getElem?_eq_getElem first
  refine ⟨_, by rw [moveSlot, value]; exact if_pos second, fun index => ?_⟩
  rw [Vector.getElem?_setIfInBounds, Vector.getElem?_setIfInBounds, value]
  by_cases one : index = source
  next => simp [one, first]
  next =>
    rw [if_neg (Ne.symm one), if_neg one]
    by_cases two : index = target
    next => simp [two, second]
    next => rw [if_neg (Ne.symm two), if_neg two]

theorem freed_initVariable : initVariable.freed = [] := rfl

theorem cleanLoop_slots (array : ParamArray) {count : Nat} (fits : count ≤ capacity) :
    ∃ after freed, cleanLoop count array = .ok (after, freed) ∧
      (∀ index : Nat, after[index]? = if index < count then some initVariable else array[index]?) ∧
      ∀ address ∈ freed, ∃ index value, index < count ∧ array[index]? = some value ∧ address ∈ value.freed := by
  induction count with
  | zero => exact ⟨array, [], rfl, fun index => rfl, fun address member => absurd member List.not_mem_nil⟩
  | succ ii ih =>
    obtain ⟨after, freed, cleaned, slots, owned⟩ := ih (by omega)
    have value : array[ii]? = some array[ii] := Vector.getElem?_eq_getElem (by omega)
    have here : after[ii]? = some array[ii] := by rw [slots, if_neg (Nat.lt_irrefl ii), value]
    refine ⟨after.setIfInBounds ii initVariable, freed ++ array[ii].freed, ?_,
      fun index => ?_, fun address member => ?_⟩
    next => rw [cleanLoop, cleaned]; dsimp only; rw [here]
    next =>
      rw [Vector.getElem?_setIfInBounds, slots]
      by_cases same : index = ii
      next => rw [if_pos same.symm, if_pos (by omega), if_pos (by omega)]
      next =>
        rw [if_neg (Ne.symm same)]
        by_cases below : index < ii
        next => rw [if_pos below, if_pos (by omega)]
        next => rw [if_neg below, if_neg (by omega)]
    next =>
      cases List.mem_append.mp member with
      | inl earlier =>
        obtain ⟨index, other, below, found, inside⟩ := owned address earlier
        exact ⟨index, other, by omega, found, inside⟩
      | inr own => exact ⟨ii, array[ii], by omega, value, own⟩

theorem leftLoop_slots (array : ParamArray) {shift_num : Nat} (positive : 0 < shift_num) {ii : Nat}
    (fits : ii + shift_num ≤ capacity) :
    ∃ after, leftLoop shift_num ii array = .ok after ∧ ∀ index : Nat, after[index]? =
      if index < ii then array[index + shift_num]?
      else if shift_num ≤ index ∧ index < ii + shift_num then some initVariable else array[index]? := by
  induction ii with
  | zero =>
    refine ⟨array, rfl, fun index => ?_⟩
    rw [if_neg (Nat.not_lt_zero index), if_neg (by omega)]
  | succ ii ih =>
    obtain ⟨after, moved, slots⟩ := ih (by omega)
    obtain ⟨next, last, placed⟩ := moveSlot_slots after (show ii + shift_num < capacity by omega)
      (show ii < capacity by omega)
    refine ⟨next, by rw [leftLoop, moved]; exact last, fun index => ?_⟩
    rw [placed]
    by_cases one : index = ii + shift_num
    next => rw [if_pos one, if_neg (by omega), if_pos (by omega)]
    next =>
      rw [if_neg one]
      by_cases two : index = ii
      next => rw [if_pos two, slots, if_neg (by omega), if_neg (by omega), if_pos (by omega), two]
      next =>
        rw [if_neg two, slots]
        have low : index < ii ↔ index < ii + 1 := by omega
        have high : shift_num ≤ index ∧ index < ii + shift_num ↔
            shift_num ≤ index ∧ index < ii + 1 + shift_num := by
          omega
        simp only [low, high]

theorem before_succ (machine : Machine) {ii : Nat} (small : ii < capacity) : before machine (ii + 1) = ii := by
  have size : capacity = 64 := rfl
  have room : 2 ^ 32 ≤ 2 ^ machine.ulongSize.bits := Nat.pow_le_pow_right (by decide) machine.ulongSize.bits_ge
  rw [before, show ii + 1 + (2 ^ machine.ulongSize.bits - 1) = ii + 2 ^ machine.ulongSize.bits by omega,
    Nat.add_mod_right, Nat.mod_eq_of_lt (by omega)]

def movedRight (slots : ParamArray) (count shift_num left index : Nat) : Option SlapVariable :=
  if left + shift_num ≤ index ∧ index < count + shift_num then slots[index - shift_num]?
  else if index < left + shift_num ∧ left ≤ index ∧ index < count then some initVariable
  else slots[index]?

theorem rightLoop_slots (machine : Machine) {slots : ParamArray} {count shift_num : Nat} (positive : 0 < shift_num)
    (fits : count + shift_num ≤ capacity) {left turns : Nat} (below : left ≤ count) (enough : left < turns)
    {array : ParamArray} (stands : ∀ index : Nat, array[index]? = movedRight slots count shift_num left index) :
    ∃ after, rightLoop machine shift_num turns (before machine (left + shift_num)) array = .ok after ∧
      ∀ index : Nat, after[index]? = movedRight slots count shift_num 0 index := by
  induction left generalizing turns array with
  | zero =>
    cases turns with
    | zero => omega
    | succ turns =>
      rw [Nat.zero_add]
      have start : before machine shift_num = shift_num - 1 := by
        have last := before_succ machine (show shift_num - 1 < capacity by omega)
        rwa [Nat.sub_add_cancel positive] at last
      exact ⟨array, by rw [rightLoop, start, if_neg (by omega)], stands⟩
  | succ left ih =>
    cases turns with
    | zero => omega
    | succ turns =>
      have start : before machine (left + 1 + shift_num) = left + shift_num := by
        rw [Nat.add_right_comm, before_succ machine (by omega)]
      obtain ⟨next, moved, placed⟩ := moveSlot_slots array (show left < capacity by omega)
        (show left + shift_num < capacity by omega)
      obtain ⟨after, done, final⟩ := ih (show left ≤ count by omega) (show left < turns by omega) (fun index =>
        show next[index]? = _ by
        rw [placed, movedRight]
        by_cases one : index = left
        next => rw [if_pos one, if_neg (by omega), if_pos (by omega)]
        next =>
          rw [if_neg one]
          by_cases two : index = left + shift_num
          next =>
            rw [if_pos two, if_pos (by omega), stands, movedRight, if_neg (by omega), if_neg (by omega), two,
              Nat.add_sub_cancel]
          next =>
            rw [if_neg two, stands, movedRight]
            have high : left + 1 + shift_num ≤ index ∧ index < count + shift_num ↔
                left + shift_num ≤ index ∧ index < count + shift_num := by omega
            have low : index < left + 1 + shift_num ∧ left + 1 ≤ index ∧ index < count ↔
                index < left + shift_num ∧ left ≤ index ∧ index < count := by omega
            simp only [high, low])
      refine ⟨after, ?_, final⟩
      rw [rightLoop, start, if_pos (by omega), Nat.add_sub_cancel, moved]
      exact done

end Slots

section Shifts

variable {machine : Machine} {list : ParamList} {n : Nat}

theorem shiftRight_slots (machine : Machine) (positive : 0 < n) (fits : list.paramCount + n ≤ capacity) :
    ∃ shifted freed, shiftRightParamList machine list n = .ok (shifted, freed) ∧
      shifted.paramCount = list.paramCount + n ∧
      (∀ index : Nat, shifted.paramArray[index]? =
        if index < n then some initVariable
        else if index < list.paramCount + n then list.paramArray[index - n]? else list.paramArray[index]?) ∧
      ∀ address ∈ freed, ∃ index value, list.paramCount ≤ index ∧ index < n ∧ list.paramArray[index]? = some value ∧
        address ∈ value.freed := by
  obtain ⟨moved, ran, middle⟩ := rightLoop_slots machine positive fits (Nat.le_refl list.paramCount)
    (show list.paramCount < capacity + 2 by omega) (fun index =>
      show list.paramArray[index]? = movedRight list.paramArray list.paramCount n list.paramCount index by
      rw [movedRight]
      split_ifs with high low
      next => omega
      next => omega
      next => rfl)
  obtain ⟨after, freed, cleaned, slots, owned⟩ := cleanLoop_slots moved (show n ≤ capacity by omega)
  refine ⟨⟨list.paramCount + n, after⟩, freed, ?_, rfl, fun index => ?_, fun address member => ?_⟩
  next => rw [shiftRightParamList, ran]; dsimp only; rw [cleaned]
  next =>
    rw [slots]
    split
    next => rfl
    next outside =>
      rw [middle, movedRight]
      by_cases inside : index < list.paramCount + n
      next => rw [if_pos (by omega), if_pos inside]
      next => rw [if_neg (by omega), if_neg (by omega), if_neg inside]
  next =>
    obtain ⟨index, value, below, found, inside⟩ := owned address member
    rw [middle, movedRight, if_neg (by omega)] at found
    split at found
    next =>
      rw [← Option.some.inj found, freed_initVariable] at inside
      exact absurd inside List.not_mem_nil
    next unused => exact ⟨index, value, by omega, below, found, inside⟩

theorem shiftLeft_slots (positive : 0 < n) (enough : n ≤ list.paramCount) (fits : list.paramCount ≤ capacity) :
    ∃ back freed, shiftLeftParamList list n = .ok (back, freed) ∧ back.paramCount = list.paramCount - n ∧
      (∀ index : Nat, back.paramArray[index]? =
        if index < list.paramCount - n then list.paramArray[index + n]?
        else if index < list.paramCount then some initVariable else list.paramArray[index]?) ∧
      ∀ address ∈ freed, ∃ index value, index < n ∧ list.paramArray[index]? = some value ∧ address ∈ value.freed := by
  obtain ⟨cleaned, freed, ran, slots, owned⟩ := cleanLoop_slots list.paramArray (show n ≤ capacity by omega)
  obtain ⟨after, moved, placed⟩ := leftLoop_slots cleaned positive (show list.paramCount - n + n ≤ capacity by omega)
  have least : min list.paramCount n = n := Nat.min_eq_right enough
  refine ⟨⟨list.paramCount - n, after⟩, freed, ?_, rfl, fun index => ?_, owned⟩
  next =>
    rw [shiftLeftParamList]
    simp only [least, ran, moved]
  next =>
    rw [placed]
    split
    next => rw [slots, if_neg (by omega)]
    next outside =>
      rw [slots]
      split_ifs
      all_goals first | rfl | omega

def ParamList.Cleared (list : ParamList) : Prop :=
  ∀ index : Nat, list.paramCount ≤ index → index < capacity → list.paramArray[index]? = some initVariable

structure Shifted (machine : Machine) (list : ParamList) (n : Nat) (shifted back : ParamList) (freed : List Nat) :
    Prop where
  right : shiftRightParamList machine list n = .ok (shifted, freed)
  count : shifted.paramCount = list.paramCount + n
  moved : ∀ index : Nat, index < list.paramCount → shifted.paramArray[n + index]? = list.paramArray[index]?
  -- no memory of the parameters is freed
  owned : ∀ address ∈ freed, ∃ index value, list.paramCount ≤ index ∧ list.paramArray[index]? = some value ∧
    address ∈ value.freed
  left : shiftLeftParamList shifted n = .ok (back, [])
  restored : back.paramCount = list.paramCount ∧
    ∀ index : Nat, index < list.paramCount → back.paramArray[index]? = list.paramArray[index]?
  whole : list.Cleared → back = list

theorem rightLoop_wrapped (machine : Machine) (turns : Nat) (array : ParamArray) :
    rightLoop machine 0 (turns + 1) (before machine 0) array = .error .outside := by
  have size : capacity = 64 := rfl
  have room : 2 ^ 32 ≤ 2 ^ machine.ulongSize.bits := Nat.pow_le_pow_right (by decide) machine.ulongSize.bits_ge
  have last : before machine 0 = 2 ^ machine.ulongSize.bits - 1 := by
    rw [before, Nat.zero_add, Nat.mod_eq_of_lt (by omega)]
  have behind : array[before machine 0]? = none := Vector.getElem?_eq_none (by omega)
  rw [rightLoop, if_pos (Nat.zero_le _), Nat.sub_zero, moveSlot, behind]

theorem rightLoop_zero (machine : Machine) {ii turns : Nat} (small : ii < capacity) (enough : ii + 2 ≤ turns)
    (array : ParamArray) : rightLoop machine 0 turns ii array = .error .outside := by
  induction ii generalizing turns array with
  | zero =>
    cases turns with
    | zero => omega
    | succ turns =>
      obtain ⟨next, moved, _⟩ := moveSlot_slots array small small
      rw [rightLoop, if_pos (Nat.le_refl 0), Nat.sub_zero, moved]
      dsimp only
      rw [← Nat.sub_add_cancel (show 1 ≤ turns by omega)]
      exact rightLoop_wrapped machine (turns - 1) next
  | succ ii ih =>
    cases turns with
    | zero => omega
    | succ turns =>
      obtain ⟨next, moved, _⟩ := moveSlot_slots array small small
      rw [rightLoop, if_pos (Nat.zero_le _), Nat.sub_zero, moved]
      dsimp only
      rw [before_succ machine (by omega)]
      exact ih (by omega) (by omega) next

theorem shiftRight_zero (machine : Machine) (fits : list.paramCount ≤ capacity) :
    shiftRightParamList machine list 0 = .error .outside := by
  rw [shiftRightParamList, Nat.add_zero]
  cases count : list.paramCount with
  | zero => rw [rightLoop_wrapped]
  | succ ii => rw [before_succ machine (by omega), rightLoop_zero machine (by omega) (by omega)]

theorem shifts_back (fits : list.paramCount + n ≤ capacity) :
    (∃ shifted back freed, Shifted machine list n shifted back freed) ↔ n ≠ 0 := by
  constructor
  next =>
    rintro ⟨shifted, back, freed, done⟩ zero
    have right := done.right
    rw [zero, shiftRight_zero machine (by omega)] at right
    cases right
  next =>
    intro far
    have positive := Nat.pos_of_ne_zero far
    obtain ⟨shifted, freed, right, count, slots, owned⟩ := shiftRight_slots machine positive fits
    obtain ⟨back, again, left, left_count, left_slots, left_owned⟩ :=
      shiftLeft_slots positive (show n ≤ shifted.paramCount by omega) (by omega)
    have none : again = [] := by
      apply List.eq_nil_iff_forall_not_mem.mpr
      intro address member
      obtain ⟨index, value, below, found, inside⟩ := left_owned address member
      rw [slots, if_pos below] at found
      rw [← Option.some.inj found, freed_initVariable] at inside
      exact List.not_mem_nil inside
    have same (index : Nat) : back.paramArray[index]? =
        if index < list.paramCount then list.paramArray[index]?
        else if index < list.paramCount + n then some initVariable else list.paramArray[index]? := by
      rw [left_slots, count, Nat.add_sub_cancel]
      split
      next => rw [slots, if_neg (by omega), if_pos (by omega), Nat.add_sub_cancel]
      next =>
        split
        next => rfl
        next => rw [slots, if_neg (by omega), if_neg (by omega)]
    refine ⟨shifted, back, freed, right, count, ?_, ?_, by rw [left, none], ⟨?_, ?_⟩, ?_⟩
    next =>
      intro index inside
      rw [slots, if_neg (by omega), if_pos (by omega), Nat.add_sub_cancel_left]
    next =>
      intro address member
      obtain ⟨index, value, unused, _, found, inside⟩ := owned address member
      exact ⟨index, value, unused, found, inside⟩
    next => omega
    next =>
      intro index inside
      rw [same, if_pos inside]
    next =>
      intro cleared
      have array : back.paramArray = list.paramArray := by
        apply Vector.ext
        intro index inside
        apply Option.some.inj
        rw [← Vector.getElem?_eq_getElem, ← Vector.getElem?_eq_getElem, same]
        split_ifs with low high
        next => rfl
        next => rw [cleared index (by omega) inside]
        next => rfl
      have size : back.paramCount = list.paramCount := by omega
      cases back
      cases list
      simp only [ParamList.mk.injEq] at *
      exact ⟨size, array⟩

def oneParam : ParamList := ⟨1, (Vector.replicate 64 initVariable).set 0 ⟨0, 0, 0, .uint32, 0, 7⟩⟩

theorem shifts_back_sample : oneParam.paramCount + 2 ≤ capacity ∧
    ((∃ shifted back freed, Shifted ⟨.four, true, true⟩ oneParam 2 shifted back freed) ↔ 2 ≠ 0) :=
  ⟨by decide, shifts_back (by decide)⟩

theorem not_shifted_by_zero : ¬ ∃ shifted back freed, Shifted ⟨.eight, true, true⟩ oneParam 0 shifted back freed := by
  rintro ⟨shifted, back, freed, done⟩
  have right := done.right
  rw [shiftRight_zero ⟨.eight, true, true⟩ (by decide)] at right
  cases right

end Shifts

end CcspCommon.SlapVarHelper
