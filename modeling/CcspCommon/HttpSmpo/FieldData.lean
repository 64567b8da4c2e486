import CcspCommon.HttpSmpo.FormField

set_option autoImplicit false

namespace CcspCommon.HttpSmpo

open CcspCommon.Shared CcspCommon.AnscPlatform
open CcspCommon.HttpMboChunked (carriageReturn lineFeed semicolon)

section Model

-- `AnscBdoSetOffset` and `AnscBdoSetBlockSize`. There is no result where the block would not lie in its buffer.
def setBlock (bdo : Bdo) (offset blockSize : Nat) : Option Bdo :=
  if fits : offset + blockSize ≤ bdo.buffer.length then
    some { bdo with offset := offset, blockSize := blockSize, fits := fits }
  else none

structure Saved where
  file : List UInt8
  queue : List Bdo

variable (located : Located)

-- What is written of a buffer. A length that wraps is larger than the block, and nothing is written.
def savedBytes (handle : Nat) (pBodyBdo : Bdo) : List UInt8 :=
  let skipped := if located.hStartBdo = some handle then located.ulStartOffset else 0
  let ulDataLen := pBodyBdo.blockSize - skipped
  if located.hEndBdo = some handle ∧ ulDataLen ≥ pBodyBdo.blockSize - located.ulEndOffset then
    (pBodyBdo.block.drop skipped).take (ulDataLen - (pBodyBdo.blockSize - located.ulEndOffset) - 2)
  else (pBodyBdo.block.drop skipped).take ulDataLen

def cutOut (new : Nat) (pBodyBdo : Bdo) : Option (List Bdo) :=
  let ulSize := pBodyBdo.blockSize - located.ulEndOffset
  if located.ulFieldOffset = 0 then
    (setBlock pBodyBdo (pBodyBdo.offset + located.ulEndOffset) ulSize).map fun behind => [behind]
  else
    (setBlock pBodyBdo pBodyBdo.offset located.ulFieldOffset).map fun front =>
      if pBodyBdo.blockSize > located.ulEndOffset then
        [front, { plainBdo ((pBodyBdo.buffer.drop (pBodyBdo.offset + located.ulEndOffset)).take ulSize) with
          address := new }]
      else [front]

def flushBdo (new handle : Nat) (bRemove : Bool) (pBodyBdo : Bdo) : Option (List Bdo × Option Bool) :=
  if handle = located.hStartField ∧ located.hEndBdo = some handle then
    (cutOut located new pBodyBdo).map fun kept => (kept, none)
  else if handle = located.hStartField then
    if located.ulFieldOffset = 0 then some ([], some true)
    else (setBlock pBodyBdo pBodyBdo.offset located.ulFieldOffset).map fun front => ([front], some true)
  else if located.hEndBdo = some handle then
    -- The offset of the block counts, too.
    if pBodyBdo.offset + located.ulEndOffset ≥ pBodyBdo.blockSize then some ([], none)
    else
      (setBlock pBodyBdo (pBodyBdo.offset + located.ulEndOffset)
        (pBodyBdo.blockSize - located.ulEndOffset)).map fun behind => ([behind], none)
  else if bRemove then some ([], some bRemove)
  else some ([pBodyBdo], some bRemove)

-- The loop over the queue from a buffer on. Only where the body is flushed it ends with the field.
def saveFrom (bFlushBody : Bool) (new : Nat) : Nat → Bool → List Bdo → Option Saved
  | _, _, [] => some ⟨[], []⟩
  | handle, bRemove, pBodyBdo :: rest =>
    let written := savedBytes located handle pBodyBdo
    let left := if bFlushBody then flushBdo located new handle bRemove pBodyBdo else some ([pBodyBdo], some bRemove)
    left.bind fun (kept, goesOn) =>
      match goesOn with
      | none => some ⟨written, kept ++ rest⟩
      | some bRemove =>
        (saveFrom bFlushBody new (handle + 1) bRemove rest).map fun later =>
          ⟨written ++ later.file, kept ++ later.queue⟩

-- `HttpSmpoSaveFieldData` with what was located. The file can be opened and takes all bytes, there is enough
-- memory, and `new` is the address of a new buffer.
def saveFieldData (bFlushBody : Bool) (new : Nat) (queue : List Bdo) : Option Saved :=
  match located.hStartBdo with
  | none => some ⟨[], queue⟩
  | some handle =>
    (saveFrom located bFlushBody new handle false (queue.drop handle)).map fun saved =>
      { saved with queue := queue.take handle ++ saved.queue }

end Model

section Purpose

variable {boundary : MultipartBoundary} (form : FieldForm boundary) (queue : List Bdo) (memory : FieldMemory)

def SavesField : Prop :=
  ∃ located, locateFieldData boundary.string form.fieldName queue memory = some (some located) ∧
    placeOf queue (located.hStartField, located.ulFieldOffset) = form.fieldPlace ∧
    (∃ hStartBdo, located.hStartBdo = some hStartBdo ∧
      placeOf queue (hStartBdo, located.ulStartOffset) = form.dataPlace) ∧
    (∃ hEndBdo, located.hEndBdo = some hEndBdo ∧ placeOf queue (hEndBdo, located.ulEndOffset) = form.endPlace) ∧
    ∀ bFlushBody new, ∃ saved, saveFieldData located bFlushBody new queue = some saved ∧
      saved.file = form.field.value ∧ (bFlushBody = true → bytes saved.queue = form.rest)

structure FieldForm.Savable : Prop extends form.Locatable queue memory where
  ends : ∀ position ending, SearchPosition queue position → placeOf queue position = form.fieldPlace →
    SearchPosition queue ending → placeOf queue ending = form.endPlace →
      (ending.1 ≠ position.1 → 2 ≤ ending.2 ∧ ∀ pBdo ∈ queue[ending.1]?, pBdo.offset + ending.2 < pBdo.blockSize) ∧
        ∀ pBdo ∈ queue.drop (ending.1 + 1), pBdo.blockSize = 0

end Purpose

section Blocks

theorem setBlock_some {bdo : Bdo} {offset blockSize : Nat} (fits : offset + blockSize ≤ bdo.buffer.length) :
    ∃ changed, setBlock bdo offset blockSize = some changed ∧
      changed.block = (bdo.buffer.drop offset).take blockSize := by
  rw [setBlock, dif_pos fits]
  exact ⟨_, rfl, rfl⟩

theorem setBlock_front {bdo : Bdo} {place : Nat} (inside : place ≤ bdo.blockSize) :
    ∃ front, setBlock bdo bdo.offset place = some front ∧ front.block = bdo.block.take place := by
  have fits := bdo.fits
  obtain ⟨front, result, same⟩ := @setBlock_some bdo bdo.offset place (by omega)
  refine ⟨front, result, ?_⟩
  rw [same, Bdo.block, List.take_take, Nat.min_eq_left inside]

theorem setBlock_behind {bdo : Bdo} {place : Nat} (inside : place ≤ bdo.blockSize) :
    ∃ behind, setBlock bdo (bdo.offset + place) (bdo.blockSize - place) = some behind ∧
      behind.block = bdo.block.drop place := by
  have fits := bdo.fits
  obtain ⟨behind, result, same⟩ := @setBlock_some bdo (bdo.offset + place) (bdo.blockSize - place) (by omega)
  refine ⟨behind, result, ?_⟩
  rw [same, Bdo.block, List.drop_take, List.drop_drop]

theorem plainBdo_block (data : List UInt8) (new : Nat) :
    ({ plainBdo data with address := new } : Bdo).block = data := by
  simp [plainBdo, Bdo.block]

end Blocks

section Loop

variable {located : Located} {new : Nat}

def Inner (located : Located) (handle : Nat) : Prop :=
  located.hStartBdo ≠ some handle ∧ located.hEndBdo ≠ some handle

theorem savedBytes_inner {handle : Nat} (inner : Inner located handle) (pBodyBdo : Bdo) :
    savedBytes located handle pBodyBdo = pBodyBdo.block := by
  rw [savedBytes, if_neg inner.1]
  simp only [inner.2, false_and, if_false, Nat.sub_zero, List.drop_zero]
  exact List.take_of_length_le (Nat.le_of_eq pBodyBdo.length_block)

theorem saveFrom_keep (handle : Nat) (bRemove : Bool) (pBodyBdo : Bdo) (rest : List Bdo) :
    saveFrom located false new handle bRemove (pBodyBdo :: rest) =
      (saveFrom located false new (handle + 1) bRemove rest).map fun later =>
        ⟨savedBytes located handle pBodyBdo ++ later.file, pBodyBdo :: later.queue⟩ := rfl

theorem saveFrom_inner {handle : Nat} (bRemove : Bool) {rest : List Bdo}
    (inner : ∀ other, handle ≤ other → Inner located other) :
    saveFrom located false new handle bRemove rest = some ⟨bytes rest, rest⟩ := by
  induction rest generalizing handle with
  | nil => rfl
  | cons pBodyBdo rest ih =>
    rw [saveFrom_keep, ih fun other later => inner other (Nat.le_of_succ_le later),
      savedBytes_inner (inner handle (Nat.le_refl _)), bytes_cons]
    rfl

theorem saveFrom_middle {bFlushBody : Bool} {handle : Nat} {middle : List Bdo} (rest : List Bdo)
    (later : located.hStartField < handle)
    (inner : ∀ other, handle ≤ other → other < handle + middle.length → Inner located other) :
    saveFrom located bFlushBody new handle bFlushBody (middle ++ rest) =
      (saveFrom located bFlushBody new (handle + middle.length) bFlushBody rest).map fun saved =>
        ⟨bytes middle ++ saved.file, (if bFlushBody then [] else middle) ++ saved.queue⟩ := by
  induction middle generalizing handle with
  | nil =>
    simp only [List.nil_append, List.length_nil, Nat.add_zero, bytes, List.flatMap_nil, ite_self]
    exact Option.map_id_apply.symm
  | cons pBodyBdo middle ih =>
    have here := inner handle (Nat.le_refl _) (by simp)
    have number : handle + (pBodyBdo :: middle).length = handle + 1 + middle.length := by
      rw [List.length_cons]
      omega
    have more := @ih (handle + 1) (Nat.lt_succ_of_lt later) fun other behind less =>
      inner other (Nat.le_of_succ_le behind) (by omega)
    rw [number, bytes_cons, List.cons_append, saveFrom, savedBytes_inner here]
    cases bFlushBody with
    | false =>
      simp only [Bool.false_eq_true, if_false, Option.bind_some, more, Option.map_map]
      refine congrArg (Option.map · _) (funext fun saved => ?_)
      simp
    | true =>
      have notField : handle ≠ located.hStartField := (Nat.ne_of_lt later).symm
      rw [if_pos rfl, flushBdo, if_neg fun both => notField both.1, if_neg notField, if_neg here.2, if_pos rfl]
      simp only [Option.bind_some, more, Option.map_map]
      refine congrArg (Option.map · _) (funext fun saved => ?_)
      simp

theorem cutOut_bytes {pBodyBdo : Bdo} (front : located.ulFieldOffset ≤ pBodyBdo.blockSize)
    (inside : located.ulEndOffset ≤ pBodyBdo.blockSize) :
    ∃ kept, cutOut located new pBodyBdo = some kept ∧
      bytes kept = pBodyBdo.block.take located.ulFieldOffset ++ pBodyBdo.block.drop located.ulEndOffset := by
  rw [cutOut]
  by_cases first : located.ulFieldOffset = 0
  next =>
    obtain ⟨behind, result, same⟩ := setBlock_behind inside
    refine ⟨[behind], ?_, ?_⟩
    next => simp only [if_pos first, result, Option.map_some]
    next => rw [first, List.take_zero, List.nil_append, ← same, bytes, List.flatMap_singleton]
  next =>
    obtain ⟨kept, result, same⟩ := setBlock_front front
    have data : (pBodyBdo.buffer.drop (pBodyBdo.offset + located.ulEndOffset)).take
        (pBodyBdo.blockSize - located.ulEndOffset) = pBodyBdo.block.drop located.ulEndOffset := by
      rw [Bdo.block, List.drop_take, List.drop_drop]
    simp only [if_neg first, result, Option.map_some, data]
    refine ⟨_, rfl, ?_⟩
    split
    next => rw [bytes_cons, same, bytes, List.flatMap_singleton, plainBdo_block]
    next outside =>
      have nothing : pBodyBdo.block.drop located.ulEndOffset = [] :=
        List.drop_eq_nil_of_le (by rw [pBodyBdo.length_block]; omega)
      rw [bytes, List.flatMap_singleton, same, nothing, List.append_nil]

section Bytes

variable {handle : Nat} {pBodyBdo : Bdo}

theorem savedBytes_first (start : located.hStartBdo = some handle) (other : located.hEndBdo ≠ some handle) :
    savedBytes located handle pBodyBdo = pBodyBdo.block.drop located.ulStartOffset := by
  rw [savedBytes, if_pos start]
  simp only [other, false_and, if_false]
  exact List.take_of_length_le (by rw [List.length_drop, pBodyBdo.length_block])

theorem savedBytes_last (other : located.hStartBdo ≠ some handle) (ending : located.hEndBdo = some handle)
    (inside : located.ulEndOffset ≤ pBodyBdo.blockSize) :
    savedBytes located handle pBodyBdo = pBodyBdo.block.take (located.ulEndOffset - 2) := by
  rw [savedBytes, if_neg other]
  simp only [Nat.sub_zero, List.drop_zero]
  rw [if_pos ⟨ending, Nat.sub_le _ _⟩, Nat.sub_sub_self inside]

theorem savedBytes_whole (start : located.hStartBdo = some handle) (ending : located.hEndBdo = some handle)
    (order : located.ulStartOffset ≤ located.ulEndOffset) (inside : located.ulEndOffset ≤ pBodyBdo.blockSize) :
    savedBytes located handle pBodyBdo =
      (pBodyBdo.block.drop located.ulStartOffset).take (located.ulEndOffset - located.ulStartOffset - 2) := by
  rw [savedBytes, if_pos start, if_pos ⟨ending, by omega⟩]
  exact congrArg (List.take · _) (by omega)

theorem flushBdo_field (field : handle = located.hStartField) (other : located.hEndBdo ≠ some handle)
    (front : located.ulFieldOffset ≤ pBodyBdo.blockSize) (bRemove : Bool) :
    ∃ kept, flushBdo located new handle bRemove pBodyBdo = some (kept, some true) ∧
      bytes kept = pBodyBdo.block.take located.ulFieldOffset := by
  rw [flushBdo, if_neg fun both => other both.2, if_pos field]
  by_cases none : located.ulFieldOffset = 0
  next =>
    refine ⟨[], if_pos none, ?_⟩
    rw [none]
    rfl
  next =>
    obtain ⟨kept, result, same⟩ := setBlock_front front
    refine ⟨[kept], ?_, ?_⟩
    next =>
      rw [if_neg none, result]
      rfl
    next => rw [← same, bytes, List.flatMap_singleton]

theorem flushBdo_last (other : handle ≠ located.hStartField) (ending : located.hEndBdo = some handle)
    (more : pBodyBdo.offset + located.ulEndOffset < pBodyBdo.blockSize) (bRemove : Bool) :
    ∃ behind, flushBdo located new handle bRemove pBodyBdo = some ([behind], none) ∧
      behind.block = pBodyBdo.block.drop located.ulEndOffset := by
  obtain ⟨behind, result, same⟩ := @setBlock_behind pBodyBdo located.ulEndOffset (by omega)
  refine ⟨behind, ?_, same⟩
  rw [flushBdo, if_neg fun both => other both.1, if_neg other, if_pos ending, if_neg (Nat.not_le_of_lt more), result]
  rfl

end Bytes

variable {before after : List Bdo} {pBdo : Bdo}

theorem saveFieldData_same (bFlushBody : Bool) (field : located.hStartField = before.length)
    (start : located.hStartBdo = some before.length) (ending : located.hEndBdo = some before.length)
    (front : located.ulFieldOffset ≤ pBdo.blockSize) (order : located.ulStartOffset ≤ located.ulEndOffset)
    (inside : located.ulEndOffset ≤ pBdo.blockSize) :
    ∃ saved, saveFieldData located bFlushBody new (before ++ pBdo :: after) = some saved ∧
      saved.file = (pBdo.block.drop located.ulStartOffset).take (located.ulEndOffset - located.ulStartOffset - 2) ++
        (if bFlushBody then [] else bytes after) ∧
      (bFlushBody = true → bytes saved.queue = bytes before ++
        (pBdo.block.take located.ulFieldOffset ++ (pBdo.block.drop located.ulEndOffset ++ bytes after))) := by
  have written := savedBytes_whole start ending order inside
  have drop : (before ++ pBdo :: after).drop before.length = pBdo :: after := List.drop_left
  have take : (before ++ pBdo :: after).take before.length = before := List.take_left
  rw [saveFieldData, start]
  simp only [drop, take]
  cases bFlushBody with
  | false =>
    have inner : ∀ other, before.length + 1 ≤ other → Inner located other := by
      intro other later
      rw [Inner, start, ending]
      refine ⟨?_, ?_⟩ <;> (rw [ne_eq, Option.some.injEq]; omega)
    rw [saveFrom_keep, saveFrom_inner false inner, written]
    exact ⟨_, rfl, rfl, fun absurd => by cases absurd⟩
  | true =>
    obtain ⟨kept, result, same⟩ := @cutOut_bytes located new pBdo front inside
    rw [saveFrom, written, if_pos rfl, flushBdo, if_pos ⟨field.symm, ending⟩, result]
    refine ⟨_, rfl, (List.append_nil _).symm, fun _ => ?_⟩
    rw [bytes_append, bytes_append, same, List.append_assoc]

theorem saveFieldData_two (bFlushBody : Bool) {middle : List Bdo} {pEndBdo : Bdo}
    (field : located.hStartField = before.length) (start : located.hStartBdo = some before.length)
    (ending : located.hEndBdo = some (before.length + 1 + middle.length))
    (front : located.ulFieldOffset ≤ pBdo.blockSize)
    (more : pEndBdo.offset + located.ulEndOffset < pEndBdo.blockSize) :
    ∃ saved, saveFieldData located bFlushBody new (before ++ pBdo :: (middle ++ pEndBdo :: after)) = some saved ∧
      saved.file = pBdo.block.drop located.ulStartOffset ++ (bytes middle ++
        (pEndBdo.block.take (located.ulEndOffset - 2) ++ (if bFlushBody then [] else bytes after))) ∧
      (bFlushBody = true → bytes saved.queue = bytes before ++
        (pBdo.block.take located.ulFieldOffset ++ (pEndBdo.block.drop located.ulEndOffset ++ bytes after))) := by
  have notEnding : located.hEndBdo ≠ some before.length := by
    rw [ending, ne_eq, Option.some.injEq]
    omega
  have notStart : located.hStartBdo ≠ some (before.length + 1 + middle.length) := by
    rw [start, ne_eq, Option.some.injEq]
    omega
  have first := @savedBytes_first located before.length pBdo start notEnding
  have last := @savedBytes_last located _ pEndBdo notStart ending (by omega)
  have inner : ∀ other, before.length + 1 ≤ other → other ≠ before.length + 1 + middle.length →
      Inner located other := by
    intro other later apart
    rw [Inner, start, ending]
    refine ⟨?_, ?_⟩ <;> (rw [ne_eq, Option.some.injEq]; omega)
  have middleBuffers := @saveFrom_middle located new bFlushBody (before.length + 1) middle (pEndBdo :: after)
    (by rw [field]; exact Nat.lt_succ_self _) fun other later less => inner other later (Nat.ne_of_lt less)
  have drop : (before ++ pBdo :: (middle ++ pEndBdo :: after)).drop before.length =
      pBdo :: (middle ++ pEndBdo :: after) := List.drop_left
  have take : (before ++ pBdo :: (middle ++ pEndBdo :: after)).take before.length = before := List.take_left
  rw [saveFieldData, start]
  simp only [drop, take]
  cases bFlushBody with
  | false =>
    have behind : saveFrom located false new (before.length + 1 + middle.length + 1) false after =
        some ⟨bytes after, after⟩ := saveFrom_inner false fun other later => inner other (by omega) (by omega)
    rw [saveFrom_keep, middleBuffers, saveFrom_keep, behind, first, last]
    exact ⟨_, rfl, rfl, fun absurd => by cases absurd⟩
  | true =>
    obtain ⟨kept, flushed, keptBytes⟩ := @flushBdo_field located new _ pBdo field.symm notEnding front false
    obtain ⟨behind, final, same⟩ := @flushBdo_last located new _ pEndBdo (by omega) ending more true
    rw [saveFrom, if_pos rfl, flushed, first]
    simp only [Option.bind_some, middleBuffers, Option.map_map]
    rw [saveFrom, if_pos rfl, final, last]
    refine ⟨_, rfl, ?_, fun _ => ?_⟩
    next => simp only [Function.comp_apply, if_true, List.append_nil]
    next =>
      simp only [Function.comp_apply, if_true, List.nil_append, bytes_append, keptBytes, List.singleton_append,
        bytes_cons, same]

end Loop

section Fields

variable {boundary : MultipartBoundary} {form : FieldForm boundary} {queue : List Bdo} {memory : FieldMemory}

theorem drop_fieldPlace (cut : bytes queue = form.text) :
    (bytes queue).drop form.fieldPlace = form.field.text ++ form.ending := by
  rw [FieldForm.fieldPlace, drop_partPlace cut (List.append_nil form.before).symm]
  rfl

theorem value_of_drop (cut : bytes queue = form.text) {data more : List UInt8}
    (here : (bytes queue).drop form.dataPlace = data ++ more) (length : data.length = form.field.value.length) :
    data = form.field.value := by
  rw [FieldForm.dataPlace, ← List.drop_drop, drop_fieldPlace cut, FieldPart.text, List.append_assoc, List.drop_left,
    List.append_assoc] at here
  exact (List.append_inj_left here length.symm).symm

theorem rest_of_parts (cut : bytes queue = form.text) {front behind : List UInt8}
    (first : (bytes queue).take form.fieldPlace = front) (last : (bytes queue).drop form.endPlace = behind) :
    front ++ behind = form.rest := by
  rw [FieldForm.endPlace, ← List.drop_drop, drop_fieldPlace cut, List.drop_left] at last
  rw [cut, FieldForm.text, FieldForm.fieldPlace, FieldForm.partPlace, ← List.append_assoc,
    List.take_left' List.length_append] at first
  rw [← first, ← last, FieldForm.rest, List.append_assoc]

theorem take_placeOf (before : List Bdo) (pBdo : Bdo) (rest : List Bdo) {ulStart : Nat}
    (inside : ulStart ≤ pBdo.blockSize) :
    (bytes (before ++ pBdo :: rest)).take (placeOf (before ++ pBdo :: rest) (before.length, ulStart)) =
      bytes before ++ pBdo.block.take ulStart := by
  have size := pBdo.length_block
  rw [placeOf, startOf_append, bytes_append, bytes_cons, List.take_length_add_append,
    List.take_append_of_le_length (by omega)]

theorem length_text (form : FieldForm boundary) :
    form.endPlace = form.dataPlace + form.field.value.length + 2 := by
  rw [FieldForm.endPlace, FieldForm.dataPlace, FieldPart.text, List.length_append, List.length_append]
  exact (Nat.add_assoc _ _ _).symm.trans (Nat.add_assoc _ _ _).symm

theorem queue_regroup (before : List Bdo) (pBdo : Bdo) (middle : List Bdo) (pEndBdo : Bdo) (after : List Bdo) :
    before ++ pBdo :: (middle ++ pEndBdo :: after) = (before ++ pBdo :: middle) ++ pEndBdo :: after := by
  rw [List.append_assoc, List.cons_append]

theorem length_regroup (before : List Bdo) (pBdo : Bdo) (middle : List Bdo) :
    before.length + 1 + middle.length = (before ++ pBdo :: middle).length := by
  rw [List.length_append, List.length_cons]
  omega

section Cases

variable {before rest : List Bdo} {pBdo : Bdo} {ulFieldOffset ulEndOffset : Nat}

theorem placeOf_data {position : Nat × Nat} (place : placeOf queue position = form.fieldPlace) :
    placeOf queue (position.1, position.2 + form.field.lead.length) = form.dataPlace := by
  rw [FieldForm.dataPlace, ← place, placeOf, placeOf, Nat.add_assoc]

theorem saves_same (cut : bytes (before ++ pBdo :: rest) = form.text)
    (place : placeOf (before ++ pBdo :: rest) (before.length, ulFieldOffset) = form.fieldPlace)
    (lead : ulFieldOffset + form.field.lead.length ≤ pBdo.blockSize) (within : ulEndOffset ≤ pBdo.blockSize)
    (endPlace : placeOf (before ++ pBdo :: rest) (before.length, ulEndOffset) = form.endPlace)
    (empty : ∀ pBdo ∈ rest, pBdo.blockSize = 0) (bFlushBody : Bool) (new : Nat) :
    ∃ saved, saveFieldData ⟨before.length, ulFieldOffset, some before.length,
        ulFieldOffset + form.field.lead.length, some before.length, ulEndOffset⟩ bFlushBody new
          (before ++ pBdo :: rest) = some saved ∧
      saved.file = form.field.value ∧ (bFlushBody = true → bytes saved.queue = form.rest) := by
  have size := pBdo.length_block
  have dataPlace := placeOf_data place
  have length := length_text form
  have count : ulEndOffset = ulFieldOffset + form.field.lead.length + form.field.value.length + 2 := by
    simp only [placeOf] at dataPlace endPlace
    omega
  have value : ulEndOffset - (ulFieldOffset + form.field.lead.length) - 2 = form.field.value.length := by omega
  obtain ⟨saved, done, file, flushed⟩ := @saveFieldData_same ⟨before.length, ulFieldOffset, some before.length,
    ulFieldOffset + form.field.lead.length, some before.length, ulEndOffset⟩ new before rest pBdo bFlushBody rfl rfl
    rfl (by simp only; omega) (by simp only; omega) within
  simp only at file flushed
  refine ⟨saved, done, ?_, fun flush => ?_⟩
  next =>
    have data := drop_placeOf before pBdo rest lead
    rw [dataPlace, ← List.take_append_drop form.field.value.length (pBdo.block.drop _), List.append_assoc] at data
    rw [file, bytes_empty empty, ite_self, List.append_nil, value]
    refine value_of_drop cut data ?_
    rw [List.length_take, List.length_drop]
    omega
  next =>
    have first := @take_placeOf before pBdo rest ulFieldOffset (by omega)
    have last := drop_placeOf before pBdo rest within
    rw [place] at first
    rw [endPlace] at last
    rw [flushed flush, ← List.append_assoc]
    exact rest_of_parts cut first last

theorem saves_two {middle after : List Bdo} {pEndBdo : Bdo}
    (cut : bytes (before ++ pBdo :: (middle ++ pEndBdo :: after)) = form.text)
    (place : placeOf (before ++ pBdo :: (middle ++ pEndBdo :: after)) (before.length, ulFieldOffset) =
      form.fieldPlace)
    (lead : ulFieldOffset + form.field.lead.length ≤ pBdo.blockSize) (two : 2 ≤ ulEndOffset)
    (more : pEndBdo.offset + ulEndOffset < pEndBdo.blockSize)
    (endPlace : placeOf (before ++ pBdo :: (middle ++ pEndBdo :: after))
      (before.length + 1 + middle.length, ulEndOffset) = form.endPlace)
    (empty : ∀ pBdo ∈ after, pBdo.blockSize = 0) (bFlushBody : Bool) (new : Nat) :
    ∃ saved, saveFieldData ⟨before.length, ulFieldOffset, some before.length,
        ulFieldOffset + form.field.lead.length, some (before.length + 1 + middle.length), ulEndOffset⟩ bFlushBody new
          (before ++ pBdo :: (middle ++ pEndBdo :: after)) = some saved ∧
      saved.file = form.field.value ∧ (bFlushBody = true → bytes saved.queue = form.rest) := by
  have size := pBdo.length_block
  have sizeToo := pEndBdo.length_block
  have dataPlace := placeOf_data place
  have length := length_text form
  have whole := queue_regroup before pBdo middle pEndBdo after
  have index := length_regroup before pBdo middle
  have ending : startOf (before ++ pBdo :: (middle ++ pEndBdo :: after)) (before.length + 1 + middle.length) =
      (bytes before).length + pBdo.blockSize + (bytes middle).length := by
    rw [whole, index, startOf_append, bytes_append, bytes_cons, List.length_append, List.length_append, size,
      Nat.add_assoc]
  obtain ⟨saved, done, file, flushed⟩ := @saveFieldData_two ⟨before.length, ulFieldOffset, some before.length,
    ulFieldOffset + form.field.lead.length, some (before.length + 1 + middle.length), ulEndOffset⟩ new before after
    pBdo bFlushBody middle pEndBdo rfl rfl rfl (by simp only; omega) more
  simp only at file flushed
  refine ⟨saved, done, ?_, fun flush => ?_⟩
  next =>
    have data := drop_placeOf before pBdo (middle ++ pEndBdo :: after) lead
    have split : bytes (middle ++ pEndBdo :: after) = bytes middle ++ (pEndBdo.block.take (ulEndOffset - 2) ++
        (pEndBdo.block.drop (ulEndOffset - 2) ++ bytes after)) := by
      rw [bytes_append, bytes_cons, ← List.append_assoc (pEndBdo.block.take _), List.take_append_drop]
    rw [dataPlace, split, ← List.append_assoc, ← List.append_assoc, List.append_assoc (pBdo.block.drop _)] at data
    rw [file, bytes_empty empty, ite_self, List.append_nil]
    refine value_of_drop cut data ?_
    simp only [placeOf, startOf_append] at dataPlace
    simp only [placeOf, ending] at endPlace
    simp only [List.length_append, List.length_take, List.length_drop]
    omega
  next =>
    have first := @take_placeOf before pBdo (middle ++ pEndBdo :: after) ulFieldOffset (by omega)
    have last := @drop_placeOf (before ++ pBdo :: middle) pEndBdo after ulEndOffset (by omega)
    rw [place] at first
    rw [← whole, ← index, endPlace] at last
    rw [flushed flush, ← List.append_assoc]
    exact rest_of_parts cut first last

end Cases

theorem drop_behind (before : List Bdo) (pBdo : Bdo) (rest : List Bdo) :
    (before ++ pBdo :: rest).drop (before.length + 1) = rest := by
  rw [← List.drop_drop, List.drop_left, List.drop_one, List.tail_cons]

theorem field_saved (cut : bytes queue = form.text) (savable : form.Savable queue memory) :
    SavesField form queue memory := by
  obtain ⟨⟨hStartField, ulFieldOffset, hStartBdo, ulStartOffset, hEndBdo', ulEndOffset⟩, hEndBdo, result, finds⟩ :=
    locateFieldData_finds cut savable.toLocatable
  obtain ⟨searched, place, sameBdo, data, endBdo, ends, order, endPlace⟩ := finds
  simp only at searched place sameBdo data endBdo ends order endPlace
  subst hStartBdo ulStartOffset hEndBdo'
  have inside := (savable.field _ searched place).inside
  obtain ⟨later, empty⟩ := savable.ends _ _ searched place ends endPlace
  simp only at inside later empty
  refine ⟨_, result, place, ⟨_, rfl, placeOf_data place⟩, ⟨_, rfl, endPlace⟩, fun bFlushBody new => ?_⟩
  obtain ⟨before, pBdo, rest, rfl, number, here, _⟩ := searched.inQueue.split
  simp only at number
  subst hStartField
  have lead := inside pBdo here
  by_cases same : hEndBdo = before.length
  next =>
    subst hEndBdo
    obtain ⟨other, there, within⟩ := ends.inQueue
    obtain rfl : other = pBdo := Option.some.inj (there.symm.trans here)
    rw [drop_behind] at empty
    exact saves_same cut place lead within endPlace empty bFlushBody new
  next =>
    obtain ⟨pEndBdo, there, _⟩ := ends
    obtain ⟨two, more⟩ := later same
    obtain ⟨middle, after, rfl, number⟩ := behind_split (Nat.lt_of_le_of_ne order (Ne.symm same)) there
    subst hEndBdo
    rw [queue_regroup, length_regroup before pBdo middle, drop_behind] at empty
    exact saves_two cut place lead two (more pEndBdo there) endPlace empty bFlushBody new

end Fields

section Examples

def boundaryB : MultipartBoundary := ⟨letterB, by decide⟩

def fieldF : FieldPart boundaryB where
  opening := []
  disposition := contentDisposition
  parameters := formDataText
  key := multipartFieldNameText
  name := [0x66]
  nameText := [doubleQuote, 0x66, doubleQuote]
  more := []
  value := [0x76]
  dispositionName := CaseVariant.refl _
  keyName := CaseVariant.refl _
  separated := ⟨ascii ": form-data;", space, by decide +kernel, by decide +kernel⟩
  named := by decide
  nameFree := by decide +kernel
  written := Or.inl rfl
  terminated := by decide +kernel
  oneBlock := by decide +kernel
  valueFree := by decide +kernel

def formF : FieldForm boundaryB where
  preamble := []
  before := []
  field := fieldF
  after := []
  epilogue := lineBreaker
  preambleLine := Or.inl rfl
  preambleUncut := by decide +kernel
  first := by decide

def cutAt (place : Nat) : List Bdo := [formF.text.take place, formF.text.drop place].map plainBdo

def emptyMemory : FieldMemory := ⟨fun _ _ _ => [], fun _ _ => []⟩

theorem fieldF_plain : fieldF.Plain where
  disposition := by decide +kernel
  oneLine := by decide +kernel
  key := by decide +kernel
  quoted := rfl
  free := by decide +kernel

theorem cutAt_bounds {position : Nat × Nat} (searched : SearchPosition (cutAt 50) position) :
    position.1 < 2 ∧ position.2 < 51 := by
  obtain ⟨pBdo, here, within⟩ := searched
  have few : ∀ pBdo ∈ cutAt 50, pBdo.blockSize < 51 := by decide +kernel
  have less := (List.getElem?_eq_some_iff.mp here).1
  have size := few pBdo (List.mem_of_getElem? here)
  exact ⟨less, by omega⟩

theorem cutAt_field {position : Nat × Nat} (searched : SearchPosition (cutAt 50) position)
    (place : placeOf (cutAt 50) position = formF.fieldPlace) : position = (0, 0) := by
  have one : ∀ handle < 2, ∀ offset < 51, placeOf (cutAt 50) (handle, offset) = formF.fieldPlace →
      (handle, offset) = (0, 0) := by decide +kernel
  exact one position.1 (cutAt_bounds searched).1 position.2 (cutAt_bounds searched).2 place

theorem cutAt_ending {position : Nat × Nat} (searched : SearchPosition (cutAt 50) position)
    (place : placeOf (cutAt 50) position = formF.endPlace) : position = (1, 2) := by
  have one : ∀ handle < 2, ∀ offset < 51, placeOf (cutAt 50) (handle, offset) = formF.endPlace →
      (handle, offset) = (1, 2) := by decide +kernel
  exact one position.1 (cutAt_bounds searched).1 position.2 (cutAt_bounds searched).2 place

theorem formF_locatable : formF.Locatable (cutAt 50) emptyMemory where
  plain part member := by
    obtain rfl : part = fieldF := List.mem_singleton.mp member
    exact fieldF_plain
  preambleFree := by decide +kernel
  apart part member := by cases member
  start := by
    rw [SearchNotMisled]
    decide +kernel
  front earlier part later parts := absurd parts.symm (List.append_ne_nil_of_right_ne_nil _ (List.cons_ne_nil _ _))
  field position searched place := by
    rw [cutAt_field searched place]
    refine ⟨by decide +kernel, by decide +kernel, ?_⟩
    rw [SearchNotMisled]
    decide +kernel

theorem field_saved_cut : SavesField formF (cutAt 50) emptyMemory := by
  refine field_saved (by decide +kernel) ⟨formF_locatable, fun position ending searched place ends endPlace => ?_⟩
  rw [cutAt_field searched place, cutAt_ending ends endPlace]
  decide +kernel

theorem cut_located : locateFieldData letterB formF.fieldName (cutAt 57) emptyMemory =
    some (some ⟨0, 0, some 0, 49, some 0, 52⟩) := by
  have first : findNextBoundary letterB (emptyMemory.search none 0) (cutAt 57) none 0 = some (0, 0) := by
    decide +kernel
  have read : getFormField letterB formF.fieldName (cutAt 57) (emptyMemory.headers (0, 0)) (0, 0) =
      some (some (some 0, 49)) := by decide +kernel
  have last : findNextBoundary letterB (emptyMemory.search (some 0) 1) (cutAt 57) (some 0) 1 = some (0, 52) := by
    decide +kernel
  rw [locateFieldData, locateFrom_turn first, read]
  simp only [last, Option.map_some, Option.getD_some]

theorem field_saved_with_rest : ¬ ∀ {boundary : MultipartBoundary} (form : FieldForm boundary) (queue : List Bdo)
    (memory : FieldMemory), bytes queue = form.text → SavesField form queue memory := by
  intro every
  obtain ⟨located, result, _, _, _, saves⟩ := every formF (cutAt 57) emptyMemory (by decide +kernel)
  have same : some (some located) = some (some ⟨0, 0, some 0, 49, some 0, 52⟩) := result.symm.trans cut_located
  cases same
  obtain ⟨saved, done, file, _⟩ := saves false 0
  have written : (saveFieldData ⟨0, 0, some 0, 49, some 0, 52⟩ false 0 (cutAt 57)).map Saved.file =
      some [0x76, carriageReturn, lineFeed] := by decide +kernel
  rw [done, Option.map_some, file] at written
  exact absurd written (by decide +kernel)

end Examples

end CcspCommon.HttpSmpo
