import CcspCommon.HttpSmpo.Multipart
import CcspCommon.HttpSmpo.NextBoundary
import CcspCommon.Shared.Block

set_option autoImplicit false

namespace CcspCommon.HttpSmpo

open CcspCommon.Shared CcspCommon.AnscPlatform
open CcspCommon.HttpMboChunked (carriageReturn lineFeed)

section Model

structure Collected where
  pBuf : Option (List UInt8)
  ulDataLen : Nat

variable (queue : List Bdo)

def laterSize (hEndBdo : Option Nat) (ulEndOffset : Nat) : Nat → List Bdo → Nat
  | _, [] => 0
  | handle, pBdo :: rest =>
    if hEndBdo = some handle then ulEndOffset
    else pBdo.blockSize + laterSize hEndBdo ulEndOffset (handle + 1) rest

/-- The pass that computes `ulPartSize`. It goes on behind a part in a single buffer. The end is not in front of the
start. -/
def partSize (start : Nat × Nat) (hEndBdo : Option Nat) (ulEndOffset : Nat) : Nat :=
  match queue.drop start.1 with
  | [] => 0
  | pBdo :: rest =>
    (if hEndBdo = some start.1 then ulEndOffset - start.2 else pBdo.blockSize - start.2) +
      laterSize hEndBdo ulEndOffset (start.1 + 1) rest

structure Copying where
  block : List UInt8
  ulDataLen : Nat
  ulPartSize : Nat

def copyLater (hEndBdo : Option Nat) (ulEndOffset : Nat) : Nat → List Bdo → Copying → Option Copying
  | _, [], copying => some copying
  | handle, pBdo :: rest, copying =>
    if hEndBdo = some handle then
      if ulEndOffset ≠ 0 then
        (writeAt copying.block copying.ulDataLen (pBdo.buffer.take ulEndOffset)).map fun block =>
          { copying with block := block, ulDataLen := copying.ulDataLen + ulEndOffset }
      else some copying
    else
      -- A buffer in between counts for the size and not for the data.
      (writeAt copying.block copying.ulDataLen (pBdo.buffer.take pBdo.blockSize)).bind fun block =>
        copyLater hEndBdo ulEndOffset (handle + 1) rest
          { copying with block := block, ulPartSize := copying.ulPartSize + pBdo.blockSize }

-- The pass that copies. It reads from `AnscBdoGetBuffer`, without the buffer's offset.
def copyPart (start : Nat × Nat) (hEndBdo : Option Nat) (ulEndOffset : Nat) (copying : Copying) : Option Copying :=
  match queue.drop start.1 with
  | [] => some copying
  | pBdo :: rest =>
    if hEndBdo = some start.1 then
      (writeAt copying.block copying.ulDataLen ((pBdo.buffer.drop start.2).take (ulEndOffset - start.2))).map
        fun block => { copying with block := block, ulDataLen := copying.ulDataLen + (ulEndOffset - start.2) }
    else
      (writeAt copying.block copying.ulDataLen
          ((pBdo.buffer.drop start.2).take (pBdo.blockSize - start.2))).bind fun block =>
        copyLater hEndBdo ulEndOffset (start.1 + 1) rest
          { copying with block := block, ulDataLen := copying.ulDataLen + (pBdo.blockSize - start.2) }

inductive PartOutcome
  | discarded
  | kept
  | leftOut
  | internalError
  deriving DecidableEq

def headersOutcome (pHeaders : List UInt8) : PartOutcome :=
  match firstAt lineBreaker pHeaders with
  | none => .internalError
  | some first =>
    let second := pHeaders.drop (first + 2)
    match firstAt doubleLineBreaker second with
    | none => .internalError
    | some pHeadersEnd =>
      match firstAt contentType second with
      | none => .kept
      | some pContentType =>
        if pHeaders[first + 2 + pContentType - 1]? ≠ some lineFeed ∨
            pHeaders[first + 2 + pContentType - 2]? ≠ some carriageReturn ∨ pContentType ≥ pHeadersEnd then .leftOut
        else .kept

-- The block for the part. A new one is not larger than the old one.
def roomFor (form : Collected) (ulPartSize : Nat) : Option (List UInt8) :=
  match form.pBuf with
  | none => some (List.replicate bodyMsgMaxSize 0)
  | some pBuf =>
    if pBuf.length - form.ulDataLen ≤ ulPartSize then
      writeAt (List.replicate bodyMsgMaxSize 0) 0 (pBuf.take form.ulDataLen)
    else some pBuf

-- `HttpSmpoCopyFormData2`. There is no result where a byte outside of the block would be read or written, and
-- there is enough memory.
def copyFormData2 (form : Collected) (start : Nat × Nat) (hEndBdo : Option Nat) (ulEndOffset : Nat) :
    Option (PartOutcome × Collected) :=
  let ulPartSize := partSize queue start hEndBdo ulEndOffset
  if ulPartSize ≥ bodyMsgMaxSize then some (.discarded, form)
  else
    (roomFor form ulPartSize).bind fun pBuf =>
      (copyPart queue start hEndBdo ulEndOffset ⟨pBuf, form.ulDataLen, ulPartSize⟩).bind fun copying =>
        (writeAt copying.block copying.ulDataLen [0]).bind fun block =>
          -- The headers would be looked for in front of the block.
          if copying.ulDataLen < copying.ulPartSize then none
          else
            let ulRest := copying.ulDataLen - copying.ulPartSize
            match headersOutcome (cText (block.drop ulRest)) with
            | .kept => some (.kept, ⟨some block, copying.ulDataLen⟩)
            | outcome => some (outcome, ⟨some block, ulRest⟩)

variable (pBoundary : CString)

structure FormRun where
  current : Option (Nat × Nat)
  form : Collected
  parts : List (List UInt8)

def partBytes (start : Nat × Nat) (next : Option (Nat × Nat)) : List UInt8 :=
  match next with
  | none => (bytes queue).drop (placeOf queue start)
  | some position => ((bytes queue).drop (placeOf queue start)).take (placeOf queue position - placeOf queue start)

-- The boundary that ends the part. The memory behind the block of the search holds anything.
def nextPosition (memory : Nat → List UInt8) (start : Nat × Nat) : Option (Nat × Nat) :=
  findNextBoundary pBoundary memory queue (some start.1) (start.2 + pBoundary.val.length)

def formStep (run : FormRun) (memory : Nat → List UInt8) : Option FormRun :=
  run.current.bind fun start =>
    let next := nextPosition queue pBoundary memory start
    (copyFormData2 queue run.form start (next.map Prod.fst) ((next.map Prod.snd).getD 0)).map fun result =>
      { current := if result.1 = .internalError then none else next
        form := result.2
        parts := if result.1 = .kept then run.parts ++ [partBytes queue start next] else run.parts }

def formStart (memory : Nat → List UInt8) : FormRun :=
  ⟨findNextBoundary pBoundary memory queue none 0, ⟨none, 0⟩, []⟩

def FormRun.result (run : FormRun) : Option (List UInt8) × Nat :=
  if run.form.ulDataLen ≠ 0 then (run.form.pBuf, run.form.ulDataLen) else (none, 0)

end Model

section Purpose

variable (queue : List Bdo) (pBoundary : CString)

def buffersBetween (start : Nat × Nat) (next : Option (Nat × Nat)) : List Bdo :=
  match next with
  | none => queue.drop (start.1 + 1)
  | some position =>
    if position.1 = start.1 then queue.drop (start.1 + 1)
    else (queue.drop (start.1 + 1)).take (position.1 - (start.1 + 1))

structure InOuterBuffers (start : Nat × Nat) (next : Option (Nat × Nat)) : Prop where
  between : ∀ pBdo ∈ buffersBetween queue start next, pBdo.blockSize = 0
  startOffset : ∀ pBdo ∈ queue[start.1]?, pBdo.offset = 0
  endOffset : ∀ position ∈ next, position.2 ≠ 0 → ∀ pBdo ∈ queue[position.1]?, pBdo.offset = 0

def PartFits (form : Collected) (start : Nat × Nat) (next : Option (Nat × Nat)) : Prop :=
  bodyMsgMaxSize ≤ partSize queue start (next.map Prod.fst) ((next.map Prod.snd).getD 0) ∨
    InOuterBuffers queue start next ∧
      form.ulDataLen + partSize queue start (next.map Prod.fst) ((next.map Prod.snd).getD 0) < bodyMsgMaxSize

def StepFits (run : FormRun) (memory : Nat → List UInt8) : Prop :=
  ∀ start ∈ run.current, PartFits queue run.form start (nextPosition queue pBoundary memory start)

instance (start : Nat × Nat) (next : Option (Nat × Nat)) :
    Decidable (InOuterBuffers queue start next) :=
  decidable_of_iff
    ((∀ pBdo ∈ buffersBetween queue start next, pBdo.blockSize = 0) ∧ (∀ pBdo ∈ queue[start.1]?, pBdo.offset = 0) ∧
      ∀ position ∈ next, position.2 ≠ 0 → ∀ pBdo ∈ queue[position.1]?, pBdo.offset = 0)
    ⟨fun all => ⟨all.1, all.2.1, all.2.2⟩, fun outer => ⟨outer.between, outer.startOffset, outer.endOffset⟩⟩

instance (form : Collected) (start : Nat × Nat) (next : Option (Nat × Nat)) :
    Decidable (PartFits queue form start next) :=
  inferInstanceAs (Decidable (_ ∨ _ ∧ _))

instance (run : FormRun) (memory : Nat → List UInt8) :
    Decidable (StepFits queue pBoundary run memory) :=
  inferInstanceAs (Decidable (∀ start ∈ run.current, _))

structure FormRun.Accumulated (run : FormRun) : Prop where
  length : run.form.ulDataLen = run.parts.flatten.length
  data : (run.form.pBuf.getD []).take run.form.ulDataLen = run.parts.flatten

end Purpose

section Copies

variable {queue : List Bdo}

theorem handle_after (handle : Nat) (pBdo : Bdo) (middle : List Bdo) :
    handle + (pBdo :: middle).length = handle + 1 + middle.length := by
  rw [List.length_cons, Nat.add_right_comm, Nat.add_assoc]

theorem handle_other (handle between : Nat) : some (handle + 1 + between) ≠ some handle := by
  rw [ne_eq, Option.some.injEq]
  omega

theorem laterSize_behind {hEndBdo : Option Nat} {handle : Nat} (before : ∀ other ∈ hEndBdo, other < handle)
    (ulEndOffset : Nat) {rest : List Bdo} (empty : ∀ pBdo ∈ rest, pBdo.blockSize = 0) :
    laterSize hEndBdo ulEndOffset handle rest = 0 := by
  induction rest generalizing handle with
  | nil => rfl
  | cons pBdo rest ih =>
    have other : hEndBdo ≠ some handle := fun same => Nat.lt_irrefl _ (before handle same)
    rw [laterSize, if_neg other, empty pBdo List.mem_cons_self, Nat.zero_add]
    exact ih (fun other same => Nat.lt_succ_of_lt (before other same)) fun later inside =>
      empty later (List.mem_cons_of_mem _ inside)

theorem laterSize_end (handle ulEndOffset : Nat) {middle : List Bdo} (empty : ∀ pBdo ∈ middle, pBdo.blockSize = 0)
    (pEndBdo : Bdo) (after : List Bdo) :
    laterSize (some (handle + middle.length)) ulEndOffset handle (middle ++ pEndBdo :: after) = ulEndOffset := by
  induction middle generalizing handle with
  | nil => exact if_pos rfl
  | cons pBdo middle ih =>
    rw [handle_after, List.cons_append, laterSize, if_neg (handle_other handle middle.length),
      empty pBdo List.mem_cons_self, Nat.zero_add]
    exact ih (handle + 1) fun later inside => empty later (List.mem_cons_of_mem _ inside)

theorem copyLater_empty {hEndBdo : Option Nat} {ulEndOffset handle : Nat} (other : hEndBdo ≠ some handle) {pBdo : Bdo}
    (empty : pBdo.blockSize = 0) (rest : List Bdo) {copying : Copying}
    (inside : copying.ulDataLen ≤ copying.block.length) :
    copyLater hEndBdo ulEndOffset handle (pBdo :: rest) copying =
      copyLater hEndBdo ulEndOffset (handle + 1) rest copying := by
  rw [copyLater, if_neg other, empty, List.take_zero, writeAt_nil inside]
  rfl

theorem copyLater_behind {hEndBdo : Option Nat} {handle : Nat} (before : ∀ other ∈ hEndBdo, other < handle)
    (ulEndOffset : Nat) {rest : List Bdo} (empty : ∀ pBdo ∈ rest, pBdo.blockSize = 0) {copying : Copying}
    (inside : copying.ulDataLen ≤ copying.block.length) :
    copyLater hEndBdo ulEndOffset handle rest copying = some copying := by
  induction rest generalizing handle with
  | nil => rfl
  | cons pBdo rest ih =>
    have other : hEndBdo ≠ some handle := fun same => Nat.lt_irrefl _ (before handle same)
    rw [copyLater_empty other (empty pBdo List.mem_cons_self) rest inside]
    exact ih (fun other same => Nat.lt_succ_of_lt (before other same)) fun later member =>
      empty later (List.mem_cons_of_mem _ member)

theorem copyLater_end (handle ulEndOffset : Nat) {middle : List Bdo} (empty : ∀ pBdo ∈ middle, pBdo.blockSize = 0)
    (pEndBdo : Bdo) (after : List Bdo) {copying : Copying} (inside : copying.ulDataLen ≤ copying.block.length) :
    copyLater (some (handle + middle.length)) ulEndOffset handle (middle ++ pEndBdo :: after) copying =
      (writeAt copying.block copying.ulDataLen (pEndBdo.buffer.take ulEndOffset)).map fun block =>
        { copying with block := block, ulDataLen := copying.ulDataLen + ulEndOffset } := by
  induction middle generalizing handle with
  | nil =>
    rw [List.nil_append, List.length_nil, Nat.add_zero, copyLater, if_pos rfl]
    split
    next => rfl
    next none =>
      rw [Decidable.not_not.mp none, List.take_zero, writeAt_nil inside]
      rfl
  | cons pBdo middle ih =>
    rw [handle_after, List.cons_append,
      copyLater_empty (handle_other handle middle.length) (empty pBdo List.mem_cons_self) _ inside]
    exact ih (handle + 1) fun later member => empty later (List.mem_cons_of_mem _ member)

end Copies

section Parts

theorem bytes_cons (pBdo : Bdo) (rest : List Bdo) : bytes (pBdo :: rest) = pBdo.block ++ bytes rest := List.flatMap_cons

theorem bytes_append (first second : List Bdo) : bytes (first ++ second) = bytes first ++ bytes second :=
  List.flatMap_append

theorem bytes_empty {middle : List Bdo} (empty : ∀ pBdo ∈ middle, pBdo.blockSize = 0) : bytes middle = [] := by
  refine List.flatMap_eq_nil_iff.mpr fun pBdo inside => List.eq_nil_of_length_eq_zero ?_
  rw [pBdo.length_block]
  exact empty pBdo inside

theorem block_of_offset {pBdo : Bdo} (offset : pBdo.offset = 0) : pBdo.block = pBdo.buffer.take pBdo.blockSize := by
  rw [Bdo.block, offset, List.drop_zero]

theorem drop_placeOf (before : List Bdo) (pBdo : Bdo) (rest : List Bdo) {ulStart : Nat}
    (inside : ulStart ≤ pBdo.blockSize) :
    (bytes (before ++ pBdo :: rest)).drop (placeOf (before ++ pBdo :: rest) (before.length, ulStart)) =
      pBdo.block.drop ulStart ++ bytes rest := by
  have size := pBdo.length_block
  rw [placeOf, startOf_append, bytes_append, ← List.drop_drop, List.drop_left, bytes_cons,
    List.drop_append_of_le_length (by omega)]

theorem partBytes_last {before : List Bdo} {pBdo : Bdo} {rest : List Bdo} {ulStart : Nat}
    (inside : ulStart ≤ pBdo.blockSize) (empty : ∀ pBdo ∈ rest, pBdo.blockSize = 0) :
    partBytes (before ++ pBdo :: rest) (before.length, ulStart) none = pBdo.block.drop ulStart := by
  rw [partBytes, drop_placeOf before pBdo rest inside, bytes_empty empty, List.append_nil]

theorem partBytes_same {before : List Bdo} {pBdo : Bdo} (rest : List Bdo) {ulStart ulEnd : Nat}
    (order : ulStart ≤ ulEnd) (inside : ulEnd ≤ pBdo.blockSize) :
    partBytes (before ++ pBdo :: rest) (before.length, ulStart) (some (before.length, ulEnd)) =
      (pBdo.block.drop ulStart).take (ulEnd - ulStart) := by
  have size := pBdo.length_block
  have length : placeOf (before ++ pBdo :: rest) (before.length, ulEnd) -
      placeOf (before ++ pBdo :: rest) (before.length, ulStart) = ulEnd - ulStart := by
    simp only [placeOf]
    omega
  simp only [partBytes]
  rw [drop_placeOf before pBdo rest (Nat.le_trans order inside), length, List.take_append_of_le_length]
  rw [List.length_drop]
  omega

theorem partBytes_two {before : List Bdo} {pBdo : Bdo} {middle : List Bdo} {pEndBdo : Bdo} (after : List Bdo)
    {ulStart ulEnd : Nat} (inside : ulStart ≤ pBdo.blockSize) (empty : ∀ pBdo ∈ middle, pBdo.blockSize = 0)
    (ends : ulEnd ≤ pEndBdo.blockSize) :
    partBytes (before ++ pBdo :: (middle ++ pEndBdo :: after)) (before.length, ulStart)
        (some (before.length + 1 + middle.length, ulEnd)) =
      pBdo.block.drop ulStart ++ pEndBdo.block.take ulEnd := by
  have size := pBdo.length_block
  have sizeToo := pEndBdo.length_block
  have far : startOf (before ++ pBdo :: (middle ++ pEndBdo :: after)) (before.length + 1 + middle.length) =
      (bytes before).length + pBdo.blockSize := by
    have start := startOf_append (before ++ pBdo :: middle) (pEndBdo :: after)
    rw [List.append_assoc, List.cons_append, List.length_append, List.length_cons, bytes_append, bytes_cons,
      bytes_empty empty, List.append_nil, List.length_append, size] at start
    rw [← start]
    exact congrArg (startOf _) (by omega)
  have length : placeOf (before ++ pBdo :: (middle ++ pEndBdo :: after)) (before.length + 1 + middle.length, ulEnd) -
      placeOf (before ++ pBdo :: (middle ++ pEndBdo :: after)) (before.length, ulStart) =
        (pBdo.block.drop ulStart).length + ulEnd := by
    simp only [placeOf, far, startOf_append, List.length_drop]
    omega
  simp only [partBytes]
  rw [drop_placeOf before pBdo _ inside, length, bytes_append, bytes_empty empty, List.nil_append, bytes_cons,
    List.take_length_add_append, List.take_append_of_le_length (by omega)]

variable {queue : List Bdo} {start : Nat × Nat} {next : Option (Nat × Nat)}

def InQueue (queue : List Bdo) (position : Nat × Nat) : Prop :=
  ∃ pBdo, queue[position.1]? = some pBdo ∧ position.2 ≤ pBdo.blockSize

def Behind (start position : Nat × Nat) : Prop :=
  start.1 ≤ position.1 ∧ (position.1 = start.1 → start.2 ≤ position.2)

theorem SearchPosition.inQueue {position : Nat × Nat} (searched : SearchPosition queue position) :
    InQueue queue position := by
  obtain ⟨pBdo, here, within⟩ := searched
  exact ⟨pBdo, here, by omega⟩

theorem InQueue.split {position : Nat × Nat} (inside : InQueue queue position) :
    ∃ before pBdo rest, queue = before ++ pBdo :: rest ∧ before.length = position.1 ∧
      queue[position.1]? = some pBdo ∧ position.2 ≤ pBdo.blockSize := by
  obtain ⟨pBdo, here, within⟩ := inside
  obtain ⟨less, same⟩ := List.getElem?_eq_some_iff.mp here
  refine ⟨queue.take position.1, pBdo, queue.drop (position.1 + 1), ?_, List.length_take_of_le (Nat.le_of_lt less),
    here, within⟩
  rw [← same, ← List.drop_eq_getElem_cons less, List.take_append_drop]

theorem behind_split {before : List Bdo} {pBdo : Bdo} {rest : List Bdo} {handle : Nat} {pEndBdo : Bdo}
    (order : before.length < handle) (there : (before ++ pBdo :: rest)[handle]? = some pEndBdo) :
    ∃ middle after, rest = middle ++ pEndBdo :: after ∧ handle = before.length + 1 + middle.length := by
  rw [List.getElem?_append_right (Nat.le_of_lt order),
    show handle - before.length = handle - (before.length + 1) + 1 by omega, List.getElem?_cons_succ] at there
  obtain ⟨less, element⟩ := List.getElem?_eq_some_iff.mp there
  refine ⟨rest.take (handle - (before.length + 1)), rest.drop (handle - (before.length + 1) + 1), ?_, ?_⟩
  next => rw [← element, ← List.drop_eq_getElem_cons less, List.take_append_drop]
  next =>
    rw [List.length_take_of_le (Nat.le_of_lt less)]
    omega

def CopiesBytes (queue : List Bdo) (start : Nat × Nat) (hEndBdo : Option Nat) (ulEndOffset : Nat)
    (part : List UInt8) : Prop :=
  partSize queue start hEndBdo ulEndOffset = part.length ∧
    ∀ copying : Copying, copying.ulDataLen ≤ copying.block.length →
      copyPart queue start hEndBdo ulEndOffset copying =
        (writeAt copying.block copying.ulDataLen part).map fun block =>
          { copying with block := block, ulDataLen := copying.ulDataLen + part.length }

section Cases

variable {handle : Nat} {pBdo : Bdo} {rest : List Bdo} (here : queue.drop handle = pBdo :: rest)
  (offset : pBdo.offset = 0)

include here offset

theorem copiesBytes_same {ulStart ulEnd : Nat} (inside : ulEnd ≤ pBdo.blockSize)
    (empty : ∀ pBdo ∈ rest, pBdo.blockSize = 0) :
    CopiesBytes queue (handle, ulStart) (some handle) ulEnd ((pBdo.block.drop ulStart).take (ulEnd - ulStart)) := by
  have size := pBdo.length_block
  have behind : ∀ other ∈ some handle, other < handle + 1 := fun other same =>
    Nat.lt_succ_of_le (Nat.le_of_eq (Option.mem_some.mp same).symm)
  have length : ((pBdo.block.drop ulStart).take (ulEnd - ulStart)).length = ulEnd - ulStart := by
    rw [List.length_take, List.length_drop]
    omega
  have source : (pBdo.buffer.drop ulStart).take (ulEnd - ulStart) =
      (pBdo.block.drop ulStart).take (ulEnd - ulStart) := by
    rw [block_of_offset offset, List.drop_take, List.take_take, Nat.min_eq_left (by omega)]
  refine ⟨?_, fun copying held => ?_⟩
  next =>
    simp only [partSize, here]
    rw [if_pos trivial, laterSize_behind behind ulEnd empty, Nat.add_zero, length]
  next =>
    simp only [copyPart, here]
    rw [if_pos trivial, source, length]

theorem copiesBytes_last {ulStart : Nat} (empty : ∀ pBdo ∈ rest, pBdo.blockSize = 0) :
    CopiesBytes queue (handle, ulStart) none 0 (pBdo.block.drop ulStart) := by
  have size := pBdo.length_block
  have behind : ∀ other ∈ (none : Option Nat), other < handle + 1 := fun other absurd => by cases absurd
  have length : (pBdo.block.drop ulStart).length = pBdo.blockSize - ulStart := by rw [List.length_drop, size]
  have source : (pBdo.buffer.drop ulStart).take (pBdo.blockSize - ulStart) = pBdo.block.drop ulStart := by
    rw [block_of_offset offset, List.drop_take]
  have other : ¬ none = some handle := (Option.some_ne_none handle).symm
  refine ⟨?_, fun copying held => ?_⟩
  next =>
    simp only [partSize, here]
    rw [if_neg other, laterSize_behind behind 0 empty, Nat.add_zero, length]
  next =>
    simp only [copyPart, here]
    rw [if_neg other, source]
    cases written : writeAt copying.block copying.ulDataLen (pBdo.block.drop ulStart) with
    | none => rfl
    | some block =>
      have fits := writeAt_inside written
      rw [length] at fits ⊢
      exact copyLater_behind behind 0 empty fits

theorem copiesBytes_two {ulStart : Nat} {middle : List Bdo} {pEndBdo : Bdo} {after : List Bdo}
    (split : rest = middle ++ pEndBdo :: after) (empty : ∀ pBdo ∈ middle, pBdo.blockSize = 0) {ulEnd : Nat}
    (inside : ulEnd ≤ pEndBdo.blockSize) (offsetToo : ulEnd ≠ 0 → pEndBdo.offset = 0) :
    CopiesBytes queue (handle, ulStart) (some (handle + 1 + middle.length)) ulEnd
      (pBdo.block.drop ulStart ++ pEndBdo.block.take ulEnd) := by
  have size := pBdo.length_block
  have sizeToo := pEndBdo.length_block
  have length : (pBdo.block.drop ulStart).length = pBdo.blockSize - ulStart := by rw [List.length_drop, size]
  have lengthToo : (pEndBdo.block.take ulEnd).length = ulEnd := List.length_take_of_le (by omega)
  have source : (pBdo.buffer.drop ulStart).take (pBdo.blockSize - ulStart) = pBdo.block.drop ulStart := by
    rw [block_of_offset offset, List.drop_take]
  have sourceToo : pEndBdo.buffer.take ulEnd = pEndBdo.block.take ulEnd := by
    by_cases none : ulEnd = 0
    next => rw [none, List.take_zero, List.take_zero]
    next => rw [block_of_offset (offsetToo none), List.take_take, Nat.min_eq_left inside]
  have other : some (handle + 1 + middle.length) ≠ some handle := handle_other handle middle.length
  rw [split] at here
  refine ⟨?_, fun copying held => ?_⟩
  next =>
    simp only [partSize, here]
    rw [if_neg other, laterSize_end (handle + 1) ulEnd empty, List.length_append, length, lengthToo]
  next =>
    simp only [copyPart, here]
    rw [if_neg other, source]
    cases written : writeAt copying.block copying.ulDataLen (pBdo.block.drop ulStart) with
    | none =>
      have none' : writeAt copying.block copying.ulDataLen (pBdo.block.drop ulStart ++ pEndBdo.block.take ulEnd) =
          none := by
        rw [writeAt] at written ⊢
        split at written
        next => cases written
        next outside =>
          rw [List.length_append]
          exact if_neg (by omega)
      rw [none']
      rfl
    | some block =>
      have fits := writeAt_inside written
      rw [length] at fits
      have twice := writeAt_twice written (pEndBdo.block.take ulEnd)
      rw [length] at twice
      rw [Option.bind_some, copyLater_end (handle + 1) ulEnd empty pEndBdo after fits, sourceToo, twice,
        List.length_append, length, lengthToo, Nat.add_assoc]

end Cases

theorem copyPart_outer (outer : InOuterBuffers queue start next) (first : InQueue queue start)
    (last : ∀ position ∈ next, InQueue queue position ∧ Behind start position) :
    CopiesBytes queue start (next.map Prod.fst) ((next.map Prod.snd).getD 0) (partBytes queue start next) := by
  obtain ⟨handle, ulStart⟩ := start
  obtain ⟨before, pBdo, rest, whole, number, known, inside⟩ := first.split
  simp only at number known inside
  have offset := outer.startOffset pBdo known
  have between := outer.between
  have behind : queue.drop (handle + 1) = rest := by
    rw [whole, ← number, ← List.drop_drop, List.drop_left, List.drop_one, List.tail_cons]
  have here : queue.drop handle = pBdo :: rest := by rw [whole, ← number, List.drop_left]
  match next with
  | none =>
    simp only [buffersBetween, behind] at between
    have part : partBytes queue (handle, ulStart) none = pBdo.block.drop ulStart := by
      rw [whole, ← number]
      exact partBytes_last inside between
    rw [part]
    exact copiesBytes_last here offset between
  | some (endHandle, ulEnd) =>
    obtain ⟨within, order, later⟩ := last (endHandle, ulEnd) rfl
    simp only at order later
    simp only [Option.map_some, Option.getD_some]
    by_cases same : endHandle = handle
    next =>
      simp only [buffersBetween, behind, if_pos same] at between
      obtain ⟨pEndBdo, there, ends⟩ := within
      simp only [same, known, Option.some.injEq] at there
      rw [← there] at ends
      have part : partBytes queue (handle, ulStart) (some (endHandle, ulEnd)) =
          (pBdo.block.drop ulStart).take (ulEnd - ulStart) := by
        rw [same, whole, ← number]
        exact partBytes_same rest (later same) ends
      rw [part, same]
      exact copiesBytes_same here offset ends between
    next =>
      simp only [buffersBetween, behind, if_neg same] at between
      obtain ⟨pEndBdo, there, ends⟩ := within
      have order : before.length < endHandle := by omega
      rw [whole] at there
      obtain ⟨middle, after, split, endNumber⟩ := behind_split order there
      have length : endHandle - (handle + 1) = middle.length := by omega
      rw [length, split, List.take_left] at between
      have offsetToo : ulEnd ≠ 0 → pEndBdo.offset = 0 := fun some =>
        outer.endOffset (endHandle, ulEnd) rfl some pEndBdo (whole ▸ there)
      have part : partBytes queue (handle, ulStart) (some (endHandle, ulEnd)) =
          pBdo.block.drop ulStart ++ pEndBdo.block.take ulEnd := by
        rw [whole, split, ← number, endNumber]
        exact partBytes_two after inside between ends
      rw [part, endNumber, number]
      exact copiesBytes_two here offset split between ends offsetToo

end Parts

section Steps

variable {queue : List Bdo} {start : Nat × Nat} {next : Option (Nat × Nat)}

structure Collected.Holds (form : Collected) (data : List UInt8) : Prop where
  length : form.ulDataLen = data.length
  data : (form.pBuf.getD []).take form.ulDataLen = data
  size : ∀ block ∈ form.pBuf, block.length = bodyMsgMaxSize

theorem roomFor_holds {form : Collected} {data : List UInt8} (holds : form.Holds data) {ulPartSize : Nat}
    (room : form.ulDataLen + ulPartSize < bodyMsgMaxSize) :
    ∃ block, roomFor form ulPartSize = some block ∧ block.length = bodyMsgMaxSize ∧
      block.take form.ulDataLen = data := by
  cases known : form.pBuf with
  | none =>
    have empty := holds.data
    rw [known, Option.getD_none, List.take_nil] at empty
    refine ⟨List.replicate bodyMsgMaxSize 0, ?_, List.length_replicate, ?_⟩
    next => rw [roomFor, known]
    next => rw [holds.length, ← empty, List.length_nil, List.take_zero]
  | some pBuf =>
    have size := holds.size pBuf known
    have data := holds.data
    rw [known, Option.getD_some] at data
    refine ⟨pBuf, ?_, size, data⟩
    rw [roomFor, known]
    simp only
    rw [size, if_neg (by omega)]

theorem copyFormData2_fits {form : Collected} {data : List UInt8} (holds : form.Holds data)
    (fits : PartFits queue form start next) (first : InQueue queue start)
    (last : ∀ position ∈ next, InQueue queue position ∧ Behind start position) :
    ∃ outcome after, copyFormData2 queue form start (next.map Prod.fst) ((next.map Prod.snd).getD 0) =
        some (outcome, after) ∧
      after.Holds (if outcome = .kept then data ++ partBytes queue start next else data) := by
  by_cases large : bodyMsgMaxSize ≤ partSize queue start (next.map Prod.fst) ((next.map Prod.snd).getD 0)
  next => exact ⟨.discarded, form, if_pos large, holds⟩
  next =>
    obtain ⟨outer, room⟩ := fits.resolve_left large
    obtain ⟨counted, copies⟩ := copyPart_outer outer first last
    obtain ⟨block, found, size, front⟩ := roomFor_holds holds room
    rw [counted] at room
    obtain ⟨filled, written⟩ : ∃ filled, writeAt block form.ulDataLen (partBytes queue start next) = some filled :=
      ⟨_, writeAt_eq (by omega)⟩
    have filledSize := length_writeAt written
    have filledData := writeAt_data written
    rw [front] at filledData
    obtain ⟨closed, ended⟩ :
        ∃ closed, writeAt filled (form.ulDataLen + (partBytes queue start next).length) [0] = some closed :=
      ⟨_, writeAt_eq (by rw [List.length_singleton]; omega)⟩
    have closedSize := length_writeAt ended
    have whole : closed.take (form.ulDataLen + (partBytes queue start next).length) =
        data ++ partBytes queue start next := by rw [writeAt_take ended (Nat.le_refl _), filledData]
    have kept : closed.take form.ulDataLen = data := by
      rw [writeAt_take ended (Nat.le_add_right _ _), writeAt_take written (Nat.le_refl _), front]
    have sized : ∀ block ∈ some closed, block.length = bodyMsgMaxSize := by
      intro block same
      rw [← Option.mem_some.mp same]
      omega
    rw [copyFormData2]
    simp only [if_neg large, found, Option.bind_some]
    rw [copies _ (by simp only; omega), counted]
    simp only [written, Option.map_some, Option.bind_some, ended]
    rw [if_neg (by omega), Nat.add_sub_cancel]
    split
    next =>
      refine ⟨_, _, rfl, ?_⟩
      rw [if_pos rfl]
      exact ⟨by rw [List.length_append, holds.length], whole, sized⟩
    next outcome notKept =>
      refine ⟨_, _, rfl, ?_⟩
      rw [if_neg notKept]
      exact ⟨holds.length, kept, sized⟩

variable {pBoundary : CString}

structure Collecting (queue : List Bdo) (run : FormRun) : Prop where
  inside : ∀ start ∈ run.current, InQueue queue start
  holds : run.form.Holds run.parts.flatten

theorem collecting_start (memory : Nat → List UInt8) : Collecting queue (formStart queue pBoundary memory) :=
  ⟨fun _ found => (findNextBoundary_inside found).1.inQueue, ⟨rfl, rfl, fun _ absurd => by cases absurd⟩⟩

theorem nextPosition_behind {memory : Nat → List UInt8} :
    ∀ position ∈ nextPosition queue pBoundary memory start, InQueue queue position ∧ Behind start position := by
  intro position found
  obtain ⟨inside, behind⟩ := findNextBoundary_inside found
  obtain ⟨order, later⟩ := behind start.1 rfl
  exact ⟨inside.inQueue, order, fun same => Nat.le_trans (Nat.le_add_right _ _) (later same)⟩

theorem formStep_fits {run : FormRun} (collecting : Collecting queue run) {memory : Nat → List UInt8}
    (fits : StepFits queue pBoundary run memory) (found : run.current = some start) :
    ∃ after, formStep queue pBoundary run memory = some after ∧ Collecting queue after := by
  obtain ⟨outcome, form, result, holds⟩ := copyFormData2_fits collecting.holds (fits start found)
    (collecting.inside start found) nextPosition_behind
  refine ⟨⟨if outcome = .internalError then none else nextPosition queue pBoundary memory start, form,
    if outcome = .kept then run.parts ++ [partBytes queue start (nextPosition queue pBoundary memory start)]
    else run.parts⟩, ?_, ?_, ?_⟩
  next =>
    rw [formStep, found, Option.bind_some]
    simp only [result, Option.map_some]
  next =>
    intro position later
    simp only at later
    split at later
    next => cases later
    next => exact (nextPosition_behind position later).1
  next =>
    split at holds
    next kept =>
      simp only [if_pos kept, List.flatten_append, List.flatten_singleton]
      exact holds
    next other =>
      simp only [if_neg other]
      exact holds

theorem Collecting.step {run after : FormRun} (collecting : Collecting queue run) {memory : Nat → List UInt8}
    (fits : StepFits queue pBoundary run memory) (result : formStep queue pBoundary run memory = some after) :
    Collecting queue after := by
  cases known : run.current with
  | none =>
    rw [formStep, known] at result
    cases result
  | some start =>
    obtain ⟨other, same, further⟩ := formStep_fits collecting fits known
    rw [result] at same
    rwa [Option.some.inj same]

theorem Collecting.accumulated {run : FormRun} (collecting : Collecting queue run) : run.Accumulated :=
  ⟨collecting.holds.length, collecting.holds.data⟩

theorem FormRun.Accumulated.result {run : FormRun} (accumulated : run.Accumulated) :
    (run.result.1.getD []).take run.result.2 = run.parts.flatten ∧ run.result.2 = run.parts.flatten.length := by
  rw [FormRun.result]
  split
  next => exact ⟨accumulated.data, accumulated.length⟩
  next nothing =>
    have empty := accumulated.length
    rw [Decidable.not_not.mp nothing] at empty
    exact ⟨(List.length_eq_zero_iff.mp empty.symm).symm, empty⟩

theorem form_data_collected {memory : Nat → List UInt8} {run : FormRun}
    (reached : Reachable (formStep queue pBoundary) (StepFits queue pBoundary) (formStart queue pBoundary memory)
      run) :
    run.Accumulated ∧
      ((run.result.1.getD []).take run.result.2 = run.parts.flatten ∧ run.result.2 = run.parts.flatten.length) ∧
      ∀ memory, StepFits queue pBoundary run memory → run.current.isSome →
        (formStep queue pBoundary run memory).isSome := by
  have collecting : Collecting queue run :=
    reached.invariant (collecting_start memory) fun _ _ _ collecting fits result => collecting.step fits result
  refine ⟨collecting.accumulated, collecting.accumulated.result, fun memory fits more => ?_⟩
  obtain ⟨start, known⟩ := Option.isSome_iff_exists.mp more
  obtain ⟨after, result, _⟩ := formStep_fits collecting fits known
  rw [result]
  rfl

end Steps

section Examples

def oneField (value : UInt8) : List UInt8 :=
  [hyphen, hyphen, 0x62, carriageReturn, lineFeed, 0x4E, carriageReturn, lineFeed, carriageReturn, lineFeed, value,
    carriageReturn, lineFeed]

def threeFields : List Bdo :=
  [plainBdo ((oneField 0x31).take 9), plainBdo ((oneField 0x31).drop 9 ++ (oneField 0x32).take 9),
    plainBdo ((oneField 0x32).drop 9 ++ oneField 0x33)]

def nothingBehind (_ : Nat) : List UInt8 := []

def firstTurn (queue : List Bdo) : Option FormRun :=
  formStep queue letterB (formStart queue letterB nothingBehind) nothingBehind

theorem form_data_collected_first : ∃ run : FormRun,
    Reachable (formStep threeFields letterB) (StepFits threeFields letterB)
      (formStart threeFields letterB nothingBehind) run ∧ run.current = none ∧
    run.parts = [oneField 0x31, oneField 0x32, oneField 0x33] ∧ run.Accumulated := by
  obtain ⟨run, ran, ended⟩ := Option.map_eq_some_iff.mp
    (show (runAll (fun run memory => if StepFits threeFields letterB run memory then
        formStep threeFields letterB run memory else none) (formStart threeFields letterB nothingBehind)
        [nothingBehind, nothingBehind, nothingBehind]).map (fun run => (run.current, run.parts)) =
      some (none, [oneField 0x31, oneField 0x32, oneField 0x33]) by decide +kernel)
  have reached := runAllowed_reachable _ .start ran
  exact ⟨run, reached, congrArg Prod.fst ended, congrArg Prod.snd ended, (form_data_collected reached).1⟩

def shiftedField : List Bdo :=
  [⟨0, true, 0x78 :: oneField 0x31, 1, 13, 0, [], none, none, by decide⟩]

theorem form_data_shifted : ¬ ∀ (queue : List Bdo) (pBoundary : CString) (memory : Nat → List UInt8) (run : FormRun),
    Reachable (formStep queue pBoundary) (fun _ _ => True) (formStart queue pBoundary memory) run →
      run.Accumulated ∧
        ((run.result.1.getD []).take run.result.2 = run.parts.flatten ∧
          run.result.2 = run.parts.flatten.length) ∧
        ∀ memory, run.current.isSome → (formStep queue pBoundary run memory).isSome := by
  intro every
  obtain ⟨run, turn, differ⟩ :=
    Option.map_eq_some_iff.mp
      (show (firstTurn shiftedField).map (fun run =>
        decide ((run.form.pBuf.getD []).take run.form.ulDataLen = run.parts.flatten)) = some false by decide +kernel)
  have same := (every shiftedField letterB nothingBehind run (.next .start trivial turn)).1.data
  exact of_decide_eq_false differ same

end Examples

end CcspCommon.HttpSmpo
