import CcspCommon.AnscPlatform.Queue

set_option autoImplicit false

namespace CcspCommon.AnscPlatform

section Buffers

inductive Status
  | success | badOffset | badSize | unapplicable | resources
deriving DecidableEq

inductive FreeMe
  | sonBdo | other
deriving DecidableEq

structure Bdo where
  address : Nat
  bOwner : Bool
  buffer : List UInt8
  offset : Nat
  blockSize : Nat
  reserved1 : Nat
  osSpecific : List UInt8
  hOwnerObject : Option Nat
  pfnFreeMe : Option FreeMe
  fits : offset + blockSize ≤ buffer.length

namespace Bdo

def block (bdo : Bdo) : List UInt8 := (bdo.buffer.drop bdo.offset).take bdo.blockSize

@[simp] theorem length_block (bdo : Bdo) : bdo.block.length = bdo.blockSize := by
  have fits := bdo.fits
  simp only [block, List.length_take, List.length_drop]
  omega

def shrinkLeft (bdo : Bdo) (size : Nat) : Bdo :=
  { bdo with
    blockSize := bdo.blockSize - size
    fits := by have := bdo.fits; omega }

theorem block_shrinkLeft (bdo : Bdo) (size : Nat) :
    (bdo.shrinkLeft size).block = bdo.block.take (bdo.blockSize - size) := by
  simp only [block, shrinkLeft, List.take_take]
  rw [Nat.min_eq_left (by omega)]

def shrinkRight (bdo : Bdo) (size : Nat) (inside : size ≤ bdo.blockSize) : Bdo :=
  { bdo with
    offset := bdo.offset + size
    blockSize := bdo.blockSize - size
    fits := by have := bdo.fits; omega }

theorem block_shrinkRight (bdo : Bdo) (size : Nat) (inside : size ≤ bdo.blockSize) :
    (bdo.shrinkRight size inside).block = bdo.block.drop size := by
  simp only [block, shrinkRight, List.drop_take, List.drop_drop]

def copyFrom (bdo : Bdo) (ulTbcSize ulOffset : Nat) : Except Status (List UInt8) :=
  if bdo.blockSize ≤ ulOffset then .error .badOffset
  else if ulTbcSize = 0 then .error .badSize
  else
    let ulTbcSize := if ulTbcSize > bdo.blockSize - ulOffset then bdo.blockSize - ulOffset else ulTbcSize
    .ok ((bdo.buffer.drop (bdo.offset + ulOffset)).take ulTbcSize)

theorem copyFrom_eq (bdo : Bdo) {ulTbcSize ulOffset : Nat} (inside : ulOffset < bdo.blockSize)
    (some : 0 < ulTbcSize) :
    bdo.copyFrom ulTbcSize ulOffset = .ok ((bdo.block.drop ulOffset).take ulTbcSize) := by
  rw [copyFrom, if_neg (by omega), if_neg (by omega)]
  simp only [block, List.drop_take, List.drop_drop, List.take_take]
  congr 2
  split <;> omega

def headSon (parent : Bdo) (size : Nat) (inside : size ≤ parent.blockSize) (address owner : Nat) : Bdo where
  address := address
  bOwner := false
  buffer := parent.buffer.take (size + parent.offset)
  offset := parent.offset
  blockSize := size
  reserved1 := parent.reserved1
  osSpecific := parent.osSpecific
  hOwnerObject := some owner
  pfnFreeMe := some .sonBdo
  fits := by have := parent.fits; simp only [List.length_take]; omega

theorem block_headSon (parent : Bdo) {size : Nat} (inside : size ≤ parent.blockSize) (address owner : Nat) :
    (parent.headSon size inside address owner).block = parent.block.take size := by
  simp only [block, headSon, List.drop_take, List.take_take]
  congr 1
  omega

def tailSon (parent : Bdo) (size : Nat) (inside : size ≤ parent.blockSize) (address owner : Nat) : Bdo where
  address := address
  bOwner := false
  buffer := (parent.buffer.drop (parent.offset + size)).take (parent.blockSize - size)
  offset := 0
  blockSize := parent.blockSize - size
  reserved1 := parent.reserved1
  osSpecific := parent.osSpecific
  hOwnerObject := some owner
  pfnFreeMe := some .sonBdo
  fits := by have := parent.fits; simp only [List.length_take, List.length_drop]; omega

theorem block_tailSon (parent : Bdo) {size : Nat} (inside : size ≤ parent.blockSize) (address owner : Nat) :
    (parent.tailSon size inside address owner).block = parent.block.drop size := by
  simp only [block, tailSon, List.drop_take, List.drop_drop, List.take_take]
  congr 1
  omega

def breakAt (parent : Bdo) (ulOffset : Nat) (new1 new2 : Option Nat) : Except Status (Bdo × Option Bdo) :=
  if outside : parent.blockSize ≤ ulOffset then .error .unapplicable
  else if ulOffset = 0 then .ok (parent, none)
  else match new1, new2 with
    | some new1, some new2 =>
      .ok (parent.headSon ulOffset (by omega) new1 parent.address,
        some (parent.tailSon ulOffset (by omega) new2 parent.address))
    | _, _ => .error .resources

theorem breakAt_inside (parent : Bdo) {ulOffset : Nat} (positive : 0 < ulOffset) (inside : ulOffset < parent.blockSize)
    {new1 new2 : Option Nat} (allocated1 : new1.isSome) (allocated2 : new2.isSome) :
    ∃ head tail, parent.breakAt ulOffset new1 new2 = .ok (head, some tail) ∧
      head.block = parent.block.take ulOffset ∧ tail.block = parent.block.drop ulOffset := by
  obtain ⟨first, rfl⟩ := Option.isSome_iff_exists.mp allocated1
  obtain ⟨second, rfl⟩ := Option.isSome_iff_exists.mp allocated2
  refine ⟨_, _, ?_, parent.block_headSon (Nat.le_of_lt inside) first parent.address,
    parent.block_tailSon (Nat.le_of_lt inside) second parent.address⟩
  rw [breakAt, dif_neg (by omega), if_neg (by omega)]

end Bdo

end Buffers

section Packets

structure Pdo where
  bdoQueue : List Bdo
  finalStatus : Nat
  flags : Nat
  bSyncOnly : Bool
  bStealthy : Bool
  curHeaderBdo : Option Nat
  curHeaderBuffer : Option (Nat × Nat)
  curHeaderOffset : Nat
  errorCode : Nat
  hPktPassport : Option Nat
  hOwnerObject : Option Nat
  pfnFreeMe : Option Nat

structure Place where
  before : List Bdo
  bdo : Bdo
  after : List Bdo
  blockOffset : Nat
  inside : blockOffset < bdo.blockSize

def locate (ulOffset : Nat) (before : List Bdo) (ulCurOffset : Nat) (reached : ulCurOffset ≤ ulOffset) :
    List Bdo → Option Place
  | [] => none
  | bdo :: rest =>
    if found : ulCurOffset + bdo.blockSize > ulOffset then
      some ⟨before, bdo, rest, ulOffset - ulCurOffset, by omega⟩
    else locate ulOffset (before ++ [bdo]) (ulCurOffset + bdo.blockSize) (by omega) rest

def Place.broken (place : Place) (new1 new2 owner : Nat) : List Bdo :=
  place.before ++ place.bdo.headSon place.blockOffset (Nat.le_of_lt place.inside) new1 owner ::
    place.bdo.tailSon place.blockOffset (Nat.le_of_lt place.inside) new2 owner :: place.after

/-- The loop of `AnscPdoCopyFrom`: `ulCopiedSize` and the bytes written to the destination. A buffer
that refuses the copy leaves `ulTbcSize` as it is. -/
def copyLoop (ulOffset ulPacketOffset : Nat) (bFirstBdoFound : Bool) (ulLeftSize : Nat) :
    List Bdo → Nat × List UInt8
  | [] => (0, [])
  | bdo :: rest =>
    if ulLeftSize = 0 then (0, [])
    else if !bFirstBdoFound && ulPacketOffset + bdo.blockSize ≤ ulOffset then
      copyLoop ulOffset (ulPacketOffset + bdo.blockSize) false ulLeftSize rest
    else
      let ulBufferOffset := if bFirstBdoFound then 0 else ulOffset - ulPacketOffset
      let ulTbcSize := bdo.blockSize - ulBufferOffset
      let ulTbcSize := if ulTbcSize ≤ ulLeftSize then ulTbcSize else ulLeftSize
      let (copied, data) := match bdo.copyFrom ulTbcSize ulBufferOffset with
        | .ok data => (data.length, data)
        | .error _ => (ulTbcSize, [])
      let (ulCopiedSize, written) := copyLoop ulOffset ulPacketOffset true (ulLeftSize - ulTbcSize) rest
      (copied + ulCopiedSize, data ++ written)

def shrinkLeftLoop (ulLeftSize ulCurOffset : Nat) (bBdoFound : Bool) : List Bdo → List Bdo
  | [] => []
  | bdo :: rest =>
    if bBdoFound then shrinkLeftLoop ulLeftSize ulCurOffset true rest
    else if ulCurOffset + bdo.blockSize < ulLeftSize then
      bdo :: shrinkLeftLoop ulLeftSize (ulCurOffset + bdo.blockSize) false rest
    else if ulCurOffset + bdo.blockSize = ulLeftSize then
      bdo :: shrinkLeftLoop ulLeftSize ulCurOffset true rest
    else
      bdo.shrinkLeft (ulCurOffset + bdo.blockSize - ulLeftSize) ::
        shrinkLeftLoop ulLeftSize ulCurOffset true rest

/-- The loop of `AnscPdoShrinkRight` with the shrinking of the buffer it stops at. Whole buffers are
released on the way, so that none is left when it runs to the end. -/
def shrinkRightLoop (ulSize ulCurOffset : Nat) (reached : ulCurOffset ≤ ulSize) :
    List Bdo → Status × List Bdo
  | [] => (.badSize, [])
  | bdo :: rest =>
    if whole : ulCurOffset + bdo.blockSize ≤ ulSize then
      shrinkRightLoop ulSize (ulCurOffset + bdo.blockSize) whole rest
    else (.success, bdo.shrinkRight (ulSize - ulCurOffset) (by omega) :: rest)

def splitLoop (ulOffset ulCurOffset : Nat) (bBdoFound : Bool) : List Bdo → Option (List Bdo × List Bdo)
  | [] => some ([], [])
  | bdo :: rest =>
    if bBdoFound then do
      let (kept, moved) ← splitLoop ulOffset ulCurOffset true rest
      some (kept, bdo :: moved)
    else if ulCurOffset + bdo.blockSize < ulOffset then do
      let (kept, moved) ← splitLoop ulOffset (ulCurOffset + bdo.blockSize) false rest
      some (bdo :: kept, moved)
    else if ulCurOffset + bdo.blockSize = ulOffset then do
      let (kept, moved) ← splitLoop ulOffset ulCurOffset true rest
      some (bdo :: kept, moved)
    else none

namespace Pdo

def getPacketSize (pdo : Pdo) : Nat := pdo.bdoQueue.foldl (fun ulPacketSize bdo => ulPacketSize + bdo.blockSize) 0

def place (pdo : Pdo) (ulOffset : Nat) : Option Place := locate ulOffset [] 0 ulOffset.zero_le pdo.bdoQueue

def getBdoByOffset (pdo : Pdo) (ulOffset : Nat) : Option Nat := (pdo.place ulOffset).map (·.bdo.address)

def getBufferByOffset (pdo : Pdo) (ulOffset : Nat) : Option (Nat × Nat) :=
  (pdo.place ulOffset).map fun place => (place.bdo.address, place.bdo.offset + place.blockOffset)

def copyFrom (pdo : Pdo) (ulCopySize ulOffset : Nat) : Except Status (Nat × List UInt8) :=
  if ulOffset > pdo.getPacketSize then .error .badOffset
  else if ulCopySize = 0 then .error .badSize
  else .ok (copyLoop ulOffset 0 false ulCopySize pdo.bdoQueue)

def concatenate (pdo1 pdo2 : Pdo) : Pdo × Pdo :=
  if ushort pdo2.bdoQueue.length = 0 then (pdo1, pdo2)
  else ({ pdo1 with bdoQueue := pdo1.bdoQueue ++ pdo2.bdoQueue }, { pdo2 with bdoQueue := [] })

def shrinkLeft (pdo : Pdo) (ulSize : Nat) : Status × Pdo :=
  if pdo.getPacketSize ≤ ulSize then (.unapplicable, pdo)
  else (.success, { pdo with bdoQueue := shrinkLeftLoop (pdo.getPacketSize - ulSize) 0 false pdo.bdoQueue })

def shrinkRight (pdo : Pdo) (ulSize : Nat) : Status × Pdo :=
  let (status, bdoQueue) := shrinkRightLoop ulSize 0 ulSize.zero_le pdo.bdoQueue
  (status, { pdo with bdoQueue := bdoQueue })

def breakAt (pdo : Pdo) (ulOffset : Nat) (new1 new2 : Option Nat) : Status × Pdo :=
  match pdo.place ulOffset with
  | none => (.unapplicable, pdo)
  | some place =>
    if place.blockOffset = 0 then (.success, pdo)
    else match new1, new2 with
      | some new1, some new2 =>
        (.success, { pdo with bdoQueue := place.broken new1 new2 place.bdo.address })
      | _, _ => (.resources, pdo)

def breakAt2 (pdo : Pdo) (ulOffset : Nat) (new1 new2 : Option Nat) : Status × Pdo :=
  match pdo.place ulOffset with
  | none => (.unapplicable, pdo)
  | some place =>
    if place.blockOffset = 0 then (.success, pdo)
    else
      let granma := if !place.bdo.bOwner && place.bdo.pfnFreeMe = some .sonBdo then place.bdo.hOwnerObject else none
      match granma with
      | none => pdo.breakAt ulOffset new1 new2
      | some granma => match new1, new2 with
        | some new1, some new2 => (.success, { pdo with bdoQueue := place.broken new1 new2 granma })
        | _, _ => (.resources, pdo)

-- `AnscPdoSplitAt`. The result of the break is ignored.
def splitAt (pdo1 pdo2 : Pdo) (ulOffset : Nat) (new1 new2 : Option Nat) : Status × Pdo × Pdo :=
  if pdo1.getPacketSize ≤ ulOffset then (.unapplicable, pdo1, pdo2)
  else
    let pdo1 := (pdo1.breakAt ulOffset new1 new2).2
    match splitLoop ulOffset 0 false pdo1.bdoQueue with
    | none => (.unapplicable, pdo1, pdo2)
    | some (kept, moved) =>
      let pdo2 := { pdo2 with bdoQueue := pdo2.bdoQueue ++ moved }
      (.success, { pdo1 with bdoQueue := kept },
        { pdo2 with
          finalStatus := pdo1.finalStatus
          flags := pdo1.flags
          bSyncOnly := false
          bStealthy := pdo1.bStealthy
          curHeaderBdo := pdo2.getBdoByOffset 0
          curHeaderBuffer := pdo2.getBufferByOffset 0
          curHeaderOffset := 0
          errorCode := pdo1.errorCode
          hPktPassport := none
          hOwnerObject := none
          pfnFreeMe := none })

end Pdo

end Packets

section Bytes

def bytes (queue : List Bdo) : List UInt8 := queue.flatMap Bdo.block

@[simp] theorem bytes_nil : bytes [] = [] := rfl

@[simp] theorem bytes_cons (bdo : Bdo) (rest : List Bdo) : bytes (bdo :: rest) = bdo.block ++ bytes rest := rfl

@[simp] theorem bytes_append (first second : List Bdo) : bytes (first ++ second) = bytes first ++ bytes second :=
  List.flatMap_append

theorem foldl_blockSize (queue : List Bdo) (ulPacketSize : Nat) :
    queue.foldl (fun ulPacketSize bdo => ulPacketSize + bdo.blockSize) ulPacketSize =
      ulPacketSize + (bytes queue).length := by
  induction queue generalizing ulPacketSize with
  | nil => rfl
  | cons bdo rest ih =>
    simp only [List.foldl_cons, ih, bytes_cons, List.length_append, Bdo.length_block]
    omega

theorem locate_none {ulOffset : Nat} {before : List Bdo} {ulCurOffset : Nat} {reached : ulCurOffset ≤ ulOffset}
    {queue : List Bdo} :
    locate ulOffset before ulCurOffset reached queue = none ↔ ulCurOffset + (bytes queue).length ≤ ulOffset := by
  induction queue generalizing before ulCurOffset with
  | nil => simp [locate, reached]
  | cons bdo rest ih =>
    rw [locate]
    simp only [bytes_cons, List.length_append, Bdo.length_block]
    split
    next found =>
      simp only [reduceCtorEq, false_iff]
      omega
    next passed =>
      rw [ih]
      omega

theorem locate_some {ulOffset : Nat} {before : List Bdo} {ulCurOffset : Nat} {reached : ulCurOffset ≤ ulOffset}
    {queue : List Bdo} {place : Place} (found : locate ulOffset before ulCurOffset reached queue = some place) :
    place.before ++ place.bdo :: place.after = before ++ queue ∧
      (bytes place.before).length + place.blockOffset + ulCurOffset = (bytes before).length + ulOffset := by
  induction queue generalizing before ulCurOffset with
  | nil => simp [locate] at found
  | cons bdo rest ih =>
    rw [locate] at found
    split at found
    next here =>
      obtain rfl := Option.some.inj found
      refine ⟨rfl, ?_⟩
      dsimp only
      omega
    next passed =>
      obtain ⟨same, sizes⟩ := ih found
      refine ⟨by simpa using same, ?_⟩
      simp only [bytes_append, bytes_cons, bytes_nil, List.append_nil, List.length_append,
        Bdo.length_block] at sizes
      omega

theorem Place.bytes_broken (place : Place) (new1 new2 owner : Nat) :
    bytes (place.broken new1 new2 owner) = bytes (place.before ++ place.bdo :: place.after) := by
  simp only [broken, bytes_append, bytes_cons, Bdo.block_headSon, Bdo.block_tailSon]
  rw [← List.append_assoc (List.take _ _), List.take_append_drop]

theorem take_piece (data rest : List UInt8) (ulLeftSize : Nat) :
    let ulTbcSize := if data.length ≤ ulLeftSize then data.length else ulLeftSize
    data.take ulTbcSize ++ rest.take (ulLeftSize - ulTbcSize) = (data ++ rest).take ulLeftSize := by
  dsimp only
  rw [List.take_append]
  split
  next whole => rw [List.take_length, List.take_of_length_le whole]
  next part =>
    rw [Nat.sub_self, Nat.sub_eq_zero_of_le (by omega)]

theorem copyLoop_found (ulOffset ulPacketOffset ulLeftSize : Nat) (queue : List Bdo) :
    copyLoop ulOffset ulPacketOffset true ulLeftSize queue =
      (((bytes queue).take ulLeftSize).length, (bytes queue).take ulLeftSize) := by
  induction queue generalizing ulLeftSize with
  | nil => simp [copyLoop]
  | cons bdo rest ih =>
    rw [copyLoop]
    by_cases full : ulLeftSize = 0
    · simp [full]
    simp only [full, if_false, Bool.not_true, Bool.false_and, Bool.false_eq_true, if_true, Nat.sub_zero, ih]
    by_cases empty : bdo.blockSize = 0
    · -- an empty buffer refuses the copy, and nothing is counted for it
      have nothing : bdo.block = [] := List.eq_nil_of_length_eq_zero (by simpa using empty)
      simp [empty, nothing, Bdo.copyFrom]
    rw [bdo.copyFrom_eq (by omega) (by split <;> omega)]
    have piece := take_piece bdo.block (bytes rest) ulLeftSize
    simp only [Bdo.length_block] at piece
    simp only [List.drop_zero, bytes_cons, ← piece, List.length_append]

theorem copyLoop_search {ulOffset ulPacketOffset : Nat} (reached : ulPacketOffset ≤ ulOffset) {ulLeftSize : Nat}
    (some : 0 < ulLeftSize) (queue : List Bdo) :
    copyLoop ulOffset ulPacketOffset false ulLeftSize queue =
      ((((bytes queue).drop (ulOffset - ulPacketOffset)).take ulLeftSize).length,
        ((bytes queue).drop (ulOffset - ulPacketOffset)).take ulLeftSize) := by
  induction queue generalizing ulPacketOffset with
  | nil => simp [copyLoop]
  | cons bdo rest ih =>
    rw [copyLoop, if_neg (by omega)]
    by_cases passed : ulPacketOffset + bdo.blockSize ≤ ulOffset
    · rw [if_pos (by simpa using passed), ih passed]
      have skip : (bytes (bdo :: rest)).drop (ulOffset - ulPacketOffset) =
          (bytes rest).drop (ulOffset - (ulPacketOffset + bdo.blockSize)) := by
        rw [bytes_cons, List.drop_append, List.drop_of_length_le (by simp; omega), Bdo.length_block,
          List.nil_append, Nat.sub_sub]
      rw [skip]
    · -- from this buffer on the copy goes on as one that starts inside it
      rw [if_neg (by simpa using passed)]
      have inside : ulOffset - ulPacketOffset < bdo.blockSize := by omega
      simp only [Bool.false_eq_true, if_false, copyLoop_found]
      rw [bdo.copyFrom_eq inside (by split <;> omega)]
      have piece := take_piece (bdo.block.drop (ulOffset - ulPacketOffset)) (bytes rest) ulLeftSize
      simp only [List.length_drop, Bdo.length_block] at piece
      rw [bytes_cons, List.drop_append_of_le_length (by simp; omega), ← piece, List.length_append]

theorem shrinkLeftLoop_found (ulLeftSize ulCurOffset : Nat) (queue : List Bdo) :
    shrinkLeftLoop ulLeftSize ulCurOffset true queue = [] := by
  induction queue with
  | nil => rfl
  | cons bdo rest ih => rw [shrinkLeftLoop, if_pos rfl, ih]

theorem bytes_shrinkLeftLoop {ulLeftSize ulCurOffset : Nat} (reached : ulCurOffset ≤ ulLeftSize)
    (queue : List Bdo) :
    bytes (shrinkLeftLoop ulLeftSize ulCurOffset false queue) = (bytes queue).take (ulLeftSize - ulCurOffset) := by
  induction queue generalizing ulCurOffset with
  | nil => simp [shrinkLeftLoop]
  | cons bdo rest ih =>
    rw [shrinkLeftLoop, if_neg Bool.false_ne_true, bytes_cons, List.take_append, Bdo.length_block]
    split
    next whole =>
      have all : bdo.block.take (ulLeftSize - ulCurOffset) = bdo.block :=
        List.take_of_length_le (by simp; omega)
      rw [bytes_cons, ih (Nat.le_of_lt whole), all, Nat.sub_sub]
    split
    next _ border =>
      have done : ulLeftSize - ulCurOffset - bdo.blockSize = 0 := by omega
      rw [bytes_cons, shrinkLeftLoop_found, List.take_of_length_le (by simp; omega), done]
      rfl
    next _ _ =>
      have done : ulLeftSize - ulCurOffset - bdo.blockSize = 0 := by omega
      have left : bdo.blockSize - (ulCurOffset + bdo.blockSize - ulLeftSize) = ulLeftSize - ulCurOffset := by omega
      rw [bytes_cons, shrinkLeftLoop_found, Bdo.block_shrinkLeft, done, left]
      rfl

theorem shrinkRightLoop_inside {ulSize ulCurOffset : Nat} (reached : ulCurOffset ≤ ulSize) {queue : List Bdo}
    (inside : ulSize - ulCurOffset < (bytes queue).length) :
    (shrinkRightLoop ulSize ulCurOffset reached queue).1 = .success ∧
      bytes (shrinkRightLoop ulSize ulCurOffset reached queue).2 = (bytes queue).drop (ulSize - ulCurOffset) := by
  induction queue generalizing ulCurOffset with
  | nil => simp at inside
  | cons bdo rest ih =>
    simp only [bytes_cons, List.length_append, Bdo.length_block] at inside
    rw [shrinkRightLoop, bytes_cons]
    split
    next whole =>
      rw [List.drop_append, List.drop_of_length_le (by simp; omega), Bdo.length_block, List.nil_append, Nat.sub_sub]
      exact ih whole (by omega)
    next part =>
      rw [bytes_cons, Bdo.block_shrinkRight, List.drop_append_of_le_length (by simp; omega)]
      exact ⟨rfl, rfl⟩

theorem shrinkRightLoop_outside {ulSize ulCurOffset : Nat} (reached : ulCurOffset ≤ ulSize) {queue : List Bdo}
    (outside : (bytes queue).length ≤ ulSize - ulCurOffset) :
    shrinkRightLoop ulSize ulCurOffset reached queue = (.badSize, []) := by
  induction queue generalizing ulCurOffset with
  | nil => rfl
  | cons bdo rest ih =>
    simp only [bytes_cons, List.length_append, Bdo.length_block] at outside
    rw [shrinkRightLoop, dif_pos (by omega)]
    exact ih _ (by omega)

theorem splitLoop_found (ulOffset ulCurOffset : Nat) (queue : List Bdo) :
    splitLoop ulOffset ulCurOffset true queue = some ([], queue) := by
  induction queue with
  | nil => rfl
  | cons bdo rest ih =>
    rw [splitLoop, if_pos rfl, ih]
    rfl

theorem splitLoop_some {ulOffset ulCurOffset : Nat} (reached : ulCurOffset ≤ ulOffset) {queue kept moved : List Bdo}
    (split : splitLoop ulOffset ulCurOffset false queue = some (kept, moved)) :
    kept ++ moved = queue ∧ bytes kept = (bytes queue).take (ulOffset - ulCurOffset) := by
  induction queue generalizing ulCurOffset kept moved with
  | nil =>
    obtain ⟨rfl, rfl⟩ : [] = kept ∧ [] = moved := by simpa [splitLoop] using split
    simp
  | cons bdo rest ih =>
    rw [splitLoop, if_neg Bool.false_ne_true] at split
    rw [bytes_cons, List.take_append, Bdo.length_block]
    split at split
    next whole =>
      obtain ⟨⟨restKept, restMoved⟩, restSplit, result⟩ := Option.bind_eq_some_iff.mp split
      obtain ⟨rfl, rfl⟩ : bdo :: restKept = kept ∧ restMoved = moved := by simpa using result
      obtain ⟨same, taken⟩ := ih (Nat.le_of_lt whole) restSplit
      have all : bdo.block.take (ulOffset - ulCurOffset) = bdo.block :=
        List.take_of_length_le (by simp; omega)
      rw [bytes_cons, taken, all, Nat.sub_sub, ← same]
      exact ⟨rfl, rfl⟩
    split at split
    next _ border =>
      rw [splitLoop_found] at split
      obtain ⟨rfl, rfl⟩ : [bdo] = kept ∧ rest = moved := by simpa using split
      have done : ulOffset - ulCurOffset - bdo.blockSize = 0 := by omega
      rw [List.take_of_length_le (by simp; omega), done]
      simp
    next _ _ => cases split

theorem splitLoop_border {ulOffset ulCurOffset : Nat} (before : ulCurOffset < ulOffset) (first second : List Bdo)
    (border : (bytes first).length = ulOffset - ulCurOffset) :
    (splitLoop ulOffset ulCurOffset false (first ++ second)).isSome := by
  induction first generalizing ulCurOffset with
  | nil =>
    simp at border
    omega
  | cons bdo rest ih =>
    simp only [bytes_cons, List.length_append, Bdo.length_block] at border
    rw [List.cons_append, splitLoop, if_neg Bool.false_ne_true]
    split
    next whole =>
      obtain ⟨⟨kept, moved⟩, found⟩ := Option.isSome_iff_exists.mp (ih whole (by omega))
      rw [found]
      rfl
    next _ =>
      rw [if_pos (by omega), splitLoop_found]
      rfl

end Bytes

namespace Pdo

def bytes (pdo : Pdo) : List UInt8 := AnscPlatform.bytes pdo.bdoQueue

theorem getPacketSize_eq (pdo : Pdo) : pdo.getPacketSize = pdo.bytes.length := by
  rw [getPacketSize, foldl_blockSize, Nat.zero_add, bytes]

theorem copyFrom_eq (pdo : Pdo) (ulCopySize ulOffset : Nat) :
    pdo.copyFrom ulCopySize ulOffset =
      if pdo.bytes.length < ulOffset then .error .badOffset
      else if ulCopySize = 0 then .error .badSize
      else
        let data := (pdo.bytes.drop ulOffset).take ulCopySize
        .ok (data.length, data) := by
  rw [copyFrom, getPacketSize_eq]
  split
  · rfl
  split
  · rfl
  next some =>
    rw [copyLoop_search ulOffset.zero_le (by omega)]
    rfl

theorem bytes_concatenate (pdo1 : Pdo) {pdo2 : Pdo} (counted : pdo2.bdoQueue.length < 65536) :
    (pdo1.concatenate pdo2).1.bytes = pdo1.bytes ++ pdo2.bytes ∧ (pdo1.concatenate pdo2).2.bytes = [] := by
  rw [concatenate, ushort, Nat.mod_eq_of_lt counted]
  split
  next empty =>
    simp [bytes, List.eq_nil_of_length_eq_zero empty]
  next _ =>
    simp [bytes]

theorem shrinkLeft_bytes (pdo : Pdo) (ulSize : Nat) :
    (pdo.shrinkLeft ulSize).1 = (if ulSize < pdo.bytes.length then .success else .unapplicable) ∧
      (pdo.shrinkLeft ulSize).2.bytes =
        if ulSize < pdo.bytes.length then pdo.bytes.take (pdo.bytes.length - ulSize) else pdo.bytes := by
  rw [shrinkLeft, getPacketSize_eq]
  by_cases inside : ulSize < pdo.bytes.length
  · rw [if_neg (by omega), if_pos inside, if_pos inside]
    exact ⟨rfl, bytes_shrinkLeftLoop (Nat.zero_le _) pdo.bdoQueue⟩
  · rw [if_pos (by omega), if_neg inside, if_neg inside]
    exact ⟨rfl, rfl⟩

theorem shrinkRight_bytes (pdo : Pdo) {ulSize : Nat} (inside : ulSize < pdo.bytes.length) :
    (pdo.shrinkRight ulSize).1 = .success ∧ (pdo.shrinkRight ulSize).2.bytes = pdo.bytes.drop ulSize :=
  shrinkRightLoop_inside ulSize.zero_le inside

/-- A size that is too large is noticed only after every buffer has been released. -/
theorem shrinkRight_releases (pdo : Pdo) {ulSize : Nat} (outside : pdo.bytes.length ≤ ulSize) :
    pdo.shrinkRight ulSize = (.badSize, { pdo with bdoQueue := [] }) := by
  rw [shrinkRight, shrinkRightLoop_outside ulSize.zero_le outside]

end Pdo

def Border (queue : List Bdo) (ulOffset : Nat) : Prop :=
  ∃ first second, queue = first ++ second ∧ (bytes first).length = ulOffset

structure Breaks (pdo : Pdo) (ulOffset : Nat) (new1 new2 : Option Nat) (result : Status × Pdo) : Prop where
  kept : result.2.bytes = pdo.bytes
  border : result.1 = .success → Border result.2.bdoQueue ulOffset
  refused : result.1 ≠ .success → result.2 = pdo
  status : new1.isSome → new2.isSome →
    result.1 = if ulOffset < pdo.bytes.length then .success else .unapplicable

section Breaking

variable {pdo : Pdo} {ulOffset : Nat} {new1 new2 : Option Nat} {place : Place}

theorem place_some (found : pdo.place ulOffset = some place) :
    place.before ++ place.bdo :: place.after = pdo.bdoQueue ∧
      (bytes place.before).length + place.blockOffset = ulOffset ∧ ulOffset < pdo.bytes.length := by
  obtain ⟨same, sizes⟩ := locate_some found
  have inside := place.inside
  have total := congrArg (fun queue => (bytes queue).length) same
  simp only [List.nil_append, bytes_append, bytes_cons, List.length_append, Bdo.length_block] at total
  refine ⟨same, by simpa using sizes, ?_⟩
  rw [Pdo.bytes, ← total]
  simp at sizes
  omega

theorem place_none (absent : pdo.place ulOffset = none) : ¬ ulOffset < pdo.bytes.length := by
  have outside := locate_none.mp absent
  rw [Pdo.bytes]
  omega

theorem Breaks.outside (absent : pdo.place ulOffset = none) :
    Breaks pdo ulOffset new1 new2 (.unapplicable, pdo) where
  kept := rfl
  border success := by cases success
  refused _ := rfl
  status _ _ := by rw [if_neg (place_none absent)]

theorem Breaks.whole (found : pdo.place ulOffset = some place) (start : place.blockOffset = 0) :
    Breaks pdo ulOffset new1 new2 (.success, pdo) := by
  obtain ⟨same, sizes, inside⟩ := place_some found
  constructor
  case kept => rfl
  case border => exact fun _ => ⟨place.before, place.bdo :: place.after, same.symm, by omega⟩
  case refused => exact fun _ => rfl
  case status => exact fun _ _ => by rw [if_pos inside]

theorem Breaks.sons (found : pdo.place ulOffset = some place) (first second owner : Nat) :
    Breaks pdo ulOffset new1 new2 (.success, { pdo with bdoQueue := place.broken first second owner }) := by
  obtain ⟨same, sizes, inside⟩ := place_some found
  constructor
  case kept => rw [Pdo.bytes, Place.bytes_broken, same, Pdo.bytes]
  case border =>
    intro _
    refine ⟨place.before ++ [place.bdo.headSon place.blockOffset (Nat.le_of_lt place.inside) first owner],
      place.bdo.tailSon place.blockOffset (Nat.le_of_lt place.inside) second owner :: place.after, ?_, ?_⟩
    · simp [Place.broken]
    · simp only [bytes_append, bytes_cons, bytes_nil, List.append_nil, List.length_append, Bdo.length_block]
      exact sizes
  case refused => exact fun failed => (failed rfl).elim
  case status => exact fun _ _ => by rw [if_pos inside]

theorem Breaks.resources (missing : ∀ first second, new1 = some first → new2 = some second → False) :
    Breaks pdo ulOffset new1 new2 (.resources, pdo) := by
  constructor
  case kept => rfl
  case border => exact fun success => by cases success
  case refused => exact fun _ => rfl
  case status =>
    intro allocated1 allocated2
    obtain ⟨first, same1⟩ := Option.isSome_iff_exists.mp allocated1
    obtain ⟨second, same2⟩ := Option.isSome_iff_exists.mp allocated2
    exact (missing first second same1 same2).elim

theorem breakAt_breaks (pdo : Pdo) (ulOffset : Nat) (new1 new2 : Option Nat) :
    Breaks pdo ulOffset new1 new2 (pdo.breakAt ulOffset new1 new2) := by
  rw [Pdo.breakAt]
  split
  next absent => exact Breaks.outside absent
  next place found =>
    split
    next start => exact Breaks.whole found start
    split
    next => exact Breaks.sons found _ _ _
    next missing => exact Breaks.resources missing

theorem breakAt2_breaks (pdo : Pdo) (ulOffset : Nat) (new1 new2 : Option Nat) :
    Breaks pdo ulOffset new1 new2 (pdo.breakAt2 ulOffset new1 new2) := by
  rw [Pdo.breakAt2]
  split
  next absent => exact Breaks.outside absent
  next place found =>
    split
    next start => exact Breaks.whole found start
    dsimp only
    split
    next => exact breakAt_breaks pdo ulOffset new1 new2
    split
    next => exact Breaks.sons found _ _ _
    next missing => exact Breaks.resources missing

end Breaking

section Splitting

variable (pdo1 pdo2 : Pdo) (ulOffset : Nat) (new1 new2 : Option Nat)

theorem splitAt_bytes :
    let result := pdo1.splitAt pdo2 ulOffset new1 new2
    (result.1 = .success → result.2.1.bytes = pdo1.bytes.take ulOffset ∧
        result.2.2.bytes = pdo2.bytes ++ pdo1.bytes.drop ulOffset) ∧
      (result.1 ≠ .success → result.2.1.bytes = pdo1.bytes ∧ result.2.2.bytes = pdo2.bytes) := by
  rw [Pdo.splitAt]
  have breaks := breakAt_breaks pdo1 ulOffset new1 new2
  split
  next outside => exact ⟨fun success => (by cases success), fun _ => ⟨rfl, rfl⟩⟩
  dsimp only
  split
  next gaveUp => exact ⟨fun success => (by cases success), fun _ => ⟨breaks.kept, rfl⟩⟩
  next kept moved split =>
    refine ⟨fun _ => ?_, fun failed => (failed rfl).elim⟩
    obtain ⟨same, taken⟩ := splitLoop_some ulOffset.zero_le split
    have total : bytes kept ++ bytes moved = pdo1.bytes := by
      rw [← bytes_append, same]
      exact breaks.kept
    have front : bytes kept = pdo1.bytes.take ulOffset := by
      rw [taken, Nat.sub_zero]
      exact congrArg (List.take ulOffset) breaks.kept
    have back : bytes moved = pdo1.bytes.drop ulOffset := by
      rw [← List.take_append_drop ulOffset pdo1.bytes, front] at total
      exact List.append_cancel_left total
    refine ⟨front, ?_⟩
    rw [← back, Pdo.bytes, Pdo.bytes, bytes_append]

theorem splitAt_success {ulOffset : Nat} (behind : 0 < ulOffset) (inside : ulOffset < pdo1.bytes.length)
    (allocated1 : new1.isSome) (allocated2 : new2.isSome) :
    (pdo1.splitAt pdo2 ulOffset new1 new2).1 = .success := by
  have breaks := breakAt_breaks pdo1 ulOffset new1 new2
  have status := breaks.status allocated1 allocated2
  rw [if_pos inside] at status
  obtain ⟨first, second, same, border⟩ := breaks.border status
  have found := splitLoop_border behind first second (by simpa using border)
  rw [← same] at found
  obtain ⟨⟨kept, moved⟩, split⟩ := Option.isSome_iff_exists.mp found
  rw [Pdo.splitAt, Pdo.getPacketSize_eq, if_neg (by omega)]
  dsimp only
  rw [split]

end Splitting

/-- A packet as a string of bytes. `AnscPdoShrinkLeft` takes the end away, `AnscPdoShrinkRight` the beginning. -/
structure ActsAsBytes (pdo pdo2 : Pdo) : Prop where
  length : pdo.getPacketSize = pdo.bytes.length
  slice (ulCopySize ulOffset : Nat) :
    pdo.copyFrom ulCopySize ulOffset =
      if pdo.bytes.length < ulOffset then .error .badOffset
      else if ulCopySize = 0 then .error .badSize
      else
        let data := (pdo.bytes.drop ulOffset).take ulCopySize
        .ok (data.length, data)
  append : pdo2.bdoQueue.length < 65536 →
    (pdo.concatenate pdo2).1.bytes = pdo.bytes ++ pdo2.bytes ∧ (pdo.concatenate pdo2).2.bytes = []
  shrinkLeft (ulSize : Nat) :
    (pdo.shrinkLeft ulSize).1 = (if ulSize < pdo.bytes.length then .success else .unapplicable) ∧
      (pdo.shrinkLeft ulSize).2.bytes =
        if ulSize < pdo.bytes.length then pdo.bytes.take (pdo.bytes.length - ulSize) else pdo.bytes
  shrinkRight (ulSize : Nat) : ulSize < pdo.bytes.length →
    (pdo.shrinkRight ulSize).1 = .success ∧ (pdo.shrinkRight ulSize).2.bytes = pdo.bytes.drop ulSize
  breakAt (ulOffset : Nat) (new1 new2 : Option Nat) :
    Breaks pdo ulOffset new1 new2 (pdo.breakAt ulOffset new1 new2)
  breakAt2 (ulOffset : Nat) (new1 new2 : Option Nat) :
    Breaks pdo ulOffset new1 new2 (pdo.breakAt2 ulOffset new1 new2)
  splitAt (ulOffset : Nat) (new1 new2 : Option Nat) :
    let result := pdo.splitAt pdo2 ulOffset new1 new2
    (0 < ulOffset → ulOffset < pdo.bytes.length → new1.isSome → new2.isSome → result.1 = .success) ∧
      (pdo.bytes.length ≤ ulOffset → result.1 = .unapplicable) ∧
      (result.1 = .success → result.2.1.bytes = pdo.bytes.take ulOffset ∧
        result.2.2.bytes = pdo2.bytes ++ pdo.bytes.drop ulOffset) ∧
      (result.1 ≠ .success → result.2.1.bytes = pdo.bytes ∧ result.2.2.bytes = pdo2.bytes)

theorem packet_acts_as_bytes (pdo pdo2 : Pdo) : ActsAsBytes pdo pdo2 where
  length := pdo.getPacketSize_eq
  slice := pdo.copyFrom_eq
  append counted := pdo.bytes_concatenate counted
  shrinkLeft := pdo.shrinkLeft_bytes
  shrinkRight _ inside := pdo.shrinkRight_bytes inside
  breakAt := breakAt_breaks pdo
  breakAt2 := breakAt2_breaks pdo
  splitAt ulOffset new1 new2 := by
    refine ⟨?_, ?_, splitAt_bytes pdo pdo2 ulOffset new1 new2⟩
    · intro behind inside allocated1 allocated2
      exact splitAt_success pdo pdo2 new1 new2 behind inside allocated1 allocated2
    · intro outside
      rw [Pdo.splitAt, pdo.getPacketSize_eq, if_pos outside]

def plainBdo (data : List UInt8) : Bdo :=
  ⟨0, true, data, 0, data.length, 0, [], none, none, by simp⟩

def plainPdo (queue : List Bdo) : Pdo := ⟨queue, 0, 0, false, false, none, none, 0, 0, none, none, none⟩

theorem shrinkLeft_keeps_the_front :
    ¬ ∀ (pdo : Pdo) (ulSize : Nat), (pdo.shrinkLeft ulSize).1 = .success →
      (pdo.shrinkLeft ulSize).2.bytes = pdo.bytes.drop ulSize := by
  intro dropsFront
  have wrong := dropsFront (plainPdo [plainBdo [1, 2, 3]]) 1 rfl
  exact absurd wrong (by decide)

end CcspCommon.AnscPlatform
