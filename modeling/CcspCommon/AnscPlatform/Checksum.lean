import CcspCommon.AnscPlatform.AnscString
import CcspCommon.AnscPlatform.Packet
import CcspCommon.Shared.OnesComplement

set_option autoImplicit false

namespace CcspCommon.AnscPlatform

open CcspCommon.Shared

section Model

variable (machine : Machine)

def checksumLoop (checksum : Nat) : List UInt8 → Nat
  | [] => checksum
  | [last] => (checksum + word machine.littleEndian last 0) % 2 ^ machine.ulongSize.bits
  | first :: second :: rest =>
    let checksum := (checksum + word machine.littleEndian first second) % 2 ^ machine.ulongSize.bits
    checksumLoop (if checksum.testBit 31 then (checksum &&& 0xFFFF) + checksum >>> 16 else checksum) rest

def complement (checksum : Nat) : Nat := 0xFFFF - checksum % 0x10000

def calculateChecksum (data : List UInt8) : Nat := complement (fold16 (checksumLoop machine 0 data))

def getPackingNumber (data : List UInt8) : Nat := fold16 (checksumLoop machine 0 data) % 0x10000

def calChecksumLoop (ulOffset ulPacketOffset : Nat) (bFirstBdoFound : Bool) (ulLeftSize ulChecksum : Nat) :
    List Bdo → Nat
  | [] => ulChecksum
  | bdo :: rest =>
    if ulLeftSize = 0 then ulChecksum
    else if !bFirstBdoFound && ulPacketOffset + bdo.blockSize ≤ ulOffset then
      calChecksumLoop ulOffset (ulPacketOffset + bdo.blockSize) false ulLeftSize ulChecksum rest
    else
      let ulBufferOffset := if bFirstBdoFound then 0 else ulOffset - ulPacketOffset
      let ulTbcSize := bdo.blockSize - ulBufferOffset
      let ulTbcSize := if ulTbcSize ≤ ulLeftSize then ulTbcSize else ulLeftSize
      calChecksumLoop ulOffset ulPacketOffset true (ulLeftSize - ulTbcSize)
        ((ulChecksum + getPackingNumber machine ((bdo.block.drop ulBufferOffset).take ulTbcSize)) %
          2 ^ machine.ulongSize.bits) rest

/-- The end of a turn of `AnscPdoGetPackingNumber`: the byte that waits for the next buffer, the bytes left, with
that byte among them, and the packing number. -/
def packBlock (bdo : Bdo) (ulBufferOffset ulLeftSize ulPackingNumber : Nat) : Option UInt8 × Nat × Nat :=
  let ulTbcSize := bdo.blockSize - ulBufferOffset
  let ulTbcSize := if ulTbcSize ≤ ulLeftSize then ulTbcSize else ulLeftSize
  let ulLeftSize := ulLeftSize - ulTbcSize
  let bOddBytes := 0 < ulLeftSize && ulTbcSize % 2 ≠ 0
  let boundary := if bOddBytes then some (bdo.block.getD (ulBufferOffset + ulTbcSize - 1) 0) else none
  let ulTbcSize := if bOddBytes then ulTbcSize - 1 else ulTbcSize
  let ulLeftSize := if bOddBytes then ulLeftSize + 1 else ulLeftSize
  (boundary, ulLeftSize,
    if ulTbcSize = 0 then ulPackingNumber
    else (ulPackingNumber + getPackingNumber machine ((bdo.block.drop ulBufferOffset).take ulTbcSize)) %
      2 ^ machine.ulongSize.bits)

-- The loop of `AnscPdoGetPackingNumber`. `boundary` is the first byte of `usBoundaryWord` while `bOddBytes` is set.
def packingLoop (ulOffset ulPacketOffset : Nat) (bFirstBdoFound : Bool) (ulLeftSize : Nat) (boundary : Option UInt8)
    (ulPackingNumber : Nat) : List Bdo → Nat
  | [] => ulPackingNumber
  | bdo :: rest =>
    if ulLeftSize = 0 then ulPackingNumber
    else if !bFirstBdoFound && ulPacketOffset + bdo.blockSize ≤ ulOffset then
      packingLoop ulOffset (ulPacketOffset + bdo.blockSize) false ulLeftSize boundary ulPackingNumber rest
    else if bFirstBdoFound && bdo.blockSize = 0 then
      packingLoop ulOffset ulPacketOffset true ulLeftSize boundary ulPackingNumber rest
    else
      let ulBufferOffset := if bFirstBdoFound then 0 else ulOffset - ulPacketOffset
      let turn := match boundary with
        | some first => packBlock machine bdo (ulBufferOffset + 1) (ulLeftSize - 2)
            ((ulPackingNumber + word machine.littleEndian first (bdo.block.getD ulBufferOffset 0)) %
              2 ^ machine.ulongSize.bits)
        | none => packBlock machine bdo ulBufferOffset ulLeftSize ulPackingNumber
      packingLoop ulOffset ulPacketOffset true turn.2.1 turn.1 turn.2.2 rest

namespace Pdo

def calChecksum (pdo : Pdo) (ulOffset ulSize : Nat) : Nat :=
  if ulOffset > pdo.getPacketSize then 0
  else if ulSize = 0 then 0
  else complement (fold16 (calChecksumLoop machine ulOffset 0 false ulSize 0 pdo.bdoQueue))

def getPackingNumber (pdo : Pdo) (ulOffset ulSize : Nat) : Nat :=
  if ulOffset > pdo.getPacketSize then 0
  else if ulSize = 0 then 0
  else packingLoop machine ulOffset 0 false ulSize none 0 pdo.bdoQueue

end Pdo

end Model

section FlatRanges

variable (machine : Machine)

theorem bits_residue : 2 ^ machine.ulongSize.bits % 65535 = 1 := by
  cases machine.ulongSize <;> rfl

theorem bits_large : 2 ^ 32 ≤ 2 ^ machine.ulongSize.bits :=
  Nat.pow_le_pow_right (by decide) machine.ulongSize.bits_ge

/-- One turn of the loop: bit 31 is folded away, so that the sum never overflows. -/
theorem checksum_turn {checksum added : Nat} (fits : checksum + added < 2 ^ 32) :
    let sum := (checksum + added) % 2 ^ machine.ulongSize.bits
    let folded := if sum.testBit 31 then (sum &&& 0xFFFF) + sum >>> 16 else sum
    folded < 2 ^ 31 ∧ folded % 65535 = (checksum + added) % 65535 ∧ (folded = 0 ↔ checksum + added = 0) := by
  have large := bits_large machine
  intro sum folded
  have whole : sum = checksum + added := Nat.mod_eq_of_lt (by omega)
  have step := fold16_step sum
  have high : sum.testBit 31 = decide (2 ^ 31 ≤ sum) := by
    rw [Nat.testBit_eq_decide_div_mod_eq]
    congr 1
    rw [eq_iff_iff]
    omega
  have low : sum &&& 0xFFFF = sum % 2 ^ 16 := Nat.and_two_pow_sub_one_eq_mod sum 16
  have up : sum >>> 16 = sum / 2 ^ 16 := Nat.shiftRight_eq_div_pow sum 16
  by_cases top : 2 ^ 31 ≤ sum
  next =>
    have taken : folded = (sum &&& 0xFFFF) + sum >>> 16 := if_pos (high.trans (decide_eq_true top))
    rw [taken, ← whole]
    refine ⟨?_, step.1, step.2⟩
    rw [low, up]
    omega
  next =>
    have kept : folded = sum := if_neg (by rw [high, decide_eq_false top]; exact Bool.false_ne_true)
    rw [kept, whole]
    omega

theorem checksumLoop_spec {checksum : Nat} (small : checksum < 2 ^ 31 + 2 ^ 16) (data : List UInt8) :
    checksumLoop machine checksum data % 65535 = (checksum + wordSum machine.littleEndian data) % 65535 ∧
      (checksumLoop machine checksum data = 0 ↔ checksum + wordSum machine.littleEndian data = 0) := by
  have large := bits_large machine
  fun_induction checksumLoop machine checksum data with
  | case1 => simp [wordSum]
  | case2 checksum last =>
    have few := word_lt machine.littleEndian last 0
    have whole : (checksum + word machine.littleEndian last 0) % 2 ^ machine.ulongSize.bits =
        checksum + word machine.littleEndian last 0 := Nat.mod_eq_of_lt (by omega)
    rw [whole, wordSum]
    exact ⟨rfl, Iff.rfl⟩
  | case3 checksum first second rest sum ih =>
    have few := word_lt machine.littleEndian first second
    have fits : checksum + word machine.littleEndian first second < 2 ^ 32 := by omega
    have turn := checksum_turn machine fits
    have later := ih (Nat.lt_add_right _ turn.1)
    rw [wordSum, ← Nat.add_assoc]
    refine ⟨later.1.trans ?_, later.2.trans ?_⟩
    next => rw [Nat.add_mod, turn.2.1, ← Nat.add_mod]
    next =>
      exact (Nat.add_eq_zero_iff.trans (and_congr_left fun _ => turn.2.2)).trans Nat.add_eq_zero_iff.symm

theorem checksumLoop_lt {checksum : Nat} (small : checksum < 2 ^ 31) (data : List UInt8) :
    checksumLoop machine checksum data < 2 ^ 31 + 2 ^ 16 := by
  fun_induction checksumLoop machine checksum data with
  | case1 => exact Nat.lt_add_right _ small
  | case2 checksum last =>
    have few := word_lt machine.littleEndian last 0
    exact Nat.lt_of_le_of_lt (Nat.mod_le _ _) (by omega)
  | case3 checksum first second rest sum ih =>
    have few := word_lt machine.littleEndian first second
    have fits : checksum + word machine.littleEndian first second < 2 ^ 32 := by omega
    exact ih (checksum_turn machine fits).1

theorem fold16_checksumLoop (data : List UInt8) :
    fold16 (checksumLoop machine 0 data) = fold16 (wordSum machine.littleEndian data) := by
  have spec := checksumLoop_spec machine (Nat.lt_add_right _ (Nat.two_pow_pos 31)) data
  rw [Nat.zero_add] at spec
  exact (fold16_eq_iff _ _).mpr spec

theorem calculateChecksum_eq (data : List UInt8) :
    calculateChecksum machine data = complement (fold16 (wordSum machine.littleEndian data)) := by
  rw [calculateChecksum, fold16_checksumLoop]

theorem getPackingNumber_eq (data : List UInt8) :
    getPackingNumber machine data = fold16 (wordSum machine.littleEndian data) := by
  rw [getPackingNumber, fold16_checksumLoop, Nat.mod_eq_of_lt (fold16_spec _).1]

theorem complement_fold16 (first second : Nat) :
    complement (fold16 first) = complement (fold16 second) ↔ fold16 first = fold16 second := by
  have one := (fold16_spec first).1
  have two := (fold16_spec second).1
  rw [complement, complement]
  omega

end FlatRanges

section Pieces

def rangePieces (ulOffset ulSize : Nat) : List Bdo → List (List UInt8)
  | [] => []
  | bdo :: rest => (bdo.block.drop ulOffset).take ulSize ::
      rangePieces (ulOffset - bdo.blockSize) (ulSize - (bdo.blockSize - ulOffset)) rest

theorem rangePieces_flatten (ulOffset ulSize : Nat) (queue : List Bdo) :
    (rangePieces ulOffset ulSize queue).flatten = ((bytes queue).drop ulOffset).take ulSize := by
  induction queue generalizing ulOffset ulSize with
  | nil => simp [rangePieces]
  | cons bdo rest ih =>
    rw [rangePieces, List.flatten_cons, ih, bytes_cons, List.drop_append, List.take_append, List.length_drop,
      Bdo.length_block]

theorem rangePieces_zero (ulOffset : Nat) (queue : List Bdo) : ∀ piece ∈ rangePieces ulOffset 0 queue, piece = [] := by
  induction queue generalizing ulOffset with
  | nil => exact List.forall_mem_nil _
  | cons bdo rest ih =>
    rw [rangePieces, Nat.zero_sub]
    exact List.forall_mem_cons.mpr ⟨List.take_zero, ih _⟩

variable (machine : Machine)

def checksumTotal (pieces : List (List UInt8)) : Nat := (pieces.map (getPackingNumber machine)).sum

theorem getPackingNumber_nil : getPackingNumber machine [] = 0 := by
  rw [getPackingNumber_eq]
  exact (fold16_spec 0).2.2.mpr rfl

theorem checksumTotal_empty {pieces : List (List UInt8)} (empty : ∀ piece ∈ pieces, piece = []) :
    checksumTotal machine pieces = 0 := by
  induction pieces with
  | nil => rfl
  | cons piece pieces ih =>
    obtain ⟨rfl, later⟩ := List.forall_mem_cons.mp empty
    rw [checksumTotal, List.map_cons, List.sum_cons, getPackingNumber_nil, Nat.zero_add]
    exact ih later

theorem take_turn (bdo : Bdo) (ulBufferOffset ulLeftSize : Nat) :
    let ulTbcSize := if bdo.blockSize - ulBufferOffset ≤ ulLeftSize then bdo.blockSize - ulBufferOffset else ulLeftSize
    (bdo.block.drop ulBufferOffset).take ulTbcSize = (bdo.block.drop ulBufferOffset).take ulLeftSize ∧
      ulLeftSize - ulTbcSize = ulLeftSize - (bdo.blockSize - ulBufferOffset) := by
  dsimp only
  split
  next whole =>
    refine ⟨?_, rfl⟩
    rw [List.take_of_length_le (by simp), List.take_of_length_le (by simpa using whole)]
  next => exact ⟨rfl, by omega⟩

theorem rangePieces_skip {ulOffset ulSize : Nat} {bdo : Bdo} (passed : bdo.blockSize ≤ ulOffset) (rest : List Bdo) :
    rangePieces ulOffset ulSize (bdo :: rest) = [] :: rangePieces (ulOffset - bdo.blockSize) ulSize rest := by
  rw [rangePieces, List.drop_of_length_le (by simpa using passed), List.take_nil, Nat.sub_eq_zero_of_le passed,
    Nat.sub_zero]

theorem checksumTotal_cons (piece : List UInt8) (pieces : List (List UInt8)) :
    checksumTotal machine (piece :: pieces) = getPackingNumber machine piece + checksumTotal machine pieces := rfl

theorem calChecksumLoop_found (ulOffset ulPacketOffset ulLeftSize : Nat) {ulChecksum : Nat}
    (held : ulChecksum < 2 ^ machine.ulongSize.bits) (queue : List Bdo) :
    calChecksumLoop machine ulOffset ulPacketOffset true ulLeftSize ulChecksum queue =
      (ulChecksum + checksumTotal machine (rangePieces 0 ulLeftSize queue)) % 2 ^ machine.ulongSize.bits := by
  induction queue generalizing ulLeftSize ulChecksum with
  | nil => exact (Nat.mod_eq_of_lt held).symm
  | cons bdo rest ih =>
    rw [calChecksumLoop]
    by_cases done : ulLeftSize = 0
    next =>
      rw [if_pos done, done, checksumTotal_empty machine (rangePieces_zero 0 _), Nat.add_zero, Nat.mod_eq_of_lt held]
    obtain ⟨piece, left⟩ := take_turn bdo 0 ulLeftSize
    rw [if_neg done, if_neg (by simp), if_pos rfl, ih _ (Nat.mod_lt _ (Nat.two_pow_pos _)), piece, left, rangePieces,
      Nat.zero_sub, checksumTotal_cons, Nat.mod_add_mod, Nat.add_assoc]

theorem calChecksumLoop_search {ulOffset ulPacketOffset : Nat} (reached : ulPacketOffset ≤ ulOffset) {ulLeftSize : Nat}
    (some : 0 < ulLeftSize) (queue : List Bdo) :
    calChecksumLoop machine ulOffset ulPacketOffset false ulLeftSize 0 queue =
      checksumTotal machine (rangePieces (ulOffset - ulPacketOffset) ulLeftSize queue) %
        2 ^ machine.ulongSize.bits := by
  induction queue generalizing ulPacketOffset with
  | nil => exact (Nat.zero_mod _).symm
  | cons bdo rest ih =>
    rw [calChecksumLoop, if_neg (by omega)]
    by_cases passed : ulPacketOffset + bdo.blockSize ≤ ulOffset
    next =>
      rw [if_pos (by simpa using passed), ih passed, rangePieces_skip (by omega), checksumTotal_cons,
        getPackingNumber_nil, Nat.zero_add, Nat.sub_sub]
    next =>
      obtain ⟨piece, left⟩ := take_turn bdo (ulOffset - ulPacketOffset) ulLeftSize
      have behind : ulOffset - ulPacketOffset - bdo.blockSize = 0 := by omega
      rw [if_neg (by simpa using passed), if_neg Bool.false_ne_true,
        calChecksumLoop_found machine _ _ _ (Nat.mod_lt _ (Nat.two_pow_pos _)), piece, left, rangePieces, behind,
        checksumTotal_cons, Nat.mod_add_mod, Nat.zero_add]

end Pieces

section Packing

variable (machine : Machine)

def packingAddends : Option UInt8 → List (List UInt8) → List Nat
  | _, [] => []
  | boundary, piece :: rest =>
    if piece = [] then packingAddends boundary rest
    else
      let between := if boundary.isSome then piece.tail else piece
      let odd := rest.flatten ≠ [] ∧ between.length % 2 ≠ 0
      (boundary.toList.map fun first => word machine.littleEndian first (piece.headD 0)) ++
        getPackingNumber machine (if odd then between.dropLast else between) ::
          packingAddends (if odd then some (between.getLastD 0) else none) rest

theorem getPackingNumber_residue (data : List UInt8) :
    getPackingNumber machine data % 65535 = wordSum machine.littleEndian data % 65535 := by
  rw [getPackingNumber_eq]
  exact (fold16_spec _).2.1

theorem packingAddends_empty {pieces : List (List UInt8)} (empty : ∀ piece ∈ pieces, piece = [])
    (boundary : Option UInt8) : packingAddends machine boundary pieces = [] := by
  induction pieces with
  | nil => rfl
  | cons piece pieces ih =>
    obtain ⟨rfl, later⟩ := List.forall_mem_cons.mp empty
    rw [packingAddends, if_pos rfl]
    exact ih later

theorem packingAddends_between {between : List UInt8} {rest : List (List UInt8)}
    (ih : ∀ boundary : Option UInt8, (boundary.isSome = true → rest.flatten ≠ []) →
      (packingAddends machine boundary rest).sum % 65535 =
        wordSum machine.littleEndian (boundary.toList ++ rest.flatten) % 65535) :
    let odd := rest.flatten ≠ [] ∧ between.length % 2 ≠ 0
    (getPackingNumber machine (if odd then between.dropLast else between) +
      (packingAddends machine (if odd then some (between.getLastD 0) else none) rest).sum) % 65535 =
        wordSum machine.littleEndian (between ++ rest.flatten) % 65535 := by
  intro odd
  by_cases carries : odd
  next =>
    have nonempty : between ≠ [] := by
      rintro rfl
      exact carries.2 rfl
    have even : between.dropLast.length % 2 = 0 := by
      have length := carries.2
      rw [List.length_dropLast]
      omega
    have split : between ++ rest.flatten = between.dropLast ++ (between.getLastD 0 :: rest.flatten) := by
      conv_lhs => rw [← List.dropLast_append_getLast nonempty]
      rw [List.append_assoc, List.singleton_append, List.getLastD_eq_getLast?, List.getLast?_eq_some_getLast nonempty]
      rfl
    have later := ih (some (between.getLastD 0)) fun _ => carries.1
    rw [if_pos carries, if_pos carries, split, wordSum_append even, Nat.add_mod, getPackingNumber_residue, later,
      ← Nat.add_mod]
    rfl
  next =>
    have split : wordSum machine.littleEndian (between ++ rest.flatten) =
        wordSum machine.littleEndian between + wordSum machine.littleEndian rest.flatten := by
      by_cases last : rest.flatten = []
      next =>
        rw [last, List.append_nil]
        rfl
      next =>
        refine wordSum_append ?_ _
        by_contra oddLength
        exact carries ⟨last, oddLength⟩
    have later := ih none fun some => absurd some Bool.false_ne_true
    rw [if_neg carries, if_neg carries, split, Nat.add_mod, getPackingNumber_residue, later, ← Nat.add_mod]
    rfl

theorem packingAddends_sum (boundary : Option UInt8) (pieces : List (List UInt8))
    (behind : boundary.isSome = true → pieces.flatten ≠ []) :
    (packingAddends machine boundary pieces).sum % 65535 =
      wordSum machine.littleEndian (boundary.toList ++ pieces.flatten) % 65535 := by
  induction pieces generalizing boundary with
  | nil =>
    cases boundary with
    | none => rfl
    | some first => exact absurd rfl (behind rfl)
  | cons piece rest ih =>
    by_cases empty : piece = []
    next =>
      subst empty
      rw [packingAddends, if_pos rfl]
      exact ih boundary behind
    rw [packingAddends, if_neg empty, List.flatten_cons]
    cases boundary with
    | none =>
      have between := @packingAddends_between machine piece rest ih
      simpa using between
    | some first =>
      obtain ⟨second, between, rfl⟩ := List.exists_cons_of_ne_nil empty
      have later := @packingAddends_between machine between rest ih
      have front : wordSum machine.littleEndian ([first] ++ (second :: between ++ rest.flatten)) =
          word machine.littleEndian first second + wordSum machine.littleEndian (between ++ rest.flatten) := rfl
      rw [Option.toList_some, front, Nat.add_mod, ← later, ← Nat.add_mod]
      simp

theorem packBlock_eq (bdo : Bdo) (ulBufferOffset ulLeftSize : Nat) {ulPackingNumber : Nat}
    (held : ulPackingNumber < 2 ^ machine.ulongSize.bits) :
    let between := (bdo.block.drop ulBufferOffset).take ulLeftSize
    let left := ulLeftSize - (bdo.blockSize - ulBufferOffset)
    packBlock machine bdo ulBufferOffset ulLeftSize ulPackingNumber =
      if 0 < left ∧ between.length % 2 ≠ 0 then
        (some (between.getLastD 0), left + 1,
          (ulPackingNumber + getPackingNumber machine between.dropLast) % 2 ^ machine.ulongSize.bits)
      else (none, left, (ulPackingNumber + getPackingNumber machine between) % 2 ^ machine.ulongSize.bits) := by
  intro between left
  have taken := take_turn bdo ulBufferOffset ulLeftSize
  dsimp only at taken
  rw [packBlock]
  rw [taken.2]
  have size : between.length = if bdo.blockSize - ulBufferOffset ≤ ulLeftSize then bdo.blockSize - ulBufferOffset
      else ulLeftSize := by
    simp only [between, List.length_take, List.length_drop, Bdo.length_block]
    split <;> omega
  rw [← size] at taken ⊢
  have inside : between.length ≤ bdo.blockSize - ulBufferOffset := by
    rw [size]
    split <;> omega
  have added : ∀ data : List UInt8, (if data.length = 0 then ulPackingNumber
      else (ulPackingNumber + getPackingNumber machine data) % 2 ^ machine.ulongSize.bits) =
        (ulPackingNumber + getPackingNumber machine data) % 2 ^ machine.ulongSize.bits := by
    intro data
    split
    next none =>
      rw [List.eq_nil_of_length_eq_zero none, getPackingNumber_nil, Nat.add_zero, Nat.mod_eq_of_lt held]
    next => rfl
  by_cases carries : 0 < left ∧ between.length % 2 ≠ 0
  next =>
    have flag : (decide (0 < left) && decide (between.length % 2 ≠ 0)) = true := by simpa using carries
    have last : bdo.block.getD (ulBufferOffset + between.length - 1) 0 = between.getLastD 0 := by
      have place : between[between.length - 1]? = bdo.block[ulBufferOffset + between.length - 1]? := by
        have within : between.length ≤ ulLeftSize := List.length_take_le _ _
        rw [List.getElem?_take_of_lt (by omega), List.getElem?_drop, Nat.add_sub_assoc (by omega)]
      rw [List.getD_eq_getElem?_getD, List.getLastD_eq_getLast?, List.getLast?_eq_getElem?, place]
    have front : (bdo.block.drop ulBufferOffset).take (between.length - 1) = between.dropLast := by
      have within : between.length ≤ ulLeftSize := List.length_take_le _ _
      rw [List.dropLast_eq_take, List.take_take, Nat.min_eq_left (by omega)]
    have frontSize : between.length - 1 = between.dropLast.length := List.length_dropLast.symm
    rw [if_pos carries]
    simp only [left] at flag
    simp only [flag, if_true, last, front]
    rw [frontSize, added]
  next =>
    have flag : (decide (0 < left) && decide (between.length % 2 ≠ 0)) = false := by simpa using carries
    rw [if_neg carries]
    simp only [left] at flag
    simp only [flag, Bool.false_eq_true, if_false, taken.1]
    rw [added]

theorem rangePieces_nonempty {ulSize : Nat} {queue : List Bdo} (within : ulSize ≤ (bytes queue).length) :
    (rangePieces 0 ulSize queue).flatten ≠ [] ↔ 0 < ulSize := by
  rw [rangePieces_flatten, List.drop_zero, ← List.length_pos_iff, List.length_take]
  omega

theorem packingLoop_packBlock {ulOffset ulPacketOffset : Nat} {rest : List Bdo}
    (ih : ∀ (left : Nat) (boundary : Option UInt8) (ulPackingNumber : Nat),
      ulPackingNumber < 2 ^ machine.ulongSize.bits → left ≤ (bytes rest).length →
        (boundary.isSome = true → 0 < left) →
          packingLoop machine ulOffset ulPacketOffset true (left + boundary.toList.length) boundary ulPackingNumber
              rest =
            (ulPackingNumber + (packingAddends machine boundary (rangePieces 0 left rest)).sum) %
              2 ^ machine.ulongSize.bits)
    (bdo : Bdo) (ulBufferOffset ulLeftSize : Nat) {ulPackingNumber : Nat}
    (held : ulPackingNumber < 2 ^ machine.ulongSize.bits)
    (within : ulLeftSize - (bdo.blockSize - ulBufferOffset) ≤ (bytes rest).length) :
    let between := (bdo.block.drop ulBufferOffset).take ulLeftSize
    let pieces := rangePieces 0 (ulLeftSize - (bdo.blockSize - ulBufferOffset)) rest
    let odd := pieces.flatten ≠ [] ∧ between.length % 2 ≠ 0
    let turn := packBlock machine bdo ulBufferOffset ulLeftSize ulPackingNumber
    packingLoop machine ulOffset ulPacketOffset true turn.2.1 turn.1 turn.2.2 rest =
      (ulPackingNumber + (getPackingNumber machine (if odd then between.dropLast else between) ::
        packingAddends machine (if odd then some (between.getLastD 0) else none) pieces).sum) %
          2 ^ machine.ulongSize.bits := by
  intro between pieces odd turn
  have modulus := Nat.two_pow_pos machine.ulongSize.bits
  have more : pieces.flatten ≠ [] ↔ 0 < ulLeftSize - (bdo.blockSize - ulBufferOffset) := rangePieces_nonempty within
  have turnEq : turn = _ := packBlock_eq machine bdo ulBufferOffset ulLeftSize held
  rw [List.sum_cons, ← Nat.add_assoc]
  by_cases carries : odd
  next =>
    rw [if_pos ⟨more.mp carries.1, carries.2⟩] at turnEq
    rw [turnEq, if_pos carries, if_pos carries]
    exact (ih _ (some (between.getLastD 0)) _ (Nat.mod_lt _ modulus) within fun _ => more.mp carries.1).trans
      (Nat.mod_add_mod _ _ _)
  next =>
    rw [if_neg fun both => carries ⟨more.mpr both.1, both.2⟩] at turnEq
    rw [turnEq, if_neg carries, if_neg carries]
    exact (ih _ none _ (Nat.mod_lt _ modulus) within fun some => absurd some Bool.false_ne_true).trans
      (Nat.mod_add_mod _ _ _)

theorem packingLoop_found (ulOffset ulPacketOffset : Nat) {left : Nat} {boundary : Option UInt8} {ulPackingNumber : Nat}
    (held : ulPackingNumber < 2 ^ machine.ulongSize.bits) {queue : List Bdo} (within : left ≤ (bytes queue).length)
    (waits : boundary.isSome = true → 0 < left) :
    packingLoop machine ulOffset ulPacketOffset true (left + boundary.toList.length) boundary ulPackingNumber queue =
      (ulPackingNumber + (packingAddends machine boundary (rangePieces 0 left queue)).sum) %
        2 ^ machine.ulongSize.bits := by
  induction queue generalizing left boundary ulPackingNumber with
  | nil => exact (Nat.mod_eq_of_lt held).symm
  | cons bdo rest ih =>
    have modulus := Nat.two_pow_pos machine.ulongSize.bits
    rw [packingLoop]
    by_cases done : left = 0
    next =>
      subst done
      cases boundary with
      | some first => exact absurd (waits rfl) (Nat.lt_irrefl 0)
      | none =>
        rw [if_pos rfl, packingAddends_empty machine (rangePieces_zero 0 _)]
        exact (Nat.mod_eq_of_lt held).symm
    rw [if_neg (by omega), if_neg (by simp)]
    rw [bytes_cons, List.length_append, Bdo.length_block] at within
    by_cases hollow : bdo.blockSize = 0
    next =>
      have nothing : bdo.block = [] := List.eq_nil_of_length_eq_zero (by simpa using hollow)
      have pieces : rangePieces 0 left (bdo :: rest) = [] :: rangePieces 0 left rest := by
        rw [rangePieces_skip (by omega), hollow]
      rw [if_pos (by simpa using hollow), ih held (by omega) waits, pieces, packingAddends, if_pos rfl]
    have front : bdo.block.take left ≠ [] := by
      rw [← List.length_pos_iff, List.length_take, Bdo.length_block]
      omega
    rw [if_neg (by simpa using hollow), if_pos rfl, rangePieces, Nat.zero_sub, List.drop_zero, packingAddends,
      if_neg front]
    have later := fun left boundary number => @ih left boundary number
    cases boundary with
    | none =>
      have turn := packingLoop_packBlock machine later bdo 0 left held (by omega)
      simpa using turn
    | some first =>
      have turn := packingLoop_packBlock machine later bdo 1 (left - 1)
        (Nat.mod_lt (ulPackingNumber + word machine.littleEndian first (bdo.block.getD 0 0)) modulus) (by omega)
      have tail : (bdo.block.take left).tail = (bdo.block.drop 1).take (left - 1) := by
        rw [← List.drop_one, List.drop_take]
      have head : (bdo.block.take left).headD 0 = bdo.block.getD 0 0 := by
        rw [List.headD_eq_head?_getD, List.head?_eq_getElem?, List.getElem?_take_of_lt (by omega),
          List.getD_eq_getElem?_getD]
      have bytesLeft : left - 1 - (bdo.blockSize - 1) = left - (bdo.blockSize - 0) := by omega
      simp only [bytesLeft, ← tail] at turn
      simp only [Option.isSome_some, if_true, Option.toList_some, List.map_cons, List.map_nil, List.singleton_append,
        List.sum_cons, head] at turn ⊢
      refine turn.trans ?_
      simp only [Nat.mod_add_mod, Nat.add_assoc]

theorem packingLoop_search {ulOffset ulPacketOffset : Nat} (reached : ulPacketOffset ≤ ulOffset) {ulLeftSize : Nat}
    (some : 0 < ulLeftSize) {queue : List Bdo}
    (within : ulOffset - ulPacketOffset + ulLeftSize ≤ (bytes queue).length) :
    packingLoop machine ulOffset ulPacketOffset false ulLeftSize none 0 queue =
      (packingAddends machine none (rangePieces (ulOffset - ulPacketOffset) ulLeftSize queue)).sum %
        2 ^ machine.ulongSize.bits := by
  induction queue generalizing ulPacketOffset with
  | nil => exact (Nat.zero_mod _).symm
  | cons bdo rest ih =>
    rw [bytes_cons, List.length_append, Bdo.length_block] at within
    rw [packingLoop, if_neg (by omega)]
    by_cases passed : ulPacketOffset + bdo.blockSize ≤ ulOffset
    next =>
      rw [if_pos (by simpa using passed), ih passed (by omega), rangePieces_skip (by omega), packingAddends,
        if_pos rfl, Nat.sub_sub]
    next =>
      have behind : ulOffset - ulPacketOffset - bdo.blockSize = 0 := by omega
      have front : (bdo.block.drop (ulOffset - ulPacketOffset)).take ulLeftSize ≠ [] := by
        rw [← List.length_pos_iff, List.length_take, List.length_drop, Bdo.length_block]
        omega
      have later := fun left boundary number held =>
        @packingLoop_found machine ulOffset ulPacketOffset left boundary number held rest
      have turn := packingLoop_packBlock machine later bdo (ulOffset - ulPacketOffset) ulLeftSize (Nat.two_pow_pos _)
        (by omega)
      rw [if_neg (by simpa using passed), if_neg (by simp), if_neg Bool.false_ne_true, rangePieces, behind,
        packingAddends, if_neg front]
      refine turn.trans ?_
      rw [Nat.zero_add]
      rfl

end Packing

section Segmentation

variable (machine : Machine) (pdo : Pdo) (ulOffset ulSize : Nat)

def Pdo.range : List UInt8 := (pdo.bytes.drop ulOffset).take ulSize

def Pdo.pieces : List (List UInt8) := rangePieces ulOffset ulSize pdo.bdoQueue

def SegmentationIndependent : Prop :=
  pdo.calChecksum machine ulOffset ulSize = calculateChecksum machine (pdo.range ulOffset ulSize) ∧
    pdo.getPackingNumber machine ulOffset ulSize ≡ getPackingNumber machine (pdo.range ulOffset ulSize) [MOD 65535]

def overflows (total : Nat) : Nat := total / 2 ^ machine.ulongSize.bits

/-- The range is not empty, its misplaced pieces and the overflows of the sum over all pieces cancel out, without
leaving a zero, and so do the overflows of the packing number. -/
structure SegmentationHarmless : Prop where
  nonempty : 0 < ulSize
  aligned : 65535 ∣ 255 * misplaced machine.littleEndian 0 (pdo.pieces ulOffset ulSize) +
    overflows machine (checksumTotal machine (pdo.pieces ulOffset ulSize))
  visible : 2 ^ machine.ulongSize.bits ∣ checksumTotal machine (pdo.pieces ulOffset ulSize) →
    checksumTotal machine (pdo.pieces ulOffset ulSize) = 0
  carried : 65535 ∣ overflows machine (packingAddends machine none (pdo.pieces ulOffset ulSize)).sum

theorem overflow_residue (total : Nat) :
    (total % 2 ^ machine.ulongSize.bits + overflows machine total) % 65535 = total % 65535 := by
  have split := Nat.div_add_mod total (2 ^ machine.ulongSize.bits)
  have one := bits_residue machine
  rw [overflows]
  conv_rhs => rw [← split]
  rw [Nat.add_mod, Nat.add_comm (2 ^ _ * _), Nat.add_mod (total % _) (2 ^ _ * _), Nat.mul_mod, one, Nat.one_mul,
    Nat.mod_mod]

theorem checksumTotal_residue (pieces : List (List UInt8)) :
    checksumTotal machine pieces % 65535 = (pieces.map (wordSum machine.littleEndian)).sum % 65535 := by
  induction pieces with
  | nil => rfl
  | cons piece pieces ih =>
    rw [checksumTotal_cons, List.map_cons, List.sum_cons, Nat.add_mod, getPackingNumber_residue, ih, ← Nat.add_mod]

theorem wordSum_checksumTotal (pieces : List (List UInt8)) : wordSum machine.littleEndian pieces.flatten % 65535 =
    (checksumTotal machine pieces + 255 * misplaced machine.littleEndian 0 pieces) % 65535 := by
  have digits := wordSum_pieces machine.littleEndian 0 pieces
  rw [pow_zero, one_mul] at digits
  have residue := (ZMod.natCast_eq_natCast_iff' (wordSum machine.littleEndian pieces.flatten)
    ((pieces.map (wordSum machine.littleEndian)).sum + 255 * misplaced machine.littleEndian 0 pieces) 65535).mp
      (by rw [digits]; push_cast; rfl)
  rw [residue, Nat.add_mod, ← checksumTotal_residue, ← Nat.add_mod]

theorem checksumTotal_eq_zero (pieces : List (List UInt8)) :
    checksumTotal machine pieces = 0 ↔ wordSum machine.littleEndian pieces.flatten = 0 := by
  rw [wordSum_eq_zero]
  induction pieces with
  | nil => simp [checksumTotal]
  | cons piece pieces ih =>
    rw [checksumTotal_cons, Nat.add_eq_zero_iff, ih, getPackingNumber_eq, (fold16_spec _).2.2, wordSum_eq_zero,
      List.flatten_cons, List.forall_mem_append]

theorem calChecksum_iff (within : ulOffset + ulSize ≤ pdo.bytes.length) :
    pdo.calChecksum machine ulOffset ulSize = calculateChecksum machine (pdo.range ulOffset ulSize) ↔
      0 < ulSize ∧ 65535 ∣ 255 * misplaced machine.littleEndian 0 (pdo.pieces ulOffset ulSize) +
        overflows machine (checksumTotal machine (pdo.pieces ulOffset ulSize)) ∧
      (2 ^ machine.ulongSize.bits ∣ checksumTotal machine (pdo.pieces ulOffset ulSize) →
        checksumTotal machine (pdo.pieces ulOffset ulSize) = 0) := by
  rw [Pdo.calChecksum, Pdo.getPacketSize_eq, if_neg (by omega), calculateChecksum_eq]
  by_cases none : ulSize = 0
  next =>
    -- nothing to sum: the packet answers 0, and the flat range the complement of 0
    subst none
    rw [if_pos rfl, Pdo.range, List.take_zero]
    refine iff_of_false ?_ fun both => Nat.lt_irrefl 0 both.1
    rw [wordSum, (fold16_spec 0).2.2.mpr rfl]
    decide
  have sum := calChecksumLoop_search machine (Nat.zero_le ulOffset) (Nat.pos_of_ne_zero none) pdo.bdoQueue
  rw [Nat.sub_zero, ← Pdo.pieces] at sum
  have flat : (pdo.pieces ulOffset ulSize).flatten = pdo.range ulOffset ulSize := rangePieces_flatten _ _ _
  have total := wordSum_checksumTotal machine (pdo.pieces ulOffset ulSize)
  have zero := checksumTotal_eq_zero machine (pdo.pieces ulOffset ulSize)
  have overflow := overflow_residue machine (checksumTotal machine (pdo.pieces ulOffset ulSize))
  rw [flat] at total zero
  rw [if_neg none, complement_fold16, sum, fold16_eq_iff, and_iff_right (Nat.pos_of_ne_zero none), total, ← zero]
  refine and_congr ?_ ?_
  next => omega
  next =>
    rw [Nat.dvd_iff_mod_eq_zero]
    constructor
    next => exact fun same => same.mp
    next =>
      intro visible
      refine ⟨visible, fun nothing => ?_⟩
      rw [nothing, Nat.zero_mod]

theorem getPackingNumber_iff (within : ulOffset + ulSize ≤ pdo.bytes.length) :
    pdo.getPackingNumber machine ulOffset ulSize ≡ getPackingNumber machine (pdo.range ulOffset ulSize) [MOD 65535] ↔
      65535 ∣ overflows machine (packingAddends machine none (pdo.pieces ulOffset ulSize)).sum := by
  rw [Nat.ModEq, getPackingNumber_residue, Pdo.getPackingNumber, Pdo.getPacketSize_eq, if_neg (by omega)]
  have flat : (pdo.pieces ulOffset ulSize).flatten = pdo.range ulOffset ulSize := rangePieces_flatten _ _ _
  have total := packingAddends_sum machine none (pdo.pieces ulOffset ulSize) fun some => absurd some Bool.false_ne_true
  rw [Option.toList_none, List.nil_append, flat] at total
  have overflow := overflow_residue machine (packingAddends machine none (pdo.pieces ulOffset ulSize)).sum
  by_cases none : ulSize = 0
  next =>
    subst none
    rw [if_pos rfl, Pdo.pieces, packingAddends_empty machine (rangePieces_zero _ _), Pdo.range, List.take_zero]
    refine iff_of_true rfl ?_
    rw [List.sum_nil, overflows, Nat.zero_div]
    exact Nat.dvd_zero _
  have bound : ulOffset - 0 + ulSize ≤ (bytes pdo.bdoQueue).length := within
  have sum := packingLoop_search machine (Nat.zero_le ulOffset) (Nat.pos_of_ne_zero none) bound
  rw [Nat.sub_zero, ← Pdo.pieces] at sum
  rw [if_neg none, sum, ← total]
  omega

theorem checksum_segmentation (within : ulOffset + ulSize ≤ pdo.bytes.length) :
    SegmentationIndependent machine pdo ulOffset ulSize ↔ SegmentationHarmless machine pdo ulOffset ulSize := by
  rw [SegmentationIndependent, calChecksum_iff machine pdo ulOffset ulSize within,
    getPackingNumber_iff machine pdo ulOffset ulSize within]
  constructor
  next => exact fun ⟨⟨nonempty, aligned, visible⟩, carried⟩ => ⟨nonempty, aligned, visible, carried⟩
  next => exact fun harmless => ⟨⟨harmless.nonempty, harmless.aligned, harmless.visible⟩, harmless.carried⟩

theorem getPackingNumber_le (data : List UInt8) : getPackingNumber machine data ≤ 65535 := by
  rw [getPackingNumber_eq]
  exact Nat.le_of_lt_succ (fold16_spec _).1

theorem checksumTotal_le (pieces : List (List UInt8)) : checksumTotal machine pieces ≤ 131070 * pieces.length := by
  induction pieces with
  | nil => exact Nat.le_refl 0
  | cons piece pieces ih =>
    have few := getPackingNumber_le machine piece
    rw [checksumTotal_cons, List.length_cons]
    omega

theorem packingAddends_le (boundary : Option UInt8) (pieces : List (List UInt8)) :
    (packingAddends machine boundary pieces).sum ≤ 131070 * pieces.length := by
  induction pieces generalizing boundary with
  | nil => exact Nat.le_refl 0
  | cons piece rest ih =>
    rw [packingAddends, List.length_cons]
    split
    next =>
      have later := ih boundary
      omega
    next =>
      rw [List.sum_append, List.sum_cons]
      have boundaryWord :
          (boundary.toList.map fun first => word machine.littleEndian first (piece.headD 0)).sum ≤ 65535 := by
        cases boundary with
        | none => exact Nat.zero_le _
        | some first =>
          have few := word_lt machine.littleEndian first (piece.headD 0)
          rw [Option.toList_some, List.map_singleton, List.sum_singleton]
          omega
      refine Nat.le_trans (Nat.add_le_add boundaryWord (Nat.add_le_add (getPackingNumber_le machine _) (ih _))) ?_
      omega

theorem length_rangePieces (queue : List Bdo) : (rangePieces ulOffset ulSize queue).length = queue.length := by
  induction queue generalizing ulOffset ulSize with
  | nil => rfl
  | cons bdo rest ih => rw [rangePieces, List.length_cons, List.length_cons, ih]

theorem segmentationHarmless_iff (few : pdo.bdoQueue.length ≤ 32768) :
    SegmentationHarmless machine pdo ulOffset ulSize ↔
      0 < ulSize ∧ 257 ∣ misplaced machine.littleEndian 0 (pdo.pieces ulOffset ulSize) := by
  have large := bits_large machine
  have count : (pdo.pieces ulOffset ulSize).length = pdo.bdoQueue.length := length_rangePieces _ _ _
  have sum := checksumTotal_le machine (pdo.pieces ulOffset ulSize)
  have packed := packingAddends_le machine none (pdo.pieces ulOffset ulSize)
  have held : checksumTotal machine (pdo.pieces ulOffset ulSize) < 2 ^ machine.ulongSize.bits := by omega
  have fits : overflows machine (checksumTotal machine (pdo.pieces ulOffset ulSize)) = 0 := Nat.div_eq_of_lt held
  have fitsToo : overflows machine (packingAddends machine none (pdo.pieces ulOffset ulSize)).sum = 0 :=
    Nat.div_eq_of_lt (by omega)
  constructor
  next =>
    intro harmless
    have aligned := harmless.aligned
    rw [fits, Nat.add_zero] at aligned
    exact ⟨harmless.nonempty, by omega⟩
  next =>
    rintro ⟨nonempty, aligned⟩
    refine ⟨nonempty, ?_, fun divides => Nat.eq_zero_of_dvd_of_lt divides held, ?_⟩
    next =>
      rw [fits]
      omega
    next => rw [fitsToo]; exact Nat.dvd_zero _

def pdoOf (data : List (List UInt8)) : Pdo := plainPdo (data.map plainBdo)

theorem checksum_segmentation_even : SegmentationIndependent ⟨.four, false, true⟩ (pdoOf [[1, 2], [3]]) 0 3 :=
  (checksum_segmentation _ _ 0 3 (by decide)).mpr ((segmentationHarmless_iff _ _ 0 3 (by decide)).mpr (by decide))

theorem checksum_segmentation_odd : ¬ ∀ (machine : Machine) (pdo : Pdo) (ulOffset ulSize : Nat),
    ulOffset + ulSize ≤ pdo.bytes.length → SegmentationIndependent machine pdo ulOffset ulSize := by
  intro every
  have independent := every ⟨.four, false, true⟩ (pdoOf [[1], [2]]) 0 2 (by decide)
  have harmless := (calChecksum_iff _ _ 0 2 (by decide)).mp independent.1
  have counted := (getPackingNumber_iff _ _ 0 2 (by decide)).mp independent.2
  have aligned := (segmentationHarmless_iff _ _ 0 2 (by decide)).mp ⟨harmless.1, harmless.2.1, harmless.2.2, counted⟩
  exact absurd aligned (by decide)

end Segmentation

end CcspCommon.AnscPlatform
