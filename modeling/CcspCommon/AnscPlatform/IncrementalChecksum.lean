import CcspCommon.AnscPlatform.Checksum

set_option autoImplicit false

namespace CcspCommon.AnscPlatform

open CcspCommon.Shared

section Model

variable (machine : Machine)

def lowWord (value : Int) : Int := value % 0x10000

def borrow (newChecksum : Int) : Int := if newChecksum ≤ 0 then lowWord (newChecksum - 1) else newChecksum

-- The condition is `newChecksum & 0x10000`.
def carry (newChecksum : Int) : Int :=
  if newChecksum / 0x10000 % 2 = 1 then lowWord (newChecksum + 1) else newChecksum

-- A loop of `AnscReplaceChecksum`. The byte left over is taken as a number, not as the first one of a word.
def wordLoop (turn : Int → Int → Int) (newChecksum : Int) : List UInt8 → Int
  | [] => newChecksum
  | [last] => turn newChecksum last.toNat
  | first :: second :: rest => wordLoop turn (turn newChecksum (word machine.littleEndian first second)) rest

def subtractLoop : Int → List UInt8 → Int :=
  wordLoop machine fun newChecksum subtracted => borrow (newChecksum - subtracted)

def addLoop : Int → List UInt8 → Int :=
  wordLoop machine fun newChecksum added => carry (newChecksum + added)

def complementWord (value : Int) : Int := lowWord (-value - 1)

def replaceChecksum (oldData newData : List UInt8) (oldChecksum : Nat) : Nat :=
  (complementWord (addLoop machine (subtractLoop machine (complementWord oldChecksum) oldData) newData)).toNat

def calculateTransportChecksum (pseudoHeader data : List UInt8) : Nat :=
  complement (fold16 (checksumLoop machine (checksumLoop machine 0 data) pseudoHeader))

end Model

section Loops

variable (machine : Machine)

def Nonzero (newChecksum : Int) : Prop := 0 < newChecksum ∧ newChecksum ≤ 65535

theorem borrow_spec {newChecksum : Int} (nonzero : Nonzero newChecksum) {subtracted : Nat}
    (few : subtracted < 65536) :
    Nonzero (borrow (newChecksum - subtracted)) ∧
      borrow (newChecksum - subtracted) % 65535 = (newChecksum + -1 * subtracted) % 65535 := by
  obtain ⟨positive, small⟩ := nonzero
  rw [borrow, lowWord, Nonzero]
  split <;> omega

theorem carry_spec {newChecksum : Int} (nonzero : Nonzero newChecksum) {added : Nat} (few : added < 65536) :
    Nonzero (carry (newChecksum + added)) ∧
      carry (newChecksum + added) % 65535 = (newChecksum + 1 * added) % 65535 := by
  obtain ⟨positive, small⟩ := nonzero
  rw [carry, lowWord, Nonzero]
  split <;> omega

theorem wordLoop_spec {turn : Int → Int → Int} {sign : Int}
    (step : ∀ {newChecksum}, Nonzero newChecksum → ∀ {value : Nat}, value < 65536 →
      Nonzero (turn newChecksum value) ∧ turn newChecksum value % 65535 = (newChecksum + sign * value) % 65535)
    {newChecksum : Int} (nonzero : Nonzero newChecksum) {data : List UInt8} (even : data.length % 2 = 0) :
    Nonzero (wordLoop machine turn newChecksum data) ∧
      wordLoop machine turn newChecksum data % 65535 =
        (newChecksum + sign * wordSum machine.littleEndian data) % 65535 := by
  fun_induction wordLoop machine turn newChecksum data with
  | case1 =>
    refine ⟨nonzero, ?_⟩
    rw [wordSum, Nat.cast_zero, Int.mul_zero, Int.add_zero]
  | case2 => cases even
  | case3 newChecksum first second rest ih =>
    have evenRest : rest.length % 2 = 0 := by
      rw [List.length_cons, List.length_cons] at even
      omega
    have here := step nonzero (word_lt machine.littleEndian first second)
    have later := ih here.1 evenRest
    refine ⟨later.1, later.2.trans ?_⟩
    rw [wordSum, Nat.cast_add, Int.mul_add, ← Int.add_assoc]
    exact Int.add_emod_eq_add_emod_right _ here.2

theorem subtractLoop_spec {newChecksum : Int} (nonzero : Nonzero newChecksum) {data : List UInt8}
    (even : data.length % 2 = 0) :
    Nonzero (subtractLoop machine newChecksum data) ∧
      subtractLoop machine newChecksum data % 65535 =
        (newChecksum + -1 * wordSum machine.littleEndian data) % 65535 :=
  @wordLoop_spec machine (fun newChecksum subtracted => borrow (newChecksum - subtracted)) (-1) borrow_spec _ nonzero _
    even

theorem addLoop_spec {newChecksum : Int} (nonzero : Nonzero newChecksum) {data : List UInt8}
    (even : data.length % 2 = 0) :
    Nonzero (addLoop machine newChecksum data) ∧
      addLoop machine newChecksum data % 65535 = (newChecksum + 1 * wordSum machine.littleEndian data) % 65535 :=
  @wordLoop_spec machine (fun newChecksum added => carry (newChecksum + added)) 1 carry_spec _ nonzero _ even

theorem subtractLoop_zero {data : List UInt8} (even : data.length % 2 = 0) (some : data ≠ [])
    (zero : wordSum machine.littleEndian data = 0) : subtractLoop machine 0 data = 65535 := by
  match data with
  | [_] => cases even
  | first :: second :: rest =>
    rw [wordSum] at zero
    have evenRest : rest.length % 2 = 0 := by
      rw [List.length_cons, List.length_cons] at even
      omega
    have none : word machine.littleEndian first second = 0 := by omega
    have turn : borrow (0 - (word machine.littleEndian first second : Nat)) = 65535 := by
      rw [none]
      rfl
    have full : Nonzero 65535 := ⟨by decide, by decide⟩
    obtain ⟨⟨positive, small⟩, residue⟩ := subtractLoop_spec machine full evenRest
    have first : subtractLoop machine 0 (first :: second :: rest) = subtractLoop machine 65535 rest :=
      congrArg (subtractLoop machine · rest) turn
    omega

end Loops

section Replacing

variable (machine : Machine)

structure Replacement (message : List UInt8) where
  offset : Nat
  newData : List UInt8
  evenOffset : offset % 2 = 0
  evenLength : newData.length % 2 = 0
  within : offset + newData.length ≤ message.length

namespace Replacement

variable {message : List UInt8} (replacement : Replacement message)

def oldData : List UInt8 := (message.drop replacement.offset).take replacement.newData.length

def newMessage : List UInt8 :=
  message.take replacement.offset ++ replacement.newData ++
    message.drop (replacement.offset + replacement.newData.length)

theorem length_oldData : replacement.oldData.length = replacement.newData.length := by
  have within := replacement.within
  rw [oldData, List.length_take, List.length_drop]
  omega

theorem evenOldLength : replacement.oldData.length % 2 = 0 := by
  rw [replacement.length_oldData]
  exact replacement.evenLength

def outside (littleEndian : Bool) : Nat :=
  wordSum littleEndian (message.take replacement.offset) +
    wordSum littleEndian (message.drop (replacement.offset + replacement.newData.length))

theorem evenFront : (message.take replacement.offset).length % 2 = 0 := by
  have within := replacement.within
  rw [List.length_take_of_le (by omega)]
  exact replacement.evenOffset

theorem wordSum_message (littleEndian : Bool) :
    wordSum littleEndian message = wordSum littleEndian replacement.oldData + replacement.outside littleEndian := by
  have behind : message.drop (replacement.offset + replacement.newData.length) =
      (message.drop replacement.offset).drop replacement.newData.length := List.drop_drop.symm
  have parts : wordSum littleEndian message = wordSum littleEndian (message.take replacement.offset ++
      (replacement.oldData ++ message.drop (replacement.offset + replacement.newData.length))) := by
    rw [behind, oldData, List.take_append_drop, List.take_append_drop]
  rw [parts, wordSum_append replacement.evenFront, wordSum_append replacement.evenOldLength, outside,
    Nat.add_left_comm]

theorem wordSum_newMessage (littleEndian : Bool) :
    wordSum littleEndian replacement.newMessage =
      wordSum littleEndian replacement.newData + replacement.outside littleEndian := by
  rw [newMessage, List.append_assoc, wordSum_append replacement.evenFront, wordSum_append replacement.evenLength,
    outside, Nat.add_left_comm]

theorem subtractLoop_oldData (some : wordSum machine.littleEndian replacement.newMessage ≠ 0) :
    Nonzero (subtractLoop machine (fold16 (wordSum machine.littleEndian message) : Nat) replacement.oldData) ∧
      subtractLoop machine (fold16 (wordSum machine.littleEndian message) : Nat) replacement.oldData % 65535 =
        replacement.outside machine.littleEndian % 65535 := by
  have spec := fold16_spec (wordSum machine.littleEndian message)
  have before := replacement.wordSum_message machine.littleEndian
  have after := replacement.wordSum_newMessage machine.littleEndian
  by_cases zero : wordSum machine.littleEndian message = 0
  next =>
    have size := replacement.length_oldData
    have nonempty : replacement.oldData ≠ [] := by
      intro empty
      rw [empty, List.length_nil] at size
      rw [List.length_eq_zero_iff.mp size.symm, wordSum] at after
      omega
    have loop := subtractLoop_zero machine replacement.evenOldLength nonempty (by omega)
    rw [spec.2.2.mpr zero, Nat.cast_zero, loop]
    exact ⟨⟨by decide, by decide⟩, by omega⟩
  next =>
    have positive : fold16 (wordSum machine.littleEndian message) ≠ 0 := fun none => zero (spec.2.2.mp none)
    have nonzero : Nonzero (fold16 (wordSum machine.littleEndian message) : Nat) := ⟨by omega, by omega⟩
    have loop := subtractLoop_spec machine nonzero replacement.evenOldLength
    exact ⟨loop.1, by omega⟩

theorem replaceChecksum_newMessage (some : ∃ byte ∈ replacement.newMessage, byte ≠ 0) :
    replaceChecksum machine replacement.oldData replacement.newData (calculateChecksum machine message) =
      calculateChecksum machine replacement.newMessage := by
  have bits : wordSum machine.littleEndian replacement.newMessage ≠ 0 := by
    intro zero
    obtain ⟨byte, inside, set⟩ := some
    exact set ((wordSum_eq_zero _).mp zero byte inside)
  have start := (fold16_spec (wordSum machine.littleEndian message)).1
  have complemented : complementWord (complement (fold16 (wordSum machine.littleEndian message)) : Nat) =
      (fold16 (wordSum machine.littleEndian message) : Nat) := by
    rw [complementWord, lowWord, complement]
    omega
  have after := replacement.wordSum_newMessage machine.littleEndian
  have subtracted := replacement.subtractLoop_oldData machine bits
  obtain ⟨⟨positive, small⟩, residue⟩ := addLoop_spec machine subtracted.1 replacement.evenLength
  rw [calculateChecksum_eq, calculateChecksum_eq, replaceChecksum, complemented]
  generalize addLoop machine _ replacement.newData = sum at positive small residue ⊢
  obtain ⟨folded, rfl⟩ := Int.eq_ofNat_of_zero_le (Int.le_of_lt positive)
  have same : fold16 (wordSum machine.littleEndian replacement.newMessage) = folded :=
    fold16_unique bits (by omega) (by omega) (by omega)
  rw [same, complementWord, lowWord, complement]
  omega

end Replacement

theorem calculateTransportChecksum_append {header : List UInt8} (even : header.length % 2 = 0) (data : List UInt8) :
    calculateTransportChecksum machine header data = calculateChecksum machine (header ++ data) := by
  have first := checksumLoop_spec machine (Nat.lt_add_right _ (Nat.two_pow_pos 31)) data
  have second := checksumLoop_spec machine (checksumLoop_lt machine (Nat.two_pow_pos 31) data) header
  rw [calculateTransportChecksum, calculateChecksum_eq, wordSum_append even]
  refine congrArg complement ((fold16_eq_iff _ _).mpr ⟨?_, ?_⟩)
  next => omega
  next => omega

theorem checksum_incremental :
    (∀ (message : List UInt8) (replacement : Replacement message), (∃ byte ∈ replacement.newMessage, byte ≠ 0) →
      replaceChecksum machine replacement.oldData replacement.newData (calculateChecksum machine message) =
        calculateChecksum machine replacement.newMessage) ∧
    ∀ header data : List UInt8, header.length % 2 = 0 →
      calculateTransportChecksum machine header data = calculateChecksum machine (header ++ data) :=
  ⟨fun _ replacement => replacement.replaceChecksum_newMessage machine,
    fun _ data even => calculateTransportChecksum_append machine even data⟩

theorem checksum_incremental_word :
    replaceChecksum ⟨.four, false, true⟩ [3, 4] [6, 7] (calculateChecksum ⟨.four, false, true⟩ [1, 2, 3, 4, 5]) =
        calculateChecksum ⟨.four, false, true⟩ [1, 2, 6, 7, 5] ∧
      calculateTransportChecksum ⟨.four, false, true⟩ [1, 2] [3] =
        calculateChecksum ⟨.four, false, true⟩ [1, 2, 3] :=
  ⟨(checksum_incremental _).1 [1, 2, 3, 4, 5] ⟨2, [6, 7], rfl, rfl, by decide⟩ ⟨1, by decide, by decide⟩,
    (checksum_incremental _).2 [1, 2] [3] rfl⟩

end Replacing

end CcspCommon.AnscPlatform
