import CcspCommon.AnscPlatform.NetworkOrder
import CcspCommon.Shared.Framing

set_option autoImplicit false

namespace CcspCommon.AnscLpcConnector

open CcspCommon.AnscAsn1 (ulongSize ulongSub ulongSub_eq memoryOfUlong networkMemory)
open CcspCommon.AnscPlatform
open CcspCommon.Shared (Framing)

section Messages

def objectNameSize : Nat := 48

/-- The messages of the protocol with what their senders put into them. The words that are only reserved are sent
as zero. -/
inductive ImcpMessage
  | hello (partyAddr partyPort : Nat) (partyName : List UInt8)
  | ack (partyName : List UInt8)
  | request (seqNumber reqType : Nat) (reqData : List UInt8)
  | reply (seqNumber reqType repCode : Nat) (repData : List UInt8)
  | bye (partyName : List UInt8)
deriving DecidableEq, Repr

namespace ImcpMessage

def msgType : ImcpMessage → Nat
  | hello .. => 1
  | ack .. => 2
  | request .. => 3
  | reply .. => 4
  | bye .. => 5

variable (machine : Machine)

def msgData : ImcpMessage → List UInt8
  | hello partyAddr partyPort partyName =>
    memoryOfUlong machine partyAddr ++ (networkUshort machine partyPort ++ partyName)
  | ack partyName => networkMemory machine 0 ++ partyName
  | request seqNumber reqType reqData =>
    networkMemory machine seqNumber ++ (networkMemory machine reqType ++
      (networkMemory machine reqData.length ++ reqData))
  | reply seqNumber reqType repCode repData =>
    networkMemory machine seqNumber ++ (networkMemory machine reqType ++ (networkMemory machine repCode ++
      (networkMemory machine repData.length ++ repData)))
  | bye partyName => networkMemory machine 0 ++ partyName

def encode (message : ImcpMessage) : List UInt8 :=
  networkMemory machine message.msgType ++
    (networkMemory machine (message.msgData machine).length ++ message.msgData machine)

def Fits : ImcpMessage → Prop
  | hello partyAddr partyPort partyName =>
    partyAddr < 256 ^ ulongSize machine ∧ partyPort < 2 ^ 16 ∧ partyName.length ≤ objectNameSize ∧ 0 ∉ partyName
  | ack partyName | bye partyName => partyName.length ≤ objectNameSize ∧ 0 ∉ partyName
  | request seqNumber reqType reqData =>
    seqNumber < 2 ^ 32 ∧ reqType < 2 ^ 32 ∧ reqData.length + 5 * ulongSize machine < 2 ^ 31
  | reply seqNumber reqType repCode repData =>
    seqNumber < 2 ^ 32 ∧ reqType < 2 ^ 32 ∧ repCode < 2 ^ 32 ∧ repData.length + 6 * ulongSize machine < 2 ^ 31

instance (message : ImcpMessage) : Decidable (message.Fits machine) := by
  cases message <;> unfold Fits <;> infer_instance

end ImcpMessage

variable (machine : Machine)

def headerSize : Nat := 2 * ulongSize machine

def getMsgType (imcpHeader : List UInt8) : Nat := ulongFromNToH machine imcpHeader

def getMsgLength (imcpHeader : List UInt8) : Nat := ulongFromNToH machine (imcpHeader.drop (ulongSize machine))

def getMsgData (imcpHeader : List UInt8) : List UInt8 := imcpHeader.drop (headerSize machine)

def getMsgSize (imcpHeader : List UInt8) : Nat :=
  (headerSize machine + getMsgLength machine imcpHeader) % 2 ^ (8 * ulongSize machine)

def partyName (ulPartyNameSize : Nat) (name : List UInt8) : List UInt8 :=
  (name.take (min ulPartyNameSize objectNameSize)).takeWhile (· ≠ 0)

/-- What `RecvHello`, `RecvAck`, `RecvRequest`, `RecvReply` and `RecvBye` read from the block of a descriptor;
`Recv` throws any other message away. -/
def recv (block : List UInt8) : Option ImcpMessage :=
  let word := ulongSize machine
  let data := getMsgData machine block
  let length := getMsgLength machine block
  match getMsgType machine block with
  | 1 => some (.hello (readUlong machine data) (ushortFromNToH machine (data.drop word))
      (partyName (ulongSub word length (word + 2)) (data.drop (word + 2))))
  | 2 => some (.ack (partyName (ulongSub word length word) (data.drop word)))
  | 3 => some (.request (ulongFromNToH machine data) (ulongFromNToH machine (data.drop word))
      ((data.drop (3 * word)).take (ulongFromNToH machine (data.drop (2 * word)))))
  -- The block that is left is the output of the call, whatever the size in the message says.
  | 4 => some (.reply (ulongFromNToH machine data) (ulongFromNToH machine (data.drop word))
      (ulongFromNToH machine (data.drop (2 * word))) (data.drop (4 * word)))
  | 5 => some (.bye (partyName (ulongSub word length word) (data.drop word)))
  | _ => none

end Messages

section RoundTrip

variable {machine : Machine} {message : ImcpMessage}

theorem msgType_small (message : ImcpMessage) : message.msgType < 2 ^ 32 := by
  cases message <;> simp [ImcpMessage.msgType]

theorem word_size (machine : Machine) : 4 ≤ ulongSize machine ∧ ulongSize machine ≤ 8 := by
  obtain ⟨-, size⟩ | ⟨-, size⟩ := CcspCommon.AnscAsn1.ulongSize_cases machine <;> simp [size]

theorem msgData_size (fits : message.Fits machine) :
    0 < (message.msgData machine).length ∧ headerSize machine + (message.msgData machine).length < 2 ^ 31 := by
  have word := word_size machine
  cases message <;> simp [ImcpMessage.msgData, ImcpMessage.Fits, objectNameSize, headerSize] at fits ⊢ <;> omega

@[simp] theorem length_encode (message : ImcpMessage) :
    (message.encode machine).length = headerSize machine + (message.msgData machine).length := by
  simp only [ImcpMessage.encode, List.length_append, length_networkMemory, headerSize]
  omega

theorem getMsgType_encode (message : ImcpMessage) (behind : List UInt8) :
    getMsgType machine (message.encode machine ++ behind) = message.msgType := by
  simp only [getMsgType, ImcpMessage.encode, List.append_assoc]
  exact ulongFromNToH_network (msgType_small message) _

theorem getMsgLength_encode (fits : message.Fits machine) (behind : List UInt8) :
    getMsgLength machine (message.encode machine ++ behind) = (message.msgData machine).length := by
  simp only [getMsgLength, ImcpMessage.encode, List.append_assoc]
  rw [List.drop_left' (length_networkMemory ..)]
  exact ulongFromNToH_network (by have := msgData_size fits; omega) _

theorem getMsgData_encode (message : ImcpMessage) :
    getMsgData machine (message.encode machine) = message.msgData machine := by
  simp only [getMsgData, ImcpMessage.encode, ← List.append_assoc]
  apply List.drop_left'
  simp only [List.length_append, length_networkMemory, headerSize]
  omega

theorem partyName_whole {name : List UInt8} (short : name.length ≤ objectNameSize) (ends : 0 ∉ name) :
    partyName name.length name = name := by
  have whole : name.take (min name.length objectNameSize) = name := List.take_of_length_le (by omega)
  simp only [partyName, whole]
  exact List.takeWhile_eq_self_iff.mpr fun octet member => decide_eq_true fun zero => ends (zero ▸ member)

@[simp] theorem drop_word (value : Nat) (rest : List UInt8) :
    (networkMemory machine value ++ rest).drop (ulongSize machine) = rest :=
  List.drop_left' (length_networkMemory ..)

@[simp] theorem drop_words (value count : Nat) (rest : List UInt8) :
    (networkMemory machine value ++ rest).drop (ulongSize machine + count) = rest.drop count := by
  rw [← length_networkMemory machine value, List.drop_length_add_append]

theorem words (machine : Machine) :
    2 * ulongSize machine = ulongSize machine + ulongSize machine ∧
      3 * ulongSize machine = ulongSize machine + (ulongSize machine + ulongSize machine) ∧
      4 * ulongSize machine = ulongSize machine + (ulongSize machine + (ulongSize machine + ulongSize machine)) := by
  omega

theorem recv_encode (fits : message.Fits machine) : recv machine (message.encode machine) = some message := by
  have kind : getMsgType machine (message.encode machine ++ []) = message.msgType := getMsgType_encode message []
  have length := getMsgLength_encode fits []
  obtain ⟨two, three, four⟩ := words machine
  rw [List.append_nil] at kind length
  simp only [recv, kind, length, getMsgData_encode]
  cases message with
  | hello partyAddr partyPort partyName =>
    obtain ⟨addr, port, short, ends⟩ := fits
    have first (rest : List UInt8) :
        (memoryOfUlong machine partyAddr ++ rest).drop (ulongSize machine) = rest :=
      List.drop_left' (length_memoryOfUlong ..)
    have both : (memoryOfUlong machine partyAddr ++ (networkUshort machine partyPort ++ partyName)).drop
        (ulongSize machine + 2) = partyName := by
      rw [← List.drop_drop, first]
      exact List.drop_left' (length_networkUshort ..)
    simp only [ImcpMessage.msgType, ImcpMessage.msgData, readUlong_memory addr, first,
      ushortFromNToH_network port, both]
    simp [ulongSub_eq, ← Nat.add_assoc, partyName_whole short ends]
  | ack partyName | bye partyName =>
    obtain ⟨short, ends⟩ := fits
    simp [ImcpMessage.msgType, ImcpMessage.msgData, ulongSub_eq, partyName_whole short ends]
  | request seqNumber reqType reqData =>
    obtain ⟨seq, kind, size⟩ := fits
    have data : reqData.length < 2 ^ 32 := by omega
    simp [ImcpMessage.msgType, ImcpMessage.msgData, two, three, ulongFromNToH_network seq,
      ulongFromNToH_network kind, ulongFromNToH_network data]
  | reply seqNumber reqType repCode repData =>
    obtain ⟨seq, kind, code, size⟩ := fits
    simp [ImcpMessage.msgType, ImcpMessage.msgData, two, four, ulongFromNToH_network seq,
      ulongFromNToH_network kind, ulongFromNToH_network code]

def imcpFraming (machine : Machine) : Framing UInt8 where
  header := headerSize machine
  size := getMsgSize machine
  size_front front behind enough := by
    have skipped : (front ++ behind).drop (ulongSize machine) = front.drop (ulongSize machine) ++ behind :=
      List.drop_append_of_le_length (by simp only [headerSize] at enough; omega)
    simp only [getMsgSize, getMsgLength, skipped]
    rw [ulongFromNToH_front (by simp only [headerSize] at enough; simp; omega)]

theorem encode_isFrame (fits : message.Fits machine) : (imcpFraming machine).IsFrame (message.encode machine) := by
  have size := msgData_size fits
  have length := getMsgLength_encode fits []
  have bound : 2 ^ 32 ≤ 2 ^ (8 * ulongSize machine) :=
    Nat.pow_le_pow_right (by decide) (by have := word_size machine; omega)
  rw [List.append_nil] at length
  constructor
  next => simpa [imcpFraming] using size.1
  next =>
    simp only [imcpFraming, getMsgSize, length, length_encode]
    exact Nat.mod_eq_of_lt (by omega)

end RoundTrip

end CcspCommon.AnscLpcConnector
