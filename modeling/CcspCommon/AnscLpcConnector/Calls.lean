import CcspCommon.AnscLpcConnector.Imcp
import CcspCommon.HttpSmpo.HeaderXInfo
import CcspCommon.Shared.Run
import Mathlib.Data.Multiset.Filter

set_option autoImplicit false

namespace CcspCommon.AnscLpcConnector

open CcspCommon.AnscAsn1 (ulongSize memoryOfUlong)
open CcspCommon.AnscPlatform
open CcspCommon.HttpSmpo (hashString toLower ascii)

section Parties

inductive LpcError
  | noError | badPartyName | managerUnavailable | partyDisconnected | requestTimeout | resources | invalidReqType
  | invalidReqData | invalidReply | networkFailure | connectorReset | internalError
deriving DecidableEq, Repr

def LpcError.code : LpcError → Nat
  | noError => 0
  | badPartyName => 1
  | managerUnavailable => 2
  | partyDisconnected => 3
  | requestTimeout => 4
  | resources => 5
  | invalidReqType => 6
  | invalidReqData => 7
  | invalidReply => 8
  | networkFailure => 9
  | connectorReset => 10
  | internalError => 11

def queryParty : Nat := 1

def lpcCall : Nat := 2

def replyType : Nat := 4

def ackType : Nat := 2

abbrev Peer := Nat

structure PartyAddr where
  partyName : List UInt8
  partyAddr : Nat
  partyPort : Nat
  partySocket : Option Peer
deriving DecidableEq, Repr

inductive LpcOpmode
  | client | server
deriving DecidableEq, Repr

structure Identity where
  partyName : List UInt8
  myAddress : Nat
  myPort : Nat
  managerAddress : Nat
  managerPort : Nat
  lpcOpmode : LpcOpmode

/-- The connectors on one machine, and which of them accepts connections at an address and a port. -/
structure Network where
  machine : Machine
  identity : Peer → Identity
  listener : Nat → Nat → Option Peer

def sameName (first second : List UInt8) : Bool := decide (first.map toLower = second.map toLower)

def managerPartyName : List UInt8 := ascii "lpcManager"

def partyTableSize : Nat := 16

end Parties

section Connectors

structure PendingCall where
  partyName : List UInt8
  imcpMsgType : Nat
  callSeqNumber : Nat
  callError : Nat
  callEvent : Bool
  callOutputBdo : Option (List UInt8)
deriving DecidableEq, Repr

/-- Where a thread is in `AnscLpccoTcpImcCallRequest`: in front of `AcqAccess`; waiting for the reply of the
manager; in front of the test of `PartySocket`; waiting for the ACK; behind `RelAccess`; waiting for the
reply; about to take its call back; behind the end, with the output or the error code. Behind the end the
pending call is freed. -/
inductive Phase
  | entering | resolving | linking | connecting (socket : Peer) | ready | calling | expired
  | returned (result : Except Nat (List UInt8))
deriving DecidableEq, Repr

def Phase.waits : Phase → Bool
  | .resolving | .connecting _ | .calling => true
  | _ => false

structure Call where
  partyName : List UInt8
  pInputBuffer : List UInt8
  pPartyAddr : Option Nat
  ulCallSeqNum : Nat
  phase : Phase
  pendingCall : PendingCall
deriving DecidableEq, Repr

inductive Write
  | error | output | event
deriving DecidableEq, Repr

structure Popped where
  call : Nat
  callError : Nat
  outputBdo : List UInt8
  write : Write
deriving DecidableEq, Repr

def Popped.writeTo (entry : Popped) (pendingCall : PendingCall) : PendingCall :=
  match entry.write with
  | .error => { pendingCall with callError := entry.callError }
  | .output => { pendingCall with callOutputBdo := some entry.outputBdo }
  | .event => { pendingCall with callEvent := true }

def Popped.left (entry : Popped) : List Popped :=
  match entry.write with
  | .error => [{ entry with write := .output }]
  | .output => [{ entry with write := .event }]
  | .event => []

@[simp] theorem Popped.writeTo_imcpMsgType (entry : Popped) (pendingCall : PendingCall) :
    (entry.writeTo pendingCall).imcpMsgType = pendingCall.imcpMsgType := by
  unfold writeTo
  split <;> rfl

@[simp] theorem Popped.writeTo_callSeqNumber (entry : Popped) (pendingCall : PendingCall) :
    (entry.writeTo pendingCall).callSeqNumber = pendingCall.callSeqNumber := by
  unfold writeTo
  split <;> rfl

structure Connector where
  seqNumber : Nat
  partyAddrs : List PartyAddr
  -- The entries of the table, in the order in which they were pushed.
  partyTable : List Nat
  calls : List Call
  pcallQueue : List Nat
  accessLock : Option Nat
  popped : List Popped
deriving DecidableEq, Repr

namespace Connector

variable (machine : Machine) (connector : Connector)

def getPartyAddr (partyName : List UInt8) : Option Nat :=
  connector.partyTable.find? fun entry =>
    (connector.partyAddrs[entry]?).any fun party =>
      hashString machine party.partyName partyTableSize == hashString machine partyName partyTableSize &&
        sameName party.partyName partyName

-- A new `ANSC_LPC_PARTY_ADDR` and `AnscLpccoAddPartyAddr`, which leaves the table as it is on a collision.
def addPartyAddr (party : PartyAddr) : Connector :=
  { connector with
    partyAddrs := connector.partyAddrs ++ [party]
    partyTable :=
      if (connector.getPartyAddr machine party.partyName).isNone then
        connector.partyTable ++ [connector.partyAddrs.length]
      else connector.partyTable }

def setCall (call : Nat) (value : Call) : Connector := { connector with calls := connector.calls.set call value }

def release : Connector := { connector with accessLock := none }

-- The search of `AnscLpccoPopPendingCall`. There is no result where it reads a call that is freed.
def findPending (partyName : Option (List UInt8)) (msgType seqNumber : Nat) : List Nat → Option (Option Nat)
  | [] => some none
  | entry :: rest => do
    let call ← connector.calls[entry]?
    match call.phase with
    | .returned _ => none
    | _ =>
      if call.pendingCall.imcpMsgType = msgType ∧ call.pendingCall.callSeqNumber = seqNumber ∧
          (partyName.all fun name => sameName name call.pendingCall.partyName) then some (some entry)
      else findPending partyName msgType seqNumber rest

def addPendingCall (call : Nat) : Connector := { connector with pcallQueue := connector.pcallQueue ++ [call] }

def popPendingCall (partyName : Option (List UInt8)) (msgType seqNumber callError : Nat) (outputBdo : List UInt8) :
    Option Connector := do
  match ← connector.findPending partyName msgType seqNumber connector.pcallQueue with
  | none => some connector
  | some entry =>
    some { connector with
      pcallQueue := connector.pcallQueue.erase entry
      popped := connector.popped ++ [⟨entry, callError, outputBdo, .error⟩] }

end Connector

end Connectors

section Systems

structure Packet where
  source : Peer
  target : Peer
  message : ImcpMessage
deriving DecidableEq, Repr

structure Serving where
  callee : Peer
  client : Peer
  seqNumber : Nat
  reqType : Nat
  reqData : List UInt8
deriving DecidableEq, Repr

structure Answer extends Serving where
  repCode : Nat
  repData : List UInt8
deriving DecidableEq, Repr

/-- All connectors with the messages between them, which may arrive in any order. The answers are not kept by the
code: they are the history of what was dispatched. -/
structure System where
  connectors : Peer → Connector
  wire : Multiset Packet
  serving : Multiset Serving
  answers : List Answer

namespace System

variable (network : Network) (system : System)

def setConnector (peer : Peer) (connector : Connector) : System :=
  { system with connectors := Function.update system.connectors peer connector }

def send (packet : Packet) : System := { system with wire := packet ::ₘ system.wire }

-- A `ULONG` travels with its lowest four octets.
def travels (value : Nat) : Nat := value % 2 ^ 32

def enter (peer : Peer) (partyName : List UInt8) (pPartyAddr : Option Nat) (pInputBuffer : List UInt8) : System :=
  let connector := system.connectors peer
  let call : Call := {
    partyName := partyName
    pInputBuffer := pInputBuffer
    pPartyAddr := pPartyAddr
    ulCallSeqNum := 0
    phase := .entering
    pendingCall := ⟨partyName, replyType, 0, LpcError.noError.code, false, none⟩ }
  system.setConnector peer { connector with calls := connector.calls ++ [call] }

def enter2 (peer : Peer) (party : Nat) (pInputBuffer : List UInt8) : Option System := do
  let entry ← (system.connectors peer).partyAddrs[party]?
  some (system.enter peer entry.partyName (some party) pInputBuffer)

def awaiting (call : Call) (msgType seqNumber : Nat) : PendingCall :=
  { call.pendingCall with
    imcpMsgType := msgType
    callSeqNumber := seqNumber
    callError := LpcError.requestTimeout.code
    callOutputBdo := none }

def acquire (peer : Peer) (id : Nat) : Option System := do
  let connector := system.connectors peer
  let call ← connector.calls[id]?
  if call.phase = .entering ∧ connector.accessLock = none then
    let ulCallSeqNum := (connector.seqNumber + 1) % 2 ^ (8 * ulongSize network.machine)
    let call := {
      call with
      ulCallSeqNum := ulCallSeqNum
      pendingCall := ⟨call.partyName, replyType, ulCallSeqNum, LpcError.noError.code, false, none⟩ }
    let connector := { connector with seqNumber := ulCallSeqNum, accessLock := some id }
    let failed (error : LpcError) : System :=
      system.setConnector peer (connector.release.setCall id { call with phase := .returned (.error error.code) })
    match call.pPartyAddr <|> connector.getPartyAddr network.machine call.partyName with
    | some party =>
      some (system.setConnector peer (connector.setCall id { call with pPartyAddr := some party, phase := .linking }))
    | none =>
      if (network.identity peer).lpcOpmode = .server then some (failed .badPartyName)
      else
        match (do (← connector.partyAddrs[← connector.getPartyAddr network.machine managerPartyName]?).partySocket) with
        | none => some (failed .managerUnavailable)
        | some socket =>
          let call := { call with phase := .resolving, pendingCall := awaiting call replyType ulCallSeqNum }
          some ((system.setConnector peer ((connector.setCall id call).addPendingCall id)).send
            ⟨peer, socket, .request (travels ulCallSeqNum) queryParty call.partyName⟩)
  else none

def link (peer : Peer) (id : Nat) (bAdded : Bool) : Option System := do
  let connector := system.connectors peer
  let call ← connector.calls[id]?
  if call.phase = .linking then
    let party ← connector.partyAddrs[← call.pPartyAddr]?
    match party.partySocket with
    | some _ => some (system.setConnector peer (connector.release.setCall id { call with phase := .ready }))
    | none =>
      match if bAdded then network.listener party.partyAddr party.partyPort else none with
      | none =>
        some (system.setConnector peer
          (connector.release.setCall id { call with phase := .returned (.error LpcError.networkFailure.code) }))
      | some socket =>
        let call := { call with phase := .connecting socket, pendingCall := awaiting call ackType 0 }
        some ((system.setConnector peer ((connector.setCall id call).addPendingCall id)).send
          ⟨peer, socket, .hello (network.identity peer).myAddress (network.identity peer).myPort
            (network.identity peer).partyName⟩)
  else none

def request (peer : Peer) (id : Nat) : Option System := do
  let connector := system.connectors peer
  let call ← connector.calls[id]?
  if call.phase = .ready then
    let socket ← (← connector.partyAddrs[← call.pPartyAddr]?).partySocket
    let call := { call with phase := .calling, pendingCall := awaiting call replyType call.ulCallSeqNum }
    some ((system.setConnector peer ((connector.setCall id call).addPendingCall id)).send
      ⟨peer, socket, .request (travels call.ulCallSeqNum) lpcCall call.pInputBuffer⟩)
  else none

def check (peer : Peer) (id : Nat) : Option System := do
  let connector := system.connectors peer
  let waited ← connector.calls[id]?
  let call := { waited with pendingCall := { waited.pendingCall with callEvent := false } }
  let returns (result : Except Nat (List UInt8)) : System :=
    -- Only the last wait is behind `RelAccess`.
    let connector := if call.phase = .calling then connector else connector.release
    system.setConnector peer (connector.setCall id { call with phase := .returned result })
  if !call.phase.waits then none
  else if call.pendingCall.callError = LpcError.requestTimeout.code then
    some (system.setConnector peer (connector.setCall id { call with phase := .expired }))
  else if call.pendingCall.callError ≠ LpcError.noError.code then
    some (returns (.error call.pendingCall.callError))
  else
    match call.pendingCall.callOutputBdo with
    | none => some (returns (.error LpcError.invalidReply.code))
    | some output =>
      match call.phase with
      | .calling => some (returns (.ok output))
      | .connecting socket => do
        let party ← call.pPartyAddr
        let entry ← connector.partyAddrs[party]?
        let connector := { connector with
          partyAddrs := connector.partyAddrs.set party { entry with partySocket := some socket } }
        some (system.setConnector peer (connector.release.setCall id
          { call with phase := .ready, pendingCall := { call.pendingCall with callOutputBdo := none } }))
      | _ =>
        let word := ulongSize network.machine
        let party : PartyAddr := {
          partyName := output.drop (word + 3)
          partyAddr := readUlong network.machine output
          partyPort := ushortFromNToH network.machine (output.drop (word + 1))
          partySocket := none }
        some (system.setConnector peer ((connector.addPartyAddr network.machine party).setCall id
          { call with
            pPartyAddr := some connector.partyAddrs.length, phase := .linking
            pendingCall := { call.pendingCall with callOutputBdo := none } }))

/-- The thread takes its call back from the queue, with the three writes that follow, and returns what `CallError`
then holds. -/
def expire (peer : Peer) (id : Nat) : Option System := do
  let connector := system.connectors peer
  let call ← connector.calls[id]?
  if call.phase = .expired then
    let pending := call.pendingCall
    let connector ←
      match ← connector.findPending (some pending.partyName) pending.imcpMsgType pending.callSeqNumber
          connector.pcallQueue with
      | none => some connector
      | some entry => do
        let found ← connector.calls[entry]?
        some { connector.setCall entry { found with pendingCall := { found.pendingCall with
            callError := pending.callError, callOutputBdo := none, callEvent := true } } with
          pcallQueue := connector.pcallQueue.erase entry }
    let call ← connector.calls[id]?
    let connector := if connector.accessLock = some id then connector.release else connector
    some (system.setConnector peer
      (connector.setCall id { call with phase := .returned (.error call.pendingCall.callError) }))
  else none

def write (peer : Peer) (entry : Popped) : Option System := do
  let connector := system.connectors peer
  let call ← connector.calls[entry.call]?
  if entry ∈ connector.popped then
    match call.phase with
    | .returned _ => none
    | _ =>
      some (system.setConnector peer
        { connector.setCall entry.call { call with pendingCall := entry.writeTo call.pendingCall } with
          popped := connector.popped.erase entry ++ entry.left })
  else none

-- `AnscLpccoPopPendingCall` writes behind the lock of the queue. A call that has returned in between is freed,
-- and what its memory then holds may be anything of the connector.
def overwrite (peer : Peer) (entry : Popped) (memory : Connector) : Option System := do
  let connector := system.connectors peer
  let call ← connector.calls[entry.call]?
  if entry ∈ connector.popped then
    match call.phase with
    | .returned _ => some (system.setConnector peer memory)
    | _ => none
  else none

def deliver (packet : Packet) : Option System :=
  if packet ∈ system.wire then
    let arrived := { system with wire := system.wire.erase packet }
    let connector := system.connectors packet.target
    match packet.message with
    | .hello partyAddr partyPort partyName =>
      let connector :=
        if (connector.getPartyAddr network.machine partyName).isSome then connector
        else connector.addPartyAddr network.machine ⟨partyName, partyAddr, partyPort, none⟩
      some ((arrived.setConnector packet.target connector).send
        ⟨packet.target, packet.source, .ack (network.identity packet.target).partyName⟩)
    | .ack partyName => do
      let connector ← connector.popPendingCall (some partyName) ackType 0 LpcError.noError.code
        (packet.message.msgData network.machine)
      some (arrived.setConnector packet.target connector)
    | .request seqNumber reqType reqData =>
      some { arrived with
        serving := ⟨packet.target, packet.source, seqNumber, reqType, reqData⟩ ::ₘ system.serving }
    | .reply seqNumber _ repCode repData => do
      let connector ← connector.popPendingCall none replyType seqNumber repCode repData
      some (arrived.setConnector packet.target connector)
    | .bye _ => some arrived
  else none

structure Dispatched where
  success : Bool
  ulErrorCode : Nat
  output : List UInt8
deriving DecidableEq, Repr

def partyInfo (party : PartyAddr) : List UInt8 :=
  memoryOfUlong network.machine party.partyAddr ++ (6 :: networkUshort network.machine party.partyPort)

def answerTo (entry : Serving) (dispatched : Dispatched) : Nat × List UInt8 :=
  let connector := system.connectors entry.callee
  if entry.reqType = queryParty then
    match connector.getPartyAddr network.machine (partyName entry.reqData.length entry.reqData) with
    | none => (LpcError.badPartyName.code, [])
    | some party => (LpcError.noError.code, (connector.partyAddrs[party]?).elim [] (partyInfo network))
  else if entry.reqType = lpcCall then
    if dispatched.success ∧ dispatched.ulErrorCode = LpcError.noError.code then
      (dispatched.ulErrorCode, dispatched.output)
    -- A dispatch that fails without a code is reported as no error.
    else (dispatched.ulErrorCode, [])
  else (LpcError.invalidReqType.code, [])

def dispatch (entry : Serving) (dispatched : Dispatched) : Option System :=
  if entry ∈ system.serving then
    let (repCode, repData) := system.answerTo network entry dispatched
    some { system with
      serving := system.serving.erase entry
      wire := ⟨entry.callee, entry.client, .reply entry.seqNumber entry.reqType (travels repCode) repData⟩
        ::ₘ system.wire
      answers := system.answers ++ [⟨entry, travels repCode, repData⟩] }
  else none

def popAll (peer : Peer) : System :=
  let connector := system.connectors peer
  system.setConnector peer { connector with
    pcallQueue := []
    calls := connector.calls.mapIdx fun id call =>
      if id ∈ connector.pcallQueue then
        { call with pendingCall := { call.pendingCall with
            callError := LpcError.connectorReset.code, callOutputBdo := none, callEvent := true } }
      else call }

def removeSocket (peer : Peer) (party : Nat) : System :=
  let connector := system.connectors peer
  system.setConnector peer
    { connector with partyAddrs := connector.partyAddrs.modify party fun entry => { entry with partySocket := none } }

def connectToManager (peer : Peer) (bAdded : Bool) : Option System := do
  let connector := system.connectors peer
  let identity := network.identity peer
  if identity.lpcOpmode ≠ .client then some system
  else
    match connector.getPartyAddr network.machine managerPartyName,
        if bAdded then network.listener identity.managerAddress identity.managerPort else none with
    | some manager, some socket =>
      some ((system.setConnector peer { connector with
          partyAddrs := connector.partyAddrs.modify manager fun entry =>
            { entry with partySocket := some socket } }).send
        ⟨peer, socket, .hello identity.myAddress identity.myPort identity.partyName⟩)
    | _, _ => some system

inductive Action
  | enter (peer : Peer) (partyName pInputBuffer : List UInt8)
  | enter2 (peer : Peer) (party : Nat) (pInputBuffer : List UInt8)
  | acquire (peer : Peer) (id : Nat)
  | link (peer : Peer) (id : Nat) (bAdded : Bool)
  | request (peer : Peer) (id : Nat)
  | check (peer : Peer) (id : Nat)
  | expire (peer : Peer) (id : Nat)
  | write (peer : Peer) (entry : Popped)
  | overwrite (peer : Peer) (entry : Popped) (memory : Connector)
  | deliver (packet : Packet)
  | dispatch (entry : Serving) (dispatched : Dispatched)
  | popAll (peer : Peer)
  | removeSocket (peer : Peer) (party : Nat)
  | connectToManager (peer : Peer) (bAdded : Bool)

-- No result is an action that cannot be taken in this state, or a read of memory that is freed or missing.
def step : Action → Option System
  | .enter peer partyName pInputBuffer => some (system.enter peer partyName none pInputBuffer)
  | .enter2 peer party pInputBuffer => system.enter2 peer party pInputBuffer
  | .acquire peer id => system.acquire network peer id
  | .link peer id bAdded => system.link network peer id bAdded
  | .request peer id => system.request peer id
  | .check peer id => system.check network peer id
  | .expire peer id => system.expire peer id
  | .write peer entry => system.write peer entry
  | .overwrite peer entry memory => system.overwrite peer entry memory
  | .deliver packet => system.deliver network packet
  | .dispatch entry dispatched => system.dispatch network entry dispatched
  | .popAll peer => some (system.popAll peer)
  | .removeSocket peer party => some (system.removeSocket peer party)
  | .connectToManager peer bAdded => system.connectToManager network peer bAdded

def enrolled (identity : Identity) : Connector where
  seqNumber := 0
  partyAddrs :=
    ⟨identity.partyName, identity.myAddress, identity.myPort, none⟩ ::
      match identity.lpcOpmode with
      | .client => [⟨managerPartyName, identity.managerAddress, identity.managerPort, none⟩]
      | .server => []
  partyTable :=
    match identity.lpcOpmode with
    | .client => [0, 1]
    | .server => [0]
  calls := []
  pcallQueue := []
  accessLock := none
  popped := []

def start : System where
  connectors peer := enrolled (network.identity peer)
  wire := 0
  serving := 0
  answers := []

end System

end Systems

end CcspCommon.AnscLpcConnector
