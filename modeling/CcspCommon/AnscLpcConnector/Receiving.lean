import CcspCommon.AnscLpcConnector.Imcp
import CcspCommon.AnscPlatform.Packet
import CcspCommon.Shared.Block
import CcspCommon.Shared.Run

set_option autoImplicit false

namespace CcspCommon.AnscLpcConnector

open CcspCommon.AnscPlatform
open CcspCommon.Shared (Framing runAll written length_written)

section Descriptors

def allocateBdo (ulBufferSize : Nat) (block : List UInt8) (_fits : block.length ≤ ulBufferSize) : Bdo where
  -- Nothing compares the descriptors of two sockets.
  address := 0
  bOwner := true
  buffer := block ++ List.replicate (ulBufferSize - block.length) 0
  offset := 0
  blockSize := block.length
  reserved1 := 0
  osSpecific := []
  hOwnerObject := none
  pfnFreeMe := none
  fits := by simp

def usableSize (bdo : Bdo) : Nat := bdo.buffer.length - bdo.offset

def leftSize (bdo : Bdo) : Nat := bdo.buffer.length - bdo.offset - bdo.blockSize

def endOfBlock (bdo : Bdo) : Nat := bdo.offset + bdo.blockSize

-- A block that leaves the buffer has no meaning.
def grow (bdo : Bdo) (ulSize : Nat) : Option Bdo :=
  if fits : bdo.offset + (bdo.blockSize + ulSize) ≤ bdo.buffer.length then
    some { bdo with blockSize := bdo.blockSize + ulSize, fits := fits }
  else none

def copied (bdo : Bdo) (ulCopySize : Nat) : List UInt8 :=
  match bdo.copyFrom ulCopySize 0 with
  | .ok octets => octets
  | .error _ => []

theorem copied_eq (bdo : Bdo) (ulCopySize : Nat) : copied bdo ulCopySize = bdo.block.take ulCopySize := by
  by_cases some : 0 < bdo.blockSize ∧ 0 < ulCopySize
  · simp [copied, bdo.copyFrom_eq some.1 some.2]
  · by_cases block : bdo.blockSize = 0
    · have none : bdo.block = [] := List.eq_nil_of_length_eq_zero (by simp [block])
      simp [copied, Bdo.copyFrom, block, none]
    · have none : ulCopySize = 0 := by omega
      simp [copied, Bdo.copyFrom, block, none]

end Descriptors

section Sockets

-- `ANSC_DSTOWO_PMODE_`, the same numbers as `ANSC_BSTOWO_PMODE_`; the other modes are not answered.
inductive Pmode
  | discard | collect
deriving DecidableEq

/-- The receiving side of a daemon or broker socket with foreign buffers. `recvBuffer` is the place in the buffer
of `hRecvBufferTag` that `RecvBuffer` points to. -/
structure RecvSocket where
  hRecvBufferTag : Bdo
  recvBuffer : Nat
  recvBufferSize : Nat
  recvPacketSize : Nat
  recvOffset : Nat

def setBufferContext (buffer ulSize : Nat) (hBufferTag : Bdo) : RecvSocket where
  hRecvBufferTag := hBufferTag
  recvBuffer := buffer
  recvBufferSize := ulSize
  recvPacketSize := 0
  recvOffset := 0

def defMessageSize : Nat := 2048

def offered (bdo : Bdo) : RecvSocket := setBufferContext (endOfBlock bdo) (leftSize bdo) bdo

def emptyBdo : Bdo := allocateBdo defMessageSize [] (by simp)

def accept : RecvSocket := offered emptyBdo

variable (machine : Machine)

-- `AnscLpccoTcpDwoQuery` and `AnscLpccoTcpBwoQuery`, which differ in the names of the socket only. The messages
-- are the blocks that `Recv` is called with. No result is a call that does not return, or memory outside the
-- buffer.
def query : Nat → RecvSocket → Nat → Option (RecvSocket × List (List UInt8) × Pmode)
  | 0, _, _ => none
  | fuel + 1, socket, ulSize => do
    let bufferDesp ← grow socket.hRecvBufferTag ulSize
    if tight : usableSize bufferDesp ≤ headerSize machine then
      let newBdo := allocateBdo defMessageSize (copied bufferDesp bufferDesp.blockSize) (by
        have word := word_size machine
        have fits := bufferDesp.fits
        simp only [copied_eq, List.length_take, Bdo.length_block, defMessageSize, usableSize, headerSize] at tight ⊢
        omega)
      some (offered newBdo, [], .collect)
    else if bufferDesp.blockSize < headerSize machine then
      some ({ socket with hRecvBufferTag := bufferDesp.shrinkLeft ulSize }, [], .collect)
    else
      let ulMsgSize := getMsgSize machine bufferDesp.block
      if ulMsgSize = bufferDesp.blockSize then
        some (offered emptyBdo, [bufferDesp.block], .discard)
      else if less : ulMsgSize < bufferDesp.blockSize then
        let newBdo := allocateBdo ulMsgSize (copied bufferDesp ulMsgSize) (by simp [copied_eq])
        let bufferDesp := bufferDesp.shrinkRight ulMsgSize (Nat.le_of_lt less)
        let (socket, later, mode) ← query fuel (offered bufferDesp) 0
        some (socket, newBdo.block :: later, mode)
      else if ulMsgSize ≤ usableSize bufferDesp then
        some ({ socket with hRecvBufferTag := bufferDesp.shrinkLeft ulSize }, [], .collect)
      else
        let newBdo := allocateBdo ulMsgSize (copied bufferDesp bufferDesp.blockSize) (by
          simp only [copied_eq, List.length_take, Bdo.length_block]
          omega)
        some (offered newBdo, [], .collect)

def dktoRecv (socket : RecvSocket) (ulSize : Nat) : Option (RecvSocket × List (List UInt8)) := do
  let socket :=
    { socket with recvPacketSize := socket.recvPacketSize + ulSize, recvOffset := socket.recvOffset + ulSize }
  let (socket, messages, mode) ←
    query machine (socket.hRecvBufferTag.blockSize + socket.recvPacketSize + 1) socket socket.recvPacketSize
  match mode with
  | .discard => some ({ socket with recvPacketSize := 0, recvOffset := 0 }, messages)
  | .collect => some (socket, messages)

def recvRoom (socket : RecvSocket) : Nat := socket.recvBufferSize - socket.recvOffset

def write (bdo : Bdo) (place : Nat) (octets : List UInt8) (inside : place + octets.length ≤ bdo.buffer.length) : Bdo :=
  { bdo with
    buffer := written bdo.buffer place octets
    fits := by
      rw [length_written inside]
      exact bdo.fits }

def detoRecv (socket : RecvSocket) (octets : List UInt8) : Option (RecvSocket × List (List UInt8)) :=
  let place := socket.recvBuffer + socket.recvOffset
  if 2 ^ 31 ≤ recvRoom socket ∨ recvRoom socket < octets.length then none
  else if inside : place + octets.length ≤ socket.hRecvBufferTag.buffer.length then
    dktoRecv machine { socket with hRecvBufferTag := write socket.hRecvBufferTag place octets inside } octets.length
  else none

structure Connection where
  socket : RecvSocket
  wire : List UInt8
  received : List (Option ImcpMessage)

-- One turn of the engine: `recv` returns between one octet and as many as there is room for.
def receive (connection : Connection) (count : Nat) : Option Connection :=
  if connection.wire = [] then some connection
  -- A `recv` without room returns zero, and that closes the socket.
  else if recvRoom connection.socket = 0 then none
  else do
    let octets := connection.wire.take (min (count + 1) (recvRoom connection.socket))
    let (socket, messages) ← detoRecv machine connection.socket octets
    some ⟨socket, connection.wire.drop octets.length, connection.received ++ messages.map (recv machine)⟩

def connected (stream : List UInt8) : Connection := ⟨accept, stream, []⟩

end Sockets

section Waiting

variable (machine : Machine)

structure Takes (socket : RecvSocket) : Prop where
  buffer : socket.recvBuffer = endOfBlock socket.hRecvBufferTag
  size : socket.recvBufferSize = leftSize socket.hRecvBufferTag
  packet : socket.recvPacketSize = socket.recvOffset

structure Waiting (socket : RecvSocket) (pending : List UInt8) : Prop extends Takes socket where
  octets : (socket.hRecvBufferTag.buffer.drop socket.hRecvBufferTag.offset).take
    (socket.hRecvBufferTag.blockSize + socket.recvOffset) = pending
  waits : (imcpFraming machine).Waits pending
  room : socket.recvOffset < socket.recvBufferSize
  small : socket.hRecvBufferTag.buffer.length < 2 ^ 31

variable {machine}

@[simp] theorem block_allocateBdo {size : Nat} {block : List UInt8} (fits : block.length ≤ size) :
    (allocateBdo size block fits).block = block := by
  simp [Bdo.block, allocateBdo]

@[simp] theorem length_allocateBdo {size : Nat} {block : List UInt8} (fits : block.length ≤ size) :
    (allocateBdo size block fits).buffer.length = size := by
  simp [allocateBdo, fits]

theorem Takes.offered (bdo : Bdo) : Takes (offered bdo) := ⟨rfl, rfl, rfl⟩

theorem copied_block (bdo : Bdo) : copied bdo bdo.blockSize = bdo.block := by
  simp [copied_eq, List.take_of_length_le]

theorem waiting_offered {size : Nat} {block : List UInt8} (fits : block.length ≤ size)
    (waits : (imcpFraming machine).Waits block) (room : block.length < size) (small : size < 2 ^ 31) :
    Waiting machine (offered (allocateBdo size block fits)) block where
  toTakes := .offered _
  octets := block_allocateBdo fits
  waits := waits
  room := by simp [offered, setBufferContext, leftSize, allocateBdo, fits, room]
  small := by simpa [offered, setBufferContext] using small

theorem grow_eq {bdo grown : Bdo} {ulSize : Nat} (grows : grow bdo ulSize = some grown) :
    grown.buffer = bdo.buffer ∧ grown.offset = bdo.offset ∧ grown.blockSize = bdo.blockSize + ulSize := by
  simp only [grow, Option.dite_none_right_eq_some, Option.some.injEq] at grows
  obtain ⟨fits, rfl⟩ := grows
  exact ⟨rfl, rfl, rfl⟩

theorem grow_zero (bdo : Bdo) : grow bdo 0 = some bdo := by
  have fits := bdo.fits
  simp [grow, fits]

theorem Takes.kept {socket : RecvSocket} (takes : Takes socket) {grown : Bdo}
    (grows : grow socket.hRecvBufferTag socket.recvOffset = some grown) (room : grown.blockSize < usableSize grown)
    (waits : (imcpFraming machine).Waits grown.block) (small : grown.buffer.length < 2 ^ 31) :
    Waiting machine { socket with hRecvBufferTag := grown.shrinkLeft socket.recvOffset } grown.block := by
  obtain ⟨buffer, offset, blockSize⟩ := grow_eq grows
  have size := takes.size
  simp only [usableSize, leftSize, buffer, offset, blockSize] at room size small
  exact {
    buffer := by simp [takes.buffer, endOfBlock, Bdo.shrinkLeft, offset, blockSize]
    size := by simp [takes.size, leftSize, Bdo.shrinkLeft, buffer, offset, blockSize]
    packet := takes.packet
    octets := by simp [Bdo.block, Bdo.shrinkLeft, blockSize]
    waits := waits
    room := by simp only [size]; omega
    small := by simpa [Bdo.shrinkLeft, buffer] using small }

end Waiting

section Queries

variable {machine : Machine}

def Proper (machine : Machine) (frames : List (List UInt8)) : Prop :=
  ∀ frame ∈ frames, (imcpFraming machine).IsFrame frame ∧ frame.length < 2 ^ 31

theorem header_pos (machine : Machine) : 0 < (imcpFraming machine).header := by
  have word := word_size machine
  simp only [imcpFraming, headerSize]
  omega

theorem waits_nil (machine : Machine) : (imcpFraming machine).Waits [] := .inl (header_pos machine)

theorem Proper.first {frames : List (List UInt8)} (proper : Proper machine frames) {block later : List UInt8}
    (sent : block ++ later = frames.flatten) (header : headerSize machine ≤ block.length) :
    ∃ frame more, frames = frame :: more ∧ getMsgSize machine block = frame.length ∧
      headerSize machine < frame.length ∧ frame.length < 2 ^ 31 ∧ (imcpFraming machine).IsFrame frame := by
  obtain ⟨frame, more, rfl, size⟩ :=
    @Framing.size_on_the_way _ (imcpFraming machine) _ (fun frame member => (proper frame member).1) _ _ sent
      (header_pos machine) header
  have own := proper frame List.mem_cons_self
  exact ⟨frame, more, rfl, size, own.1.longer, own.2, own.1⟩

theorem query_spec {fuel : Nat} {frames : List (List UInt8)} (proper : Proper machine frames) {socket : RecvSocket}
    (takes : Takes socket) {grown : Bdo} (grows : grow socket.hRecvBufferTag socket.recvOffset = some grown)
    (small : grown.buffer.length < 2 ^ 31) {later : List UInt8} (sent : grown.block ++ later = frames.flatten)
    (enough : grown.blockSize < fuel) :
    ∃ next messages mode rest, query machine fuel socket socket.recvOffset = some (next, messages, mode) ∧
      (imcpFraming machine).Cut grown.block messages rest ∧ Waiting machine next rest ∧
      (mode = .discard → next.recvPacketSize = 0 ∧ next.recvOffset = 0) := by
  induction fuel generalizing frames socket grown with
  | zero => omega
  | succ fuel ih =>
    have inside : grown.blockSize ≤ usableSize grown := by
      have fits := grown.fits
      simp only [usableSize]
      omega
    simp only [query, grows, Option.bind_eq_bind, Option.bind_some]
    by_cases tight : usableSize grown ≤ headerSize machine
    next =>
      -- A block as long as the header is not a message yet.
      have waits : (imcpFraming machine).Waits grown.block := by
        by_cases short : grown.block.length < headerSize machine
        next => exact .inl short
        next =>
          obtain ⟨frame, more, -, size, longer, -⟩ := proper.first sent (by omega)
          rw [Bdo.length_block] at short
          exact .inr ⟨by simpa [imcpFraming] using short, by simp only [imcpFraming, size, Bdo.length_block]; omega⟩
      have room : grown.block.length < defMessageSize := by
        have word := word_size machine
        simp only [Bdo.length_block, defMessageSize, headerSize] at tight ⊢
        omega
      exact ⟨offered (allocateBdo defMessageSize grown.block room.le), [], .collect, grown.block,
        by simp [tight, copied_block], .wait waits, waiting_offered room.le waits room (by decide), by simp⟩
    by_cases short : grown.blockSize < headerSize machine
    next =>
      have waits : (imcpFraming machine).Waits grown.block := .inl (by simpa [imcpFraming] using short)
      exact ⟨_, [], .collect, grown.block, by simp [tight, short], .wait waits,
        takes.kept grows (by omega) waits small, by simp⟩
    obtain ⟨frame, more, rfl, size, longer, bound, isFrame⟩ := proper.first sent (by simpa using short)
    simp only [tight, short, ↓reduceDIte, ↓reduceIte, size]
    obtain waiting | exact | less := Nat.lt_trichotomy grown.blockSize frame.length
    next =>
      have waits : (imcpFraming machine).Waits grown.block :=
        .inr ⟨by simpa [imcpFraming] using short, by simpa [imcpFraming, size] using waiting⟩
      by_cases fits : frame.length ≤ usableSize grown
      next =>
        exact ⟨_, [], .collect, grown.block, by simp [waiting.ne', waiting.not_gt, fits], .wait waits,
          takes.kept grows (by omega) waits small, by simp⟩
      next =>
        have room : grown.block.length < frame.length := by simpa using waiting
        exact ⟨offered (allocateBdo frame.length grown.block room.le), [], .collect, grown.block,
          by simp [waiting.ne', waiting.not_gt, fits, copied_block], .wait waits,
          waiting_offered room.le waits room bound, by simp⟩
    next =>
      have same : grown.block = frame := by
        simpa [exact] using congrArg (List.take frame.length) sent
      have cut := Framing.Cut.cons isFrame (.wait (waits_nil machine))
      refine ⟨offered emptyBdo, [frame], .discard, [], by simp [exact, same], by simpa [same] using cut,
        waiting_offered _ (waits_nil machine) (by simp [defMessageSize]) (by decide),
        by simp [offered, setBufferContext]⟩
    next =>
      have front : grown.block.take frame.length = frame := by
        have arrived := congrArg (List.take frame.length) sent
        simpa [List.take_append, less.le] using arrived
      have shrunk := grown.block_shrinkRight frame.length less.le
      have behind : grown.block = frame ++ (grown.shrinkRight frame.length less.le).block := by
        rw [shrunk]
        exact (front ▸ List.take_append_drop frame.length grown.block).symm
      have left : (grown.shrinkRight frame.length less.le).block ++ later = more.flatten := by
        simpa [behind] using sent
      obtain ⟨next, messages, mode, rest, ran, cut, waiting, reset⟩ :=
        ih (fun frame member => proper frame (List.mem_cons_of_mem _ member))
          (.offered (grown.shrinkRight frame.length less.le)) (grow_zero _) small left
          (show grown.blockSize - frame.length < fuel by omega)
      refine ⟨next, frame :: messages, mode, rest, ?_, by rw [behind]; exact .cons isFrame cut, waiting, reset⟩
      have ran : query machine fuel (offered (grown.shrinkRight frame.length less.le)) 0 =
        some (next, messages, mode) := ran
      simp [less.ne, less, ran, copied_eq, front]

theorem read_written {buffer octets : List UInt8} {offset size : Nat}
    (inside : offset + size + octets.length ≤ buffer.length) :
    ((written buffer (offset + size) octets).drop offset).take (size + octets.length) =
      (buffer.drop offset).take size ++ octets := by
  have front : (buffer.take (offset + size)).drop offset = (buffer.drop offset).take size := by
    simp [List.drop_take]
  have length : ((buffer.drop offset).take size).length = size := by
    simp only [List.length_take, List.length_drop]
    omega
  rw [written, List.drop_append_of_le_length (by simp; omega), front, ← List.append_assoc]
  exact List.take_left' (by simp [length])

theorem Waiting.received {socket : RecvSocket} {pending octets : List UInt8} (waiting : Waiting machine socket pending)
    (fits : octets.length ≤ recvRoom socket) :
    ∃ inside grown, grow (write socket.hRecvBufferTag (socket.recvBuffer + socket.recvOffset) octets inside)
        (socket.recvOffset + octets.length) = some grown ∧ grown.block = pending ++ octets ∧
      grown.buffer.length = socket.hRecvBufferTag.buffer.length ∧
      grown.blockSize = socket.hRecvBufferTag.blockSize + (socket.recvOffset + octets.length) := by
  obtain ⟨⟨buffer, size, packet⟩, octets_eq, waits, room, small⟩ := waiting
  have tagFits := socket.hRecvBufferTag.fits
  simp only [recvRoom, endOfBlock, leftSize] at fits buffer size room
  have inside : socket.recvBuffer + socket.recvOffset + octets.length ≤ socket.hRecvBufferTag.buffer.length := by
    omega
  have bound : socket.hRecvBufferTag.offset + (socket.hRecvBufferTag.blockSize + (socket.recvOffset + octets.length)) ≤
      (written socket.hRecvBufferTag.buffer (socket.recvBuffer + socket.recvOffset) octets).length := by
    rw [length_written inside]
    omega
  have place : socket.recvBuffer + socket.recvOffset = socket.hRecvBufferTag.offset +
      (socket.hRecvBufferTag.blockSize + socket.recvOffset) := by omega
  have read : ((written socket.hRecvBufferTag.buffer (socket.recvBuffer + socket.recvOffset) octets).drop
      socket.hRecvBufferTag.offset).take (socket.hRecvBufferTag.blockSize + (socket.recvOffset + octets.length)) =
        pending ++ octets := by
    rw [place, ← Nat.add_assoc socket.hRecvBufferTag.blockSize, read_written (by omega), octets_eq]
  exact ⟨inside, _, dif_pos bound, read, length_written inside, rfl⟩

theorem detoRecv_spec {frames : List (List UInt8)} (proper : Proper machine frames) {socket : RecvSocket}
    {pending octets later : List UInt8} (waiting : Waiting machine socket pending)
    (fits : octets.length ≤ recvRoom socket) (sent : pending ++ octets ++ later = frames.flatten) :
    ∃ next messages rest, detoRecv machine socket octets = some (next, messages) ∧
      (imcpFraming machine).Cut (pending ++ octets) messages rest ∧ Waiting machine next rest := by
  obtain ⟨inside, grown, grows, block, length, size⟩ := waiting.received fits
  obtain ⟨⟨buffer, left, packet⟩, -, -, room, small⟩ := waiting
  have length_eq := length_written inside
  let ready : RecvSocket :=
    { hRecvBufferTag := write socket.hRecvBufferTag (socket.recvBuffer + socket.recvOffset) octets inside
      recvBuffer := socket.recvBuffer
      recvBufferSize := socket.recvBufferSize
      recvPacketSize := socket.recvPacketSize + octets.length
      recvOffset := socket.recvOffset + octets.length }
  have takes : Takes ready :=
    ⟨buffer, by simpa [ready, leftSize, write, length_eq] using left, by simp [ready, packet]⟩
  obtain ⟨next, messages, mode, rest, ran, cut, waiting, reset⟩ :=
    query_spec proper takes grows (by omega) (block ▸ sent) (Nat.lt_succ_self _)
  have narrow : ¬ (2 ^ 31 ≤ recvRoom socket ∨ recvRoom socket < octets.length) := by
    simp only [recvRoom, left, leftSize] at fits ⊢
    omega
  refine ⟨next, messages, rest, ?_, block ▸ cut, waiting⟩
  have fuel : grown.blockSize.succ = (write socket.hRecvBufferTag (socket.recvBuffer + socket.recvOffset) octets
      inside).blockSize + (socket.recvPacketSize + octets.length) + 1 := by
    simp [size, packet, write]
  have turn : ready.recvOffset = socket.recvPacketSize + octets.length := by simp [ready, packet]
  rw [fuel, turn] at ran
  simp only [detoRecv, narrow, inside, ↓reduceIte, ↓reduceDIte, dktoRecv, ran, Option.bind_eq_bind, Option.bind_some,
    ready]
  cases mode with
  | collect => rfl
  | discard =>
    obtain ⟨bufferTag, buffer, size, packetSize, offset⟩ := next
    obtain ⟨rfl, rfl⟩ : packetSize = 0 ∧ offset = 0 := reset rfl
    rfl

structure Tracks (machine : Machine) (frames : List (List UInt8)) (connection : Connection) (count : Nat) : Prop where
  inside : count ≤ frames.flatten.length
  wire : connection.wire = frames.flatten.drop count
  cut : ∃ handed pending, (imcpFraming machine).Cut (frames.flatten.take count) handed pending ∧
    Waiting machine connection.socket pending ∧ connection.received = handed.map (recv machine)

theorem tracks_connected (frames : List (List UInt8)) : Tracks machine frames (connected frames.flatten) 0 where
  inside := Nat.zero_le _
  wire := rfl
  cut := ⟨[], [], .wait (waits_nil machine),
    waiting_offered _ (waits_nil machine) (by simp [defMessageSize]) (by decide), rfl⟩

theorem receive_step {frames : List (List UInt8)} (proper : Proper machine frames) {connection : Connection}
    {count : Nat} (tracks : Tracks machine frames connection count) (turn : Nat) :
    ∃ next more, receive machine connection turn = some next ∧ Tracks machine frames next (count + more) ∧
      (count + more = frames.flatten.length ∨ 0 < more) := by
  obtain ⟨inside, wire, handed, pending, cut, waiting, received⟩ := tracks
  by_cases finished : connection.wire = []
  next =>
    have whole : count = frames.flatten.length := by
      rw [wire, List.drop_eq_nil_iff] at finished
      omega
    exact ⟨connection, 0, by simp [receive, finished], ⟨inside, wire, handed, pending, cut, waiting, received⟩,
      .inl (by simpa using whole)⟩
  next =>
    have room : 0 < recvRoom connection.socket := Nat.sub_pos_of_lt waiting.room
    have length : 0 < connection.wire.length := List.length_pos_iff.mpr finished
    obtain ⟨-, left⟩ := cut.arrived_eq (fun frame member => (proper frame member).1) (header_pos machine)
      (List.take_append_drop count frames.flatten)
    let octets := connection.wire.take (min (turn + 1) (recvRoom connection.socket))
    have size : octets.length = min (min (turn + 1) (recvRoom connection.socket)) connection.wire.length :=
      List.length_take
    have whole : octets ++ connection.wire.drop octets.length = connection.wire := by
      have prefixed : connection.wire.take octets.length = octets := by simp [octets]
      simpa [prefixed] using List.take_append_drop octets.length connection.wire
    have sent : pending ++ octets ++ connection.wire.drop octets.length = (frames.drop handed.length).flatten := by
      rw [List.append_assoc, whole, wire, left]
    obtain ⟨next, messages, rest, ran, more, waits⟩ :=
      detoRecv_spec (fun frame member => proper frame (List.mem_of_mem_drop member)) waiting (by omega) sent
    have taken : frames.flatten.take (count + octets.length) = frames.flatten.take count ++ octets := by
      rw [List.take_add, ← wire]
      simp [octets]
    have lengthWire : connection.wire.length = frames.flatten.length - count := by rw [wire, List.length_drop]
    refine ⟨⟨next, connection.wire.drop octets.length, connection.received ++ messages.map (recv machine)⟩,
      octets.length, ?_, ⟨by omega, ?_, handed ++ messages, rest, ?_, waits, ?_⟩, .inr (by omega)⟩
    next => simp only [receive, finished, room.ne', ↓reduceIte, ran, octets, Option.bind_eq_bind, Option.bind_some]
    next => simp only [wire, List.drop_drop, octets]
    next => exact taken ▸ cut.append more
    next => simp [received]

theorem receive_run {frames : List (List UInt8)} (proper : Proper machine frames) {connection : Connection}
    {count : Nat} (tracks : Tracks machine frames connection count) (turns : List Nat) :
    ∃ final total, runAll (receive machine) connection turns = some final ∧ Tracks machine frames final total ∧
      min (count + turns.length) frames.flatten.length ≤ total := by
  induction turns generalizing connection count with
  | nil => exact ⟨connection, count, rfl, tracks, Nat.min_le_left ..⟩
  | cons turn turns ih =>
    obtain ⟨next, more, ran, tracks, progress⟩ := receive_step proper tracks turn
    obtain ⟨final, total, later, tracks, enough⟩ := ih tracks
    refine ⟨final, total, by simp [runAll, ran, later], tracks, ?_⟩
    simp only [List.length_cons]
    omega

def stream (machine : Machine) (messages : List ImcpMessage) : List UInt8 :=
  messages.flatMap (ImcpMessage.encode machine)

structure Arrival (machine : Machine) (messages : List ImcpMessage) (turns : Nat) (connection : Connection)
    (count : Nat) : Prop where
  progress : min turns (stream machine messages).length ≤ count
  wire : connection.wire = (stream machine messages).drop count
  received : connection.received =
    (Framing.arrived (fun message => (message.encode machine).length) messages count).map some
  complete : (stream machine messages).length ≤ turns → connection.received = messages.map some

theorem messages_arrive (machine : Machine) (messages : List ImcpMessage)
    (fit : ∀ message ∈ messages, message.Fits machine) (turns : List Nat) :
    ∃ connection count, runAll (receive machine) (connected (stream machine messages)) turns = some connection ∧
      Arrival machine messages turns.length connection count := by
  have proper : Proper machine (messages.map (ImcpMessage.encode machine)) := by
    simp only [Proper, List.forall_mem_map]
    intro message member
    have size := (msgData_size (fit message member)).2
    exact ⟨encode_isFrame (fit message member), by rw [length_encode]; omega⟩
  obtain ⟨connection, count, ran, ⟨inside, wire, handed, pending, cut, waiting, received⟩, enough⟩ :=
    receive_run proper (tracks_connected _) turns
  obtain ⟨handed_eq, -⟩ := cut.arrived_eq (fun frame member => (proper frame member).1) (header_pos machine)
    (List.take_append_drop count _)
  rw [List.length_take, Nat.min_eq_left inside, Framing.arrived_map] at handed_eq
  have sent : (messages.map (ImcpMessage.encode machine)).flatten = stream machine messages := rfl
  simp only [sent, Nat.zero_add] at ran wire enough
  have understood : connection.received =
      (Framing.arrived (fun message => (message.encode machine).length) messages count).map some := by
    rw [received, handed_eq, List.map_map]
    exact List.map_congr_left fun message member =>
      recv_encode (fit message ((Framing.arrived_prefix ..).subset member))
  refine ⟨connection, count, ran, enough, wire, understood, fun turnsEnough => ?_⟩
  rw [understood, Framing.arrived_all]
  simp only [stream, List.length_flatMap] at enough turnsEnough
  omega

theorem messages_arrive_cut :
    ∃ connection count, runAll (receive ⟨.four, true, true⟩)
        (connected (stream ⟨.four, true, true⟩ [.request 1 2 [7, 8], .bye [65]])) [2, 0, 50, 60] = some connection ∧
      Arrival ⟨.four, true, true⟩ [.request 1 2 [7, 8], .bye [65]] 4 connection count :=
  messages_arrive ⟨.four, true, true⟩ [.request 1 2 [7, 8], .bye [65]] (by decide) [2, 0, 50, 60]

end Queries

end CcspCommon.AnscLpcConnector
