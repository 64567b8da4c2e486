import CcspCommon.HttpMboChunked.ChunkLine
import CcspCommon.HttpMessageBody.Process

set_option autoImplicit false

namespace CcspCommon.HttpMboChunked

open CcspCommon.HttpMessageBody (MboState MboMode)

section Objects

inductive ChunkTransferState
  | reserved | empty | partLine | partBody | complete | trailing
  deriving DecidableEq, Repr

inductive BlockType
  | chunkData | chunkLine | chunkCrlf | trailer
  deriving DecidableEq, Repr

inductive BccEvent
  | arrivedBodyPart | arrivedBody | completed | overPacked
  deriving DecidableEq, Repr

inductive Status
  | success | badPayload | internalError | unapplicable | owner (code : Nat)
  deriving DecidableEq, Repr

-- `HTTP_MBO_CHUNKED_OBJECT`. A scratch pad is what the first `UseSize` bytes of it hold, a buffer of the queue
-- its `Reserved1` and its block; the newest chunk info comes first.
structure MboChunked where
  state : MboState
  mode : MboMode
  transferSize : Nat
  entitySize : Nat
  arrivedSize : Nat
  chunkTransferState : ChunkTransferState
  skipSize : Nat
  chunkInfoSList : List ChunkInfo
  bdoQueue : List (BlockType × List UInt8)
  scratchPad1 : List UInt8
  scratchPad3 : List UInt8

def padSize1 : Nat := 128

def padSize3 : Nat := 2048

def fresh (mode : MboMode) : MboChunked := ⟨.empty, mode, 0, 0, 0, .empty, 0, [], [], [], []⟩

end Objects

section Access

def appendBodyBdo (mbo : MboChunked) (reserved1 : BlockType) (block : List UInt8) : MboChunked :=
  let mbo := { mbo with transferSize := mbo.transferSize + block.length }
  let mbo := match reserved1 with
    | .chunkData =>
      { mbo with entitySize := mbo.entitySize + block.length, arrivedSize := mbo.arrivedSize + block.length }
    | .chunkCrlf => { mbo with arrivedSize := mbo.arrivedSize + block.length }
    | .chunkLine | .trailer => mbo
  match mbo.mode with
  | .store => { mbo with bdoQueue := mbo.bdoQueue ++ [(reserved1, block)] }
  | .empty | .relay | .storeExternal => mbo

def getExpectedSize (mbo : MboChunked) : Nat := (mbo.chunkInfoSList.map fun info => info.chunkSize + 2).sum

def getArrivedSize (mbo : MboChunked) : Nat :=
  match mbo.mode with
  | .empty | .relay => mbo.arrivedSize
  | .store | .storeExternal => ((mbo.bdoQueue.filter fun bdo => bdo.1 = .chunkData ∨ bdo.1 = .chunkCrlf).map
      fun bdo => bdo.2.length).sum

-- A block that is too short to be broken in front of its last two bytes is kept as it is.
def appendChunkData (mbo : MboChunked) (block : List UInt8) (bHasCrlf : Bool) : MboChunked :=
  if !bHasCrlf then appendBodyBdo mbo .chunkData block
  else if mbo.mode = .relay then
    { mbo with
      transferSize := mbo.transferSize + block.length
      entitySize := mbo.entitySize + (block.length - 2)
      arrivedSize := mbo.arrivedSize + block.length }
  else if block.length = 2 then appendBodyBdo mbo .chunkCrlf block
  else if 2 < block.length then
    appendBodyBdo (appendBodyBdo mbo .chunkData (block.take (block.length - 2))) .chunkCrlf
      (block.drop (block.length - 2))
  else appendBodyBdo mbo .chunkData block

def addChunkInfo (mbo : MboChunked) (info : ChunkInfo) (rawChunkLine : List UInt8) : MboChunked :=
  let mbo := appendBodyBdo mbo .chunkLine rawChunkLine
  { mbo with chunkInfoSList := info :: mbo.chunkInfoSList }

end Access

section Processing

variable (w : Nat) (notify : BccEvent → Status)

def ulongSub (first second : Nat) : Nat := (((first : Int) - second) % 2 ^ w).toNat

def processTrailer (mbo : MboChunked) (block : List UInt8) : MboChunked × List BccEvent × Status × Bool :=
  let rawTrailer := mbo.scratchPad3 ++ block.take (padSize3 - mbo.scratchPad3.length)
  if !isTrailerComplete rawTrailer then
    if rawTrailer.length = padSize3 then ({ mbo with scratchPad3 := rawTrailer }, [], .badPayload, false)
    else ({ mbo with scratchPad3 := rawTrailer, chunkTransferState := .trailing }, [], .success, false)
  else
    let ulRawTrailerSize := getTrailerSize rawTrailer
    let rest := block.drop (ulRawTrailerSize - mbo.scratchPad3.length)
    let mbo := { mbo with scratchPad3 := [], chunkTransferState := .complete }
    -- `AppendTrailer`, which tells the owner of the trailer.
    let mbo := appendBodyBdo mbo .trailer (rawTrailer.take ulRawTrailerSize)
    if rest = [] then ({ mbo with state := .complete }, [.arrivedBody, .completed], notify .completed, true)
    else ({ mbo with state := .overPacked }, [.arrivedBody, .overPacked], notify .overPacked, true)

-- `HttpMboChkProcessChunkData` behind its loop: the last chunk. What has not arrived of the CR LF
-- behind it is made up, and skipped when it comes.
def processLastChunk (mbo : MboChunked) (block : List UInt8) : MboChunked × List BccEvent × Status :=
  if block.take 2 = crlf then
    ({ appendChunkData mbo block true with chunkTransferState := .complete }, [.completed], notify .completed)
  else match block with
    | [] =>
      ({ appendChunkData mbo crlf true with skipSize := 2, chunkTransferState := .trailing },
        [.arrivedBodyPart], notify .arrivedBodyPart)
    | [first] =>
      ({ appendChunkData mbo [first, lineFeed] true with skipSize := 1, chunkTransferState := .trailing },
        [.arrivedBodyPart], notify .arrivedBodyPart)
    | [first, second] =>
      ({ appendChunkData mbo [first, second] true with skipSize := 0, chunkTransferState := .trailing },
        [.arrivedBodyPart], notify .arrivedBodyPart)
    | first :: second :: rest =>
      let mbo := { appendChunkData mbo [first, second] true with skipSize := 0, chunkTransferState := .trailing }
      let (mbo, events, status, bBccIfNotified) := processTrailer notify mbo rest
      if bBccIfNotified then (mbo, events, status)
      else (mbo, events ++ [.arrivedBodyPart], notify .arrivedBodyPart)

/-- A chunk line, as `HttpMboChkProcess` and the loop of `HttpMboChkProcessChunkData` read it; `readData`
goes on behind it. There is no result where NULL is dereferenced. -/
def readChunkLine (mbo : MboChunked) (block : List UInt8) (arrived : List BccEvent)
    (readData : MboChunked → ChunkInfo → List UInt8 → Option (MboChunked × List BccEvent × Status)) :
    Option (MboChunked × List BccEvent × Status) :=
  let rawChunkLine := mbo.scratchPad1 ++ block.take (padSize1 - mbo.scratchPad1.length)
  match findChunkData rawChunkLine with
  | none =>
    if rawChunkLine.length = padSize1 then some ({ mbo with scratchPad1 := rawChunkLine }, [], .badPayload)
    else some ({ mbo with scratchPad1 := rawChunkLine, chunkTransferState := .partLine }, arrived, .success)
  | some ulRawChunkLineSize =>
    match parseChunkedLine w (rawChunkLine.take ulRawChunkLineSize) with
    | none => none
    | some none => some ({ mbo with scratchPad1 := [] }, [], .badPayload)
    | some (some info) =>
      let rest := block.drop (ulRawChunkLineSize - mbo.scratchPad1.length)
      let mbo := addChunkInfo { mbo with scratchPad1 := [] } info (rawChunkLine.take ulRawChunkLineSize)
      readData { mbo with chunkTransferState := .partBody } info rest

/-- The loop of `HttpMboChkProcessChunkData`. Each round takes a chunk line from the block, so the size
of the block bounds their number. -/
def processChunks : Nat → MboChunked → Nat → Nat → List UInt8 → Option (MboChunked × List BccEvent × Status)
  | rounds, mbo, ulChunkSize, ulExpectedChunkSize, block =>
    if ulChunkSize = 0 then some (processLastChunk notify mbo block)
    else if block = [] then some (mbo, [], .success)
    else if ulExpectedChunkSize = block.length then
      some ({ appendChunkData mbo block true with skipSize := 0, chunkTransferState := .complete },
        [.arrivedBodyPart], notify .arrivedBodyPart)
    else if ulExpectedChunkSize > block.length then
      -- What has not arrived of the CR LF behind the data is made up, and skipped when it comes.
      if ulExpectedChunkSize - block.length = 2 then
        some ({ appendChunkData mbo (block ++ crlf) true with skipSize := 2, chunkTransferState := .complete },
          [.arrivedBodyPart], notify .arrivedBodyPart)
      else if ulExpectedChunkSize - block.length = 1 then
        some ({ appendChunkData mbo (block ++ [lineFeed]) true with skipSize := 1, chunkTransferState := .complete },
          [.arrivedBodyPart], notify .arrivedBodyPart)
      else
        some ({ appendChunkData mbo block false with skipSize := 0, chunkTransferState := .partBody },
          [.arrivedBodyPart], notify .arrivedBodyPart)
    else if ulExpectedChunkSize = 0 then none
    else
      let mbo := appendChunkData mbo (block.take ulExpectedChunkSize) true
      readChunkLine w { mbo with chunkTransferState := .complete, scratchPad1 := [] } (block.drop ulExpectedChunkSize)
        [.arrivedBodyPart] fun mbo info rest =>
          match rounds with
          | 0 => none
          | rounds + 1 => processChunks rounds mbo info.chunkSize ((info.chunkSize + 2) % 2 ^ w) rest

def processChunkData (mbo : MboChunked) (block : List UInt8) : Option (MboChunked × List BccEvent × Status) :=
  match mbo.chunkInfoSList with
  | [] => some (mbo, [], .internalError)
  | info :: _ =>
    if block = [] then some (mbo, [.arrivedBodyPart], .success)
    else processChunks w notify block.length mbo info.chunkSize
      (ulongSub w (getExpectedSize mbo) (getArrivedSize mbo)) block

def process (mbo : MboChunked) (block : List UInt8) : Option (MboChunked × List BccEvent × Status) :=
  if 0 < mbo.skipSize ∧ block.length ≤ mbo.skipSize then
    some ({ mbo with skipSize := mbo.skipSize - block.length }, [], .success)
  else
    let block := block.drop mbo.skipSize
    let mbo := { mbo with skipSize := 0 }
    match mbo.state with
    | .empty | .partBody =>
      match mbo.chunkTransferState with
      | .empty | .partLine | .complete =>
        readChunkLine w mbo block [] fun mbo _ rest => processChunkData w notify mbo rest
      | .partBody => processChunkData w notify mbo block
      | .trailing =>
        let (mbo, events, status, _) := processTrailer notify mbo block
        some (mbo, events, status)
      | .reserved => some (mbo, [], .success)
    | .complete | .overPacked => some ({ mbo with state := .overPacked }, [.overPacked], notify .overPacked)
    | .reserved | .unknown => some (mbo, [], .unapplicable)

def feed : MboChunked → List (List UInt8) → Option (MboChunked × List (List BccEvent))
  | mbo, [] => some (mbo, [])
  | mbo, block :: rest =>
    match process w notify mbo block with
    | none => none
    | some (next, events, _) => (feed next rest).map fun (final, later) => (final, events :: later)

end Processing

end CcspCommon.HttpMboChunked
