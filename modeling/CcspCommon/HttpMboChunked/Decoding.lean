import CcspCommon.HttpMboChunked.Process
import Mathlib.Tactic.Common

set_option autoImplicit false

namespace CcspCommon.HttpMboChunked

section Bodies

structure Chunk where
  line : ChunkLine
  data : List UInt8
  size : line.size = data.length
  nonempty : data ≠ []

structure ChunkedBody where
  chunks : List Chunk
  lastLine : ChunkLine
  lastSize : lastLine.size = 0
  trailer : List (List UInt8)
  plain : PlainLines trailer
  named : ∀ first, trailer.head? = some first → 2 ≤ first.length

def contentOf (chunks : List Chunk) : List UInt8 := chunks.flatMap Chunk.data

namespace ChunkedBody

variable (body : ChunkedBody)

def stream : List Chunk → List UInt8
  | [] => body.lastLine.bytes ++ fields body.trailer
  | chunk :: left => chunk.line.bytes ++ (chunk.data ++ crlf ++ stream left)

def bytes : List UInt8 := body.stream body.chunks

def content : List UInt8 := contentOf body.chunks

def nextLine : List Chunk → ChunkLine
  | [] => body.lastLine
  | chunk :: _ => chunk.line

def behindLine : List Chunk → List UInt8
  | [] => fields body.trailer
  | chunk :: left => chunk.data ++ crlf ++ body.stream left

theorem stream_eq (left : List Chunk) : body.stream left = (body.nextLine left).bytes ++ body.behindLine left := by
  cases left <;> rfl

/-- Every line is read as it is meant, and the trailer is found: behind its first two bytes, which are taken for
the CR LF of the last chunk, it starts with a line and fits the scratch pad. -/
structure Readable (w : Nat) : Prop where
  lines : ∀ chunk ∈ body.chunks, chunk.line.Readable w
  lastLine : body.lastLine.Readable w
  firstField : ∀ first, body.trailer.head? = some first → 3 ≤ first.length
  shortTrailer : (fields body.trailer).length ≤ padSize3 + 2

end ChunkedBody

def chunkData (mbo : MboChunked) : List UInt8 := (mbo.bdoQueue.filter fun bdo => bdo.1 = .chunkData).flatMap (·.2)

def CompletesLast (events : List (List BccEvent)) : Prop :=
  ∃ front last, events = front ++ [last] ∧ front.flatten.count .completed = 0 ∧ last.count .completed = 1

def Decodes (w : Nat) (notify : BccEvent → Status) (body : ChunkedBody) (buffers : List (List UInt8)) : Prop :=
  ∃ after events, feed w notify (fresh .store) buffers = some (after, events) ∧
    chunkData after = body.content ∧ CompletesLast events

/-- The last buffer is not the LF alone; and where there is no trailer, it is not the CR LF alone behind a buffer
with the last chunk line and more than the end of a chunk. -/
def UncutEnd (body : ChunkedBody) (buffers : List (List UInt8)) : Prop :=
  buffers.getLast? ≠ some [lineFeed] ∧
    (body.trailer = [] → ∀ front block, buffers = front ++ [block, crlf] →
      block.length ≤ body.lastLine.bytes.length + 2)

end Bodies

section Appending

variable {mbo after final : MboChunked} {kept more : List UInt8} {size extra : Nat}

structure Appended (mbo after : MboChunked) (kept : List UInt8) (size : Nat) : Prop where
  state : after.state = mbo.state
  mode : after.mode = mbo.mode
  chunkTransferState : after.chunkTransferState = mbo.chunkTransferState
  skipSize : after.skipSize = mbo.skipSize
  chunkInfoSList : after.chunkInfoSList = mbo.chunkInfoSList
  scratchPad1 : after.scratchPad1 = mbo.scratchPad1
  scratchPad3 : after.scratchPad3 = mbo.scratchPad3
  data : chunkData after = chunkData mbo ++ kept
  arrived : getArrivedSize after = getArrivedSize mbo + size

theorem Appended.trans (first : Appended mbo after kept size) (second : Appended after final more extra) :
    Appended mbo final (kept ++ more) (size + extra) := by
  constructor
  case state => rw [second.state, first.state]
  case mode => rw [second.mode, first.mode]
  case chunkTransferState => rw [second.chunkTransferState, first.chunkTransferState]
  case skipSize => rw [second.skipSize, first.skipSize]
  case chunkInfoSList => rw [second.chunkInfoSList, first.chunkInfoSList]
  case scratchPad1 => rw [second.scratchPad1, first.scratchPad1]
  case scratchPad3 => rw [second.scratchPad3, first.scratchPad3]
  case data => rw [second.data, first.data, List.append_assoc]
  case arrived => rw [second.arrived, first.arrived, Nat.add_assoc]

theorem appendBodyBdo_data (store : mbo.mode = .store) (block : List UInt8) :
    Appended mbo (appendBodyBdo mbo .chunkData block) block block.length := by
  constructor <;> simp [appendBodyBdo, store, chunkData, getArrivedSize]

theorem appendBodyBdo_crlf (store : mbo.mode = .store) (block : List UInt8) :
    Appended mbo (appendBodyBdo mbo .chunkCrlf block) [] block.length := by
  constructor <;> simp [appendBodyBdo, store, chunkData, getArrivedSize]

theorem appendBodyBdo_line (store : mbo.mode = .store) (block : List UInt8) :
    Appended mbo (appendBodyBdo mbo .chunkLine block) [] 0 := by
  constructor <;> simp [appendBodyBdo, store, chunkData, getArrivedSize]

theorem appendBodyBdo_trailer (store : mbo.mode = .store) (block : List UInt8) :
    Appended mbo (appendBodyBdo mbo .trailer block) [] 0 := by
  constructor <;> simp [appendBodyBdo, store, chunkData, getArrivedSize]

theorem appendChunkData_part (store : mbo.mode = .store) (block : List UInt8) :
    Appended mbo (appendChunkData mbo block false) block block.length := by
  simpa [appendChunkData] using appendBodyBdo_data store block

theorem appendChunkData_whole (store : mbo.mode = .store) (data : List UInt8) (first second : UInt8) :
    Appended mbo (appendChunkData mbo (data ++ [first, second]) true) data (data.length + 2) := by
  have relay : mbo.mode ≠ .relay := by simp [store]
  have two : (data ++ [first, second]).length - 2 = data.length := by simp
  cases data with
  | nil => simpa [appendChunkData, relay] using appendBodyBdo_crlf store [first, second]
  | cons head rest =>
    have kept := appendBodyBdo_data store (head :: rest)
    have both := kept.trans (appendBodyBdo_crlf (kept.mode.trans store) [first, second])
    rw [List.append_nil] at both
    have more : 2 < (head :: rest ++ [first, second]).length := by simp
    rw [appendChunkData, if_neg (by simp), if_neg relay, if_neg (Nat.ne_of_gt more), if_pos more, two]
    simpa using both

end Appending

section Completion

variable {body : ChunkedBody} {block last : List UInt8} {rest : List (List UInt8)}
  {events : List BccEvent} {later : List (List BccEvent)}

theorem completesLast_singleton : CompletesLast [events] ↔ events.count .completed = 1 := by
  constructor
  · intro ⟨front, last, same, _, once⟩
    cases front with
    | nil =>
      obtain rfl := (List.cons.inj same).1
      exact once
    | cons first more => simp at same
  · intro once
    exact ⟨[], events, rfl, rfl, once⟩

theorem completesLast_cons (more : later ≠ []) :
    CompletesLast (events :: later) ↔ events.count .completed = 0 ∧ CompletesLast later := by
  constructor
  · intro ⟨front, last, same, quiet, once⟩
    cases front with
    | nil => exact absurd (List.cons.inj same).2 more
    | cons head others =>
      obtain ⟨rfl, tail⟩ := List.cons.inj same
      rw [List.flatten_cons, List.count_append] at quiet
      exact ⟨by omega, others, last, tail, by omega, once⟩
  · intro ⟨first, front, last, same, quiet, once⟩
    refine ⟨events :: front, last, by rw [same, List.cons_append], ?_, once⟩
    rw [List.flatten_cons, List.count_append, first, quiet]

theorem uncutEnd_singleton : UncutEnd body [block] ↔ block ≠ [lineFeed] := by
  constructor
  · intro uncut same
    exact uncut.1 (by rw [same]; rfl)
  · intro other
    refine ⟨by simpa using other, fun _ front first same => ?_⟩
    have length := congrArg List.length same
    simp at length

theorem uncutEnd_cons (more : rest ≠ []) :
    UncutEnd body (block :: rest) ↔
      UncutEnd body rest ∧ (body.trailer = [] → rest = [crlf] → block.length ≤ body.lastLine.bytes.length + 2) := by
  obtain ⟨second, others, rfl⟩ := List.exists_cons_of_ne_nil more
  have getLast : (block :: second :: others).getLast? = (second :: others).getLast? := List.getLast?_cons_cons
  constructor
  · intro ⟨ending, long⟩
    refine ⟨⟨by rwa [getLast] at ending, fun noTrailer front before same => ?_⟩, fun noTrailer same => ?_⟩
    · exact long noTrailer (block :: front) before (by rw [same, List.cons_append])
    · exact long noTrailer [] block (by rw [same]; rfl)
  · intro ⟨⟨ending, long⟩, first⟩
    refine ⟨by rwa [getLast], fun noTrailer front before same => ?_⟩
    cases front with
    | nil =>
      obtain ⟨rfl, tail⟩ := List.cons.inj same
      exact first noTrailer tail
    | cons head front =>
      obtain ⟨rfl, tail⟩ := List.cons.inj same
      exact long noTrailer front before tail

end Completion

end CcspCommon.HttpMboChunked
