import CcspCommon.HttpMboChunked.Decoding

set_option autoImplicit false

namespace CcspCommon.HttpMboChunked

section Phases

variable (w : Nat) (body : ChunkedBody)

structure Holds (mbo : MboChunked) (skip : Nat) (line trailer : List UInt8) (expects : Nat) : Prop where
  state : mbo.state = .empty
  mode : mbo.mode = .store
  skipSize : mbo.skipSize = skip
  scratchPad1 : mbo.scratchPad1 = line
  scratchPad3 : mbo.scratchPad3 = trailer
  expected : getExpectedSize mbo = getArrivedSize mbo + expects

inductive Awaits (mbo : MboChunked) : List UInt8 → List UInt8 → Prop
  | line (left : List Chunk) (skipped part rest : List UInt8) (within : ∀ chunk ∈ left, chunk ∈ body.chunks)
      (phase : mbo.chunkTransferState = .empty ∨ mbo.chunkTransferState = .partLine ∨
        mbo.chunkTransferState = .complete)
      (holds : Holds mbo skipped.length part [] 0) (whole : part ++ rest = (body.nextLine left).bytes)
      (unread : rest ≠ []) (fresh : skipped = [] ∨ part = []) (few : skipped.length ≤ 2) :
      Awaits mbo (skipped ++ rest ++ body.behindLine left) (contentOf left)
  | data (left : List Chunk) (dataRest : List UInt8) (info : ChunkInfo) (infos : List ChunkInfo)
      (within : ∀ chunk ∈ left, chunk ∈ body.chunks) (phase : mbo.chunkTransferState = .partBody)
      (holds : Holds mbo 0 [] [] (dataRest.length + 2)) (head : mbo.chunkInfoSList = info :: infos)
      (size : info.chunkSize ≠ 0) (unread : dataRest ≠ []) (fits : dataRest.length + 2 < 2 ^ w) :
      Awaits mbo (dataRest ++ crlf ++ body.stream left) (dataRest ++ contentOf left)
  | last (info : ChunkInfo) (infos : List ChunkInfo) (phase : mbo.chunkTransferState = .partBody)
      (holds : Holds mbo 0 [] [] 2) (head : mbo.chunkInfoSList = info :: infos) (size : info.chunkSize = 0) :
      Awaits mbo (fields body.trailer) []
  -- The first two bytes of the trailer were taken for the CR LF of the last chunk.
  | trailing (first : List UInt8) (others : List (List UInt8)) (skipped part rest : List UInt8)
      (trailer : body.trailer = first :: others) (phase : mbo.chunkTransferState = .trailing)
      (holds : Holds mbo skipped.length [] part 0) (whole : part ++ rest = fields (first.drop 2 :: others))
      (unread : 2 ≤ rest.length) (fresh : skipped = [] ∨ part = []) (few : skipped.length ≤ 2) :
      Awaits mbo (skipped ++ rest) []

inductive Advances (mbo after : MboChunked) (n : Nat) (events : List BccEvent) (later content : List UInt8) : Prop
  | awaits (kept more : List UInt8) (whole : content = kept ++ more) (data : chunkData after = chunkData mbo ++ kept)
      (next : Awaits w body after later more) (quiet : events.count .completed = 0)
      (short : body.trailer = [] → later = crlf → n ≤ body.lastLine.bytes.length + 2)
  | finished (ended : later = []) (data : chunkData after = chunkData mbo ++ content)
      (once : events.count .completed = 1) (long : 2 ≤ n)
  -- The rest of the body is skipped, and its end goes unnoticed.
  | lost (noTrailer : body.trailer = []) (skipSize : after.skipSize = later.length)
      (quiet : events.count .completed = 0)
      (rest : later = [lineFeed] ∨ later = crlf ∧ body.lastLine.bytes.length + 2 < n)
  -- The end is noticed in front of the last byte.
  | early (rest : later = [lineFeed]) (once : events.count .completed = 1)

def Yields (mbo : MboChunked) (n : Nat) (later content : List UInt8)
    (result : Option (MboChunked × List BccEvent × Status)) : Prop :=
  ∃ after events status, result = some (after, events, status) ∧ Advances w body mbo after n events later content

end Phases

section Changes

variable {w : Nat} {body : ChunkedBody} {earlier mbo after : MboChunked} {n size expects : Nat}
  {kept later content : List UInt8} {events : List BccEvent} {result : Option (MboChunked × List BccEvent × Status)}

theorem Holds.appended (holds : Holds mbo 0 [] [] (size + expects)) (appended : Appended mbo after kept size) :
    Holds after 0 [] [] expects := by
  constructor
  case state => rw [appended.state, holds.state]
  case mode => rw [appended.mode, holds.mode]
  case skipSize => rw [appended.skipSize, holds.skipSize]
  case scratchPad1 => rw [appended.scratchPad1, holds.scratchPad1]
  case scratchPad3 => rw [appended.scratchPad3, holds.scratchPad3]
  case expected =>
    have same : getExpectedSize after = getExpectedSize mbo := by rw [getExpectedSize, appended.chunkInfoSList]; rfl
    rw [same, holds.expected, appended.arrived, Nat.add_assoc]

theorem Holds.addChunkInfo {part : List UInt8} (holds : Holds mbo 0 part [] 0) (info : ChunkInfo) (line : List UInt8)
    (phase : ChunkTransferState) :
    Holds { HttpMboChunked.addChunkInfo { mbo with scratchPad1 := [] } info line with chunkTransferState := phase }
        0 [] [] (info.chunkSize + 2) ∧
      chunkData
          { HttpMboChunked.addChunkInfo { mbo with scratchPad1 := [] } info line with
            chunkTransferState := phase } =
        chunkData mbo ++ [] := by
  have store : { mbo with scratchPad1 := [] }.mode = .store := holds.mode
  have appended := appendBodyBdo_line store line
  constructor
  · constructor
    case state => exact appended.state.trans holds.state
    case mode => exact appended.mode.trans holds.mode
    case skipSize => exact appended.skipSize.trans holds.skipSize
    case scratchPad1 => exact appended.scratchPad1
    case scratchPad3 => exact appended.scratchPad3.trans holds.scratchPad3
    case expected =>
      have before : getExpectedSize mbo = getArrivedSize mbo := holds.expected
      have arrived : getArrivedSize (HttpMboChunked.addChunkInfo { mbo with scratchPad1 := [] } info line) =
          getArrivedSize mbo := appended.arrived
      have infos : (HttpMboChunked.addChunkInfo { mbo with scratchPad1 := [] } info line).chunkInfoSList =
          info :: mbo.chunkInfoSList := by rw [HttpMboChunked.addChunkInfo, appended.chunkInfoSList]
      have expected : getExpectedSize (HttpMboChunked.addChunkInfo { mbo with scratchPad1 := [] } info line) =
          getArrivedSize mbo + (info.chunkSize + 2) := by
        rw [← before, getExpectedSize, infos, List.map_cons, List.sum_cons, Nat.add_comm]
        rfl
      exact expected.trans (congrArg (· + _) arrived.symm)
  · exact appended.data

theorem Advances.behind (data : chunkData mbo = chunkData earlier ++ kept)
    (advances : Advances w body mbo after n events later content) :
    Advances w body earlier after n events later (kept ++ content) := by
  cases advances with
  | awaits front more whole both next quiet short =>
    exact .awaits _ more (by rw [whole, List.append_assoc]) (by rw [both, data, List.append_assoc]) next quiet short
  | finished ended both once long => exact .finished ended (by rw [both, data, List.append_assoc]) once long
  | lost noTrailer skipSize quiet rest => exact .lost noTrailer skipSize quiet rest
  | early rest once => exact .early rest once

theorem Yields.behind (data : chunkData mbo = chunkData earlier ++ kept)
    (yields : Yields w body mbo n later content result) : Yields w body earlier n later (kept ++ content) result := by
  obtain ⟨after, events, status, same, advances⟩ := yields
  exact ⟨after, events, status, same, advances.behind data⟩

end Changes

section Trailer

variable {w : Nat} (notify : BccEvent → Status) {body : ChunkedBody} {mbo after : MboChunked} {n : Nat}
  {first : List UInt8} {others : List (List UInt8)} {part rest block later content : List UInt8}
  {events told : List BccEvent}

theorem Advances.recount (same : told.count .completed = events.count .completed)
    (advances : Advances w body mbo after n events later content) : Advances w body mbo after n told later content := by
  cases advances with
  | awaits kept more whole data next quiet short => exact .awaits kept more whole data next (same.trans quiet) short
  | finished ended data once long => exact .finished ended data (same.trans once) long
  | lost noTrailer skipSize quiet rest => exact .lost noTrailer skipSize (same.trans quiet) rest
  | early rest once => exact .early rest (same.trans once)

theorem getLast?_fields (lines : List (List UInt8)) : (fields lines).getLast? = some lineFeed := by
  rw [fields, List.getLast?_append]
  rfl

theorem ChunkedBody.Readable.dropTwo (readable : body.Readable w) (trailer : body.trailer = first :: others) :
    ∃ one two, first = one :: two :: first.drop 2 ∧ carriageReturn ∉ first ∧ PlainLines (first.drop 2 :: others) ∧
      fields body.trailer = one :: two :: fields (first.drop 2 :: others) := by
  have long := readable.firstField first (by rw [trailer]; rfl)
  have plain := body.plain
  rw [trailer] at plain ⊢
  obtain ⟨⟨-, notCr, notLf⟩, plainOthers⟩ := List.forall_mem_cons.mp plain
  rcases first with _ | ⟨one, _ | ⟨two, more⟩⟩
  · cases long
  · simp at long
  · refine ⟨one, two, rfl, notCr, ?_, by simp [fields_cons]⟩
    refine List.forall_mem_cons.mpr ⟨⟨?_, ?_, ?_⟩, plainOthers⟩
    · rintro rfl
      simp at long
    · exact fun member => notCr (List.mem_of_mem_drop member)
    · exact fun member => notLf (List.mem_of_mem_drop member)

theorem processTrailer_advances (trailer : body.trailer = first :: others)
    (plain : PlainLines (first.drop 2 :: others)) (fits : (fields (first.drop 2 :: others)).length ≤ padSize3)
    (holds : Holds mbo 0 [] part 0) (whole : part ++ rest = fields (first.drop 2 :: others)) (unread : 2 ≤ rest.length)
    (split : block ++ later = rest) (inside : block.length ≤ n) :
    Advances w body mbo (processTrailer notify mbo block).1 n (processTrailer notify mbo block).2.1 later [] := by
  have lengths : part.length + (block.length + later.length) = (fields (first.drop 2 :: others)).length := by
    rw [← whole, ← split, List.length_append, List.length_append]
  have raw : mbo.scratchPad3 ++ block.take (padSize3 - mbo.scratchPad3.length) = part ++ block := by
    rw [holds.scratchPad3, List.take_of_length_le (by omega)]
  have within : part ++ block <+: fields (first.drop 2 :: others) := ⟨later, by rw [List.append_assoc, split, whole]⟩
  have complete := isTrailerComplete_part plain (List.cons_ne_nil _ _) within
  rw [List.length_append] at complete
  unfold processTrailer
  simp only [raw, complete]
  by_cases ended : later.length < 2
  · have behind : block.drop (getTrailerSize (part ++ block) - mbo.scratchPad3.length) = [] := by
      rw [getTrailerSize_part plain (List.cons_ne_nil _ _) within, holds.scratchPad3, List.length_append]
      exact List.drop_eq_nil_of_le (by omega)
    have store : { mbo with scratchPad3 := [], chunkTransferState := .complete }.mode = .store := holds.mode
    have appended := appendBodyBdo_trailer store ((part ++ block).take (getTrailerSize (part ++ block)))
    rw [decide_eq_true (by omega)]
    simp only [behind, Bool.not_true, Bool.false_eq_true, if_false, if_true]
    rcases later with _ | ⟨last, _ | ⟨second, more⟩⟩
    · have all : block = rest := by simpa using split
      exact .finished rfl appended.data rfl (by rw [← all] at unread; omega)
    · have same : (fields (first.drop 2 :: others)).getLast? = some last := by
        rw [← whole, ← split, ← List.append_assoc]
        simp
      rw [getLast?_fields] at same
      obtain rfl := Option.some.inj same
      exact .early rfl rfl
    · rw [List.length_cons, List.length_cons] at ended
      omega
  · rw [decide_eq_false (by omega)]
    simp only [Bool.not_false, if_true]
    rw [if_neg (by rw [List.length_append]; omega)]
    refine .awaits [] [] rfl (List.append_nil _).symm ?_ rfl (fun noTrailer => ?_)
    · exact .trailing first others [] (part ++ block) later trailer rfl
        ⟨holds.state, holds.mode, holds.skipSize, holds.scratchPad1, rfl, holds.expected⟩
        (by rw [List.append_assoc, split, whole]) (by omega) (.inl rfl) (by simp)
    · rw [trailer] at noTrailer
      cases noTrailer

theorem Holds.twoBytes (holds : Holds mbo 0 [] [] 2) (one two : UInt8) :
    Holds (appendChunkData mbo [one, two] true) 0 [] [] 0 ∧
      chunkData (appendChunkData mbo [one, two] true) = chunkData mbo := by
  have appended := appendChunkData_whole holds.mode [] one two
  exact ⟨Holds.appended holds appended, appended.data.trans (List.append_nil _)⟩

theorem processLastChunk_advances (readable : body.Readable w) (holds : Holds mbo 0 [] [] 2)
    (split : block ++ later = fields body.trailer) (inside : block.length ≤ n)
    (behind : block = [] → body.lastLine.bytes.length + 2 < n) :
    Advances w body mbo (processLastChunk notify mbo block).1 n (processLastChunk notify mbo block).2.1 later [] := by
  cases trailer : body.trailer with
  | nil =>
    rw [trailer, fields_nil] at split
    rcases block with _ | ⟨one, _ | ⟨two, more⟩⟩
    · exact .lost trailer (by rw [← List.nil_append later, split]; rfl) rfl (.inr ⟨split, behind rfl⟩)
    · obtain ⟨rfl, rfl⟩ := List.cons.inj split
      exact .lost trailer rfl rfl (.inl rfl)
    · obtain ⟨rfl, tail⟩ := List.cons.inj split
      obtain ⟨rfl, nothing⟩ := List.cons.inj tail
      obtain ⟨rfl, rfl⟩ := List.append_eq_nil_iff.mp nothing
      have appended := holds.twoBytes carriageReturn lineFeed
      exact .finished rfl (appended.2.trans (List.append_nil _).symm) rfl inside
  | cons first others =>
    obtain ⟨one, two, shape, notCr, plain, stream⟩ := readable.dropTwo trailer
    have short := readable.shortTrailer
    have longer : body.trailer ≠ [] := by simp [trailer]
    rw [stream] at split short
    rw [List.length_cons, List.length_cons] at short
    have long := length_fields_pos plain (List.cons_ne_nil _ _)
    have pass : block.take 2 ≠ crlf := by
      intro same
      rcases block with _ | ⟨head, tail⟩
      · cases same
      · obtain ⟨rfl, -⟩ := List.cons.inj split
        obtain ⟨rfl, -⟩ := List.cons.inj same
        exact notCr (by rw [shape]; exact List.mem_cons_self)
    unfold processLastChunk
    rw [if_neg pass]
    have awaiting {kept : MboChunked} (held : Holds kept 0 [] [] 0) (data : chunkData kept = chunkData mbo)
        (skipped : List UInt8) (few : skipped.length ≤ 2) :
        Advances w body mbo { kept with skipSize := skipped.length, chunkTransferState := .trailing } n
          [.arrivedBodyPart] (skipped ++ fields (first.drop 2 :: others)) [] :=
      .awaits [] [] rfl (data.trans (List.append_nil _).symm)
        (.trailing first others skipped [] _ trailer rfl
          ⟨held.state, held.mode, rfl, held.scratchPad1, held.scratchPad3, held.expected⟩ rfl (by omega) (.inr rfl) few)
        rfl (fun nothing => absurd nothing longer)
    rcases block with _ | ⟨head, _ | ⟨second, _ | ⟨third, more⟩⟩⟩
    -- The bytes that were made up are skipped when they come.
    · have appended := holds.twoBytes carriageReturn lineFeed
      obtain rfl : later = [one, two] ++ fields (first.drop 2 :: others) := split
      exact awaiting appended.1 appended.2 [one, two] (Nat.le_refl 2)
    · obtain ⟨rfl, rfl⟩ := List.cons.inj split
      have appended := holds.twoBytes head lineFeed
      exact awaiting appended.1 appended.2 [two] (by simp)
    · obtain ⟨rfl, tail⟩ := List.cons.inj split
      obtain ⟨rfl, rfl⟩ := List.cons.inj tail
      have appended := holds.twoBytes head second
      exact awaiting appended.1 appended.2 [] (Nat.zero_le 2)
    · obtain ⟨rfl, tail⟩ := List.cons.inj split
      obtain ⟨rfl, lines⟩ := List.cons.inj tail
      have appended := holds.twoBytes head second
      have within : (third :: more).length ≤ n := by rw [List.length_cons, List.length_cons] at inside; omega
      have read {kept : MboChunked} (held : Holds kept 0 [] [] 0) (data : chunkData kept = chunkData mbo) :=
        (processTrailer_advances (w := w) notify trailer plain (by omega) held (List.nil_append _) (by omega) lines
          within).behind (data.trans (List.append_nil _).symm)
      have held : Holds { appendChunkData mbo [head, second] true with skipSize := 0, chunkTransferState := .trailing }
          0 [] [] 0 := ⟨appended.1.state, appended.1.mode, rfl, appended.1.scratchPad1, appended.1.scratchPad3,
        appended.1.expected⟩
      have advances := read held appended.2
      simp only at advances ⊢
      split
      next ended => exact advances
      next goesOn => exact advances.recount (by simp)

end Trailer

end CcspCommon.HttpMboChunked
