import CcspCommon.HttpMboChunked.Phases

set_option autoImplicit false

namespace CcspCommon.HttpMboChunked

section Lines

variable {w n : Nat} {body : ChunkedBody} {mbo : MboChunked} {line : ChunkLine} {left : List Chunk}
  {part rest block later behind : List UInt8}

theorem append_cases (split : block ++ later = rest ++ behind) :
    (∃ remaining, remaining ≠ [] ∧ rest = block ++ remaining ∧ later = remaining ++ behind) ∨
      ∃ more, block = rest ++ more ∧ more ++ later = behind := by
  rcases List.append_eq_append_iff.mp split with ⟨remaining, rfl, rfl⟩ | ⟨more, rfl, rfl⟩
  · by_cases nothing : remaining = []
    · subst nothing
      exact .inr ⟨[], by simp, rfl⟩
    · exact .inl ⟨remaining, nothing, rfl, rfl⟩
  · exact .inr ⟨more, rfl, rfl⟩

theorem ChunkLine.read_cases (short : line.bytes.length ≤ padSize1) (whole : part ++ rest = line.bytes)
    (split : block ++ later = rest ++ behind) :
    (∃ remaining, remaining ≠ [] ∧ rest = block ++ remaining ∧ later = remaining ++ behind ∧
        part ++ block.take (padSize1 - part.length) = part ++ block ∧
        HttpMboChunked.findChunkData (part ++ block) = none ∧ (part ++ block).length ≠ padSize1) ∨
      ∃ more, block = rest ++ more ∧ more ++ later = behind ∧
        HttpMboChunked.findChunkData (part ++ block.take (padSize1 - part.length)) = some line.bytes.length ∧
        (part ++ block.take (padSize1 - part.length)).take line.bytes.length = line.bytes ∧
        block.drop (line.bytes.length - part.length) = more := by
  have lengths : part.length + rest.length = line.bytes.length := by rw [← whole, List.length_append]
  rcases append_cases split with ⟨remaining, nonempty, rfl, rfl⟩ | ⟨more, rfl, tail⟩
  · have some := List.length_pos_iff.mpr nonempty
    rw [List.length_append] at lengths
    refine .inl ⟨remaining, nonempty, rfl, rfl, by rw [List.take_of_length_le (by omega)], ?_, ?_⟩
    · refine line.findChunkData_part ⟨remaining, by rw [List.append_assoc, whole]⟩ fun same => ?_
      rw [← same, List.length_append] at lengths
      omega
    · rw [List.length_append]
      omega
  · have raw : part ++ (rest ++ more).take (padSize1 - part.length) =
        line.bytes ++ more.take (padSize1 - line.bytes.length) := by
      rw [List.take_append, List.take_of_length_le (by omega), ← List.append_assoc, whole]
      congr 2
      omega
    refine .inr ⟨more, rfl, tail, ?_, ?_, ?_⟩
    · rw [raw, line.findChunkData]
    · rw [raw, List.take_left]
    · rw [show line.bytes.length - part.length = rest.length by omega, List.drop_left]

theorem ChunkLine.length_bytes (line : ChunkLine) : 3 ≤ line.bytes.length := by
  have some := List.length_pos_iff.mpr line.nonempty
  simp [ChunkLine.bytes, ChunkLine.text]
  omega

theorem ChunkedBody.length_stream (body : ChunkedBody) (left : List Chunk) : 3 ≤ (body.stream left).length := by
  have long := (body.nextLine left).length_bytes
  rw [body.stream_eq, List.length_append]
  omega

theorem ChunkedBody.length_behindLine (body : ChunkedBody) (left : List Chunk) : 2 ≤ (body.behindLine left).length := by
  cases left with
  | nil => simp [behindLine, fields]
  | cons chunk more =>
    simp [behindLine]
    omega

theorem ChunkedBody.Readable.nextLine (readable : body.Readable w) (within : ∀ chunk ∈ left, chunk ∈ body.chunks) :
    (body.nextLine left).Readable w := by
  cases left with
  | nil => exact readable.lastLine
  | cons chunk more => exact readable.lines chunk (within chunk List.mem_cons_self)

theorem notAtEnd {Q : Prop} (long : 3 ≤ later.length) (same : later = crlf) : Q := by
  rw [same] at long
  cases Nat.not_lt_of_le long (Nat.lt_succ_self 2)

end Lines

section Chunks

variable {w n rounds : Nat} (notify : BccEvent → Status) {body : ChunkedBody} {mbo : MboChunked} {left : List Chunk}
  {info : ChunkInfo} {infos : List ChunkInfo} {part rest dataRest block later : List UInt8} {arrived : List BccEvent}
  {readData : MboChunked → ChunkInfo → List UInt8 → Option (MboChunked × List BccEvent × Status)}

theorem readChunkLine_yields (wide : 4 ≤ w) (readable : body.Readable w) (within : ∀ chunk ∈ left, chunk ∈ body.chunks)
    (holds : Holds mbo 0 part [] 0) (whole : part ++ rest = (body.nextLine left).bytes)
    (split : block ++ later = rest ++ body.behindLine left) (quiet : arrived.count .completed = 0)
    (next : ∀ (read : MboChunked) (info : ChunkInfo) (infos : List ChunkInfo) (more : List UInt8),
      block = rest ++ more → more ++ later = body.behindLine left → read.chunkTransferState = .partBody →
      Holds read 0 [] [] ((body.nextLine left).size + 2) → read.chunkInfoSList = info :: infos →
      info.chunkSize = (body.nextLine left).size →
      Yields w body read n later (contentOf left) (readData read info more)) :
    Yields w body mbo n later (contentOf left) (readChunkLine w mbo block arrived readData) := by
  have lineReadable := readable.nextLine within
  unfold readChunkLine
  rcases ChunkLine.read_cases lineReadable.short whole split with
    ⟨remaining, nonempty, rfl, rfl, raw, unfinished, fewer⟩ | ⟨more, rfl, tail, finished, line, dropped⟩
  · simp only [holds.scratchPad1, raw, unfinished]
    rw [if_neg fewer]
    refine ⟨_, _, _, rfl, .awaits [] _ rfl (List.append_nil _).symm ?_ quiet fun _ => notAtEnd ?_⟩
    · exact .line left [] (part ++ block) remaining within (.inr (.inl rfl))
        ⟨holds.state, holds.mode, holds.skipSize, rfl, holds.scratchPad3, holds.expected⟩
        (by rw [List.append_assoc, whole]) nonempty (.inl rfl) (Nat.zero_le 2)
    · have some := List.length_pos_iff.mpr nonempty
      have long := body.length_behindLine left
      rw [List.length_append]
      omega
  · obtain ⟨extArray, parsed⟩ := lineReadable.parseChunkedLine wide
    obtain ⟨held, data⟩ := holds.addChunkInfo ⟨(body.nextLine left).size, extArray.length, extArray⟩
      (body.nextLine left).bytes .partBody
    simp only [holds.scratchPad1, finished, line, parsed, dropped]
    exact (next _ _ _ more rfl tail rfl held rfl rfl).behind data

theorem advances_line {kept : MboChunked} (within : ∀ chunk ∈ left, chunk ∈ body.chunks) (held : Holds kept 0 [] [] 0)
    (data : chunkData kept = chunkData mbo ++ dataRest) (skipped : List UInt8) (few : skipped.length ≤ 2) :
    Advances w body mbo { kept with skipSize := skipped.length, chunkTransferState := .complete } n [.arrivedBodyPart]
      (skipped ++ body.stream left) (dataRest ++ contentOf left) := by
  refine .awaits dataRest (contentOf left) rfl data ?_ rfl fun _ => notAtEnd ?_
  · rw [body.stream_eq, ← List.append_assoc]
    exact .line left skipped [] _ within (.inr (.inr rfl))
      ⟨held.state, held.mode, rfl, held.scratchPad1, held.scratchPad3, held.expected⟩ rfl
      (List.ne_nil_of_length_pos (Nat.lt_of_lt_of_le (by decide) (body.nextLine left).length_bytes)) (.inr rfl) few
  · have long := body.length_stream left
    rw [List.length_append]
    omega

theorem advances_data {kept : MboChunked} {remaining : List UInt8} (within : ∀ chunk ∈ left, chunk ∈ body.chunks)
    (phase : kept.chunkTransferState = .partBody) (held : Holds kept 0 [] [] (remaining.length + 2))
    (head : kept.chunkInfoSList = info :: infos) (size : info.chunkSize ≠ 0) (unread : remaining ≠ [])
    (fits : remaining.length + 2 < 2 ^ w) (data : chunkData kept = chunkData mbo ++ dataRest)
    (quiet : arrived.count .completed = 0) :
    Advances w body mbo kept n arrived (remaining ++ (crlf ++ body.stream left))
      (dataRest ++ (remaining ++ contentOf left)) := by
  refine .awaits dataRest _ rfl data ?_ quiet fun _ => notAtEnd ?_
  · rw [← List.append_assoc]
    exact .data left remaining info infos within phase held head size unread fits
  · have some := List.length_pos_iff.mpr unread
    simp
    omega

theorem processChunks_step (wide : 4 ≤ w) (readable : body.Readable w) (within : ∀ chunk ∈ left, chunk ∈ body.chunks)
    (phase : mbo.chunkTransferState = .partBody) (holds : Holds mbo 0 [] [] (dataRest.length + 2))
    (head : mbo.chunkInfoSList = info :: infos) (size : info.chunkSize ≠ 0) (unread : dataRest ≠ [])
    (fits : dataRest.length + 2 < 2 ^ w) (split : block ++ later = dataRest ++ (crlf ++ body.stream left))
    (enough : block.length ≤ rounds)
    (next : ∀ (read : MboChunked) (info : ChunkInfo) (infos : List ChunkInfo) (more : List UInt8) (rounds : Nat),
      block = dataRest ++ (crlf ++ ((body.nextLine left).bytes ++ more)) → more ++ later = body.behindLine left →
      read.chunkTransferState = .partBody → Holds read 0 [] [] ((body.nextLine left).size + 2) →
      read.chunkInfoSList = info :: infos → info.chunkSize = (body.nextLine left).size → more.length ≤ rounds →
      Yields w body read n later (contentOf left)
        (processChunks w notify rounds read info.chunkSize ((info.chunkSize + 2) % 2 ^ w) more)) :
    Yields w body mbo n later (dataRest ++ contentOf left)
      (processChunks w notify rounds mbo info.chunkSize (dataRest.length + 2) block) := by
  unfold processChunks
  rw [if_neg size]
  rcases append_cases split with ⟨remaining, nonempty, rfl, rfl⟩ | ⟨behind, rfl, tail⟩
  · have some := List.length_pos_iff.mpr nonempty
    rw [List.length_append] at holds fits ⊢
    rw [List.append_assoc]
    by_cases nothing : block = []
    · subst nothing
      rw [if_pos rfl]
      rw [List.length_nil, Nat.zero_add] at holds fits
      exact ⟨_, _, _, rfl, advances_data within phase holds head size nonempty fits (List.append_nil _).symm rfl⟩
    · have appended := appendChunkData_part holds.mode block
      have held : Holds _ 0 [] [] (remaining.length + 2) := Holds.appended (by rwa [← Nat.add_assoc]) appended
      rw [if_neg nothing, if_neg (by omega), if_pos (by omega), if_neg (by omega), if_neg (by omega)]
      have held : Holds { appendChunkData mbo block false with skipSize := 0, chunkTransferState := .partBody }
          0 [] [] (remaining.length + 2) :=
        ⟨held.state, held.mode, rfl, held.scratchPad1, held.scratchPad3, held.expected⟩
      exact ⟨_, _, _, rfl, advances_data within rfl held (appended.chunkInfoSList.trans head) size nonempty (by omega)
        appended.data rfl⟩
  · have appended := appendChunkData_whole holds.mode dataRest carriageReturn lineFeed
    have held : Holds _ 0 [] [] 0 := Holds.appended holds appended
    rw [if_neg (by simp [unread]), List.length_append]
    rcases behind with _ | ⟨one, _ | ⟨two, more⟩⟩
    -- The bytes that were made up are skipped when they come.
    · obtain rfl : later = crlf ++ body.stream left := tail
      rw [List.length_nil, if_neg (by omega), if_pos (by omega), if_pos (by omega), List.append_nil]
      exact ⟨_, _, _, rfl, advances_line within held appended.data crlf (Nat.le_refl 2)⟩
    · obtain ⟨rfl, rfl⟩ := List.cons.inj tail
      rw [List.length_singleton, if_neg (by omega), if_pos (by omega), if_neg (by omega), if_pos (by omega),
        List.append_assoc]
      exact ⟨_, _, _, rfl, advances_line within held appended.data [lineFeed] (by simp)⟩
    · obtain ⟨rfl, feed⟩ := List.cons.inj tail
      obtain ⟨rfl, lines⟩ := List.cons.inj feed
      rw [List.length_cons, List.length_cons]
      by_cases exactly : more = []
      · subst exactly
        obtain rfl : later = body.stream left := lines
        rw [if_pos (by simp)]
        exact ⟨_, _, _, rfl, advances_line within held appended.data [] (Nat.zero_le 2)⟩
      · have some := List.length_pos_iff.mpr exactly
        have data : (dataRest ++ carriageReturn :: lineFeed :: more).take (dataRest.length + 2) =
            dataRest ++ [carriageReturn, lineFeed] := by
          rw [List.take_length_add_append]
          rfl
        have behind : (dataRest ++ carriageReturn :: lineFeed :: more).drop (dataRest.length + 2) = more := by
          rw [List.drop_length_add_append]
          rfl
        rw [if_neg (by omega), if_neg (by omega), if_neg (by omega), data, behind]
        have held : Holds { appendChunkData mbo (dataRest ++ [carriageReturn, lineFeed]) true with
            chunkTransferState := .complete, scratchPad1 := [] } 0 [] [] 0 :=
          ⟨held.state, held.mode, held.skipSize, rfl, held.scratchPad3, held.expected⟩
        have kept : chunkData { appendChunkData mbo (dataRest ++ [carriageReturn, lineFeed]) true with
            chunkTransferState := .complete, scratchPad1 := [] } = chunkData mbo ++ dataRest := appended.data
        rw [body.stream_eq] at lines
        refine Yields.behind kept (readChunkLine_yields wide readable within held (List.nil_append _) lines rfl ?_)
        intro read info infos after whole ending phase holds head size
        obtain rfl := whole
        have shorter : after.length < rounds := by
          simp at enough
          omega
        cases rounds with
        | zero => cases shorter
        | succ rounds =>
          exact next read info infos after rounds rfl ending phase holds head size (Nat.le_of_lt_succ shorter)

theorem processChunks_last (size : info.chunkSize = 0) (expected : Nat) :
    processChunks w notify rounds mbo info.chunkSize expected block = some (processLastChunk notify mbo block) := by
  rw [processChunks, if_pos size]

theorem Chunk.fits {chunk : Chunk} (readable : chunk.line.Readable w) : chunk.data.length + 2 < 2 ^ w := by
  rw [← chunk.size]
  exact readable.fits

theorem processChunks_yields (wide : 4 ≤ w) (readable : body.Readable w) (within : ∀ chunk ∈ left, chunk ∈ body.chunks)
    (phase : mbo.chunkTransferState = .partBody) (holds : Holds mbo 0 [] [] (dataRest.length + 2))
    (head : mbo.chunkInfoSList = info :: infos) (size : info.chunkSize ≠ 0) (unread : dataRest ≠ [])
    (fits : dataRest.length + 2 < 2 ^ w) (split : block ++ later = dataRest ++ (crlf ++ body.stream left))
    (enough : block.length ≤ rounds) (inside : block.length ≤ n) :
    Yields w body mbo n later (dataRest ++ contentOf left)
      (processChunks w notify rounds mbo info.chunkSize (dataRest.length + 2) block) := by
  induction left generalizing mbo dataRest info infos block rounds with
  | nil =>
    refine processChunks_step notify wide readable within phase holds head size unread fits split enough ?_
    intro read info infos more rounds whole ending phase holds head size _
    rw [processChunks_last notify (size.trans body.lastSize)]
    rw [ChunkedBody.nextLine, body.lastSize] at holds
    have some := List.length_pos_iff.mpr unread
    have lengths := congrArg List.length whole
    simp only [List.length_append, ChunkedBody.nextLine] at lengths
    refine ⟨_, _, _, rfl, processLastChunk_advances notify readable holds ending (by omega) fun nothing => ?_⟩
    have two : crlf.length = 2 := rfl
    omega
  | cons chunk left ih =>
    refine processChunks_step notify wide readable within phase holds head size unread fits split enough ?_
    intro read info infos more rounds whole ending phase holds head size enough
    rw [ChunkedBody.nextLine, chunk.size] at holds size
    have fits := Chunk.fits (readable.lines chunk (within chunk List.mem_cons_self))
    have some := List.length_pos_iff.mpr chunk.nonempty
    have expected : (info.chunkSize + 2) % 2 ^ w = chunk.data.length + 2 := by rw [size, Nat.mod_eq_of_lt fits]
    have lengths := congrArg List.length whole
    simp only [List.length_append] at lengths
    rw [expected]
    refine ih (fun other member => within other (List.mem_cons_of_mem _ member)) phase holds head (by omega)
      chunk.nonempty fits ?_ enough (by omega)
    rw [ending, ChunkedBody.behindLine, List.append_assoc]

end Chunks

section Buffers

variable {w n : Nat} (notify : BccEvent → Status) {body : ChunkedBody} {mbo : MboChunked} {left : List Chunk}
  {info : ChunkInfo} {infos : List ChunkInfo} {skipped line trailer block later behind stream content : List UInt8}
  {expects : Nat}

theorem ulongSub_add (fits : expects < 2 ^ w) (arrived : Nat) : ulongSub w (arrived + expects) arrived = expects := by
  have cancel : ((arrived + expects : Nat) : Int) - arrived = (expects : Int) := by omega
  have small : (expects : Int) < 2 ^ w := by exact_mod_cast fits
  rw [ulongSub, cancel, Int.emod_eq_of_lt (Int.natCast_nonneg _) small, Int.toNat_natCast]

theorem processChunkData_eq (holds : Holds mbo 0 [] [] expects) (head : mbo.chunkInfoSList = info :: infos)
    (fits : expects < 2 ^ w) (nonempty : block ≠ []) :
    processChunkData w notify mbo block = processChunks w notify block.length mbo info.chunkSize expects block := by
  unfold processChunkData
  rw [head]
  simp only [if_neg nonempty, holds.expected, ulongSub_add fits]

theorem processChunkData_yields (wide : 4 ≤ w) (readable : body.Readable w)
    (within : ∀ chunk ∈ left, chunk ∈ body.chunks) (phase : mbo.chunkTransferState = .partBody)
    (holds : Holds mbo 0 [] [] ((body.nextLine left).size + 2)) (head : mbo.chunkInfoSList = info :: infos)
    (size : info.chunkSize = (body.nextLine left).size) (split : block ++ later = body.behindLine left)
    (inside : block.length ≤ n) (short : block = [] → n ≤ (body.nextLine left).bytes.length + 2) :
    Yields w body mbo n later (contentOf left) (processChunkData w notify mbo block) := by
  have fits := (readable.nextLine within).fits
  cases left with
  | nil =>
    rw [ChunkedBody.nextLine, body.lastSize] at holds size fits
    by_cases nothing : block = []
    · subst nothing
      obtain rfl : later = fields body.trailer := split
      have result : processChunkData w notify mbo [] = some (mbo, [.arrivedBodyPart], .success) := by
        rw [processChunkData, head]
        rfl
      exact ⟨_, _, _, result, .awaits [] [] rfl (List.append_nil _).symm (.last info infos phase holds head size) rfl
        fun _ _ => short rfl⟩
    · rw [processChunkData_eq notify holds head fits nothing, processChunks_last notify size]
      exact ⟨_, _, _, rfl,
        processLastChunk_advances notify readable holds split inside fun empty => absurd empty nothing⟩
  | cons chunk left =>
    rw [ChunkedBody.nextLine, chunk.size] at holds size fits
    have positive := List.length_pos_iff.mpr chunk.nonempty
    have members : ∀ other ∈ left, other ∈ body.chunks :=
      fun other member => within other (List.mem_cons_of_mem _ member)
    rw [ChunkedBody.behindLine, List.append_assoc] at split
    by_cases nothing : block = []
    · subst nothing
      obtain rfl : later = chunk.data ++ (crlf ++ body.stream left) := split
      have result : processChunkData w notify mbo [] = some (mbo, [.arrivedBodyPart], .success) := by
        rw [processChunkData, head]
        rfl
      exact ⟨_, _, _, result, advances_data members phase holds head (by omega) chunk.nonempty fits
        (List.append_nil _).symm rfl⟩
    · rw [processChunkData_eq notify holds head fits nothing]
      exact processChunks_yields notify wide readable members phase holds head (by omega) chunk.nonempty fits split
        (Nat.le_refl _) inside

theorem process_skip (skip : mbo.skipSize = skipped.length) (nonempty : block ≠ [])
    (split : block ++ later = skipped ++ behind) :
    (∃ remaining, later = remaining ++ behind ∧ skipped ≠ [] ∧ block.length + remaining.length = skipped.length ∧
        process w notify mbo block = some ({ mbo with skipSize := remaining.length }, [], .success)) ∨
      ∃ more, more ≠ [] ∧ block = skipped ++ more ∧ more ++ later = behind ∧
        process w notify mbo block = process w notify { mbo with skipSize := 0 } more := by
  rcases append_cases split with ⟨remaining, some, rfl, rfl⟩ | ⟨more, rfl, ending⟩
  · refine .inl ⟨remaining, rfl, by simp [nonempty], List.length_append.symm, ?_⟩
    have positive := List.length_pos_iff.mpr some
    rw [List.length_append] at skip
    have left : mbo.skipSize - block.length = remaining.length := by omega
    rw [process, if_pos ⟨by omega, by omega⟩, left]
  · by_cases nothing : more = []
    · subst nothing
      rw [List.append_nil] at nonempty ⊢
      have positive := List.length_pos_iff.mpr nonempty
      refine .inl ⟨[], ending, nonempty, rfl, ?_⟩
      rw [process, if_pos ⟨by omega, by omega⟩, skip, Nat.sub_self]
      rfl
    · have positive := List.length_pos_iff.mpr nothing
      refine .inr ⟨more, nothing, rfl, ending, ?_⟩
      rw [process, process, if_neg (by rw [List.length_append]; omega), if_neg (by simp), skip, List.drop_left]
      rfl

theorem process_unskipped (skip : mbo.skipSize = 0) (state : mbo.state = .empty) (block : List UInt8) :
    process w notify mbo block = match mbo.chunkTransferState with
      | .empty | .partLine | .complete =>
        readChunkLine w mbo block [] fun mbo _ rest => processChunkData w notify mbo rest
      | .partBody => processChunkData w notify mbo block
      | .trailing => some ((processTrailer notify mbo block).1, (processTrailer notify mbo block).2.1,
          (processTrailer notify mbo block).2.2.1)
      | .reserved => some (mbo, [], .success) := by
  have same : { mbo with skipSize := 0 } = mbo := by rw [← skip]
  rw [process, if_neg (by omega), same, skip, List.drop_zero]
  cases phase : mbo.chunkTransferState <;> simp only [state, phase]

theorem process_line (skip : mbo.skipSize = 0) (state : mbo.state = .empty)
    (phase : mbo.chunkTransferState = .empty ∨ mbo.chunkTransferState = .partLine ∨
      mbo.chunkTransferState = .complete) (block : List UInt8) :
    process w notify mbo block = readChunkLine w mbo block [] fun mbo _ rest => processChunkData w notify mbo rest := by
  rw [process_unskipped notify skip state]
  rcases phase with phase | phase | phase <;> rw [phase]

theorem process_data (skip : mbo.skipSize = 0) (state : mbo.state = .empty)
    (phase : mbo.chunkTransferState = .partBody) (block : List UInt8) :
    process w notify mbo block = processChunkData w notify mbo block := by
  rw [process_unskipped notify skip state, phase]

theorem process_trailing (skip : mbo.skipSize = 0) (state : mbo.state = .empty)
    (phase : mbo.chunkTransferState = .trailing) (block : List UInt8) :
    process w notify mbo block = some ((processTrailer notify mbo block).1, (processTrailer notify mbo block).2.1,
      (processTrailer notify mbo block).2.2.1) := by
  rw [process_unskipped notify skip state, phase]

theorem process_yields (wide : 4 ≤ w) (readable : body.Readable w) (awaits : Awaits w body mbo stream content)
    (nonempty : block ≠ []) (split : block ++ later = stream) :
    Yields w body mbo block.length later content (process w notify mbo block) := by
  cases awaits with
  | line left skipped part rest within phase holds whole unread fresh few =>
    rw [List.append_assoc] at split
    rcases process_skip notify holds.skipSize nonempty split with
      ⟨remaining, rfl, some, lengths, result⟩ | ⟨more, some, rfl, ending, result⟩
    · obtain rfl := fresh.resolve_left some
      refine ⟨_, _, _, result, .awaits [] _ rfl (List.append_nil _).symm ?_ rfl fun _ _ => by omega⟩
      rw [← List.append_assoc]
      exact .line left remaining [] rest within phase
        ⟨holds.state, holds.mode, rfl, holds.scratchPad1, holds.scratchPad3, holds.expected⟩ whole unread (.inr rfl)
        (by omega)
    · have held : Holds { mbo with skipSize := 0 } 0 part [] 0 :=
        ⟨holds.state, holds.mode, rfl, holds.scratchPad1, holds.scratchPad3, holds.expected⟩
      have kept : chunkData { mbo with skipSize := 0 } = chunkData mbo ++ [] := (List.append_nil _).symm
      rw [result, process_line notify held.skipSize held.state phase]
      refine Yields.behind kept (readChunkLine_yields wide readable within held whole ending rfl ?_)
      intro read info infos after shape behind phase holds head size
      have lengths := congrArg List.length whole
      rw [shape]
      simp only [List.length_append] at lengths ⊢
      refine processChunkData_yields notify wide readable within phase holds head size behind (by omega)
        fun nothing => ?_
      rw [nothing, List.length_nil]
      omega
  | data left dataRest info infos within phase holds head size unread fits =>
    rw [process_data notify holds.skipSize holds.state phase, processChunkData_eq notify holds head fits nonempty]
    rw [List.append_assoc] at split
    exact processChunks_yields notify wide readable within phase holds head size unread fits split (Nat.le_refl _)
      (Nat.le_refl _)
  | last info infos phase holds head size =>
    have fits := readable.lastLine.fits
    rw [body.lastSize] at fits
    rw [process_data notify holds.skipSize holds.state phase, processChunkData_eq notify holds head fits nonempty,
      processChunks_last notify size]
    exact ⟨_, _, _, rfl, processLastChunk_advances notify readable holds split (Nat.le_refl _)
      fun nothing => absurd nothing nonempty⟩
  | trailing first others skipped part rest trailer phase holds whole unread fresh few =>
    obtain ⟨one, two, -, -, plain, shape⟩ := readable.dropTwo trailer
    have fits := readable.shortTrailer
    rw [shape, List.length_cons, List.length_cons] at fits
    rcases process_skip notify holds.skipSize nonempty split with
      ⟨remaining, rfl, some, lengths, result⟩ | ⟨more, some, rfl, ending, result⟩
    · obtain rfl := fresh.resolve_left some
      refine ⟨_, _, _, result, .awaits [] [] rfl (List.append_nil _).symm ?_ rfl fun _ _ => by omega⟩
      exact .trailing first others remaining [] rest trailer phase
        ⟨holds.state, holds.mode, rfl, holds.scratchPad1, holds.scratchPad3, holds.expected⟩ whole unread (.inr rfl)
        (by omega)
    · have held : Holds { mbo with skipSize := 0 } 0 [] part 0 :=
        ⟨holds.state, holds.mode, rfl, holds.scratchPad1, holds.scratchPad3, holds.expected⟩
      have kept : chunkData { mbo with skipSize := 0 } = chunkData mbo ++ [] := (List.append_nil _).symm
      rw [result, process_trailing notify held.skipSize held.state phase, List.length_append]
      exact ⟨_, _, _, rfl, (processTrailer_advances notify trailer plain (by omega) held whole unread ending
        (by omega)).behind kept⟩

end Buffers

section Runs

variable {w : Nat} (notify : BccEvent → Status) {body : ChunkedBody} {mbo after : MboChunked} {block : List UInt8}
  {buffers rest : List (List UInt8)} {stream content : List UInt8} {events : List BccEvent} {status : Status}

theorem feed_cons (result : process w notify mbo block = some (after, events, status))
    (P : MboChunked → List (List BccEvent) → Prop) :
    (∃ final all, feed w notify mbo (block :: rest) = some (final, all) ∧ P final all) ↔
      ∃ final later, feed w notify after rest = some (final, later) ∧ P final (events :: later) := by
  rw [feed, result]
  constructor
  · intro ⟨final, all, run, holds⟩
    obtain ⟨⟨last, later⟩, tail, same⟩ := Option.map_eq_some_iff.mp run
    obtain ⟨rfl, rfl⟩ := Prod.mk.inj same
    exact ⟨last, later, tail, holds⟩
  · intro ⟨final, later, run, holds⟩
    exact ⟨final, events :: later, by simp only [run, Option.map_some], holds⟩

theorem feed_ne_nil {final : MboChunked} {all : List (List BccEvent)} (unread : buffers ≠ [])
    (run : feed w notify mbo buffers = some (final, all)) : all ≠ [] := by
  obtain ⟨block, rest, rfl⟩ := List.exists_cons_of_ne_nil unread
  rintro rfl
  rw [feed] at run
  cases result : process w notify mbo block with
  | none => simp [result] at run
  | some answer => simp [result] at run

theorem feed_skipped {final : MboChunked} {all : List (List BccEvent)} (skip : mbo.skipSize = buffers.flatten.length)
    (nonempty : ∀ buffer ∈ buffers, buffer ≠ []) (run : feed w notify mbo buffers = some (final, all)) :
    all.flatten.count .completed = 0 := by
  induction buffers generalizing mbo all with
  | nil =>
    obtain ⟨-, rfl⟩ := Prod.mk.inj (Option.some.inj run)
    rfl
  | cons block rest ih =>
    obtain ⟨some, others⟩ := List.forall_mem_cons.mp nonempty
    rcases process_skip notify skip some (List.append_nil _).symm with
      ⟨remaining, ending, -, -, result⟩ | ⟨more, unread, -, ending, -⟩
    · rw [List.append_nil] at ending
      rw [feed, result] at run
      obtain ⟨⟨last, later⟩, tail, same⟩ := Option.map_eq_some_iff.mp run
      obtain ⟨rfl, rfl⟩ := Prod.mk.inj same
      have skipped : { mbo with skipSize := remaining.length }.skipSize = rest.flatten.length := by rw [ending]
      rw [List.flatten_cons, List.nil_append]
      exact ih skipped others tail
    · exact absurd (List.append_eq_nil_iff.mp ending).1 unread

theorem CompletesLast.count {all : List (List BccEvent)} (completes : CompletesLast all) :
    all.flatten.count .completed = 1 := by
  obtain ⟨front, last, rfl, quiet, once⟩ := completes
  simp [quiet, once]

theorem flatten_eq_nil (nonempty : ∀ buffer ∈ buffers, buffer ≠ []) (nothing : buffers.flatten = []) :
    buffers = [] := by
  cases buffers with
  | nil => rfl
  | cons first others => exact absurd (List.append_eq_nil_iff.mp nothing).1 (nonempty first List.mem_cons_self)

theorem flatten_singleton {byte : UInt8} (nonempty : ∀ buffer ∈ buffers, buffer ≠ [])
    (whole : buffers.flatten = [byte]) :
    buffers = [[byte]] := by
  rcases buffers with _ | ⟨_ | ⟨head, tail⟩, others⟩
  · cases whole
  · exact absurd rfl (nonempty [] List.mem_cons_self)
  · obtain ⟨rfl, nothing⟩ := List.cons.inj whole
    obtain ⟨rfl, empty⟩ := List.append_eq_nil_iff.mp nothing
    rw [flatten_eq_nil (fun buffer member => nonempty buffer (List.mem_cons_of_mem _ member)) empty]

theorem flatten_pair {one two : UInt8} (nonempty : ∀ buffer ∈ buffers, buffer ≠ [])
    (whole : buffers.flatten = [one, two]) : buffers = [[one, two]] ∨ buffers = [[one], [two]] := by
  rcases buffers with _ | ⟨_ | ⟨head, _ | ⟨second, tail⟩⟩, others⟩
  · cases whole
  · exact absurd rfl (nonempty [] List.mem_cons_self)
  · obtain ⟨rfl, rest⟩ := List.cons.inj whole
    rw [flatten_singleton (fun buffer member => nonempty buffer (List.mem_cons_of_mem _ member)) rest]
    exact .inr rfl
  · obtain ⟨rfl, rest⟩ := List.cons.inj whole
    obtain ⟨rfl, nothing⟩ := List.cons.inj rest
    obtain ⟨rfl, empty⟩ := List.append_eq_nil_iff.mp nothing
    rw [flatten_eq_nil (fun buffer member => nonempty buffer (List.mem_cons_of_mem _ member)) empty]
    exact .inl rfl

theorem Awaits.stream_ne_nil (awaits : Awaits w body mbo stream content) : stream ≠ [] := by
  cases awaits with
  | line left skipped part rest within phase holds whole unread => simp [unread]
  | data => simp
  | last => simp [fields]
  | trailing first others skipped part rest trailer phase holds whole unread =>
    have long : rest ≠ [] := List.ne_nil_of_length_pos (Nat.lt_of_lt_of_le (by decide) unread)
    simp [long]

theorem feed_completes_iff (wide : 4 ≤ w) (readable : body.Readable w) (awaits : Awaits w body mbo stream content)
    (nonempty : ∀ buffer ∈ buffers, buffer ≠ []) (whole : buffers.flatten = stream) :
    (∃ final all, feed w notify mbo buffers = some (final, all) ∧ chunkData final = chunkData mbo ++ content ∧
      CompletesLast all) ↔ UncutEnd body buffers := by
  induction buffers generalizing mbo stream content with
  | nil => exact absurd whole.symm awaits.stream_ne_nil
  | cons block rest ih =>
    obtain ⟨some, others⟩ := List.forall_mem_cons.mp nonempty
    obtain ⟨after, events, status, result, advances⟩ := process_yields notify wide readable awaits some whole
    rw [feed_cons notify result fun final all => chunkData final = chunkData mbo ++ content ∧ CompletesLast all]
    cases advances with
    | awaits kept more shape data next quiet short =>
      have goesOn : rest ≠ [] := by
        rintro rfl
        exact next.stream_ne_nil rfl
      have once : rest = [crlf] → rest.flatten = crlf := by
        rintro rfl
        rfl
      rw [uncutEnd_cons goesOn, ← ih next others rfl]
      constructor
      · intro ⟨final, later, run, both, completes⟩
        rw [shape, ← List.append_assoc, ← data] at both
        have last := (completesLast_cons (feed_ne_nil notify goesOn run)).mp completes
        exact ⟨⟨final, later, run, both, last.2⟩, fun noTrailer same => short noTrailer (once same)⟩
      · intro ⟨⟨final, later, run, both, completes⟩, _⟩
        rw [data, List.append_assoc, ← shape] at both
        exact ⟨final, later, run, both, (completesLast_cons (feed_ne_nil notify goesOn run)).mpr ⟨quiet, completes⟩⟩
    | finished ended data once long =>
      obtain rfl := flatten_eq_nil others ended
      rw [uncutEnd_singleton]
      refine iff_of_true ⟨after, [], rfl, data, completesLast_singleton.mpr once⟩ ?_
      rintro rfl
      cases Nat.lt_irrefl _ long
    | lost noTrailer skipSize quiet shape =>
      refine iff_of_false ?_ ?_
      · intro ⟨final, later, run, _, completes⟩
        have silent := feed_skipped notify skipSize others run
        have count := completes.count
        rw [List.flatten_cons, List.count_append] at count
        omega
      · intro ⟨ending, uncut⟩
        rcases shape with last | ⟨last, long⟩
        · rw [flatten_singleton others last] at ending
          exact ending rfl
        · rcases flatten_pair others last with rfl | rfl
          · exact Nat.not_lt_of_le (uncut noTrailer [] block rfl) long
          · exact ending rfl
    | early shape once =>
      obtain rfl := flatten_singleton others shape
      refine iff_of_false ?_ fun uncut => uncut.1 rfl
      intro ⟨final, later, run, _, completes⟩
      have quiet := ((completesLast_cons (feed_ne_nil notify (List.cons_ne_nil _ _) run)).mp completes).1
      omega

end Runs

section Segmentation

variable {w : Nat} {body : ChunkedBody} {buffers : List (List UInt8)}

theorem fresh_awaits (body : ChunkedBody) : Awaits w body (fresh .store) body.bytes body.content := by
  rw [ChunkedBody.bytes, ChunkedBody.stream_eq]
  exact .line body.chunks [] [] (body.nextLine body.chunks).bytes (fun _ member => member) (.inl rfl)
    ⟨rfl, rfl, rfl, rfl, rfl, rfl⟩ rfl
    (List.ne_nil_of_length_pos (Nat.lt_of_lt_of_le (by decide) (body.nextLine body.chunks).length_bytes)) (.inl rfl)
    (Nat.zero_le 2)

theorem decodes_iff_uncutEnd (wide : 4 ≤ w) (notify : BccEvent → Status) (readable : body.Readable w)
    (nonempty : ∀ buffer ∈ buffers, buffer ≠ []) (whole : buffers.flatten = body.bytes) :
    Decodes w notify body buffers ↔ UncutEnd body buffers :=
  feed_completes_iff notify wide readable (fresh_awaits body) nonempty whole

theorem chunked_body_decodes (wide : 4 ≤ w) (notify : BccEvent → Status) (readable : body.Readable w)
    (nonempty : ∀ buffer ∈ buffers, buffer ≠ []) (whole : buffers.flatten = body.bytes)
    (uncut : UncutEnd body buffers) : Decodes w notify body buffers :=
  (decodes_iff_uncutEnd wide notify readable nonempty whole).mpr uncut

def abcChunk : Chunk where
  line := ⟨[0x33], [], by simp, fun digit member => by rw [List.mem_singleton.mp member]; rfl, by simp, by simp⟩
  data := [0x61, 0x62, 0x63]
  size := rfl
  nonempty := by simp

def zeroLine (more : Nat) : ChunkLine where
  digits := 0x30 :: List.replicate more 0x30
  extension := []
  nonempty := by simp
  hex := by
    intro digit member
    rw [← List.replicate_succ] at member
    rw [List.eq_of_mem_replicate member]
    rfl
  ended := by simp
  plain := by simp

theorem zeroLine_size (more : Nat) : (zeroLine more).size = 0 := by
  have zeros : hexNumber (List.replicate more 0x30) = 0 := by
    induction more with
    | zero => rfl
    | succ more ih => exact ih
  exact zeros

theorem zeroLine_length (more : Nat) : (zeroLine more).bytes.length = more + 3 := by
  simp [zeroLine, ChunkLine.bytes, ChunkLine.text]

def abcBody : ChunkedBody where
  chunks := [abcChunk]
  lastLine := zeroLine 0
  lastSize := rfl
  trailer := [[0x41, 0x3A, 0x62]]
  plain := by
    intro line member
    obtain rfl := List.mem_singleton.mp member
    decide
  named := by simp

theorem abcBody_readable : abcBody.Readable 32 := by
  have single {digits : List UInt8} {other : UInt8} (small : ¬ (0x41 ≤ other ∧ other ≤ 0x46))
    (same : digits = [other]) :
      ∀ digit ∈ digits, ¬ (0x41 ≤ digit ∧ digit ≤ 0x46) := by
    intro digit member
    rw [same] at member
    rwa [List.mem_singleton.mp member]
  constructor
  case lines =>
    intro chunk member
    obtain rfl := List.mem_singleton.mp member
    refine ⟨single (by decide) rfl, ?_, .inl rfl, by decide⟩
    rw [abcChunk.size]
    simp [abcChunk]
  case lastLine =>
    refine ⟨single (by decide) rfl, ?_, .inl rfl, by decide⟩
    rw [abcBody.lastSize]
    simp
  case firstField => simp [abcBody]
  case shortTrailer => decide

theorem chunked_body_decodes_sample :
    Decodes 32 (fun _ => .success) abcBody
      [[0x33, 0x0D], [0x0A, 0x61, 0x62], [0x63, 0x0D], [0x0A, 0x30, 0x0D, 0x0A, 0x41],
        [0x3A, 0x62, 0x0D, 0x0A], [0x0D, 0x0A]] :=
  chunked_body_decodes (by decide) _ abcBody_readable (by decide) rfl ⟨by decide, by simp [abcBody]⟩

def longBody : ChunkedBody where
  chunks := []
  lastLine := zeroLine 126
  lastSize := zeroLine_size 126
  trailer := []
  plain := by simp [PlainLines]
  named := by simp

/-- A chunk line that does not fit the scratch pad is refused, and the body is never complete. -/
theorem long_line_refused :
    longBody.lastLine.bytes.length = 129 ∧ ¬ Decodes 32 (fun _ => .success) longBody [longBody.bytes] := by
  refine ⟨zeroLine_length 126, fun ⟨after, events, run, _, completes⟩ => ?_⟩
  have length := zeroLine_length 126
  have raw : longBody.bytes.take padSize1 = (zeroLine 126).bytes.take padSize1 :=
    List.take_append_of_le_length (Nat.le_trans (by decide) (Nat.le_of_eq length.symm))
  have full : (longBody.bytes.take padSize1).length = padSize1 := by
    rw [raw, List.length_take, length]
    rfl
  have unfinished : findChunkData (longBody.bytes.take padSize1) = none := by
    rw [raw] at full ⊢
    refine (zeroLine 126).findChunkData_part (List.take_prefix _ _) fun same => ?_
    rw [same, length] at full
    cases full
  have refused : process 32 (fun _ => .success) (fresh .store) longBody.bytes =
      some ({ fresh .store with scratchPad1 := longBody.bytes.take padSize1 }, [], .badPayload) := by
    have pad : (fresh .store).scratchPad1 = [] := rfl
    rw [process_line _ rfl rfl (.inl rfl), readChunkLine, pad]
    simp only [List.nil_append, List.length_nil, Nat.sub_zero, unfinished]
    rw [if_pos full]
  rw [feed, refused] at run
  obtain ⟨-, rfl⟩ := Prod.mk.inj (Option.some.inj run)
  cases completes.count

end Segmentation

end CcspCommon.HttpMboChunked
