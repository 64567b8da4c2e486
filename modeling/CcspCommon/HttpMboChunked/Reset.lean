import CcspCommon.HttpMboChunked.Segmentation

set_option autoImplicit false

namespace CcspCommon.HttpMboChunked

open CcspCommon.HttpMessageBody (MboState MboMode)

section Resetting

-- `HttpMboChkReset`, which leaves `ArrivedSize`, `SkipSize` and `ChunkInfoSList` as they are.
def reset (mbo : MboChunked) : MboChunked :=
  { mbo with
    state := .empty
    mode := .relay
    transferSize := 0
    entitySize := 0
    chunkTransferState := .empty
    scratchPad1 := []
    scratchPad3 := [] }

def reuse (mbo : MboChunked) (mode : MboMode) : MboChunked := { reset mbo with bdoQueue := [], mode := mode }

def observed (run : Option (MboChunked × List (List BccEvent))) : Option (List (List BccEvent) × List UInt8) :=
  run.map fun (final, events) => (events, chunkData final)

def ForgetsPrevious (w : Nat) (notify : BccEvent → Status) (mbo : MboChunked) (mode : MboMode) : Prop :=
  ∀ buffers, observed (feed w notify (reuse mbo mode) buffers) = observed (feed w notify (fresh mode) buffers)

def countedBefore (mode : MboMode) (arrivedSize : Nat) : Nat :=
  match mode with
  | .empty | .relay => arrivedSize
  | .store | .storeExternal => 0

theorem ulongSub_eq_iff {w first second n : Nat} (fits : n < 2 ^ w) :
    ulongSub w first second = n ↔ first ≡ second + n [MOD 2 ^ w] := by
  have positive : (0 : Int) < 2 ^ w := by positivity
  have small : ((n : Int)) % 2 ^ w = n := Int.emod_eq_of_lt (Int.natCast_nonneg _) (by exact_mod_cast fits)
  have nonneg := Int.emod_nonneg ((first : Int) - second) positive.ne'
  have same : ulongSub w first second = n ↔ (first : Int) - second ≡ n [ZMOD 2 ^ w] := by
    rw [ulongSub, Int.ModEq, small]
    omega
  rw [same, ← Int.natCast_modEq_iff, Nat.cast_add, Nat.cast_pow, Nat.cast_ofNat]
  constructor
  · intro less
    simpa using less.add_left (second : Int)
  · intro less
    simpa using less.sub_right (second : Int)

theorem ulongSub_congr {w more extra : Nat} (balanced : more ≡ extra [MOD 2 ^ w]) (first second : Nat) :
    ulongSub w (first + more) (second + extra) = ulongSub w first second := by
  have positive : (0 : Int) < 2 ^ w := by positivity
  have fits : ulongSub w first second < 2 ^ w := by
    have small := Int.emod_lt_of_pos ((first : Int) - second) positive
    rw [ulongSub, Int.toNat_lt (Int.emod_nonneg _ positive.ne')]
    exact_mod_cast small
  rw [ulongSub_eq_iff fits, Nat.add_right_comm]
  exact ((ulongSub_eq_iff fits).mp rfl).add balanced

end Resetting

section Fields

variable (mbo : MboChunked)

theorem appendBodyBdo_mode (reserved1 : BlockType) (block : List UInt8) :
    (appendBodyBdo mbo reserved1 block).mode = mbo.mode := by
  cases mode : mbo.mode <;> cases reserved1 <;> simp [appendBodyBdo, mode]

theorem appendBodyBdo_chunkInfoSList (reserved1 : BlockType) (block : List UInt8) :
    (appendBodyBdo mbo reserved1 block).chunkInfoSList = mbo.chunkInfoSList := by
  cases mode : mbo.mode <;> cases reserved1 <;> simp [appendBodyBdo, mode]

theorem appendChunkData_mode (block : List UInt8) (bHasCrlf : Bool) :
    (appendChunkData mbo block bHasCrlf).mode = mbo.mode := by
  unfold appendChunkData
  split_ifs <;> simp only [appendBodyBdo_mode]

theorem appendChunkData_chunkInfoSList (block : List UInt8) (bHasCrlf : Bool) :
    (appendChunkData mbo block bHasCrlf).chunkInfoSList = mbo.chunkInfoSList := by
  unfold appendChunkData
  split_ifs <;> simp only [appendBodyBdo_chunkInfoSList]

end Fields

section Carrying

variable {w : Nat} (notify : BccEvent → Status) {mode : MboMode} (infos : List ChunkInfo) (arrived : Nat)
  (mbo : MboChunked)

def carrying : MboChunked :=
  { mbo with chunkInfoSList := mbo.chunkInfoSList ++ infos, arrivedSize := mbo.arrivedSize + arrived }

theorem carrying_appendBodyBdo (reserved1 : BlockType) (block : List UInt8) :
    appendBodyBdo (carrying infos arrived mbo) reserved1 block =
      carrying infos arrived (appendBodyBdo mbo reserved1 block) := by
  cases mode : mbo.mode <;> cases reserved1 <;> simp [appendBodyBdo, carrying, mode, Nat.add_right_comm]

theorem carrying_appendChunkData (block : List UInt8) (bHasCrlf : Bool) :
    appendChunkData (carrying infos arrived mbo) block bHasCrlf =
      carrying infos arrived (appendChunkData mbo block bHasCrlf) := by
  have same : (carrying infos arrived mbo).mode = mbo.mode := rfl
  unfold appendChunkData
  rw [same]
  split_ifs with part relay
  · exact carrying_appendBodyBdo infos arrived mbo _ _
  · simp only [carrying, Nat.add_right_comm]
  · exact carrying_appendBodyBdo infos arrived mbo _ _
  · rw [carrying_appendBodyBdo, carrying_appendBodyBdo]
  · exact carrying_appendBodyBdo infos arrived mbo _ _

theorem carrying_addChunkInfo (info : ChunkInfo) (rawChunkLine : List UInt8) :
    addChunkInfo (carrying infos arrived mbo) info rawChunkLine =
      carrying infos arrived (addChunkInfo mbo info rawChunkLine) := by
  simp only [addChunkInfo, carrying_appendBodyBdo]
  rfl

theorem carrying_getExpectedSize :
    getExpectedSize (carrying infos arrived mbo) =
      getExpectedSize mbo + (infos.map fun info => info.chunkSize + 2).sum := by
  simp [getExpectedSize, carrying]

theorem carrying_getArrivedSize :
    getArrivedSize (carrying infos arrived mbo) = getArrivedSize mbo + countedBefore mbo.mode arrived := by
  have same : (carrying infos arrived mbo).mode = mbo.mode := rfl
  unfold getArrivedSize countedBefore
  rw [same]
  cases mbo.mode <;> rfl

structure Headed (mode : MboMode) (mbo : MboChunked) : Prop where
  mode : mbo.mode = mode
  head : mbo.chunkTransferState = .partBody → mbo.chunkInfoSList ≠ []

inductive Follows (mode : MboMode) : Option (MboChunked × List BccEvent × Status) →
    Option (MboChunked × List BccEvent × Status) → Prop
  | stuck : Follows mode none none
  | goesOn (old new : MboChunked) (events : List BccEvent) (status : Status) (same : old = carrying infos arrived new)
      (headed : Headed mode new) : Follows mode (some (old, events, status)) (some (new, events, status))

variable {mbo} {block : List UInt8}

theorem processTrailer_carrying :
    processTrailer notify (carrying infos arrived mbo) block =
      (carrying infos arrived (processTrailer notify mbo block).1, (processTrailer notify mbo block).2) := by
  have pad : (carrying infos arrived mbo).scratchPad3 = mbo.scratchPad3 := rfl
  have kept (taken : List UInt8) :
      appendBodyBdo { carrying infos arrived mbo with scratchPad3 := [], chunkTransferState := .complete }
        .trailer taken =
        carrying infos arrived
          (appendBodyBdo { mbo with scratchPad3 := [], chunkTransferState := .complete } .trailer taken) :=
    carrying_appendBodyBdo infos arrived { mbo with scratchPad3 := [], chunkTransferState := .complete } .trailer taken
  unfold processTrailer
  simp only [pad, kept]
  split_ifs <;> rfl

theorem Headed.elsewhere (same : mbo.mode = mode) (outside : mbo.chunkTransferState ≠ .partBody) : Headed mode mbo :=
  ⟨same, fun inside => absurd inside outside⟩

theorem processTrailer_headed (headed : Headed mode mbo) : Headed mode (processTrailer notify mbo block).1 := by
  have kept (taken : List UInt8) : Headed mode
      (appendBodyBdo { mbo with scratchPad3 := [], chunkTransferState := .complete } .trailer taken) := by
    constructor
    case mode => exact (appendBodyBdo_mode _ _ _).trans headed.mode
    case head =>
      cases mode : mbo.mode <;> simp [appendBodyBdo]
  unfold processTrailer
  dsimp only
  split_ifs
  · exact ⟨headed.mode, headed.head⟩
  · exact .elsewhere headed.mode (by simp)
  · exact ⟨(kept _).mode, (kept _).head⟩
  · exact ⟨(kept _).mode, (kept _).head⟩

theorem processLastChunk_carrying :
    processLastChunk notify (carrying infos arrived mbo) block =
      (carrying infos arrived (processLastChunk notify mbo block).1, (processLastChunk notify mbo block).2) := by
  have behind (taken rest : List UInt8) :
      processTrailer notify { carrying infos arrived (appendChunkData mbo taken true) with
          skipSize := 0, chunkTransferState := .trailing } rest =
        (carrying infos arrived (processTrailer notify { appendChunkData mbo taken true with
            skipSize := 0, chunkTransferState := .trailing } rest).1,
          (processTrailer notify { appendChunkData mbo taken true with
            skipSize := 0, chunkTransferState := .trailing } rest).2) :=
    @processTrailer_carrying notify infos arrived
      { appendChunkData mbo taken true with skipSize := 0, chunkTransferState := .trailing } rest
  unfold processLastChunk
  simp only [carrying_appendChunkData]
  split_ifs with ended
  · rfl
  · rcases block with _ | ⟨first, _ | ⟨second, _ | ⟨third, rest⟩⟩⟩
    · rfl
    · rfl
    · rfl
    · simp only [behind]
      split_ifs <;> rfl

theorem processLastChunk_headed (headed : Headed mode mbo) : Headed mode (processLastChunk notify mbo block).1 := by
  have same (taken : List UInt8) : (appendChunkData mbo taken true).mode = mode :=
    (appendChunkData_mode mbo taken true).trans headed.mode
  unfold processLastChunk
  split_ifs with ended
  · exact .elsewhere (same _) (by simp)
  · rcases block with _ | ⟨first, _ | ⟨second, _ | ⟨third, rest⟩⟩⟩
    · exact .elsewhere (same _) (by simp)
    · exact .elsewhere (same _) (by simp)
    · exact .elsewhere (same _) (by simp)
    · have trailing : Headed mode { appendChunkData mbo [first, second] true with
          skipSize := 0, chunkTransferState := .trailing } := .elsewhere (same _) (by simp)
      have after := @processTrailer_headed notify mode _ (third :: rest) trailing
      dsimp only
      split_ifs
      · exact after
      · exact after

theorem readChunkLine_follows {events : List BccEvent}
    {readData : MboChunked → ChunkInfo → List UInt8 → Option (MboChunked × List BccEvent × Status)}
    (headed : Headed mode mbo)
    (next : ∀ read info rest, Headed mode read → read.chunkInfoSList ≠ [] →
      Follows infos arrived mode (readData (carrying infos arrived read) info rest) (readData read info rest)) :
    Follows infos arrived mode (readChunkLine w (carrying infos arrived mbo) block events readData)
      (readChunkLine w mbo block events readData) := by
  have pad : (carrying infos arrived mbo).scratchPad1 = mbo.scratchPad1 := rfl
  unfold readChunkLine
  simp only [pad]
  cases findChunkData (mbo.scratchPad1 ++ block.take (padSize1 - mbo.scratchPad1.length)) with
  | none =>
    dsimp only
    split_ifs with full
    · exact .goesOn _ _ _ _ rfl ⟨headed.mode, headed.head⟩
    · exact .goesOn _ _ _ _ rfl (.elsewhere headed.mode (by simp))
  | some ulRawChunkLineSize =>
    dsimp only
    cases parseChunkedLine w ((mbo.scratchPad1 ++ block.take (padSize1 - mbo.scratchPad1.length)).take
        ulRawChunkLineSize) with
    | none => exact .stuck
    | some parsed =>
      cases parsed with
      | none => exact .goesOn _ _ _ _ rfl ⟨headed.mode, headed.head⟩
      | some info =>
        have kept (line : List UInt8) :
            { addChunkInfo { carrying infos arrived mbo with scratchPad1 := [] } info line with
              chunkTransferState := .partBody } =
            carrying infos arrived { addChunkInfo { mbo with scratchPad1 := [] } info line with
              chunkTransferState := .partBody } :=
          congrArg (fun read : MboChunked => { read with chunkTransferState := .partBody })
            (carrying_addChunkInfo infos arrived { mbo with scratchPad1 := [] } info line)
        have known (line : List UInt8) :
            (addChunkInfo { mbo with scratchPad1 := [] } info line).chunkInfoSList ≠ [] := List.cons_ne_nil _ _
        have same (line : List UInt8) : (addChunkInfo { mbo with scratchPad1 := [] } info line).mode = mode :=
          (appendBodyBdo_mode _ _ _).trans headed.mode
        dsimp only
        rw [kept]
        exact next _ _ _ ⟨same _, fun _ => known _⟩ (known _)

theorem processChunks_follows {rounds ulChunkSize ulExpectedChunkSize : Nat} (headed : Headed mode mbo)
    (known : mbo.chunkInfoSList ≠ []) :
    Follows infos arrived mode
      (processChunks w notify rounds (carrying infos arrived mbo) ulChunkSize ulExpectedChunkSize block)
      (processChunks w notify rounds mbo ulChunkSize ulExpectedChunkSize block) := by
  induction rounds using Nat.strong_induction_on generalizing mbo ulChunkSize ulExpectedChunkSize block with
  | _ rounds ih =>
    have same (taken : List UInt8) (bHasCrlf : Bool) : (appendChunkData mbo taken bHasCrlf).mode = mode :=
      (appendChunkData_mode mbo taken bHasCrlf).trans headed.mode
    have head (taken : List UInt8) (bHasCrlf : Bool) : (appendChunkData mbo taken bHasCrlf).chunkInfoSList ≠ [] := by
      rwa [appendChunkData_chunkInfoSList]
    unfold processChunks
    simp only [carrying_appendChunkData]
    split_ifs
    · rw [processLastChunk_carrying]
      exact .goesOn _ _ _ _ rfl (processLastChunk_headed notify headed)
    · exact .goesOn _ _ _ _ rfl headed
    · exact .goesOn _ _ _ _ rfl ⟨same _ _, fun _ => head _ _⟩
    · exact .goesOn _ _ _ _ rfl ⟨same _ _, fun _ => head _ _⟩
    · exact .goesOn _ _ _ _ rfl ⟨same _ _, fun _ => head _ _⟩
    · exact .goesOn _ _ _ _ rfl ⟨same _ _, fun _ => head _ _⟩
    · exact .stuck
    · have data : Headed mode { appendChunkData mbo (block.take ulExpectedChunkSize) true with
          chunkTransferState := .complete, scratchPad1 := [] } := .elsewhere (same _ _) (by simp)
      refine readChunkLine_follows infos arrived data fun read info rest headed known => ?_
      cases rounds with
      | zero => exact .stuck
      | succ rounds => exact ih rounds (Nat.lt_succ_self rounds) headed known

section Balanced

variable (balanced : (infos.map fun info => info.chunkSize + 2).sum ≡ countedBefore mode arrived [MOD 2 ^ w])
include balanced

theorem processChunkData_follows (headed : Headed mode mbo) (known : mbo.chunkInfoSList ≠ []) :
    Follows infos arrived mode (processChunkData w notify (carrying infos arrived mbo) block)
      (processChunkData w notify mbo block) := by
  have expected : ulongSub w (getExpectedSize (carrying infos arrived mbo))
    (getArrivedSize (carrying infos arrived mbo)) =
      ulongSub w (getExpectedSize mbo) (getArrivedSize mbo) := by
    rw [carrying_getExpectedSize, carrying_getArrivedSize, headed.mode]
    exact ulongSub_congr balanced _ _
  obtain ⟨info, others, shape⟩ := List.exists_cons_of_ne_nil known
  have shapes : (carrying infos arrived mbo).chunkInfoSList = info :: (others ++ infos) :=
    congrArg (· ++ infos) shape
  unfold processChunkData
  rw [shape, shapes]
  dsimp only
  split_ifs with nothing
  · exact .goesOn _ _ _ _ rfl headed
  · rw [expected]
    exact processChunks_follows notify infos arrived headed known

theorem process_follows (headed : Headed mode mbo) :
    Follows infos arrived mode (process w notify (carrying infos arrived mbo) block) (process w notify mbo block) := by
  have line (read : MboChunked) (block : List UInt8) (headed : Headed mode read) : Follows infos arrived mode
      (readChunkLine w (carrying infos arrived read) block [] fun mbo _ rest => processChunkData w notify mbo rest)
      (readChunkLine w read block [] fun mbo _ rest => processChunkData w notify mbo rest) :=
    readChunkLine_follows infos arrived headed
      fun _ _ _ headed known => processChunkData_follows notify infos arrived balanced headed known
  have trailer (read : MboChunked) (block : List UInt8) (headed : Headed mode read) : Follows infos arrived mode
      (some ((processTrailer notify (carrying infos arrived read) block).1,
        (processTrailer notify (carrying infos arrived read) block).2.1,
        (processTrailer notify (carrying infos arrived read) block).2.2.1))
      (some ((processTrailer notify read block).1, (processTrailer notify read block).2.1,
        (processTrailer notify read block).2.2.1)) := by
    rw [processTrailer_carrying]
    exact .goesOn _ _ _ _ rfl (processTrailer_headed notify headed)
  have unskipped : Headed mode { mbo with skipSize := 0 } := ⟨headed.mode, headed.head⟩
  have skip : (carrying infos arrived mbo).skipSize = mbo.skipSize := rfl
  unfold process
  simp only [skip]
  split_ifs with skipped
  · exact .goesOn _ _ _ _ rfl ⟨headed.mode, headed.head⟩
  · obtain ⟨state, _, _, _, _, phase, _, _, _, _, _⟩ := mbo
    cases state with
    | reserved => exact .goesOn _ _ _ _ rfl unskipped
    | unknown => exact .goesOn _ _ _ _ rfl unskipped
    | complete => exact .goesOn _ _ _ _ rfl ⟨headed.mode, headed.head⟩
    | overPacked => exact .goesOn _ _ _ _ rfl ⟨headed.mode, headed.head⟩
    | empty =>
      cases phase with
      | reserved => exact .goesOn _ _ _ _ rfl unskipped
      | empty => exact line _ _ unskipped
      | partLine => exact line _ _ unskipped
      | complete => exact line _ _ unskipped
      | partBody => exact processChunkData_follows notify infos arrived balanced unskipped (unskipped.head rfl)
      | trailing => exact trailer _ _ unskipped
    | partBody =>
      cases phase with
      | reserved => exact .goesOn _ _ _ _ rfl unskipped
      | empty => exact line _ _ unskipped
      | partLine => exact line _ _ unskipped
      | complete => exact line _ _ unskipped
      | partBody => exact processChunkData_follows notify infos arrived balanced unskipped (unskipped.head rfl)
      | trailing => exact trailer _ _ unskipped

theorem observed_feed (headed : Headed mode mbo) (buffers : List (List UInt8)) :
    observed (feed w notify (carrying infos arrived mbo) buffers) = observed (feed w notify mbo buffers) := by
  induction buffers generalizing mbo with
  | nil => rfl
  | cons block rest ih =>
    have step := @process_follows w notify mode infos arrived _ block balanced headed
    rw [feed, feed]
    generalize process w notify (carrying infos arrived mbo) block = old at step ⊢
    generalize process w notify mbo block = new at step ⊢
    cases step with
    | stuck => rfl
    | goesOn old new events status same headed =>
      subst same
      have later := congrArg (Option.map fun (run : List (List BccEvent) × List UInt8) => (events :: run.1, run.2))
        (ih headed)
      rw [observed, observed, Option.map_map, Option.map_map] at later ⊢
      exact later

end Balanced

end Carrying

section Forgetting

variable {w : Nat} (notify : BccEvent → Status) {mode : MboMode} {mbo : MboChunked}

def sizeOne : List UInt8 := [0x31, 0x0D, 0x0A]

def behindSizeOne (mbo : MboChunked) : MboChunked :=
  { addChunkInfo { mbo with scratchPad1 := [] } ⟨1, 0, []⟩ sizeOne with chunkTransferState := .partBody }

theorem readChunkLine_sizeOne (wide : 4 ≤ w) (pad : mbo.scratchPad1 = []) (rest : List UInt8) (events : List BccEvent)
    (readData : MboChunked → ChunkInfo → List UInt8 → Option (MboChunked × List BccEvent × Status)) :
    readChunkLine w mbo (sizeOne ++ rest) events readData = readData (behindSizeOne mbo) ⟨1, 0, []⟩ rest := by
  have size : readChunkSize w 0 [0x31] = 1 := Nat.mod_eq_of_lt (Nat.one_lt_two_pow (by omega))
  have parsed : parseChunkedLine w sizeOne = some (some ⟨readChunkSize w 0 [0x31], 0, []⟩) := rfl
  have found (behind : List UInt8) : findChunkData (sizeOne ++ behind) = some 3 := rfl
  have line (behind : List UInt8) : (sizeOne ++ behind).take 3 = sizeOne := rfl
  have raw : mbo.scratchPad1 ++ (sizeOne ++ rest).take (padSize1 - mbo.scratchPad1.length) =
      sizeOne ++ rest.take 125 := by
    rw [pad]
    rfl
  rw [size] at parsed
  unfold readChunkLine
  simp only [raw, found, line, parsed]
  rw [pad]
  rfl

theorem processChunks_expected (wide : 4 ≤ w) :
    ∃ after, processChunks w notify 6 mbo 1 3 (sizeOne ++ sizeOne) = some (after, [], .success) := by
  have data : processChunks w notify 6 mbo 1 3 (sizeOne ++ sizeOne) =
      readChunkLine w { appendChunkData mbo sizeOne true with chunkTransferState := .complete, scratchPad1 := [] }
        (sizeOne ++ []) [.arrivedBodyPart] fun mbo info rest =>
          processChunks w notify 5 mbo info.chunkSize ((info.chunkSize + 2) % 2 ^ w) rest := by
    rw [processChunks, if_neg (by decide), if_neg (by decide), if_neg (by decide), if_neg (by decide),
      if_neg (by decide), List.append_nil]
    rfl
  rw [data, readChunkLine_sizeOne wide rfl]
  exact ⟨_, rfl⟩

theorem processChunks_unexpected {expected : Nat} (other : expected ≠ 3) (pad : mbo.scratchPad3 = []) :
    ∀ answer ∈ processChunks w notify 6 mbo 1 expected (sizeOne ++ sizeOne), answer.2.1 = [.arrivedBodyPart] := by
  intro answer member
  obtain ⟨_, mode, _, _, _, _, _, _, _, _, _⟩ := mbo
  obtain rfl := pad
  rcases expected with _ | _ | _ | _ | _ | _ | _ | _ | _ | more
  · cases member
  · cases mode <;> cases member <;> rfl
  · cases member
    rfl
  · exact absurd rfl other
  · cases member
    rfl
  · cases member
    rfl
  · cases member
    rfl
  · cases member
    rfl
  · cases member
    rfl
  · rw [processChunks, if_neg (by decide), if_neg (by decide), if_neg (by simp [sizeOne]),
      if_pos (by simp [sizeOne]), if_neg (by simp [sizeOne]), if_neg (by simp [sizeOne])] at member
    cases member
    rfl

theorem process_sizeOne (wide : 4 ≤ w) (skip : mbo.skipSize = 0) :
    process w notify (reuse mbo mode) (sizeOne ++ (sizeOne ++ sizeOne)) =
      processChunks w notify 6 (behindSizeOne (reuse mbo mode)) 1
        (ulongSub w (getExpectedSize (behindSizeOne (reuse mbo mode)))
          (getArrivedSize (behindSizeOne (reuse mbo mode))))
        (sizeOne ++ sizeOne) := by
  have line : process w notify (reuse mbo mode) (sizeOne ++ (sizeOne ++ sizeOne)) =
      readChunkLine w (reuse mbo mode) (sizeOne ++ (sizeOne ++ sizeOne)) [] fun mbo _ rest =>
        processChunkData w notify mbo rest := by
    have unskipped : (reuse mbo mode).skipSize = 0 := skip
    exact process_line notify unskipped rfl (.inl rfl) _
  rw [line, readChunkLine_sizeOne wide rfl]
  rfl

theorem process_crlf : ∃ after, process w notify (fresh mode) crlf = some (after, [.arrivedBodyPart], .success) :=
  ⟨_, rfl⟩

theorem process_crlf_skipped (some : mbo.skipSize ≠ 0) :
    ∀ answer ∈ process w notify (reuse mbo mode) crlf, answer.2.1 = [] := by
  intro answer member
  obtain ⟨_, _, _, _, _, _, skipSize, _, _, _, _⟩ := mbo
  rcases skipSize with _ | _ | more
  · exact absurd rfl some
  · cases member
    rfl
  · rw [process, if_pos ⟨Nat.succ_pos _, Nat.le_add_left 2 more⟩] at member
    cases member
    rfl

theorem observed_single (mbo : MboChunked) (block : List UInt8) :
    observed (feed w notify mbo [block]) =
      (process w notify mbo block).map fun answer => ([answer.2.1], chunkData answer.1) := by
  rw [feed]
  cases process w notify mbo block <;> rfl

theorem expected_iff (wide : 4 ≤ w) :
    ulongSub w (getExpectedSize (behindSizeOne (reuse mbo mode)))
      (getArrivedSize (behindSizeOne (reuse mbo mode))) = 3 ↔
      getExpectedSize mbo ≡ countedBefore mode mbo.arrivedSize [MOD 2 ^ w] := by
  have wider : 2 ^ 4 ≤ 2 ^ w := Nat.pow_le_pow_right (by decide) wide
  have expected : getExpectedSize (behindSizeOne (reuse mbo mode)) = 3 + getExpectedSize mbo := by
    cases mode <;> rfl
  have arrived : getArrivedSize (behindSizeOne (reuse mbo mode)) = countedBefore mode mbo.arrivedSize := by
    cases mode <;> rfl
  rw [expected, arrived, ulongSub_eq_iff (by omega), Nat.add_comm 3]
  exact ⟨Nat.ModEq.add_right_cancel' 3, Nat.ModEq.add_right 3⟩

theorem ForgetsPrevious.skipSize (forgets : ForgetsPrevious w notify mbo mode) : mbo.skipSize = 0 := by
  by_contra some
  obtain ⟨after, told⟩ := @process_crlf w notify mode
  have same := forgets [crlf]
  rw [observed_single, observed_single, told] at same
  obtain ⟨answer, member, events⟩ := Option.map_eq_some_iff.mp same
  rw [process_crlf_skipped notify some answer member] at events
  cases events

theorem ForgetsPrevious.balanced (wide : 4 ≤ w) (forgets : ForgetsPrevious w notify mbo mode) :
    getExpectedSize mbo ≡ countedBefore mode mbo.arrivedSize [MOD 2 ^ w] := by
  have pad (mbo : MboChunked) : (behindSizeOne (reuse mbo mode)).scratchPad3 = [] := by
    cases mode <;> rfl
  have new := (@expected_iff w mode (fresh mode) wide).mpr (by cases mode <;> rfl)
  obtain ⟨after, told⟩ := @processChunks_expected w notify (behindSizeOne (reuse (fresh mode) mode)) wide
  have reused : fresh mode = reuse (fresh mode) mode := rfl
  have same := forgets [sizeOne ++ (sizeOne ++ sizeOne)]
  rw [observed_single, observed_single, reused, process_sizeOne notify wide forgets.skipSize,
    process_sizeOne notify wide rfl, new, told] at same
  obtain ⟨answer, member, events⟩ := Option.map_eq_some_iff.mp same
  by_contra other
  rw [processChunks_unexpected notify (mt (expected_iff wide).mp other) (pad mbo) answer member] at events
  cases events

theorem reset_forgets_iff (wide : 4 ≤ w) (mbo : MboChunked) (mode : MboMode) :
    ForgetsPrevious w notify mbo mode ↔
      mbo.skipSize = 0 ∧ getExpectedSize mbo ≡ countedBefore mode mbo.arrivedSize [MOD 2 ^ w] := by
  constructor
  · intro forgets
    exact ⟨forgets.skipSize, forgets.balanced notify wide⟩
  · rintro ⟨skip, balanced⟩
    have same : reuse mbo mode = carrying mbo.chunkInfoSList mbo.arrivedSize (fresh mode) := by
      simp [reuse, reset, carrying, fresh, skip]
    intro buffers
    rw [same]
    exact observed_feed notify mbo.chunkInfoSList mbo.arrivedSize balanced ⟨rfl, fun phase => by cases phase⟩ buffers

def relayedChunk : MboChunked :=
  { fresh .relay with chunkTransferState := .complete, arrivedSize := 3, chunkInfoSList := [⟨1, 0, []⟩] }

theorem reset_forgets_relayed :
    ForgetsPrevious 32 (fun _ => .success) relayedChunk .relay ∧
      ¬ ForgetsPrevious 32 (fun _ => .success) relayedChunk .store :=
  ⟨(reset_forgets_iff (fun _ => .success) (by decide) relayedChunk .relay).mpr ⟨rfl, rfl⟩,
    fun forgets => absurd ((reset_forgets_iff _ (by decide) relayedChunk .store).mp forgets).2 (by decide)⟩

def wholeBody : List (List UInt8) := [[0x31, 0x0D, 0x0A, 0x7A, 0x0D, 0x0A, 0x30, 0x0D, 0x0A, 0x0D, 0x0A]]

theorem stored_chunks_remembered : ∃ after events,
    feed 32 (fun _ => .success) (fresh .store) wholeBody = some (after, events) ∧
      after.chunkTransferState = .complete ∧ ¬ ForgetsPrevious 32 (fun _ => .success) after .store := by
  have run : (feed 32 (fun _ => .success) (fresh .store) wholeBody).map (fun run => (run.1.chunkTransferState,
      decide (observed (feed 32 (fun _ => .success) (reuse run.1 .store) wholeBody) =
        observed (feed 32 (fun _ => .success) (fresh .store) wholeBody)))) = some (.complete, false) := by
    decide +kernel
  obtain ⟨⟨after, events⟩, fed, same⟩ := Option.map_eq_some_iff.mp run
  obtain ⟨phase, differs⟩ := Prod.mk.inj same
  exact ⟨after, events, fed, phase, fun forgets => of_decide_eq_false differs (forgets wholeBody)⟩

end Forgetting

end CcspCommon.HttpMboChunked
