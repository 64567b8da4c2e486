import CcspCommon.HttpMboChunked.Segmentation

set_option autoImplicit false

namespace CcspCommon.HttpMboChunked

section Removing

def clearChunkInfos (mbo : MboChunked) : MboChunked := { mbo with chunkInfoSList := [] }

-- The loop over the queue: whatever is no chunk data is taken out and freed.
def removeOthers : List (BlockType × List UInt8) → List (BlockType × List UInt8)
  | [] => []
  | bdo :: rest => if bdo.1 ≠ .chunkData then removeOthers rest else bdo :: removeOthers rest

def removeCoding (mbo : MboChunked) : MboChunked × Status :=
  if mbo.state ≠ .complete ∨ mbo.state ≠ .overPacked then (mbo, .unapplicable)
  else
    let mbo := clearChunkInfos mbo
    ({ mbo with bdoQueue := removeOthers mbo.bdoQueue }, .success)

def RemovesCoding (mbo : MboChunked) : Prop :=
  ∃ after, removeCoding mbo = (after, .success) ∧ after.bdoQueue = mbo.bdoQueue.filter fun bdo => bdo.1 = .chunkData

theorem removeOthers_eq (bdoQueue : List (BlockType × List UInt8)) :
    removeOthers bdoQueue = bdoQueue.filter fun bdo => bdo.1 = .chunkData := by
  induction bdoQueue with
  | nil => rfl
  | cons bdo rest ih =>
    by_cases data : bdo.1 = .chunkData
    · rw [removeOthers, if_neg (not_not.mpr data), List.filter_cons_of_pos (by simpa using data), ih]
    · rw [removeOthers, if_pos data, List.filter_cons_of_neg (by simpa using data), ih]

theorem removeOthers_bytes (mbo : MboChunked) : (removeOthers mbo.bdoQueue).flatMap (·.2) = chunkData mbo := by
  rw [removeOthers_eq, chunkData]

theorem removeCoding_eq (mbo : MboChunked) : removeCoding mbo = (mbo, .unapplicable) := by
  refine if_pos ?_
  by_cases complete : mbo.state = .complete
  · rw [complete]
    exact .inr (by decide)
  · exact .inl complete

theorem coding_not_removed (mbo : MboChunked) : ¬ RemovesCoding mbo := by
  rintro ⟨after, removed, -⟩
  rw [removeCoding_eq] at removed
  cases removed

def completeBody : List (List UInt8) :=
  [[0x31, 0x0D, 0x0A, 0x7A, 0x0D, 0x0A, 0x30, 0x0D, 0x0A], [0x41, 0x3A, 0x62, 0x0D, 0x0A, 0x0D, 0x0A]]

theorem complete_body_keeps_coding : ∃ after events,
    feed 32 (fun _ => .success) (fresh .store) completeBody = some (after, events) ∧
      after.state = .complete ∧ chunkData after = [0x7A] ∧ ¬ RemovesCoding after := by
  have run : (feed 32 (fun _ => .success) (fresh .store) completeBody).map (fun run => (run.1.state, chunkData run.1)) =
      some (.complete, [0x7A]) := by decide +kernel
  obtain ⟨⟨after, events⟩, fed, same⟩ := Option.map_eq_some_iff.mp run
  obtain ⟨state, data⟩ := Prod.mk.inj same
  refine ⟨after, events, fed, state, data, ?_⟩
  rintro ⟨final, removed, -⟩
  rw [removeCoding_eq] at removed
  cases removed

end Removing

end CcspCommon.HttpMboChunked
