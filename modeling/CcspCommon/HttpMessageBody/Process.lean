import CcspCommon.AnscPlatform.Packet

set_option autoImplicit false

namespace CcspCommon.HttpMessageBody

open CcspCommon.AnscPlatform

section Model

inductive MboState
  | reserved | empty | partBody | complete | overPacked | unknown
deriving DecidableEq

inductive MboMode
  | relay | store | empty | storeExternal
deriving DecidableEq

structure Mbo where
  state : MboState
  mode : MboMode
  transferSize : Nat
  entitySize : Nat
  arrivedSize : Nat
  bdoQueue : List Bdo
  boundaryStr : Option (List UInt8)

inductive BccEvent
  | arrivedBodyPart (bdo : Bdo)
  | arrivedBody (bdo : Bdo)
  | completed (bdo : Bdo)
  | overPacked (bdo : Option Bdo)

structure ContentType where
  mediaType : Nat
  subType : Nat
  boundary : Option (List UInt8)

def multipart : Nat := 2

def formData : Nat := 1007

def ContentType.isFormData (contentType : ContentType) : Bool :=
  contentType.mediaType = multipart && contentType.subType = formData

structure Owner where
  predictBodySize : Nat
  isRequest : Bool
  uploadHandler : Bool
  contentType : Option ContentType
  uploadBegins : Status
  notify : BccEvent → Status
  processMPData : Mbo → Bdo → Status × Mbo

variable (owner : Owner)

/-- The part of `HttpMboProcess` that turns a form upload over to an upload handler; without a result
where the `MediaType` of a missing header is read through NULL. -/
def beginUpload (mbo : Mbo) : Option (Status × Mbo) :=
  if owner.isRequest && owner.uploadHandler && (mbo.mode ≠ .storeExternal || mbo.boundaryStr.isNone) then
    match owner.contentType with
    | none => none
    | some contentType =>
      if contentType.isFormData then
        match contentType.boundary with
        | none => some (.success, mbo)
        | some boundary =>
          some (owner.uploadBegins, { mbo with mode := .storeExternal, boundaryStr := some (45 :: 45 :: boundary) })
      else some (.success, mbo)
  else some (.success, mbo)

def getTransferSize (mbo : Mbo) : Nat :=
  match mbo.mode with
  | .empty | .relay | .storeExternal => mbo.transferSize
  | .store => mbo.bdoQueue.foldl (fun ulBodySize bdo => ulBodySize + bdo.blockSize) 0

def appendBodyBdo (mbo : Mbo) (bdo : Bdo) : Status × Mbo :=
  let mbo := { mbo with
    transferSize := mbo.transferSize + bdo.blockSize
    entitySize := mbo.entitySize + bdo.blockSize
    arrivedSize := mbo.arrivedSize + bdo.blockSize }
  match mbo.mode with
  | .store => (.success, { mbo with bdoQueue := mbo.bdoQueue ++ [bdo] })
  | .storeExternal => owner.processMPData mbo bdo
  | .empty | .relay => (.success, mbo)

structure Arrival where
  bdo : Bdo
  new1 : Option Nat
  new2 : Option Nat

def takeBody (mbo : Mbo) (arrival : Arrival) : Mbo × List BccEvent × Status :=
  let ulPredictedBodySize := owner.predictBodySize
  let ulArrivedBodySize := getTransferSize mbo
  let ulTotalPackedSize := ulArrivedBodySize + arrival.bdo.blockSize
  if ulPredictedBodySize = ulTotalPackedSize then
    let (_, mbo) := appendBodyBdo owner mbo arrival.bdo
    ({ mbo with state := .complete }, [.arrivedBody arrival.bdo, .completed arrival.bdo],
      owner.notify (.completed arrival.bdo))
  else if ulPredictedBodySize > ulTotalPackedSize then
    let (status, mbo) := appendBodyBdo owner mbo arrival.bdo
    if status = .success then
      ({ mbo with state := .partBody }, [.arrivedBodyPart arrival.bdo], owner.notify (.arrivedBodyPart arrival.bdo))
    else (mbo, [], status)
  else
    match arrival.bdo.breakAt (ulPredictedBodySize - ulArrivedBodySize) arrival.new1 arrival.new2 with
    | .error status => (mbo, [], status)
    | .ok (newBodyBdo, extraBdo) =>
      let (_, mbo) := appendBodyBdo owner mbo newBodyBdo
      ({ mbo with state := .overPacked }, [.arrivedBody newBodyBdo, .overPacked extraBdo],
        owner.notify (.overPacked extraBdo))

def process (mbo : Mbo) (arrival : Arrival) : Option (Mbo × List BccEvent × Status) :=
  match mbo.state with
  | .empty | .partBody => do
    let (status, mbo) ← beginUpload owner mbo
    if status ≠ .success then some (mbo, [], status) else some (takeBody owner mbo arrival)
  | .complete | .overPacked =>
    some ({ mbo with state := .overPacked }, [.overPacked (some arrival.bdo)],
      owner.notify (.overPacked (some arrival.bdo)))
  | .reserved | .unknown => some (mbo, [], .unapplicable)

def feed : Mbo → List Arrival → Option (Mbo × List (List BccEvent))
  | mbo, [] => some (mbo, [])
  | mbo, arrival :: rest => do
    let (next, events, _) ← process owner mbo arrival
    let (final, later) ← feed next rest
    some (final, events :: later)

def fresh (mode : MboMode) : Mbo := ⟨.empty, mode, 0, 0, 0, [], none⟩

end Model

section Segmentation

/-- No form upload takes the body out of the mode `store`: where a handler is registered for the request, the
request says what its content is, and it is not a form. -/
def Owner.Stores (owner : Owner) : Prop :=
  owner.isRequest → owner.uploadHandler →
    ∃ contentType, owner.contentType = some contentType ∧ ¬ (contentType.isFormData ∧ contentType.boundary.isSome)

def stream (arrivals : List Arrival) : List UInt8 := arrivals.flatMap (·.bdo.block)

def overPackedBytes (events : List BccEvent) : List UInt8 :=
  events.flatMap fun
    | .overPacked (some bdo) => bdo.block
    | _ => []

def BccEvent.isArrivedBody : BccEvent → Bool
  | .arrivedBody _ => true
  | _ => false

structure Arrival.Sound (arrival : Arrival) : Prop where
  some : 0 < arrival.bdo.blockSize
  allocated1 : arrival.new1.isSome
  allocated2 : arrival.new2.isSome

structure Holds (n : Nat) (received : List UInt8) (mbo : Mbo) : Prop where
  stored : bytes mbo.bdoQueue = received.take n
  mode : mbo.mode = .store
  waiting : received.length < n → mbo.state = .empty ∨ mbo.state = .partBody
  done : n ≤ received.length → mbo.state = .complete ∨ mbo.state = .overPacked

variable {owner : Owner} {mbo : Mbo} {arrival : Arrival} {n : Nat} {received : List UInt8}

theorem beginUpload_stores (stores : owner.Stores) (mbo : Mbo) : beginUpload owner mbo = some (.success, mbo) := by
  rw [beginUpload]
  split
  next uploads =>
    simp only [Bool.and_eq_true] at uploads
    obtain ⟨contentType, found, other⟩ := stores uploads.1.1 uploads.1.2
    rw [found]
    dsimp only
    split
    next form =>
      cases boundary : contentType.boundary with
      | none => rfl
      | some boundary => exact absurd ⟨form, by rw [boundary]; rfl⟩ other
    next => rfl
  next => rfl

theorem getTransferSize_store (store : mbo.mode = .store) : getTransferSize mbo = (bytes mbo.bdoQueue).length := by
  rw [getTransferSize, store]
  dsimp only
  rw [foldl_blockSize, Nat.zero_add]

def keep (mbo : Mbo) (bdo : Bdo) (state : MboState) : Mbo :=
  { mbo with
    state := state
    transferSize := mbo.transferSize + bdo.blockSize
    entitySize := mbo.entitySize + bdo.blockSize
    arrivedSize := mbo.arrivedSize + bdo.blockSize
    bdoQueue := mbo.bdoQueue ++ [bdo] }

theorem appendBodyBdo_store (store : mbo.mode = .store) (bdo : Bdo) :
    appendBodyBdo owner mbo bdo = (.success, keep mbo bdo mbo.state) := by
  simp only [appendBodyBdo, keep, store]

theorem Holds.keep (holds : Holds n received mbo) (waiting : received.length < n) {bdo : Bdo}
    {block : List UInt8} (stored : bdo.block = block.take (n - received.length)) {state : MboState}
    (more : received.length + block.length < n → state = .partBody)
    (all : n ≤ received.length + block.length → state = .complete ∨ state = .overPacked) :
    Holds n (received ++ block) (keep mbo bdo state) where
  stored := by
    have whole : received.take n = received := List.take_of_length_le (by omega)
    simp only [HttpMessageBody.keep, bytes_append, bytes_cons, bytes_nil, List.append_nil]
    rw [holds.stored, stored, List.take_append, whole]
  mode := holds.mode
  waiting short := .inr (more (by simpa using short))
  done enough := all (by simpa using enough)

theorem process_waiting (stores : owner.Stores) (waiting : mbo.state = .empty ∨ mbo.state = .partBody) :
    process owner mbo arrival = some (takeBody owner mbo arrival) := by
  obtain empty | part := waiting
  · simp only [process, empty, beginUpload_stores stores]
    rfl
  · simp only [process, part, beginUpload_stores stores]
    rfl

theorem takeBody_store (store : mbo.mode = .store) :
    takeBody owner mbo arrival =
      (let missing := owner.predictBodySize - (bytes mbo.bdoQueue).length
      let ulTotalPackedSize := (bytes mbo.bdoQueue).length + arrival.bdo.blockSize
      if owner.predictBodySize = ulTotalPackedSize then
        (keep mbo arrival.bdo .complete, [.arrivedBody arrival.bdo, .completed arrival.bdo],
          owner.notify (.completed arrival.bdo))
      else if owner.predictBodySize > ulTotalPackedSize then
        (keep mbo arrival.bdo .partBody, [.arrivedBodyPart arrival.bdo],
          owner.notify (.arrivedBodyPart arrival.bdo))
      else
        match arrival.bdo.breakAt missing arrival.new1 arrival.new2 with
        | .error status => (mbo, [], status)
        | .ok (newBodyBdo, extraBdo) =>
          (keep mbo newBodyBdo .overPacked, [.arrivedBody newBodyBdo, .overPacked extraBdo],
            owner.notify (.overPacked extraBdo))) := by
  simp only [takeBody, getTransferSize_store store, appendBodyBdo_store store]
  rfl

theorem process_done (done : mbo.state = .complete ∨ mbo.state = .overPacked) :
    process owner mbo arrival = some ({ mbo with state := .overPacked }, [.overPacked (some arrival.bdo)],
      owner.notify (.overPacked (some arrival.bdo))) := by
  obtain complete | overPacked := done
  · rw [process, complete]
  · rw [process, overPacked]

theorem process_holds (stores : owner.Stores) (holds : Holds owner.predictBodySize received mbo)
    (sound : arrival.Sound) : ∃ result, process owner mbo arrival = some result ∧
    Holds owner.predictBodySize (received ++ arrival.bdo.block) result.1 ∧
      overPackedBytes result.2.1 = arrival.bdo.block.drop (owner.predictBodySize - received.length) ∧
      result.2.1.countP BccEvent.isArrivedBody =
        if received.length < owner.predictBodySize ∧
          owner.predictBodySize ≤ received.length + arrival.bdo.blockSize then 1 else 0 := by
  have size := arrival.bdo.length_block
  by_cases waiting : received.length < owner.predictBodySize
  · have whole : bytes mbo.bdoQueue = received := by rw [holds.stored, List.take_of_length_le (by omega)]
    refine ⟨_, process_waiting stores (holds.waiting waiting), ?_⟩
    rw [takeBody_store holds.mode, whole]
    dsimp only
    split
    next exact =>
      have all : arrival.bdo.block.take (owner.predictBodySize - received.length) = arrival.bdo.block :=
        List.take_of_length_le (by omega)
      have none : arrival.bdo.block.drop (owner.predictBodySize - received.length) = [] :=
        List.drop_of_length_le (by omega)
      refine ⟨holds.keep waiting all.symm (fun _ => by omega) (fun _ => .inl rfl), none.symm, ?_⟩
      rw [if_pos ⟨waiting, by omega⟩]
      rfl
    split
    next _ short =>
      have all : arrival.bdo.block.take (owner.predictBodySize - received.length) = arrival.bdo.block :=
        List.take_of_length_le (by omega)
      have none : arrival.bdo.block.drop (owner.predictBodySize - received.length) = [] :=
        List.drop_of_length_le (by omega)
      refine ⟨holds.keep waiting all.symm (fun _ => rfl) (fun _ => by omega), none.symm, ?_⟩
      rw [if_neg (by omega)]
      rfl
    next _ _ =>
      -- the body ends inside this buffer, so the break gives two buffers that both hold data
      have positive : 0 < owner.predictBodySize - received.length := by omega
      obtain ⟨head, tail, broken, front, back⟩ := arrival.bdo.breakAt_inside positive (by omega)
        sound.allocated1 sound.allocated2
      rw [broken]
      refine ⟨holds.keep waiting front (fun _ => by omega) (fun _ => .inr rfl), ?_, ?_⟩
      · simp [overPackedBytes, back]
      · rw [if_pos ⟨waiting, by omega⟩]
        rfl
  · refine ⟨_, process_done (holds.done (by omega)), ⟨?_, holds.mode, ?_, ?_⟩, ?_, ?_⟩
    · rw [holds.stored, List.take_append_of_le_length (by omega)]
    · intro short
      simp at short
      omega
    · exact fun _ => .inr rfl
    · rw [Nat.sub_eq_zero_of_le (by omega)]
      simp [overPackedBytes]
    · rw [if_neg (by omega)]
      rfl

theorem feed_holds (stores : owner.Stores) {arrivals : List Arrival} (sound : ∀ arrival ∈ arrivals, arrival.Sound)
    (holds : Holds owner.predictBodySize received mbo) :
    ∃ result, feed owner mbo arrivals = some result ∧
      Holds owner.predictBodySize (received ++ stream arrivals) result.1 ∧
      overPackedBytes result.2.flatten = (stream arrivals).drop (owner.predictBodySize - received.length) ∧
      ∀ first arrival rest, arrivals = first ++ arrival :: rest →
        (result.2.map (·.countP BccEvent.isArrivedBody))[first.length]? =
          some (if (received ++ stream first).length < owner.predictBodySize ∧
            owner.predictBodySize ≤ (received ++ stream first).length + arrival.bdo.blockSize then 1 else 0) := by
  induction arrivals generalizing received mbo with
  | nil =>
    refine ⟨_, rfl, by simpa [stream] using holds, by simp [overPackedBytes, stream], ?_⟩
    simp
  | cons arrival rest ih =>
    obtain ⟨⟨middle, events, status⟩, processed, next, extra, announced⟩ :=
      process_holds stores holds (sound arrival (by simp))
    obtain ⟨⟨last, events'⟩, fed, final, later, counts⟩ :=
      ih (fun other member => sound other (by simp [member])) next
    have split : stream (arrival :: rest) = arrival.bdo.block ++ stream rest := rfl
    refine ⟨(last, events :: events'), ?_, ?_, ?_, ?_⟩
    · rw [feed, processed, Option.bind_eq_bind, Option.bind_some]
      dsimp only at fed ⊢
      rw [fed]
      rfl
    · rw [split, ← List.append_assoc]
      exact final
    · rw [List.flatten_cons, overPackedBytes, List.flatMap_append, split, List.drop_append]
      rw [List.length_append, ← Nat.sub_sub] at later
      exact congrArg₂ (· ++ ·) extra later
    · intro first other others same
      cases first with
      | nil =>
        obtain ⟨rfl, rfl⟩ := List.cons.inj same
        simpa [stream] using announced
      | cons head tail =>
        obtain ⟨rfl, rest_eq⟩ := List.cons.inj same
        have count := counts tail other others rest_eq
        rw [List.append_assoc] at count
        exact count

theorem holds_fresh (expected : 0 < n) : Holds n [] (fresh .store) where
  stored := by simp [fresh]
  mode := rfl
  waiting _ := .inl rfl
  done none := by simp at none; omega

theorem process_segmentation (owner : Owner) (stores : owner.Stores) (expected : 0 < owner.predictBodySize)
    (arrivals : List Arrival) (sound : ∀ arrival ∈ arrivals, arrival.Sound) :
    ∃ result, feed owner (fresh .store) arrivals = some result ∧
      bytes result.1.bdoQueue = (stream arrivals).take owner.predictBodySize ∧
      overPackedBytes result.2.flatten = (stream arrivals).drop owner.predictBodySize ∧
      ∀ first arrival rest, arrivals = first ++ arrival :: rest →
        (result.2.map (·.countP BccEvent.isArrivedBody))[first.length]? =
          some (if (stream first).length < owner.predictBodySize ∧
            owner.predictBodySize ≤ (stream first).length + arrival.bdo.blockSize then 1 else 0) := by
  obtain ⟨result, fed, final, extra, counts⟩ := feed_holds stores sound (holds_fresh expected)
  exact ⟨result, fed, final.stored, extra, counts⟩

def plainOwner (n : Nat) : Owner :=
  ⟨n, true, true, some ⟨1, 1001, none⟩, .success, fun _ => .success, fun mbo _ => (.success, mbo)⟩

theorem plainOwner_stores (n : Nat) : (plainOwner n).Stores := fun _ _ => ⟨_, rfl, by decide⟩

def plainArrival (data : List UInt8) : Arrival := ⟨plainBdo data, some 1, some 2⟩

theorem process_segmentation_over_packed :
    ∃ result, feed (plainOwner 3) (fresh .store)
        [plainArrival [1, 2], plainArrival [3, 4], plainArrival [5]] = some result ∧
      bytes result.1.bdoQueue = [1, 2, 3] ∧ overPackedBytes result.2.flatten = [4, 5] := by
  have sound : ∀ arrival ∈ [plainArrival [1, 2], plainArrival [3, 4], plainArrival [5]], arrival.Sound := by
    intro arrival member
    simp only [List.mem_cons, List.not_mem_nil, or_false] at member
    obtain rfl | rfl | rfl := member <;> exact ⟨by decide, rfl, rfl⟩
  obtain ⟨result, fed, stored, extra, -⟩ :=
    process_segmentation (plainOwner 3) (plainOwner_stores 3) (by decide) _ sound
  exact ⟨result, fed, stored, extra⟩

theorem process_stores_unpredicted :
    ¬ ∀ (owner : Owner), owner.Stores → ∀ arrivals : List Arrival, (∀ arrival ∈ arrivals, arrival.Sound) →
      ∃ result, feed owner (fresh .store) arrivals = some result ∧
        bytes result.1.bdoQueue = (stream arrivals).take owner.predictBodySize := by
  intro keeps
  obtain ⟨result, fed, wrong⟩ := keeps (plainOwner 0) (plainOwner_stores 0) [plainArrival [1]]
    (by
      intro arrival member
      obtain rfl := List.mem_singleton.mp member
      exact ⟨by decide, rfl, rfl⟩)
  cases fed
  exact absurd wrong (by decide)

-- A handler for uploads, and a request that does not say what its content is.
example : process ⟨1, true, true, none, .success, fun _ => .success, fun mbo _ => (.success, mbo)⟩ (fresh .store)
    (plainArrival [1]) = none := rfl

end Segmentation

end CcspCommon.HttpMessageBody
