import CcspCommon.AnscPlatform.Packet
import CcspCommon.HttpSmpo.BoundarySearch

set_option autoImplicit false

namespace CcspCommon.HttpSmpo

open CcspCommon.Shared CcspCommon.AnscPlatform

section Model

def bodyMsgMaxSize : Nat := 4 * 1460

structure FormBuffer where
  data : List UInt8
  behind : List UInt8

def FormBuffer.ulBufSize (buf : FormBuffer) : Nat := buf.data.length + buf.behind.length

-- `HttpSmpoCopyFormData`. A new block is just large enough. There is enough memory.
def FormBuffer.copyFormData (buf : FormBuffer) (pData : List UInt8) : FormBuffer :=
  if buf.data.length + pData.length > buf.ulBufSize then ⟨buf.data ++ pData, []⟩
  else ⟨buf.data ++ pData, buf.behind.drop pData.length⟩

structure Copied where
  handle : Nat
  skipped : Nat
  bytes : List UInt8

-- From a buffer on. Only in `hBdo` bytes are skipped.
def copiedFrom (hBdo : Option Nat) (ulOffset : Nat) : Nat → List Bdo → List Copied
  | _, [] => []
  | handle, bdo :: rest =>
    (if hBdo = some handle then ⟨handle, ulOffset, bdo.block.drop ulOffset⟩ else ⟨handle, 0, bdo.block⟩) ::
      copiedFrom hBdo ulOffset (handle + 1) rest

structure Window where
  buffers : List Copied
  pBuf : FormBuffer

def emptyWindow : Window := ⟨[], [], List.replicate bodyMsgMaxSize 0⟩

def Window.push (window : Window) (body : Copied) : Window :=
  ⟨window.buffers ++ [body], window.pBuf.copyFormData body.bytes⟩

def shiftStart (needed : Nat) : List Copied → Nat → List Copied × Nat
  | start :: next :: more, ulTotalSize =>
    if ulTotalSize - start.bytes.length ≥ needed then
      shiftStart needed (next :: more) (ulTotalSize - start.bytes.length)
    else (start :: next :: more, ulTotalSize)
  | buffers, ulTotalSize => (buffers, ulTotalSize)

-- The bytes of the buffers that are dropped are overwritten; what stood behind the others stays.
def Window.shift (window : Window) (needed : Nat) : Window :=
  let (buffers, ulTotalSize) := shiftStart needed window.buffers window.pBuf.data.length
  ⟨buffers, window.pBuf.data.drop (window.pBuf.data.length - ulTotalSize),
    window.pBuf.data.drop ulTotalSize ++ window.pBuf.behind⟩

-- The buffer and the offset of a place in the window. Behind `pBodyBdo` there is no such place.
def mapBack (ulTotalOffset : Nat) : List Copied → Nat × Nat
  | [] => (0, ulTotalOffset)
  | start :: rest =>
    if ulTotalOffset ≥ start.bytes.length then
      let left := ulTotalOffset - start.bytes.length
      if left = 0 then (start.handle + 1, 0)
      else match rest with
        | [] => (start.handle + 1, left)
        | [body] => (body.handle, left)
        | _ => mapBack left rest
    else (start.handle, ulTotalOffset + start.skipped)

variable (pBoundary : CString) (memory : Nat → List UInt8)

def nextBoundaryFrom (window : Window) : List Copied → Option (Nat × Nat)
  | [] => none
  | body :: rest =>
    let window := window.push body
    let ulTotalSize := window.pBuf.data.length
    if ulTotalSize ≥ pBoundary.val.length + 4 then
      match multipartFindBoundary pBoundary ulTotalSize
          (window.pBuf.data ++ (window.pBuf.behind ++ memory body.handle)) with
      | none => nextBoundaryFrom (window.shift (pBoundary.val.length + 4)) rest
      | some (pPos, _) => some (mapBack (pPos - 2) window.buffers)
    else nextBoundaryFrom window rest

def copied (queue : List Bdo) (hBdo : Option Nat) (ulOffset : Nat) : List Copied :=
  copiedFrom hBdo ulOffset (hBdo.getD 0) (queue.drop (hBdo.getD 0))

def findNextBoundary (queue : List Bdo) (hBdo : Option Nat) (ulOffset : Nat) : Option (Nat × Nat) :=
  nextBoundaryFrom pBoundary memory emptyWindow (copied queue hBdo ulOffset)

end Model

section Purpose

variable (pBoundary : CString) (memory : Nat → List UInt8)

def startOf (queue : List Bdo) (handle : Nat) : Nat := (bytes (queue.take handle)).length

def placeOf (queue : List Bdo) (position : Nat × Nat) : Nat := startOf queue position.1 + position.2

-- Where the search starts. An offset behind the buffer stands for its end.
def startPlace (queue : List Bdo) : Option Nat → Nat → Nat
  | none, _ => 0
  | some handle, ulOffset =>
    startOf queue handle + min ulOffset ((queue[handle]?.map Bdo.blockSize).getD 0)

def searchedText (queue : List Bdo) (hBdo : Option Nat) (ulOffset : Nat) : List UInt8 :=
  (bytes queue).drop (startPlace queue hBdo ulOffset)

def IsFirst (queue : List Bdo) (place : Nat) (text : List UInt8) (found : Option (Nat × Nat)) : Prop :=
  match firstAt (delimiter pBoundary) text with
  | none => found = none
  | some first => ∃ position, found = some position ∧ placeOf queue position = place + first

def copiedBytes (copied : List Copied) : List UInt8 := copied.flatMap Copied.bytes

-- What the block shows of a delimiter: the bytes behind the data may complete it.
def Window.seen (window : Window) (handle : Nat) : Option Nat :=
  firstAt (delimiter pBoundary)
    (window.pBuf.data ++ (window.pBuf.behind ++ memory handle).take pBoundary.val.length)

def notMisled (window : Window) : List Copied → Bool
  | [] => true
  | body :: rest =>
    let window := window.push body
    if window.pBuf.data.length ≥ pBoundary.val.length + 4 then
      match firstAt (delimiter pBoundary) window.pBuf.data with
      | some _ => true
      | none =>
        match window.seen pBoundary memory body.handle with
        | none => notMisled (window.shift (pBoundary.val.length + 4)) rest
        | some place => firstAt (delimiter pBoundary) (window.pBuf.data ++ copiedBytes rest) = some place
    else notMisled window rest

end Purpose

section Positions

variable {queue : List Bdo}

def Lies (queue : List Bdo) : Nat → List Copied → Prop
  | _, [] => True
  | place, body :: rest =>
    (body.bytes ≠ [] → startOf queue body.handle + body.skipped = place) ∧
      (body.skipped = 0 → startOf queue body.handle = place) ∧
      startOf queue (body.handle + 1) = place + body.bytes.length ∧ (∀ later ∈ rest, later.skipped = 0) ∧
      Lies queue (place + body.bytes.length) rest

theorem startOf_append (before rest : List Bdo) : startOf (before ++ rest) before.length = (bytes before).length := by
  rw [startOf, List.take_left]

theorem startOf_next (before : List Bdo) (bdo : Bdo) (rest : List Bdo) :
    startOf (before ++ bdo :: rest) (before.length + 1) =
      startOf (before ++ bdo :: rest) before.length + bdo.block.length := by
  have more := startOf_append (before ++ [bdo]) rest
  rw [List.append_assoc, List.singleton_append, List.length_append, List.length_singleton] at more
  rw [more, startOf_append, bytes, bytes, List.flatMap_append, List.length_append, List.flatMap_singleton]

theorem copiedFrom_lies (hBdo : Option Nat) (ulOffset : Nat) (before rest : List Bdo)
    (behind : ∀ handle ∈ hBdo, handle < before.length) :
    Lies (before ++ rest) (bytes before).length (copiedFrom hBdo ulOffset before.length rest) ∧
      ∀ body ∈ copiedFrom hBdo ulOffset before.length rest, body.skipped = 0 := by
  induction rest generalizing before with
  | nil => exact ⟨trivial, fun body inside => absurd inside List.not_mem_nil⟩
  | cons bdo rest ih =>
    have other : hBdo ≠ some before.length := fun same => Nat.lt_irrefl _ (behind before.length same)
    have further : ∀ handle ∈ hBdo, handle < (before ++ [bdo]).length := by
      intro handle same
      have less := behind handle same
      rw [List.length_append, List.length_singleton]
      omega
    have size : (bytes (before ++ [bdo])).length = (bytes before).length + bdo.block.length := by
      rw [bytes, bytes, List.flatMap_append, List.length_append, List.flatMap_singleton]
    obtain ⟨lies, zero⟩ := ih (before ++ [bdo]) further
    rw [List.append_assoc, List.singleton_append, List.length_append, List.length_singleton, size] at lies
    rw [List.length_append, List.length_singleton] at zero
    have start := startOf_append before (bdo :: rest)
    rw [copiedFrom, if_neg other]
    refine ⟨⟨fun _ => start, fun _ => start, ?_, zero, lies⟩, ?_⟩
    next => rw [startOf_next, start]
    next =>
      intro body inside
      rcases List.mem_cons.mp inside with rfl | later
      · rfl
      · exact zero body later

theorem copied_lies (queue : List Bdo) (hBdo : Option Nat) (ulOffset : Nat) :
    Lies queue (startPlace queue hBdo ulOffset) (copied queue hBdo ulOffset) := by
  rw [copied]
  cases hBdo with
  | none => exact (copiedFrom_lies none ulOffset [] queue fun handle absurd => by cases absurd).1
  | some handle =>
    rw [Option.getD_some]
    cases known : queue.drop handle with
    | nil => exact trivial
    | cons bdo rest =>
      have inside : handle < queue.length := by
        by_contra outside
        rw [List.drop_eq_nil_of_le (Nat.le_of_not_lt outside)] at known
        cases known
      have whole : queue = queue.take handle ++ bdo :: rest := by rw [← known, List.take_append_drop]
      have length : (queue.take handle).length = handle := List.length_take_of_le (Nat.le_of_lt inside)
      have here : queue[handle]? = some bdo := by
        rw [whole, List.getElem?_append_right (Nat.le_of_eq length), length, Nat.sub_self, List.getElem?_cons_zero]
      have further : ∀ first ∈ some handle, first < (queue.take handle ++ [bdo]).length := by
        intro first same
        rw [List.length_append, length, List.length_singleton, Option.mem_some.mp same]
        exact Nat.lt_succ_self first
      obtain ⟨lies, zero⟩ := copiedFrom_lies (some handle) ulOffset (queue.take handle ++ [bdo]) rest further
      have size : (bytes (queue.take handle ++ [bdo])).length = startOf queue handle + bdo.block.length := by
        rw [bytes, List.flatMap_append, List.length_append, List.flatMap_singleton]
        rfl
      rw [List.append_assoc, List.singleton_append, ← whole, List.length_append, length, List.length_singleton,
        size] at lies
      rw [List.length_append, length, List.length_singleton] at zero
      have next : startOf queue (handle + 1) = startOf queue handle + bdo.block.length := by
        have step := startOf_next (queue.take handle) bdo rest
        rwa [← whole, length] at step
      have place : startPlace queue (some handle) ulOffset = startOf queue handle + min ulOffset bdo.blockSize := by
        rw [startPlace, here]
        rfl
      have blockSize := bdo.length_block
      rw [copiedFrom, if_pos rfl, place]
      refine ⟨?_, ?_, ?_, zero, ?_⟩
      next =>
        intro nonempty
        have some := List.length_pos_of_ne_nil nonempty
        rw [List.length_drop] at some
        change startOf queue handle + ulOffset = _
        omega
      next =>
        intro none
        change ulOffset = 0 at none
        change startOf queue handle = _
        omega
      next =>
        simp only [List.length_drop]
        omega
      next =>
        have same : startOf queue handle + min ulOffset bdo.blockSize + (bdo.block.drop ulOffset).length =
            startOf queue handle + bdo.block.length := by
          rw [List.length_drop]
          omega
        rw [same]
        exact lies

theorem mapBack_place {place : Nat} {buffers : List Copied} (nonempty : buffers ≠ [])
    (lies : Lies queue place buffers) (ulTotalOffset : Nat) :
    placeOf queue (mapBack ulTotalOffset buffers) = place + ulTotalOffset := by
  induction buffers generalizing place ulTotalOffset with
  | nil => cases nonempty rfl
  | cons start rest ih =>
    obtain ⟨first, _, following, zero, later⟩ := lies
    rw [mapBack]
    split
    next passed =>
      simp only
      split
      next same =>
        simp only [placeOf, following]
        omega
      next =>
        split
        next =>
          simp only [placeOf, following]
          omega
        next body =>
          have begins := later.2.1 (zero body List.mem_cons_self)
          simp only [placeOf, begins]
          omega
        next long _ =>
          rw [ih (fun empty => long empty) later]
          omega
    next inside =>
      have some : start.bytes ≠ [] := by
        rintro same
        rw [same, List.length_nil] at inside
        omega
      have begins := first some
      simp only [placeOf]
      omega

theorem Lies.left {place : Nat} {buffers more : List Copied} (lies : Lies queue place (buffers ++ more)) :
    Lies queue place buffers := by
  induction buffers generalizing place with
  | nil => trivial
  | cons body rest ih =>
    obtain ⟨first, start, following, zero, later⟩ := lies
    exact ⟨first, start, following, fun other inside => zero other (List.mem_append_left _ inside), ih later⟩

theorem copiedBytes_append (first second : List Copied) :
    copiedBytes (first ++ second) = copiedBytes first ++ copiedBytes second := List.flatMap_append

theorem copiedBytes_cons (body : Copied) (rest : List Copied) :
    copiedBytes (body :: rest) = body.bytes ++ copiedBytes rest := List.flatMap_cons

theorem copiedBytes_copiedFrom {hBdo : Option Nat} {handle : Nat} (behind : ∀ first ∈ hBdo, first < handle)
    (ulOffset : Nat) (rest : List Bdo) : copiedBytes (copiedFrom hBdo ulOffset handle rest) = bytes rest := by
  induction rest generalizing handle with
  | nil => rfl
  | cons bdo rest ih =>
    have other : hBdo ≠ some handle := fun same => Nat.lt_irrefl _ (behind handle same)
    rw [copiedFrom, if_neg other, copiedBytes_cons, ih fun first same => Nat.lt_succ_of_lt (behind first same)]
    rfl

theorem copiedBytes_copied (queue : List Bdo) (hBdo : Option Nat) (ulOffset : Nat) :
    copiedBytes (copied queue hBdo ulOffset) = searchedText queue hBdo ulOffset := by
  rw [copied, searchedText]
  cases hBdo with
  | none => exact copiedBytes_copiedFrom (fun first absurd => by cases absurd) ulOffset queue
  | some handle =>
    have front : bytes queue = bytes (queue.take handle) ++ bytes (queue.drop handle) := by
      rw [bytes, bytes, bytes, ← List.flatMap_append, List.take_append_drop]
    rw [Option.getD_some, startPlace, startOf, front, ← List.drop_drop, List.drop_left]
    cases known : queue.drop handle with
    | nil => exact List.drop_nil.symm
    | cons bdo rest =>
      have here : queue[handle]? = some bdo := by
        rw [← List.head?_drop, known, List.head?_cons]
      have size := bdo.length_block
      have further : ∀ first ∈ some handle, first < handle + 1 := fun first same =>
        Nat.lt_succ_of_le (Nat.le_of_eq (Option.mem_some.mp same).symm)
      have block : bytes (bdo :: rest) = bdo.block ++ bytes rest := List.flatMap_cons
      have skipped : bdo.block.drop (min ulOffset bdo.blockSize) = bdo.block.drop ulOffset := by
        rcases Nat.le_total ulOffset bdo.blockSize with inside | outside
        next => rw [Nat.min_eq_left inside]
        next => rw [Nat.min_eq_right outside, List.drop_eq_nil_of_le (by omega), List.drop_eq_nil_of_le (by omega)]
      rw [copiedFrom, if_pos rfl, copiedBytes_cons, copiedBytes_copiedFrom further, here, block, Option.map_some,
        Option.getD_some, List.drop_append_of_le_length (by omega), skipped]

theorem Lies.right {place : Nat} {dropped buffers : List Copied} (lies : Lies queue place (dropped ++ buffers)) :
    Lies queue (place + (copiedBytes dropped).length) buffers := by
  induction dropped generalizing place with
  | nil => exact lies
  | cons body rest ih =>
    have later := ih lies.2.2.2.2
    rwa [copiedBytes_cons, List.length_append, ← Nat.add_assoc]

end Positions

section Windows

theorem push_data (window : Window) (body : Copied) :
    (window.push body).pBuf.data = window.pBuf.data ++ body.bytes := by
  rw [Window.push, FormBuffer.copyFormData]
  split <;> rfl

theorem shiftStart_split (needed : Nat) {buffers : List Copied} (nonempty : buffers ≠ []) {ulTotalSize : Nat}
    (held : (copiedBytes buffers).length = ulTotalSize) :
    ∃ dropped, buffers = dropped ++ (shiftStart needed buffers ulTotalSize).1 ∧
      (shiftStart needed buffers ulTotalSize).2 = (copiedBytes (shiftStart needed buffers ulTotalSize).1).length ∧
      (dropped = [] ∨ needed ≤ (shiftStart needed buffers ulTotalSize).2) := by
  induction buffers generalizing ulTotalSize with
  | nil => cases nonempty rfl
  | cons start rest ih =>
    cases rest with
    | nil => exact ⟨[], rfl, held.symm, Or.inl rfl⟩
    | cons next more =>
      rw [shiftStart]
      split
      next enough =>
        have left : (copiedBytes (next :: more)).length = ulTotalSize - start.bytes.length := by
          rw [copiedBytes_cons, List.length_append] at held
          omega
        obtain ⟨dropped, split, size, large⟩ := ih (List.cons_ne_nil _ _) left
        refine ⟨start :: dropped, congrArg (start :: ·) split, size, Or.inr ?_⟩
        rcases large with none | large
        next =>
          rw [none, List.nil_append] at split
          rw [← split, left] at size
          rwa [size]
        next => exact large
      next => exact ⟨[], rfl, held.symm, Or.inl rfl⟩

theorem shift_split {window : Window} (nonempty : window.buffers ≠ [])
    (held : window.pBuf.data = copiedBytes window.buffers) (needed : Nat) :
    ∃ dropped, window.buffers = dropped ++ (window.shift needed).buffers ∧
      (window.shift needed).pBuf.data = copiedBytes (window.shift needed).buffers ∧
      (dropped = [] ∨ needed ≤ (copiedBytes (window.shift needed).buffers).length) := by
  obtain ⟨dropped, split, size, large⟩ := shiftStart_split needed nonempty (congrArg List.length held).symm
  rw [size] at large
  refine ⟨dropped, split, ?_, large⟩
  have whole := copiedBytes_append dropped (shiftStart needed window.buffers window.pBuf.data.length).1
  rw [← split, ← held] at whole
  change window.pBuf.data.drop (window.pBuf.data.length - (shiftStart needed window.buffers
    window.pBuf.data.length).2) = copiedBytes (shiftStart needed window.buffers window.pBuf.data.length).1
  have passed : window.pBuf.data.length - (shiftStart needed window.buffers window.pBuf.data.length).2 =
      (copiedBytes dropped).length := by
    have lengths := congrArg List.length whole
    rw [List.length_append] at lengths
    omega
  rw [passed]
  conv_lhs => rw [whole]
  exact List.drop_left

end Windows

section Search

variable {pBoundary : CString} {memory : Nat → List UInt8} {queue : List Bdo} {place : Nat} {text : List UInt8}

structure Reached (pBoundary : CString) (queue : List Bdo) (place : Nat) (text : List UInt8) (window : Window)
    (rest : List Copied) (gone : List UInt8) : Prop where
  held : window.pBuf.data = copiedBytes window.buffers
  whole : text = gone ++ (window.pBuf.data ++ copiedBytes rest)
  lies : Lies queue (place + gone.length) (window.buffers ++ rest)
  absent : ∀ early < gone.length, ¬ OccursAt (delimiter pBoundary) text early
  searched : pBoundary.val.length + 4 ≤ window.pBuf.data.length →
    ∀ inside, ¬ OccursAt (delimiter pBoundary) window.pBuf.data inside

theorem Reached.push {window : Window} {body : Copied} {rest : List Copied} {gone : List UInt8}
    (reached : Reached pBoundary queue place text window (body :: rest) gone) :
    (window.push body).pBuf.data = copiedBytes (window.push body).buffers ∧
      text = gone ++ ((window.push body).pBuf.data ++ copiedBytes rest) ∧
      Lies queue (place + gone.length) ((window.push body).buffers ++ rest) := by
  refine ⟨?_, ?_, ?_⟩
  next =>
    rw [push_data, reached.held]
    exact (copiedBytes_append window.buffers [body]).symm ▸ congrArg (_ ++ ·) (List.append_nil _).symm
  next =>
    rw [push_data, List.append_assoc, ← copiedBytes_cons]
    exact reached.whole
  next =>
    have lies := reached.lies
    rwa [List.append_cons] at lies

theorem length_delimiter (pBoundary : CString) : (delimiter pBoundary).length = pBoundary.val.length + 2 := by
  rw [delimiter, List.length_append, Nat.add_comm]
  rfl

theorem Reached.shift {window : Window} {body : Copied} {rest : List Copied} {gone : List UInt8}
    (reached : Reached pBoundary queue place text window (body :: rest) gone)
    (none : firstAt (delimiter pBoundary) (window.push body).pBuf.data = none) :
    ∃ more, Reached pBoundary queue place text ((window.push body).shift (pBoundary.val.length + 4)) rest
      (gone ++ more) := by
  obtain ⟨held, whole, lies⟩ := reached.push
  have nowhere := firstAt_eq_none.mp none
  have some : (window.push body).buffers ≠ [] := List.append_ne_nil_of_right_ne_nil _ (List.cons_ne_nil _ _)
  obtain ⟨dropped, split, left, large⟩ := shift_split some held (pBoundary.val.length + 4)
  have parts : (window.push body).pBuf.data =
      copiedBytes dropped ++ ((window.push body).shift (pBoundary.val.length + 4)).pBuf.data := by
    rw [held, left, ← copiedBytes_append, ← split]
  refine ⟨copiedBytes dropped, left, ?_, ?_, ?_, ?_⟩
  next => rw [whole, parts, List.append_assoc, List.append_assoc]
  next =>
    rw [split, List.append_assoc] at lies
    rw [List.length_append, ← Nat.add_assoc]
    exact lies.right
  next =>
    intro early less here
    rcases Nat.lt_or_ge early gone.length with before | behind
    next => exact reached.absent early before here
    next =>
      obtain ⟨inside, same⟩ := Nat.exists_eq_add_of_le behind
      rw [whole, same, occursAt_append_right] at here
      rw [List.length_append] at less
      rcases large with nothing | large
      next =>
        rw [nothing] at less
        exact absurd less (by rw [same]; exact Nat.not_lt.mpr (Nat.le_add_right _ _))
      next =>
        refine nowhere inside ((occursAt_append_iff ?_ _).mp here)
        have size := congrArg List.length parts
        rw [List.length_append, left] at size
        rw [length_delimiter]
        omega
  next =>
    intro _ inside here
    refine nowhere ((copiedBytes dropped).length + inside) ?_
    rw [parts]
    exact (occursAt_append_right _ _ _ _).mpr here

theorem Reached.skip {window : Window} {body : Copied} {rest : List Copied} {gone : List UInt8}
    (reached : Reached pBoundary queue place text window (body :: rest) gone)
    (few : ¬ (window.push body).pBuf.data.length ≥ pBoundary.val.length + 4) :
    Reached pBoundary queue place text (window.push body) rest gone := by
  obtain ⟨held, whole, lies⟩ := reached.push
  exact ⟨held, whole, lies, reached.absent, fun enough => absurd enough few⟩

theorem Reached.first {window : Window} {body : Copied} {rest : List Copied} {gone : List UInt8}
    (reached : Reached pBoundary queue place text window (body :: rest) gone) :
    firstAt (delimiter pBoundary) text =
      (firstAt (delimiter pBoundary) ((window.push body).pBuf.data ++ copiedBytes rest)).map (gone.length + ·) := by
  obtain ⟨_, whole, _⟩ := reached.push
  have absent := reached.absent
  rw [whole] at absent ⊢
  exact firstAt_append_absent absent

theorem Reached.last {window : Window} {gone : List UInt8}
    (reached : Reached pBoundary queue place text window [] gone)
    (enough : ∀ first, firstAt (delimiter pBoundary) text = some first →
      first + (pBoundary.val.length + 4) ≤ text.length) : firstAt (delimiter pBoundary) text = none := by
  have absent := reached.absent
  have whole : text = gone ++ window.pBuf.data := by
    rw [reached.whole, copiedBytes, List.flatMap_nil, List.append_nil]
  have parts : firstAt (delimiter pBoundary) text =
      (firstAt (delimiter pBoundary) window.pBuf.data).map (gone.length + ·) := by
    rw [whole] at absent ⊢
    exact firstAt_append_absent absent
  cases inside : firstAt (delimiter pBoundary) window.pBuf.data with
  | none => rw [parts, inside, Option.map_none]
  | some first =>
    rw [inside, Option.map_some] at parts
    have long := enough _ parts
    rw [whole, List.length_append] at long
    exact absurd (firstAt_eq_some.mp inside).1 (reached.searched (by omega) first)

theorem Reached.position {window : Window} {body : Copied} {rest : List Copied} {gone : List UInt8}
    (reached : Reached pBoundary queue place text window (body :: rest) gone) (inside : Nat) :
    placeOf queue (mapBack inside (window.push body).buffers) = place + (gone.length + inside) := by
  obtain ⟨_, _, lies⟩ := reached.push
  have nonempty : (window.push body).buffers ≠ [] := List.append_ne_nil_of_right_ne_nil _ (List.cons_ne_nil _ _)
  rw [mapBack_place nonempty lies.left, Nat.add_assoc]

variable (memory)

theorem nextBoundaryFrom_iff (enough : ∀ first, firstAt (delimiter pBoundary) text = some first →
      first + (pBoundary.val.length + 4) ≤ text.length) {rest : List Copied} {window : Window} {gone : List UInt8}
    (reached : Reached pBoundary queue place text window rest gone) :
    IsFirst pBoundary queue place text (nextBoundaryFrom pBoundary memory window rest) ↔
      notMisled pBoundary memory window rest = true := by
  induction rest generalizing window gone with
  | nil =>
    rw [IsFirst, reached.last enough]
    exact iff_of_true rfl rfl
  | cons body rest ih =>
    rw [nextBoundaryFrom, notMisled]
    split
    next searched =>
      have seen := multipartFindBoundary_part pBoundary (window.push body).pBuf.data
        ((window.push body).pBuf.behind ++ memory body.handle)
      have first := reached.first
      -- A delimiter in the data is the first one that the search sees.
      cases inside : firstAt (delimiter pBoundary) (window.push body).pBuf.data with
      | some place =>
        rw [firstAt_append_right (delimiter_ne_nil pBoundary) inside] at seen first
        obtain ⟨found, search, same⟩ := Option.map_eq_some_iff.mp seen
        rw [search, IsFirst, first]
        refine iff_of_true ⟨_, rfl, ?_⟩ rfl
        rw [same, Nat.add_sub_cancel]
        exact reached.position place
      | none =>
        simp only [Window.seen]
        cases complete : firstAt (delimiter pBoundary) ((window.push body).pBuf.data ++
            ((window.push body).pBuf.behind ++ memory body.handle).take pBoundary.val.length) with
        | none =>
          rw [complete] at seen
          rw [Option.map_eq_none_iff.mp seen]
          obtain ⟨more, later⟩ := reached.shift inside
          exact ih later
        | some completed =>
          rw [complete] at seen
          obtain ⟨found, search, same⟩ := Option.map_eq_some_iff.mp seen
          have position := reached.position completed
          rw [search, IsFirst, first]
          simp only
          cases real : firstAt (delimiter pBoundary) ((window.push body).pBuf.data ++ copiedBytes rest) with
          | none => exact iff_of_false (fun absurd => by cases absurd) fun absurd => by cases of_decide_eq_true absurd
          | some other =>
            simp only [Option.map_some, Option.some.injEq, exists_eq_left', same, Nat.add_sub_cancel, position,
              decide_eq_true_iff]
            omega
    next few => exact ih (reached.skip few)

theorem searchStart (pBoundary : CString) (queue : List Bdo) (hBdo : Option Nat) (ulOffset : Nat) :
    Reached pBoundary queue (startPlace queue hBdo ulOffset) (searchedText queue hBdo ulOffset) emptyWindow
      (copied queue hBdo ulOffset) [] :=
  ⟨rfl, (copiedBytes_copied queue hBdo ulOffset).symm, copied_lies queue hBdo ulOffset,
    fun early less => absurd less (Nat.not_lt_zero early), fun enough => absurd enough (Nat.not_succ_le_zero _)⟩

theorem next_boundary_found (pBoundary : CString) (memory : Nat → List UInt8) (queue : List Bdo) (hBdo : Option Nat)
    (ulOffset : Nat) (enough : ∀ first,
      firstAt (delimiter pBoundary) (searchedText queue hBdo ulOffset) = some first →
        first + (pBoundary.val.length + 4) ≤ (searchedText queue hBdo ulOffset).length) :
    IsFirst pBoundary queue (startPlace queue hBdo ulOffset) (searchedText queue hBdo ulOffset)
        (findNextBoundary pBoundary memory queue hBdo ulOffset) ↔
      notMisled pBoundary memory emptyWindow (copied queue hBdo ulOffset) = true := by
  have start : Reached pBoundary queue (startPlace queue hBdo ulOffset) (searchedText queue hBdo ulOffset) emptyWindow
      (copied queue hBdo ulOffset) [] := ⟨rfl, ?_, ?_, ?_, ?_⟩
  next => exact nextBoundaryFrom_iff memory enough start
  next => exact (copiedBytes_copied queue hBdo ulOffset).symm
  next => exact copied_lies queue hBdo ulOffset
  next => exact fun early less => absurd less (Nat.not_lt_zero early)
  next => exact fun enough => absurd enough (Nat.not_succ_le_zero _)

def letterB : CString := ⟨[0x62], by decide⟩

def cutBody : List Bdo := [[0x78, 0x78, hyphen, hyphen], [0x62, 0x0D, 0x0A, 0x78, 0x78]].map plainBdo

theorem next_boundary_found_cut : IsFirst letterB cutBody 1 (searchedText cutBody (some 0) 1)
    (findNextBoundary letterB (fun _ => []) cutBody (some 0) 1) :=
  (next_boundary_found letterB (fun _ => []) cutBody (some 0) 1 (by decide +kernel)).mpr (by decide +kernel)

def misleadingBody : List Bdo :=
  [[0x78, 0x78, 0x78, 0x78, 0x78], [0x78, 0x78, 0x62, 0x78, 0x78], [hyphen, hyphen],
    [0x78, 0x78, 0x78, 0x78, 0x78]].map plainBdo

theorem next_boundary_misled : ¬ ∀ (pBoundary : CString) (memory : Nat → List UInt8) (queue : List Bdo)
    (hBdo : Option Nat) (ulOffset : Nat), (∀ first,
      firstAt (delimiter pBoundary) (searchedText queue hBdo ulOffset) = some first →
        first + (pBoundary.val.length + 4) ≤ (searchedText queue hBdo ulOffset).length) →
    IsFirst pBoundary queue (startPlace queue hBdo ulOffset) (searchedText queue hBdo ulOffset)
      (findNextBoundary pBoundary memory queue hBdo ulOffset) := by
  intro every
  have absent : firstAt (delimiter letterB) (searchedText misleadingBody none 0) = none := by decide +kernel
  have enough : ∀ first, firstAt (delimiter letterB) (searchedText misleadingBody none 0) = some first →
      first + (letterB.val.length + 4) ≤ (searchedText misleadingBody none 0).length := by
    intro first found
    rw [absent] at found
    cases found
  have trusted := (nextBoundaryFrom_iff (fun _ => []) enough (searchStart letterB misleadingBody none 0)).mp
    (every letterB (fun _ => []) misleadingBody none 0 enough)
  exact absurd trusted (by decide +kernel)

end Search

section Found

variable {queue : List Bdo} {hBdo : Option Nat} {ulOffset : Nat}

def FollowedBy (body next : Copied) : Prop := next.handle = body.handle + 1 ∧ next.skipped = 0

theorem copiedFrom_cons (hBdo : Option Nat) (ulOffset handle : Nat) (bdo : Bdo) (rest : List Bdo) :
    ∃ body, copiedFrom hBdo ulOffset handle (bdo :: rest) = body :: copiedFrom hBdo ulOffset (handle + 1) rest ∧
      body.handle = handle ∧ body.bytes = bdo.block.drop body.skipped ∧
      body.skipped = if hBdo = some handle then ulOffset else 0 := by
  rw [copiedFrom]
  split
  next => exact ⟨_, rfl, rfl, rfl, rfl⟩
  next => exact ⟨_, rfl, rfl, List.drop_zero.symm, rfl⟩

theorem copiedFrom_chain {handle : Nat} (first : ∀ other ∈ hBdo, other ≤ handle) (rest : List Bdo) :
    (copiedFrom hBdo ulOffset handle rest).IsChain FollowedBy := by
  induction rest generalizing handle with
  | nil => exact List.isChain_nil
  | cons bdo rest ih =>
    obtain ⟨body, same, number, _, _⟩ := copiedFrom_cons hBdo ulOffset handle bdo rest
    have later := @ih (handle + 1) fun other known => Nat.le_succ_of_le (first other known)
    rw [same]
    cases rest with
    | nil => exact List.isChain_singleton body
    | cons next rest =>
      obtain ⟨following, known, number', _, skipped⟩ :=
        copiedFrom_cons hBdo ulOffset (handle + 1) next rest
      have other : hBdo ≠ some (handle + 1) := fun same => Nat.not_succ_le_self handle (first _ same)
      rw [if_neg other] at skipped
      rw [known] at later ⊢
      exact List.isChain_cons_cons.mpr ⟨⟨by rw [number', number], skipped⟩, later⟩

theorem copiedFrom_mem {handle : Nat} {rest : List Bdo} {body : Copied}
    (inside : body ∈ copiedFrom hBdo ulOffset handle rest) :
    (∃ bdo, rest[body.handle - handle]? = some bdo ∧ body.bytes = bdo.block.drop body.skipped) ∧
      handle ≤ body.handle ∧ (hBdo = some body.handle → body.skipped = ulOffset) := by
  induction rest generalizing handle with
  | nil => cases inside
  | cons bdo rest ih =>
    obtain ⟨first, same, number, bytes, skipped⟩ :=
      copiedFrom_cons hBdo ulOffset handle bdo rest
    rw [same] at inside
    rcases List.mem_cons.mp inside with rfl | later
    next =>
      rw [number]
      refine ⟨⟨bdo, by rw [Nat.sub_self, List.getElem?_cons_zero], bytes⟩, Nat.le_refl _, fun known => ?_⟩
      rw [skipped, if_pos known]
    next =>
      obtain ⟨⟨other, found, bytes⟩, behind, known⟩ := ih later
      refine ⟨⟨other, ?_, bytes⟩, Nat.le_of_succ_le behind, known⟩
      rw [show body.handle - handle = body.handle - (handle + 1) + 1 by omega, List.getElem?_cons_succ, found]

theorem mapBack_body {buffers : List Copied} (chain : buffers.IsChain FollowedBy) {ulTotalOffset : Nat}
    (inside : ulTotalOffset < (copiedBytes buffers).length) :
    ∃ body ∈ buffers, ∃ offset, mapBack ulTotalOffset buffers = (body.handle, offset + body.skipped) ∧
      (offset < body.bytes.length ∨ offset = 0 ∧ body.skipped = 0 ∧ 0 < body.handle) := by
  induction buffers generalizing ulTotalOffset with
  | nil => exact absurd inside (Nat.not_lt_zero _)
  | cons start rest ih =>
    rw [mapBack]
    rw [copiedBytes_cons, List.length_append] at inside
    split
    next passed =>
      cases rest with
      | nil =>
        rw [show (copiedBytes []).length = 0 from rfl] at inside
        omega
      | cons next more =>
        obtain ⟨⟨number, skipped⟩, later⟩ := List.isChain_cons_cons.mp chain
        simp only
        split
        next =>
          have notFirst : 0 < next.handle := by omega
          exact ⟨next, List.mem_cons_of_mem _ List.mem_cons_self, 0, by rw [number, skipped],
            Or.inr ⟨rfl, skipped, notFirst⟩⟩
        next =>
          cases more with
          | nil =>
            refine ⟨next, List.mem_cons_of_mem _ List.mem_cons_self, ulTotalOffset - start.bytes.length, ?_, Or.inl ?_⟩
            next => rw [skipped]; rfl
            rw [copiedBytes_cons, List.length_append, show (copiedBytes []).length = 0 from rfl] at inside
            omega
          | cons second more =>
            have less : ulTotalOffset - start.bytes.length < (copiedBytes (next :: second :: more)).length := by omega
            obtain ⟨body, member, offset, same, within⟩ := ih later less
            exact ⟨body, List.mem_cons_of_mem _ member, offset, same, within⟩
    next within => exact ⟨start, List.mem_cons_self, ulTotalOffset, rfl, Or.inl (by omega)⟩

theorem nextBoundaryFrom_window {pBoundary : CString} {memory : Nat → List UInt8} {all rest : List Copied}
    {window : Window} (part : window.buffers ++ rest <:+ all) (held : window.pBuf.data = copiedBytes window.buffers)
    {position : Nat × Nat} (found : nextBoundaryFrom pBoundary memory window rest = some position) :
    ∃ buffers, buffers <:+: all ∧ ∃ inside < (copiedBytes buffers).length, position = mapBack inside buffers := by
  induction rest generalizing window with
  | nil => cases found
  | cons body rest ih =>
    have pushed : (window.push body).buffers ++ rest <:+ all := by
      rwa [List.append_cons] at part
    have data : (window.push body).pBuf.data = copiedBytes (window.push body).buffers := by
      rw [push_data, held]
      exact (copiedBytes_append window.buffers [body]).symm ▸ congrArg (_ ++ ·) (List.append_nil _).symm
    rw [nextBoundaryFrom] at found
    split at found
    next =>
      split at found
      next =>
        have nonempty : (window.push body).buffers ≠ [] :=
          List.append_ne_nil_of_right_ne_nil _ (List.cons_ne_nil _ _)
        obtain ⟨dropped, split, left, _⟩ := shift_split nonempty data (pBoundary.val.length + 4)
        refine ih ?_ left found
        rw [split, List.append_assoc] at pushed
        exact (List.suffix_append dropped _).trans pushed
      next pPos last search =>
        have seen := multipartFindBoundary_part pBoundary (window.push body).pBuf.data
          ((window.push body).pBuf.behind ++ memory body.handle)
        rw [search, Option.map_some] at seen
        obtain ⟨place, here, same⟩ := Option.map_eq_some_iff.mp seen.symm
        have fits := (firstAt_eq_some.mp here).1.length_le (delimiter_ne_nil pBoundary)
        rw [List.length_append, List.length_take, length_delimiter] at fits
        refine ⟨(window.push body).buffers, (List.prefix_append _ _).isInfix.trans pushed.isInfix, pPos - 2, ?_,
          (Option.some.inj found).symm⟩
        rw [← data]
        simp only at same
        omega
    next => exact ih pushed data found

def SearchPosition (queue : List Bdo) (position : Nat × Nat) : Prop :=
  ∃ bdo, queue[position.1]? = some bdo ∧ (position.2 < bdo.blockSize ∨ position.2 = 0 ∧ 0 < position.1)

theorem findNextBoundary_inside {pBoundary : CString} {memory : Nat → List UInt8} {position : Nat × Nat}
    (found : findNextBoundary pBoundary memory queue hBdo ulOffset = some position) :
    SearchPosition queue position ∧
      ∀ handle ∈ hBdo, handle ≤ position.1 ∧ (position.1 = handle → ulOffset ≤ position.2) := by
  have chain : (copied queue hBdo ulOffset).IsChain FollowedBy := by
    refine copiedFrom_chain (fun other known => ?_) _
    rw [Option.mem_def.mp known, Option.getD_some]
  obtain ⟨buffers, part, inside, less, same⟩ :=
    nextBoundaryFrom_window (List.suffix_refl (copied queue hBdo ulOffset)) rfl found
  have connected : buffers.IsChain FollowedBy := chain.infix part
  obtain ⟨body, member, offset, mapped, within⟩ := mapBack_body connected less
  obtain ⟨⟨bdo, here, bytes⟩, behind, skipped⟩ := copiedFrom_mem (part.subset member)
  have size := congrArg List.length bytes
  rw [List.length_drop, bdo.length_block] at size
  rw [List.getElem?_drop, Nat.add_sub_cancel' behind] at here
  rw [same, mapped]
  refine ⟨⟨bdo, here, by simp only; omega⟩, fun handle known => ?_⟩
  rw [Option.mem_def.mp known, Option.getD_some] at behind
  refine ⟨behind, fun number => ?_⟩
  have start := skipped (by rw [Option.mem_def.mp known, ← number])
  simp only
  omega

end Found

end CcspCommon.HttpSmpo
