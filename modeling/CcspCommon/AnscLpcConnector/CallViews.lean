import CcspCommon.AnscLpcConnector.Calls

set_option autoImplicit false

namespace CcspCommon.AnscLpcConnector

section Views

inductive Trace
  | asked (reqType : Nat) (reqData : List UInt8)
  | replied (reqType repCode : Nat) (repData : List UInt8)
deriving DecidableEq

def Packet.trace (peer : Peer) (seqNumber : Nat) (packet : Packet) : Option Trace :=
  match packet.message with
  | .request sent reqType reqData =>
    if packet.source = peer ∧ sent = seqNumber then some (.asked reqType reqData) else none
  | .reply sent reqType repCode repData =>
    if packet.target = peer ∧ sent = seqNumber then some (.replied reqType repCode repData) else none
  | _ => none

def Serving.trace (peer : Peer) (seqNumber : Nat) (entry : Serving) : Option Trace :=
  if entry.client = peer ∧ entry.seqNumber = seqNumber then some (.asked entry.reqType entry.reqData) else none

def System.traces (system : System) (peer : Peer) (seqNumber : Nat) : Multiset Trace :=
  system.wire.filterMap (Packet.trace peer seqNumber) + system.serving.filterMap (Serving.trace peer seqNumber)

def System.answered (system : System) (peer : Peer) (seqNumber : Nat) : List Answer :=
  system.answers.filter fun answer => answer.client = peer ∧ answer.seqNumber = seqNumber ∧ answer.reqType = lpcCall

def Popped.owes (id : Nat) (entry : Popped) : Bool := decide (entry.call = id) && decide (entry.write ≠ .event)

def Connector.writes (connector : Connector) (id : Nat) : List Popped := connector.popped.filter (Popped.owes id)

structure View where
  call : Call
  queued : Bool
  writes : List Popped
  traces : Multiset Trace
  answers : List Answer

def System.view (system : System) (peer : Peer) (id : Nat) (call : Call) : View where
  call := call
  queued := decide (id ∈ (system.connectors peer).pcallQueue)
  writes := (system.connectors peer).writes id
  traces := system.traces peer call.ulCallSeqNum
  answers := system.answered peer call.ulCallSeqNum

/-- The fields of a pending call from `AddPendingCall` until the thread reads them, and what was delivered to it:
nothing yet, an output with its code, or only a code. -/
inductive Slot : Bool → List Popped → Nat → Option (List UInt8) → Option (Nat × Option (List UInt8)) → Prop
  | queued : Slot true [] LpcError.requestTimeout.code none none
  | taken {entry : Popped} (write : entry.write = .error) :
      Slot false [entry] LpcError.requestTimeout.code none (some (entry.callError, some entry.outputBdo))
  | half {entry : Popped} (write : entry.write = .output) :
      Slot false [entry] entry.callError none (some (entry.callError, some entry.outputBdo))
  | filled (callError : Nat) (output : Option (List UInt8)) :
      Slot false [] callError output (some (callError, output))

def Logged (reqType : Nat) (reqData : List UInt8) (repCode : Nat) (repData : List UInt8)
    (answers : List Answer) : Prop :=
  if reqType = lpcCall then
    ∃ answer, answers = [answer] ∧ answer.reqData = reqData ∧ answer.repCode = repCode ∧ answer.repData = repData
  else answers = []

def Underway (reqType : Nat) (reqData : List UInt8) (traces : Multiset Trace) (answers : List Answer) : Prop :=
  traces = {.asked reqType reqData} ∧ answers = [] ∨
    ∃ repCode repData, traces = {.replied reqType repCode repData} ∧ Logged reqType reqData repCode repData answers

def Settled (reqType : Nat) (reqData : List UInt8) (delivered : Option (Nat × Option (List UInt8)))
    (traces : Multiset Trace) (answers : List Answer) : Prop :=
  match delivered with
  | none => Underway reqType reqData traces answers
  | some (repCode, some repData) => traces = 0 ∧ Logged reqType reqData repCode repData answers
  | some (_, none) => True

namespace View

def Delivered (view : View) (delivered : Option (Nat × Option (List UInt8))) : Prop :=
  Slot view.queued view.writes view.call.pendingCall.callError view.call.pendingCall.callOutputBdo delivered

structure Waits (view : View) (reqType : Nat) (reqData : List UInt8) : Prop where
  msgType : view.call.pendingCall.imcpMsgType = replyType
  seqNumber : view.call.pendingCall.callSeqNumber = view.call.ulCallSeqNum
  slot : ∃ delivered, view.Delivered delivered ∧ Settled reqType reqData delivered view.traces view.answers

structure Quiet (view : View) : Prop where
  traces : view.traces = 0
  answers : view.answers = []

structure Away (view : View) : Prop where
  queued : view.queued = false
  writes : view.writes = []

def Holds (view : View) : Prop :=
  match view.call.phase with
  | .entering => view.Away
  | .resolving => view.Waits queryParty view.call.partyName
  | .linking | .ready => view.Away ∧ view.Quiet
  | .connecting _ =>
    view.call.pendingCall.imcpMsgType = ackType ∧ (∃ delivered, view.Delivered delivered) ∧ view.Quiet
  | .calling => view.Waits lpcCall view.call.pInputBuffer
  | .expired =>
    view.call.pendingCall.imcpMsgType = replyType → view.call.pendingCall.callSeqNumber = view.call.ulCallSeqNum
  | .returned (.ok output) =>
    view.traces = 0 ∧ Logged lpcCall view.call.pInputBuffer LpcError.noError.code output view.answers
  | .returned (.error _) => True

end View

end Views

section Courses

variable {view : View}

theorem Slot.output {queued : Bool} {writes : List Popped} {callError : Nat} {output : List UInt8}
    {delivered : Option (Nat × Option (List UInt8))} (slot : Slot queued writes callError (some output) delivered) :
    queued = false ∧ writes = [] ∧ delivered = some (callError, some output) := by
  cases slot
  exact ⟨rfl, rfl, rfl⟩

theorem Slot.waiting {writes : List Popped} {callError : Nat} {output : Option (List UInt8)}
    {delivered : Option (Nat × Option (List UInt8))} (slot : Slot true writes callError output delivered) :
    writes = [] ∧ delivered = none ∧ callError = LpcError.requestTimeout.code ∧ output = none := by
  cases slot
  exact ⟨rfl, rfl, rfl, rfl⟩

theorem Slot.taken_away {writes : List Popped} {callError : Nat} {output : Option (List UInt8)}
    {delivered : Option (Nat × Option (List UInt8))} (slot : Slot false writes callError output delivered) :
    ∃ code result, delivered = some (code, result) := by
  cases slot <;> exact ⟨_, _, rfl⟩

theorem Slot.owed {queued : Bool} {entry : Popped} {writes : List Popped} {callError : Nat}
    {output : Option (List UInt8)} {delivered : Option (Nat × Option (List UInt8))}
    (slot : Slot queued writes callError output delivered) (owes : entry ∈ writes) :
    queued = false ∧ writes = [entry] ∧ output = none ∧ delivered = some (entry.callError, some entry.outputBdo) ∧
      (entry.write = .error ∧ callError = LpcError.requestTimeout.code ∨
        entry.write = .output ∧ callError = entry.callError) := by
  cases slot <;> simp_all

theorem Underway.replied {reqType : Nat} {reqData : List UInt8} {answers : List Answer} {sentType repCode : Nat}
    {repData : List UInt8} {rest : Multiset Trace}
    (underway : Underway reqType reqData (.replied sentType repCode repData ::ₘ rest) answers) :
    rest = 0 ∧ Logged reqType reqData repCode repData answers := by
  obtain ⟨traces, -⟩ | ⟨code, data, traces, logged⟩ := underway
  next =>
    obtain ⟨same, -⟩ := (Multiset.singleton_eq_cons_iff _).mp traces.symm
    cases same
  next =>
    obtain ⟨same, rfl⟩ := (Multiset.singleton_eq_cons_iff _).mp traces.symm
    cases same
    exact ⟨rfl, logged⟩

theorem Underway.asked {reqType : Nat} {reqData : List UInt8} {answers : List Answer} {sentType : Nat}
    {sentData : List UInt8} {rest : Multiset Trace}
    (underway : Underway reqType reqData (.asked sentType sentData ::ₘ rest) answers) :
    rest = 0 ∧ sentType = reqType ∧ sentData = reqData ∧ answers = [] := by
  obtain ⟨traces, answers⟩ | ⟨code, data, traces, logged⟩ := underway
  next =>
    obtain ⟨same, rfl⟩ := (Multiset.singleton_eq_cons_iff _).mp traces.symm
    cases same
    exact ⟨rfl, rfl, rfl, answers⟩
  next =>
    obtain ⟨same, -⟩ := (Multiset.singleton_eq_cons_iff _).mp traces.symm
    cases same

namespace View

theorem Waits.popped {reqType : Nat} {reqData : List UInt8} (waits : view.Waits reqType reqData)
    (queued : view.queued = true) {entry : Popped} (write : entry.write = .error) {sentType : Nat}
    {rest : Multiset Trace}
    (traces : view.traces = .replied sentType entry.callError entry.outputBdo ::ₘ rest) :
    ({ view with queued := false, writes := view.writes ++ [entry], traces := rest } : View).Waits reqType reqData := by
  obtain ⟨delivered, slot, settled⟩ := waits.slot
  rw [Delivered, queued] at slot
  obtain ⟨writes, rfl, error, output⟩ := slot.waiting
  rw [Settled, traces] at settled
  obtain ⟨rfl, logged⟩ := settled.replied
  refine ⟨waits.msgType, waits.seqNumber, some (entry.callError, some entry.outputBdo), ?_, rfl, logged⟩
  simpa only [Delivered, writes, error, output, List.nil_append] using Slot.taken write

theorem Holds.popped (holds : view.Holds) (queued : view.queued = true)
    (msgType : view.call.pendingCall.imcpMsgType = replyType) {entry : Popped} (write : entry.write = .error)
    {sentType : Nat} {rest : Multiset Trace}
    (traces : view.traces = .replied sentType entry.callError entry.outputBdo ::ₘ rest)
    (live : ∀ result, view.call.phase ≠ .returned result) :
    ({ view with queued := false, writes := view.writes ++ [entry], traces := rest } : View).Holds := by
  cases phase : view.call.phase with
  | resolving | calling =>
    simp only [Holds, phase] at holds ⊢
    exact holds.popped queued write traces
  | entering =>
    simp only [Holds, phase] at holds
    simp [holds.queued] at queued
  | linking | ready =>
    simp only [Holds, phase] at holds
    simp [holds.1.queued] at queued
  | connecting socket =>
    simp only [Holds, phase, msgType] at holds
    simp [replyType, ackType] at holds
  | expired => simpa only [Holds, phase] using holds
  | returned result => exact absurd phase (live result)

theorem Holds.acknowledged (holds : view.Holds) (queued : view.queued = true)
    (msgType : view.call.pendingCall.imcpMsgType = ackType) {entry : Popped} (write : entry.write = .error)
    (live : ∀ result, view.call.phase ≠ .returned result) :
    ({ view with queued := false, writes := view.writes ++ [entry] } : View).Holds := by
  cases phase : view.call.phase with
  | resolving | calling =>
    simp only [Holds, phase] at holds
    simp [holds.msgType, replyType, ackType] at msgType
  | entering =>
    simp only [Holds, phase] at holds
    simp [holds.queued] at queued
  | linking | ready =>
    simp only [Holds, phase] at holds
    simp [holds.1.queued] at queued
  | connecting socket =>
    simp only [Holds, phase] at holds ⊢
    obtain ⟨-, ⟨delivered, slot⟩, quiet⟩ := holds
    rw [Delivered, queued] at slot
    obtain ⟨writes, -, error, output⟩ := slot.waiting
    refine ⟨msgType, ⟨some (entry.callError, some entry.outputBdo), ?_⟩, quiet.1, quiet.2⟩
    simpa only [Delivered, writes, error, output, List.nil_append] using Slot.taken write
  | expired => simpa only [Holds, phase] using holds
  | returned result => exact absurd phase (live result)

theorem Waits.late {reqType : Nat} {reqData : List UInt8} (waits : view.Waits reqType reqData)
    (missed : view.queued = false) {trace : Trace} {rest : Multiset Trace} (traces : view.traces = trace ::ₘ rest) :
    ({ view with traces := rest } : View).Waits reqType reqData := by
  obtain ⟨delivered, slot, settled⟩ := waits.slot
  refine ⟨waits.msgType, waits.seqNumber, delivered, slot, ?_⟩
  rw [Delivered, missed] at slot
  obtain ⟨code, result, rfl⟩ := slot.taken_away
  cases result with
  | none => trivial
  | some data => simp [Settled, traces] at settled

theorem Holds.late (holds : view.Holds)
    (missed : view.call.pendingCall.imcpMsgType = replyType →
      view.call.pendingCall.callSeqNumber = view.call.ulCallSeqNum → view.queued = false)
    {trace : Trace} {rest : Multiset Trace} (traces : view.traces = trace ::ₘ rest) :
    ({ view with traces := rest } : View).Holds := by
  cases phase : view.call.phase with
  | resolving | calling =>
    simp only [Holds, phase] at holds ⊢
    exact holds.late (missed holds.msgType holds.seqNumber) traces
  | entering =>
    simp only [Holds, phase] at holds ⊢
    exact ⟨holds.queued, holds.writes⟩
  | linking | ready =>
    simp only [Holds, phase] at holds
    simp [holds.2.traces] at traces
  | connecting socket =>
    simp only [Holds, phase] at holds
    simp [holds.2.2.traces] at traces
  | expired => simpa only [Holds, phase] using holds
  | returned result =>
    cases result with
    | error code => simp only [Holds, phase]
    | ok output => simp [Holds, phase, traces] at holds

theorem Waits.dispatched {reqType : Nat} {reqData : List UInt8} (waits : view.Waits reqType reqData)
    {answer : Answer} {rest : Multiset Trace}
    (traces : view.traces = .asked answer.reqType answer.reqData ::ₘ rest) :
    ({ view with
      traces := .replied answer.reqType answer.repCode answer.repData ::ₘ rest
      answers := if answer.reqType = lpcCall then view.answers ++ [answer] else view.answers } : View).Waits
        reqType reqData := by
  obtain ⟨delivered, slot, settled⟩ := waits.slot
  refine ⟨waits.msgType, waits.seqNumber, delivered, slot, ?_⟩
  cases delivered with
  | none =>
    rw [Settled, traces] at settled
    obtain ⟨rfl, kind, data, answers⟩ := settled.asked
    refine .inr ⟨answer.repCode, answer.repData, by simp [kind], ?_⟩
    by_cases own : reqType = lpcCall <;> simp [Logged, kind, own, answers, data]
  | some delivered =>
    obtain ⟨code, result⟩ := delivered
    cases result with
    | none => trivial
    | some data => simp [Settled, traces] at settled

theorem Holds.dispatched (holds : view.Holds) (answer : Answer) {rest : Multiset Trace}
    (traces : view.traces = .asked answer.reqType answer.reqData ::ₘ rest) :
    ({ view with
      traces := .replied answer.reqType answer.repCode answer.repData ::ₘ rest
      answers := if answer.reqType = lpcCall then view.answers ++ [answer] else view.answers } : View).Holds := by
  cases phase : view.call.phase with
  | resolving | calling =>
    simp only [Holds, phase] at holds ⊢
    exact holds.dispatched traces
  | entering =>
    simp only [Holds, phase] at holds ⊢
    exact ⟨holds.queued, holds.writes⟩
  | linking | ready =>
    simp only [Holds, phase] at holds
    simp [holds.2.traces] at traces
  | connecting socket =>
    simp only [Holds, phase] at holds
    simp [holds.2.2.traces] at traces
  | expired => simpa only [Holds, phase] using holds
  | returned result =>
    cases result with
    | error code => simp only [Holds, phase]
    | ok output => simp [Holds, phase, traces] at holds

def written (entry : Popped) (view : View) : View :=
  { view with
    call := { view.call with pendingCall := entry.writeTo view.call.pendingCall }
    writes := view.writes.erase entry ++ entry.left.filter (Popped.owes entry.call) }

theorem Delivered.written {delivered : Option (Nat × Option (List UInt8))} (slot : view.Delivered delivered)
    {entry : Popped} (owes : entry.write ≠ .event → entry ∈ view.writes)
    (active : ∀ other ∈ view.writes, other.write ≠ .event) : (view.written entry).Delivered delivered := by
  cases write : entry.write with
  | event =>
    have absent : entry ∉ view.writes := fun member => active entry member write
    simpa [View.written, Popped.writeTo, Popped.left, write, Delivered, List.erase_of_not_mem absent] using slot
  | error =>
    obtain ⟨queued, writes, output, rfl, state⟩ := Slot.owed slot (owes (by simp [write]))
    have half : Slot false [({ entry with write := .output } : Popped)] entry.callError none
      (some (entry.callError, some entry.outputBdo)) := .half rfl
    simpa [View.written, Popped.writeTo, Popped.left, Popped.owes, write, Delivered, queued, writes, output] using half
  | output =>
    obtain ⟨queued, writes, output, rfl, state⟩ := Slot.owed slot (owes (by simp [write]))
    have error : view.call.pendingCall.callError = entry.callError := by simpa [write] using state
    simpa [View.written, Popped.writeTo, Popped.left, Popped.owes, write, Delivered, queued, writes, error] using
      Slot.filled entry.callError (some entry.outputBdo)

theorem Holds.written (holds : view.Holds) {entry : Popped} (owes : entry.write ≠ .event → entry ∈ view.writes)
    (active : ∀ other ∈ view.writes, other.write ≠ .event)
    (live : ∀ result, view.call.phase ≠ .returned result) : (view.written entry).Holds := by
  -- A call that no thread owes anything is only signalled.
  have away (none : view.Away) : (view.written entry).Away := by
    have write : entry.write = .event := by
      by_contra other
      simpa [none.writes] using owes other
    exact ⟨none.queued, by simp [View.written, none.writes, Popped.left, write]⟩
  cases phase : view.call.phase with
  | resolving | calling =>
    simp only [Holds, View.written, phase] at holds ⊢
    obtain ⟨delivered, slot, settled⟩ := holds.slot
    exact ⟨by simpa using holds.msgType, by simpa using holds.seqNumber, delivered, slot.written owes active, settled⟩
  | entering =>
    simp only [Holds, phase] at holds
    simpa only [Holds, View.written, phase] using away holds
  | linking | ready =>
    simp only [Holds, phase] at holds
    have later := away holds.1
    simp only [Holds, View.written, phase]
    exact ⟨⟨later.queued, later.writes⟩, holds.2.traces, holds.2.answers⟩
  | connecting socket =>
    simp only [Holds, phase] at holds
    obtain ⟨msgType, ⟨delivered, slot⟩, quiet⟩ := holds
    simp only [Holds, View.written, phase]
    exact ⟨by simpa using msgType, ⟨delivered, slot.written owes active⟩, quiet.1, quiet.2⟩
  | expired => simpa [Holds, View.written, phase] using holds
  | returned result => exact absurd phase (live result)

theorem Waits.read {reqType : Nat} {reqData : List UInt8} (waits : view.Waits reqType reqData) {output : List UInt8}
    (there : view.call.pendingCall.callOutputBdo = some output) :
    view.Away ∧ view.traces = 0 ∧ Logged reqType reqData view.call.pendingCall.callError output view.answers := by
  obtain ⟨delivered, slot, settled⟩ := waits.slot
  rw [Delivered, there] at slot
  obtain ⟨queued, writes, rfl⟩ := slot.output
  exact ⟨⟨queued, writes⟩, settled⟩

theorem Holds.reset (holds : view.Holds) (queued : view.queued = true) {pending : PendingCall}
    (msgType : pending.imcpMsgType = view.call.pendingCall.imcpMsgType)
    (seqNumber : pending.callSeqNumber = view.call.pendingCall.callSeqNumber)
    (output : pending.callOutputBdo = none) :
    ({ view with call := { view.call with pendingCall := pending }, queued := false } : View).Holds := by
  have emptied {delivered : Option (Nat × Option (List UInt8))} (slot : view.Delivered delivered) :
      Slot false view.writes pending.callError pending.callOutputBdo (some (pending.callError, none)) := by
    rw [Delivered, queued] at slot
    obtain ⟨writes, -⟩ := slot.waiting
    rw [writes, output]
    exact .filled pending.callError none
  cases phase : view.call.phase with
  | resolving | calling =>
    simp only [Holds, phase] at holds ⊢
    obtain ⟨delivered, slot, settled⟩ := holds.slot
    exact ⟨msgType.trans holds.msgType, seqNumber.trans holds.seqNumber, _, emptied slot, trivial⟩
  | entering =>
    simp only [Holds, phase] at holds
    simp [holds.queued] at queued
  | linking | ready =>
    simp only [Holds, phase] at holds
    simp [holds.1.queued] at queued
  | connecting socket =>
    simp only [Holds, phase] at holds ⊢
    obtain ⟨ack, ⟨delivered, slot⟩, quiet⟩ := holds
    exact ⟨msgType.trans ack, ⟨_, emptied slot⟩, quiet.1, quiet.2⟩
  | expired =>
    simpa only [Holds, phase, msgType, seqNumber] using holds
  | returned result =>
    cases result with
    | error code => simp only [Holds, phase]
    | ok output => simpa only [Holds, phase] using holds

end View

end Courses

end CcspCommon.AnscLpcConnector
