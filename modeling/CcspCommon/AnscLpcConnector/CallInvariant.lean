import CcspCommon.AnscLpcConnector.CallViews

set_option autoImplicit false

namespace CcspCommon.AnscLpcConnector

section Invariant

def Connector.Numbered (connector : Connector) (id : Nat) (call : Call) : Prop :=
  connector.calls[id]? = some call ∧ call.phase ≠ .entering

structure Steady (system : System) (peer : Peer) : Prop where
  small : (system.connectors peer).seqNumber < 2 ^ 32
  numbers : ∀ id call, (system.connectors peer).Numbered id call →
    call.ulCallSeqNum ≤ (system.connectors peer).seqNumber
  distinct : ∀ id other call another, (system.connectors peer).Numbered id call →
    (system.connectors peer).Numbered other another → call.ulCallSeqNum = another.ulCallSeqNum → id = other
  fresh : ∀ seqNumber, (system.connectors peer).seqNumber < seqNumber →
    system.traces peer seqNumber = 0 ∧ system.answered peer seqNumber = []
  nodup : (system.connectors peer).pcallQueue.Nodup
  queueInside : ∀ id ∈ (system.connectors peer).pcallQueue, id < (system.connectors peer).calls.length
  popped : ∀ entry ∈ (system.connectors peer).popped, ∃ call, (system.connectors peer).Numbered entry.call call
  holds : ∀ id call, (system.connectors peer).calls[id]? = some call → (system.view peer id call).Holds

variable {system next : System} {peer : Peer}

theorem Steady.frame (steady : Steady system peer)
    (calls : (next.connectors peer).calls = (system.connectors peer).calls)
    (queue : (next.connectors peer).pcallQueue = (system.connectors peer).pcallQueue)
    (popped : (next.connectors peer).popped = (system.connectors peer).popped)
    (seqNumber : (next.connectors peer).seqNumber = (system.connectors peer).seqNumber)
    (traces : ∀ seqNumber, next.traces peer seqNumber = system.traces peer seqNumber)
    (answered : ∀ seqNumber, next.answered peer seqNumber = system.answered peer seqNumber) : Steady next peer where
  small := by simpa only [seqNumber] using steady.small
  numbers := by simpa only [Connector.Numbered, calls, seqNumber] using steady.numbers
  distinct := by simpa only [Connector.Numbered, calls] using steady.distinct
  fresh := by simpa only [seqNumber, traces, answered] using steady.fresh
  nodup := by simpa only [queue] using steady.nodup
  queueInside := by simpa only [queue, calls] using steady.queueInside
  popped := by simpa only [Connector.Numbered, popped, calls] using steady.popped
  holds := by
    simpa only [System.view, Connector.writes, queue, popped, calls, traces, answered] using steady.holds

def Connector.view (connector : Connector) (system : System) (peer : Peer) (id : Nat) (call : Call) : View where
  call := call
  queued := decide (id ∈ connector.pcallQueue)
  writes := connector.writes id
  traces := system.traces peer call.ulCallSeqNum
  answers := system.answered peer call.ulCallSeqNum

theorem Steady.update (steady : Steady system peer) {connector : Connector} (there : next.connectors peer = connector)
    {id : Nat} {value : Call} (inside : id < (system.connectors peer).calls.length)
    (calls : connector.calls = (system.connectors peer).calls.set id value) (entered : value.phase ≠ .entering)
    (small : connector.seqNumber < 2 ^ 32)
    (grows : (system.connectors peer).seqNumber ≤ connector.seqNumber)
    (number : value.ulCallSeqNum ≤ connector.seqNumber)
    (own : ∀ other call, other ≠ id → (system.connectors peer).Numbered other call →
      call.ulCallSeqNum ≠ value.ulCallSeqNum)
    (nodup : connector.pcallQueue.Nodup)
    (queue : ∀ other, other ≠ id → (other ∈ connector.pcallQueue ↔ other ∈ (system.connectors peer).pcallQueue))
    (popped : ∀ entry ∈ connector.popped, entry.call = id ∨ entry ∈ (system.connectors peer).popped)
    (writes : ∀ other, other ≠ id → connector.writes other = (system.connectors peer).writes other)
    (traces : ∀ seqNumber, seqNumber ≠ value.ulCallSeqNum → next.traces peer seqNumber = system.traces peer seqNumber)
    (answered : ∀ seqNumber, next.answered peer seqNumber = system.answered peer seqNumber)
    (holds : (connector.view next peer id value).Holds) : Steady next peer := by
  subst there
  -- A call of the next state is the one that was set, or an old one.
  have cases_of {other : Nat} {call : Call} (there : (next.connectors peer).calls[other]? = some call) :
      other = id ∧ call = value ∨ other ≠ id ∧ (system.connectors peer).calls[other]? = some call := by
    by_cases mine : other = id
    next =>
      subst mine
      rw [calls, List.getElem?_set_self inside] at there
      exact .inl ⟨rfl, (Option.some.inj there).symm⟩
    next =>
      rw [calls, List.getElem?_set_ne (Ne.symm mine)] at there
      exact .inr ⟨mine, there⟩
  constructor
  case small => exact small
  case numbers =>
    rintro other call ⟨there, late⟩
    obtain ⟨rfl, rfl⟩ | ⟨-, old⟩ := cases_of there
    next => exact number
    next => exact (steady.numbers other call ⟨old, late⟩).trans grows
  case distinct =>
    rintro other another call value' ⟨there, late⟩ ⟨thereToo, lateToo⟩ same
    obtain ⟨rfl, rfl⟩ | ⟨foreign, old⟩ := cases_of there <;>
      obtain ⟨rfl, rfl⟩ | ⟨foreignToo, oldToo⟩ := cases_of thereToo
    next => rfl
    next => exact absurd same.symm (own another value' foreignToo ⟨oldToo, lateToo⟩)
    next => exact absurd same (own other call foreign ⟨old, late⟩)
    next => exact steady.distinct _ _ _ _ ⟨old, late⟩ ⟨oldToo, lateToo⟩ same
  case fresh =>
    intro seqNumber beyond
    rw [traces seqNumber (by omega), answered]
    exact steady.fresh seqNumber (by omega)
  case nodup => exact nodup
  case queueInside =>
    intro other member
    rw [calls, List.length_set]
    by_cases mine : other = id
    next => exact mine ▸ inside
    next => exact steady.queueInside other ((queue other mine).mp member)
  case popped =>
    intro entry member
    simp only [Connector.Numbered, calls]
    by_cases mine : entry.call = id
    next => exact ⟨value, by rw [mine, List.getElem?_set_self inside], entered⟩
    next =>
      obtain ⟨call, there, late⟩ := steady.popped entry ((popped entry member).resolve_left mine)
      exact ⟨call, by rwa [List.getElem?_set_ne (Ne.symm mine)], late⟩
  case holds =>
    intro other call there
    obtain ⟨rfl, rfl⟩ | ⟨foreign, old⟩ := cases_of there
    next => exact holds
    next =>
      have before := steady.holds other call old
      have queued := queue other foreign
      have written := writes other foreign
      by_cases early : call.phase = .entering
      next =>
        simp only [View.Holds, System.view, early] at before ⊢
        exact ⟨by simpa [queued] using before.queued, by simpa [written] using before.writes⟩
      next =>
        have traffic := traces call.ulCallSeqNum (own other call foreign ⟨old, early⟩)
        simpa only [System.view, queued, written, traffic, answered] using before

theorem Steady.traffic (steady : Steady system peer) (changed : Nat)
    (connectors : next.connectors peer = system.connectors peer)
    (traces : ∀ seqNumber, seqNumber ≠ changed → next.traces peer seqNumber = system.traces peer seqNumber)
    (answered : ∀ seqNumber, seqNumber ≠ changed → next.answered peer seqNumber = system.answered peer seqNumber)
    (known : system.traces peer changed ≠ 0)
    (holds : ∀ id call, (system.connectors peer).Numbered id call → call.ulCallSeqNum = changed →
      (next.view peer id call).Holds) : Steady next peer := by
  have inside : changed ≤ (system.connectors peer).seqNumber := by
    by_contra beyond
    exact known (steady.fresh changed (by omega)).1
  constructor
  case small => simpa only [connectors] using steady.small
  case numbers => simpa only [connectors] using steady.numbers
  case distinct => simpa only [connectors] using steady.distinct
  case nodup => simpa only [connectors] using steady.nodup
  case queueInside => simpa only [connectors] using steady.queueInside
  case popped => simpa only [connectors] using steady.popped
  case fresh =>
    intro seqNumber beyond
    rw [connectors] at beyond
    rw [traces seqNumber (by omega), answered seqNumber (by omega)]
    exact steady.fresh seqNumber beyond
  case holds =>
    intro id call there
    rw [connectors] at there
    have before := steady.holds id call there
    by_cases entered : call.phase = .entering
    next =>
      simp only [View.Holds, System.view, entered, connectors] at before ⊢
      exact ⟨before.queued, before.writes⟩
    by_cases mine : call.ulCallSeqNum = changed
    next => exact holds id call ⟨there, entered⟩ mine
    next => simpa only [System.view, connectors, traces _ mine, answered _ mine] using before

theorem Steady.goOn (steady : Steady system peer) {connector : Connector} (there : next.connectors peer = connector)
    {id : Nat} {call value : Call} (numbered : (system.connectors peer).Numbered id call)
    (calls : connector.calls = (system.connectors peer).calls.set id value)
    (entered : value.phase ≠ .entering) (same : value.ulCallSeqNum = call.ulCallSeqNum)
    (seqNumber : connector.seqNumber = (system.connectors peer).seqNumber)
    (nodup : connector.pcallQueue.Nodup)
    (queue : ∀ other, other ≠ id → (other ∈ connector.pcallQueue ↔ other ∈ (system.connectors peer).pcallQueue))
    (popped : ∀ entry ∈ connector.popped, entry.call = id ∨ entry ∈ (system.connectors peer).popped)
    (writes : ∀ other, other ≠ id → connector.writes other = (system.connectors peer).writes other)
    (traces : ∀ seqNumber, seqNumber ≠ call.ulCallSeqNum → next.traces peer seqNumber = system.traces peer seqNumber)
    (answered : ∀ seqNumber, next.answered peer seqNumber = system.answered peer seqNumber)
    (holds : (connector.view next peer id value).Holds) : Steady next peer := by
  have bound := steady.numbers id call numbered
  refine steady.update there (List.getElem?_eq_some_iff.mp numbered.1).1 calls entered
    (by simpa only [seqNumber] using steady.small) seqNumber.ge (by omega) ?_ nodup queue popped
    writes (by simpa only [same] using traces) answered holds
  intro other another foreign numberedToo equal
  exact foreign (steady.distinct _ _ _ _ numberedToo numbered (equal.trans same))

end Invariant

section Messages

variable {system next : System} {peer : Peer}

@[simp] theorem traces_setConnector (peer other : Peer) (connector : Connector) (seqNumber : Nat) :
    (system.setConnector peer connector).traces other seqNumber = system.traces other seqNumber := rfl

@[simp] theorem answered_setConnector (peer other : Peer) (connector : Connector) (seqNumber : Nat) :
    (system.setConnector peer connector).answered other seqNumber = system.answered other seqNumber := rfl

@[simp] theorem connectors_setConnector (peer : Peer) (connector : Connector) :
    (system.setConnector peer connector).connectors peer = connector := by
  simp [System.setConnector]

theorem connectors_other {other : Peer} (foreign : other ≠ peer) (connector : Connector) :
    (system.setConnector peer connector).connectors other = system.connectors other := by
  simp [System.setConnector, foreign]

@[simp] theorem answers_send (packet : Packet) : (system.send packet).answers = system.answers := rfl

@[simp] theorem connectors_send (packet : Packet) : (system.send packet).connectors = system.connectors := rfl

theorem traces_send (packet : Packet) (seqNumber : Nat) :
    (system.send packet).traces peer seqNumber =
      ((packet.trace peer seqNumber).elim 0 fun trace => {trace}) + system.traces peer seqNumber := by
  cases trace : packet.trace peer seqNumber with
  | none => simp [System.traces, System.send, trace]
  | some trace => simp [System.traces, System.send, trace]

theorem traces_received {packet : Packet} (member : packet ∈ system.wire) (seqNumber : Nat) :
    system.traces peer seqNumber = ((packet.trace peer seqNumber).elim 0 fun trace => {trace}) +
      ({ system with wire := system.wire.erase packet } : System).traces peer seqNumber := by
  have whole := @traces_send { system with wire := system.wire.erase packet } peer packet seqNumber
  rw [← whole]
  simp [System.send, Multiset.cons_erase member]

def Invariant (system : System) : Prop := ∀ peer, Steady system peer

theorem Invariant.local (invariant : Invariant system)
    (others : ∀ other, other ≠ peer → next.connectors other = system.connectors other)
    (traces : ∀ other seqNumber, other ≠ peer → next.traces other seqNumber = system.traces other seqNumber)
    (answered : ∀ other seqNumber, other ≠ peer → next.answered other seqNumber = system.answered other seqNumber)
    (steady : Steady next peer) : Invariant next := by
  intro other
  by_cases mine : other = peer
  next => exact mine ▸ steady
  next =>
    have same := others other mine
    exact (invariant other).frame (by rw [same]) (by rw [same]) (by rw [same]) (by rw [same])
      (fun seqNumber => traces other seqNumber mine) (fun seqNumber => answered other seqNumber mine)

theorem Invariant.set (invariant : Invariant system) {connector : Connector}
    (steady : Steady (system.setConnector peer connector) peer) : Invariant (system.setConnector peer connector) :=
  invariant.local (fun _ foreign => connectors_other foreign connector) (fun _ _ _ => rfl) (fun _ _ _ => rfl) steady

theorem Invariant.sent (invariant : Invariant system) {connector : Connector} {packet : Packet}
    (foreign : ∀ other seqNumber, other ≠ peer → packet.trace other seqNumber = none)
    (steady : Steady ((system.setConnector peer connector).send packet) peer) :
    Invariant ((system.setConnector peer connector).send packet) :=
  invariant.local (fun _ other => connectors_other other connector)
    (fun other seqNumber ne => by simp [traces_send, foreign other seqNumber ne]) (fun _ _ _ => rfl) steady

end Messages

end CcspCommon.AnscLpcConnector
