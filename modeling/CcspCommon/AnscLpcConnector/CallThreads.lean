import CcspCommon.AnscLpcConnector.CallInvariant

set_option autoImplicit false

namespace CcspCommon.AnscLpcConnector

open CcspCommon.AnscAsn1 (ulongSize)

section Threads

variable {network : Network} {system next : System} {peer : Peer} {id : Nat}

theorem Steady.away (steady : Steady system peer) {other : Nat}
    (beyond : (system.connectors peer).calls.length ≤ other) :
    other ∉ (system.connectors peer).pcallQueue ∧ (system.connectors peer).writes other = [] := by
  constructor
  next =>
    intro member
    have inside := steady.queueInside other member
    omega
  next =>
    simp only [Connector.writes, List.filter_eq_nil_iff]
    intro entry member owes
    obtain ⟨call, there, -⟩ := steady.popped entry member
    have inside := (List.getElem?_eq_some_iff.mp there).1
    have own : entry.call = other := by
      simp only [Popped.owes, Bool.and_eq_true, decide_eq_true_eq] at owes
      exact owes.1
    omega

theorem Invariant.enter (invariant : Invariant system) (partyName : List UInt8) (pPartyAddr : Option Nat)
    (pInputBuffer : List UInt8) : Invariant (system.enter peer partyName pPartyAddr pInputBuffer) := by
  apply invariant.set
  have steady := invariant peer
  -- The new call has no number yet.
  have old {other : Nat} {call : Call} {fresh : Call} (entering : fresh.phase = .entering)
      (numbered : ((system.connectors peer).calls ++ [fresh])[other]? = some call ∧ call.phase ≠ .entering) :
      (system.connectors peer).Numbered other call := by
    obtain ⟨there, entered⟩ := numbered
    rw [List.getElem?_append] at there
    split at there
    next => exact ⟨there, entered⟩
    next =>
      obtain ⟨-, rfl⟩ : other - (system.connectors peer).calls.length = 0 ∧ fresh = call := by
        simpa [List.getElem?_singleton] using there
      exact absurd entering entered
  constructor
  case small => simpa using steady.small
  case numbers =>
    intro other call numbered
    simp only [connectors_setConnector, Connector.Numbered] at numbered ⊢
    exact steady.numbers other call (old rfl numbered)
  case distinct =>
    intro other another call value numbered numberedToo
    simp only [connectors_setConnector, Connector.Numbered] at numbered numberedToo
    exact steady.distinct _ _ _ _ (old rfl numbered) (old rfl numberedToo)
  case fresh => simpa using steady.fresh
  case nodup => simpa using steady.nodup
  case queueInside =>
    intro other member
    simp only [connectors_setConnector, List.length_append, List.length_singleton] at member ⊢
    have inside := steady.queueInside other member
    omega
  case popped =>
    intro entry member
    simp only [connectors_setConnector] at member ⊢
    obtain ⟨call, there, entered⟩ := steady.popped entry member
    have inside := (List.getElem?_eq_some_iff.mp there).1
    exact ⟨call, by rwa [List.getElem?_append_left inside], entered⟩
  case holds =>
    intro other call there
    simp only [connectors_setConnector, List.getElem?_append] at there
    split at there
    next =>
      have before := steady.holds other call there
      simpa [System.view, Connector.writes] using before
    next beyond =>
      obtain ⟨queue, writes⟩ := steady.away (Nat.le_of_not_lt beyond)
      rw [List.getElem?_singleton] at there
      split at there
      next =>
        obtain rfl := Option.some.inj there
        exact ⟨by simpa [System.view] using queue, by simpa [System.view, Connector.writes] using writes⟩
      next => cases there

theorem joined {queue : List Nat} (nodup : queue.Nodup) (away : id ∉ queue) : (queue ++ [id]).Nodup := by
  rw [← List.concat_eq_append]
  exact nodup.concat away

theorem joined_other {queue : List Nat} {other : Nat} (foreign : other ≠ id) :
    other ∈ queue ++ [id] ↔ other ∈ queue := by
  simp [foreign]

theorem waiting {connector : Connector} {call : Call}
    (queue : connector.pcallQueue = (system.connectors peer).pcallQueue ++ [id])
    (writes : connector.writes id = []) (error : call.pendingCall.callError = LpcError.requestTimeout.code)
    (output : call.pendingCall.callOutputBdo = none) : (connector.view next peer id call).Delivered none := by
  have slot := Slot.queued
  rw [← error, ← output, ← writes] at slot
  simpa [View.Delivered, Connector.view, queue] using slot

theorem quiet_fresh (steady : Steady system peer) :
    system.traces peer ((system.connectors peer).seqNumber + 1) = 0 ∧
      system.answered peer ((system.connectors peer).seqNumber + 1) = [] :=
  steady.fresh _ (Nat.lt_succ_self _)

theorem Invariant.acquire (invariant : Invariant system)
    (room : (system.connectors peer).seqNumber + 1 < 2 ^ 32) (run : system.acquire network peer id = some next) :
    Invariant next := by
  have steady := invariant peer
  have bits : 2 ^ 32 ≤ 2 ^ (8 * ulongSize network.machine) :=
    Nat.pow_le_pow_right (by decide) (by have := word_size network.machine; omega)
  have number : ((system.connectors peer).seqNumber + 1) % 2 ^ (8 * ulongSize network.machine) =
      (system.connectors peer).seqNumber + 1 := Nat.mod_eq_of_lt (by omega)
  have traveling : System.travels ((system.connectors peer).seqNumber + 1) = (system.connectors peer).seqNumber + 1 :=
    Nat.mod_eq_of_lt room
  obtain ⟨quietTraces, quietAnswers⟩ := quiet_fresh steady
  have own (other : Nat) (call : Call) (numbered : (system.connectors peer).Numbered other call) :
      call.ulCallSeqNum ≠ (system.connectors peer).seqNumber + 1 := by
    have bound := steady.numbers other call numbered
    omega
  simp only [System.acquire, Option.bind_eq_bind, Option.bind_eq_some_iff, number] at run
  obtain ⟨call, found, run⟩ := run
  have inside := (List.getElem?_eq_some_iff.mp found).1
  have before := steady.holds id call found
  split at run
  next free =>
    simp only [View.Holds, System.view, free.1] at before
    have away : id ∉ (system.connectors peer).pcallQueue := by simpa using before.queued
    split at run
    next party there =>
      obtain rfl := Option.some.inj run
      apply invariant.set
      refine steady.update (connectors_setConnector ..) inside rfl (by simp) room (Nat.le_succ _) le_rfl
        (fun other call _ => own other call) steady.nodup (fun _ _ => Iff.rfl) (fun _ member => .inr member)
          (fun _ _ => rfl)
        (fun _ _ => rfl) (fun _ => rfl) ?_
      exact ⟨⟨before.queued, before.writes⟩, quietTraces, quietAnswers⟩
    next missing =>
      have failing (error : LpcError) : Invariant (system.setConnector peer
          (Connector.setCall { system.connectors peer with
            seqNumber := (system.connectors peer).seqNumber + 1, accessLock := none } id
            { call with
              ulCallSeqNum := (system.connectors peer).seqNumber + 1
              pendingCall := ⟨call.partyName, replyType, (system.connectors peer).seqNumber + 1, LpcError.noError.code,
                false, none⟩
              phase := .returned (.error error.code) })) := by
        apply invariant.set
        exact steady.update (connectors_setConnector ..) inside rfl (by simp) room (Nat.le_succ _) le_rfl
          (fun other call _ => own other call) steady.nodup (fun _ _ => Iff.rfl) (fun _ member => .inr member)
          (fun _ _ => rfl) (fun _ _ => rfl) (fun _ => rfl)
          trivial
      split at run
      next =>
        obtain rfl := Option.some.inj run
        exact failing .badPartyName
      split at run
      next =>
        obtain rfl := Option.some.inj run
        exact failing .managerUnavailable
      next socket =>
        obtain rfl := Option.some.inj run
        apply invariant.sent
        next =>
          intro other seqNumber foreign
          simp [Packet.trace, Ne.symm foreign]
        next =>
          refine steady.update (connectors_setConnector ..) inside rfl (by simp) room (Nat.le_succ _) le_rfl
            (fun other call _ => own other call) (joined steady.nodup away) (fun _ => joined_other)
            (fun _ member => .inr member) (fun _ _ => rfl) ?_ (fun _ => rfl) ?_
          next =>
            intro seqNumber foreign
            simp [traces_send, Packet.trace, traveling, Ne.symm foreign]
          next =>
            refine ⟨rfl, rfl, none, waiting rfl before.writes rfl rfl, .inl ⟨?_, quietAnswers⟩⟩
            simp [Connector.view, traces_send, Packet.trace, traveling, quietTraces]
  next => cases run

theorem Invariant.alone (invariant : Invariant system) {connector : Connector} {call value : Call}
    (numbered : (system.connectors peer).Numbered id call)
    (calls : connector.calls = (system.connectors peer).calls.set id value)
    (entered : value.phase ≠ .entering) (same : value.ulCallSeqNum = call.ulCallSeqNum)
    (seqNumber : connector.seqNumber = (system.connectors peer).seqNumber)
    (queue : connector.pcallQueue = (system.connectors peer).pcallQueue)
    (popped : connector.popped = (system.connectors peer).popped)
    (holds : (connector.view system peer id value).Holds) : Invariant (system.setConnector peer connector) := by
  apply invariant.set
  refine (invariant peer).goOn (connectors_setConnector ..) numbered calls entered same seqNumber ?_ ?_ ?_ ?_
    (fun _ _ => rfl) (fun _ => rfl) holds
  next => simpa only [queue] using (invariant peer).nodup
  next => simp [queue]
  next => simpa only [popped] using fun entry member => .inr member
  next => simp [Connector.writes, popped]

theorem Invariant.joins (invariant : Invariant system) {connector : Connector} {packet : Packet} {call value : Call}
    (numbered : (system.connectors peer).Numbered id call) (away : id ∉ (system.connectors peer).pcallQueue)
    (calls : connector.calls = (system.connectors peer).calls.set id value)
    (entered : value.phase ≠ .entering) (same : value.ulCallSeqNum = call.ulCallSeqNum)
    (seqNumber : connector.seqNumber = (system.connectors peer).seqNumber)
    (queue : connector.pcallQueue = (system.connectors peer).pcallQueue ++ [id])
    (popped : connector.popped = (system.connectors peer).popped)
    (foreign : ∀ other seqNumber, other ≠ peer ∨ seqNumber ≠ call.ulCallSeqNum → packet.trace other seqNumber = none)
    (holds : (connector.view ((system.setConnector peer connector).send packet) peer id value).Holds) :
    Invariant ((system.setConnector peer connector).send packet) := by
  apply invariant.sent
  next => exact fun other seqNumber ne => foreign other seqNumber (.inl ne)
  refine (invariant peer).goOn (connectors_setConnector ..) numbered calls entered same seqNumber ?_ ?_ ?_ ?_ ?_
    (fun _ => rfl) holds
  next => simpa only [queue] using joined (invariant peer).nodup away
  next => exact fun other ne => queue ▸ joined_other ne
  next => simpa only [popped] using fun entry member => .inr member
  next => simp [Connector.writes, popped]
  next => exact fun seqNumber ne => by simp [traces_send, foreign peer seqNumber (.inr ne)]

theorem Invariant.link (invariant : Invariant system) {bAdded : Bool}
    (run : system.link network peer id bAdded = some next) : Invariant next := by
  simp only [System.link, Option.bind_eq_bind, Option.bind_eq_some_iff] at run
  obtain ⟨call, found, run⟩ := run
  have before := (invariant peer).holds id call found
  split at run
  next linking =>
    simp only [View.Holds, System.view, linking] at before
    obtain ⟨away, quiet⟩ := before
    have numbered : (system.connectors peer).Numbered id call := ⟨found, by simp [linking]⟩
    have absent : id ∉ (system.connectors peer).pcallQueue := by simpa using away.queued
    simp only [Option.bind_eq_some_iff] at run
    obtain ⟨index, -, party, -, run⟩ := run
    split at run
    next =>
      obtain rfl := Option.some.inj run
      exact invariant.alone numbered rfl (by simp) rfl rfl rfl rfl
        ⟨⟨away.queued, away.writes⟩, quiet.traces, quiet.answers⟩
    next =>
      split at run
      next =>
        obtain rfl := Option.some.inj run
        exact invariant.alone numbered rfl (by simp) rfl rfl rfl rfl trivial
      next socket =>
        obtain rfl := Option.some.inj run
        refine invariant.joins numbered absent rfl (by simp) rfl rfl rfl rfl (fun _ _ _ => rfl) ?_
        exact ⟨rfl, ⟨none, waiting rfl away.writes rfl rfl⟩, by simpa [Connector.view, traces_send, Packet.trace] using
          quiet.traces, quiet.answers⟩
  next => cases run

theorem Invariant.request (invariant : Invariant system)
    (run : system.request peer id = some next) : Invariant next := by
  simp only [System.request, Option.bind_eq_bind, Option.bind_eq_some_iff] at run
  obtain ⟨call, found, run⟩ := run
  have before := (invariant peer).holds id call found
  split at run
  next ready =>
    simp only [View.Holds, System.view, ready] at before
    obtain ⟨away, quiet⟩ := before
    have numbered : (system.connectors peer).Numbered id call := ⟨found, by simp [ready]⟩
    have absent : id ∉ (system.connectors peer).pcallQueue := by simpa using away.queued
    have bound := (invariant peer).numbers id call numbered
    have traveling : System.travels call.ulCallSeqNum = call.ulCallSeqNum :=
      Nat.mod_eq_of_lt (bound.trans_lt (invariant peer).small)
    simp only [Option.bind_eq_some_iff] at run
    obtain ⟨party, -, entry, -, socket, -, run⟩ := run
    obtain rfl := Option.some.inj run
    refine invariant.joins numbered absent rfl (by simp) rfl rfl rfl rfl ?_ ?_
    next =>
      intro other seqNumber foreign
      simp only [Packet.trace, traveling, ite_eq_right_iff, reduceCtorEq, imp_false]
      rintro ⟨rfl, rfl⟩
      simp at foreign
    next =>
      refine ⟨rfl, rfl, none, waiting rfl away.writes rfl rfl, .inl ⟨?_, quiet.answers⟩⟩
      have traces : system.traces peer call.ulCallSeqNum = 0 := quiet.traces
      simp [Connector.view, traces_send, Packet.trace, traveling, traces]
  next => cases run

theorem Invariant.check (invariant : Invariant system) (run : system.check network peer id = some next) :
    Invariant next := by
  simp only [System.check, Option.bind_eq_bind, Option.bind_eq_some_iff] at run
  obtain ⟨call, found, run⟩ := run
  have before := (invariant peer).holds id call found
  split at run
  next => cases run
  next waits =>
    have numbered : (system.connectors peer).Numbered id call := by
      refine ⟨found, fun entering => ?_⟩
      simp [entering, Phase.waits] at waits
    split at run
    next =>
      obtain rfl := Option.some.inj run
      refine invariant.alone numbered rfl (by simp) rfl rfl rfl rfl ?_
      cases phase : call.phase with
      | resolving | calling =>
        simp only [View.Holds, System.view, phase] at before
        exact fun _ => before.seqNumber
      | connecting socket =>
        simp only [View.Holds, System.view, phase] at before
        intro reply
        simp [Connector.view, before.1, replyType, ackType] at reply
      | _ => simp [phase, Phase.waits] at waits
    have failing (code : Nat) : Invariant (system.setConnector peer
        ((if call.phase = .calling then system.connectors peer else (system.connectors peer).release).setCall id
          { call with
            pendingCall := { call.pendingCall with callEvent := false }, phase := .returned (.error code) })) := by
      by_cases calling : call.phase = .calling
      next =>
        simp only [calling, if_true]
        exact invariant.alone numbered rfl (by simp) rfl rfl rfl rfl trivial
      next =>
        simp only [calling, if_false]
        exact invariant.alone numbered rfl (by simp) rfl rfl rfl rfl trivial
    split at run
    next =>
      obtain rfl := Option.some.inj run
      exact failing _
    next noError =>
      simp only [ne_eq, not_not] at noError
      split at run
      next =>
        obtain rfl := Option.some.inj run
        exact failing _
      next output there =>
        cases phase : call.phase with
        | calling =>
          simp only [View.Holds, System.view, phase] at before run
          obtain ⟨-, traces, logged⟩ := before.read there
          obtain rfl := Option.some.inj run
          rw [noError] at logged
          exact invariant.alone numbered rfl (by simp) rfl rfl rfl rfl ⟨traces, logged⟩
        | connecting socket =>
          simp only [View.Holds, System.view, phase] at before run
          obtain ⟨-, ⟨delivered, slot⟩, quiet⟩ := before
          rw [View.Delivered, there] at slot
          obtain ⟨queued, writes, -⟩ := slot.output
          simp only [Option.bind_eq_some_iff] at run
          obtain ⟨party, -, entry, -, run⟩ := run
          obtain rfl := Option.some.inj run
          exact invariant.alone numbered rfl (by simp) rfl rfl rfl rfl ⟨⟨queued, writes⟩, quiet.traces, quiet.answers⟩
        | resolving =>
          simp only [View.Holds, System.view, phase] at before run
          obtain ⟨away, traces, logged⟩ := before.read there
          obtain rfl := Option.some.inj run
          exact invariant.alone numbered rfl (by simp) rfl rfl rfl rfl ⟨⟨away.queued, away.writes⟩, traces, logged⟩
        | _ => simp [phase, Phase.waits] at waits

end Threads

end CcspCommon.AnscLpcConnector
