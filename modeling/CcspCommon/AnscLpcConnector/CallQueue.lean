import CcspCommon.AnscLpcConnector.CallMatching

set_option autoImplicit false

namespace CcspCommon.AnscLpcConnector

open CcspCommon.Shared (Reachable runAll runAllowed_reachable)

section Order

-- Whether the thread is between `AcqAccess` and `RelAccess`, and has not run out of time.
def Phase.inside : Phase → Bool
  | .resolving | .linking | .connecting _ => true
  | _ => false

def Connector.standing (connector : Connector) (id : Nat) : Option (Phase × Nat) :=
  connector.calls[id]?.map fun call => (call.phase, call.pendingCall.imcpMsgType)

structure Orderly (connector : Connector) : Prop where
  inside : ∀ id phase kind, connector.standing id = some (phase, kind) → phase.inside = true →
    connector.accessLock = some id
  expired : ∀ id kind, connector.standing id = some (.expired, kind) →
    kind = replyType ∨ kind = ackType ∧ connector.accessLock = some id
  holder : ∀ id, connector.accessLock = some id →
    ∃ phase kind, connector.standing id = some (phase, kind) ∧ (phase.inside = true ∨ phase = .expired)
  queued : ∀ id ∈ connector.pcallQueue,
    ∃ phase kind, connector.standing id = some (phase, kind) ∧ (phase.waits = true ∨ phase = .expired)

variable {connector later : Connector} {id : Nat}

theorem standing_of {call : Call} (there : connector.calls[id]? = some call) :
    connector.standing id = some (call.phase, call.pendingCall.imcpMsgType) := by
  simp [Connector.standing, there]

theorem standing_set {value : Call} (inside : id < connector.calls.length)
    (calls : later.calls = connector.calls.set id value) :
    later.standing = Function.update connector.standing id (some (value.phase, value.pendingCall.imcpMsgType)) := by
  funext other
  by_cases mine : other = id
  next => simp [Connector.standing, calls, mine, inside]
  next => simp [Connector.standing, calls, mine, List.getElem?_set_ne (Ne.symm mine)]

theorem standing_write {call value : Call} (there : connector.calls[id]? = some call)
    (calls : later.calls = connector.calls.set id value) (phase : value.phase = call.phase)
    (kind : value.pendingCall.imcpMsgType = call.pendingCall.imcpMsgType) : later.standing = connector.standing := by
  rw [standing_set (List.getElem?_eq_some_iff.mp there).1 calls, phase, kind, ← standing_of there,
    Function.update_eq_self]

theorem Orderly.frame (orderly : Orderly connector) (standing : later.standing = connector.standing)
    (lock : later.accessLock = connector.accessLock) (queue : later.pcallQueue ⊆ connector.pcallQueue) :
    Orderly later where
  inside := by simpa only [standing, lock] using orderly.inside
  expired := by simpa only [standing, lock] using orderly.expired
  holder := by simpa only [standing, lock] using orderly.holder
  queued id member := by simpa only [standing] using orderly.queued id (queue member)

theorem Orderly.goOn (orderly : Orderly connector) {phase : Phase} {kind : Nat}
    (standing : later.standing = Function.update connector.standing id (some (phase, kind)))
    (lock : ∀ other, other ≠ id → (later.accessLock = some other ↔ connector.accessLock = some other))
    (queue : ∀ other ∈ later.pcallQueue, other ≠ id → other ∈ connector.pcallQueue)
    (inside : phase.inside = true → later.accessLock = some id)
    (expired : phase = .expired → kind = replyType ∨ kind = ackType ∧ later.accessLock = some id)
    (holder : later.accessLock = some id → phase.inside = true ∨ phase = .expired)
    (queued : id ∈ later.pcallQueue → phase.waits = true ∨ phase = .expired) : Orderly later := by
  constructor
  case inside =>
    intro other sort type there within
    by_cases mine : other = id
    next =>
      obtain ⟨rfl, rfl⟩ : phase = sort ∧ kind = type := by simpa [standing, mine] using there
      exact mine ▸ inside within
    next => exact (lock other mine).mpr (orderly.inside other sort type (by simpa [standing, mine] using there) within)
  case expired =>
    intro other type there
    by_cases mine : other = id
    next =>
      obtain ⟨late, rfl⟩ : phase = .expired ∧ kind = type := by simpa [standing, mine] using there
      exact mine ▸ expired late
    next => simpa only [lock other mine] using orderly.expired other type (by simpa [standing, mine] using there)
  case holder =>
    intro other locked
    by_cases mine : other = id
    next => exact ⟨phase, kind, by simp [standing, mine], holder (mine ▸ locked)⟩
    next => simpa [standing, mine] using orderly.holder other ((lock other mine).mp locked)
  case queued =>
    intro other member
    by_cases mine : other = id
    next => exact ⟨phase, kind, by simp [standing, mine], queued (mine ▸ member)⟩
    next => simpa [standing, mine] using orderly.queued other (queue other member mine)

theorem Orderly.stays (orderly : Orderly connector) {value : Call} (there : id < connector.calls.length)
    (away : id ∉ connector.pcallQueue) (early : value.phase ≠ .expired)
    (within : value.phase.inside = true ↔ connector.accessLock = some id)
    (calls : later.calls = connector.calls.set id value) (lock : later.accessLock = connector.accessLock)
    (queue : later.pcallQueue = connector.pcallQueue) : Orderly later :=
  orderly.goOn (standing_set there calls) (fun _ _ => by rw [lock]) (fun other member _ => queue ▸ member)
    (fun inside => lock ▸ within.mp inside) (fun late => absurd late early)
    (fun locked => .inl (within.mpr (lock ▸ locked))) (fun member => absurd (queue ▸ member) away)

theorem Orderly.releases (orderly : Orderly connector) {value : Call} (there : id < connector.calls.length)
    (locked : connector.accessLock = some id) (away : id ∉ connector.pcallQueue) (without : value.phase.inside = false)
    (early : value.phase ≠ .expired) (calls : later.calls = connector.calls.set id value)
    (lock : later.accessLock = none) (queue : later.pcallQueue = connector.pcallQueue) : Orderly later :=
  orderly.goOn (standing_set there calls) (fun other foreign => by simp [lock, locked, Ne.symm foreign])
    (fun other member _ => queue ▸ member) (by simp [without]) (fun late => absurd late early) (by simp [lock])
    (fun member => absurd (queue ▸ member) away)

theorem Orderly.alone (orderly : Orderly connector) {call : Call} (there : connector.calls[id]? = some call)
    (within : call.phase.inside = true) : connector.accessLock = some id :=
  orderly.inside id call.phase _ (standing_of there) within

theorem Orderly.outside (orderly : Orderly connector) {call : Call} (there : connector.calls[id]? = some call)
    (without : call.phase.inside = false) (early : call.phase ≠ .expired) : connector.accessLock ≠ some id := by
  intro locked
  obtain ⟨phase, kind, standing, within⟩ := orderly.holder id locked
  obtain ⟨rfl, -⟩ : call.phase = phase ∧ call.pendingCall.imcpMsgType = kind := by
    simpa [standing_of there] using standing
  simp [without, early] at within

end Order

section Threads

variable {network : Network} {system next : System} {peer : Peer} {id : Nat}

def Ordered (system : System) : Prop := ∀ peer, Orderly (system.connectors peer)

theorem Ordered.set (ordered : Ordered system) {connector : Connector} (orderly : Orderly connector) :
    Ordered (system.setConnector peer connector) := by
  intro other
  by_cases mine : other = peer
  next => simpa [mine] using orderly
  next => simpa [connectors_other mine] using ordered other

theorem Ordered.send (ordered : Ordered system) (packet : Packet) : Ordered (system.send packet) := ordered

theorem Ordered.enter (ordered : Ordered system) (invariant : Invariant system) (partyName : List UInt8)
    (pPartyAddr : Option Nat) (pInputBuffer : List UInt8) :
    Ordered (system.enter peer partyName pPartyAddr pInputBuffer) := by
  apply ordered.set
  have orderly := ordered peer
  have absent : (system.connectors peer).calls.length ∉ (system.connectors peer).pcallQueue :=
    ((invariant peer).away le_rfl).1
  have free : (system.connectors peer).accessLock ≠ some (system.connectors peer).calls.length := by
    intro locked
    obtain ⟨phase, kind, standing, -⟩ := orderly.holder _ locked
    simp [Connector.standing] at standing
  have standing {fresh : Call} (entering : fresh.phase = .entering)
      (kind : fresh.pendingCall.imcpMsgType = replyType) :
      ({ system.connectors peer with calls := (system.connectors peer).calls ++ [fresh] } : Connector).standing =
        Function.update (system.connectors peer).standing (system.connectors peer).calls.length
          (some (.entering, replyType)) := by
    funext other
    obtain old | rfl | beyond := Nat.lt_trichotomy other (system.connectors peer).calls.length
    next => simp [Connector.standing, List.getElem?_append_left old, old.ne]
    next => simp [Connector.standing, entering, kind]
    next =>
      have behind : other - (system.connectors peer).calls.length ≠ 0 := by omega
      simp [Connector.standing, beyond.ne', List.getElem?_append_right beyond.le,
        List.getElem?_eq_none beyond.le, behind]
  exact orderly.goOn (standing rfl rfl) (fun _ _ => Iff.rfl) (fun _ member _ => member)
    (by simp [Phase.inside]) (by simp)
    (fun locked => absurd locked free) (fun member => absurd member absent)

theorem Ordered.acquire (ordered : Ordered system) (invariant : Invariant system)
    (run : system.acquire network peer id = some next) : Ordered next := by
  have orderly := ordered peer
  simp only [System.acquire, Option.bind_eq_bind, Option.bind_eq_some_iff] at run
  obtain ⟨call, found, run⟩ := run
  have inside := (List.getElem?_eq_some_iff.mp found).1
  have before := (invariant peer).holds id call found
  split at run
  next free =>
    simp only [View.Holds, System.view, free.1] at before
    have away : id ∉ (system.connectors peer).pcallQueue := by simpa using before.queued
    split at run
    next =>
      obtain rfl := Option.some.inj run
      apply ordered.set
      exact orderly.goOn (standing_set inside rfl)
        (fun other foreign => by simp [Connector.setCall, free.2, Ne.symm foreign]) (fun _ member _ => member)
        (fun _ => rfl) (by simp) (fun _ => by simp [Phase.inside]) (fun member => absurd member away)
    next =>
      have failing (error : LpcError) (seqNumber : Nat) (pending : PendingCall) :
          Ordered (system.setConnector peer
            (Connector.setCall { system.connectors peer with seqNumber := seqNumber, accessLock := none } id
              { call with
                ulCallSeqNum := seqNumber, pendingCall := pending, phase := .returned (.error error.code) })) := by
        apply ordered.set
        exact orderly.goOn (standing_set inside rfl) (fun other _ => by simp [Connector.setCall, free.2])
          (fun _ member _ => member) (by simp [Phase.inside]) (by simp) (by simp [Connector.setCall])
          (fun member => absurd member away)
      split at run
      next => exact Option.some.inj run ▸ failing _ _ _
      split at run
      next => exact Option.some.inj run ▸ failing _ _ _
      next =>
        obtain rfl := Option.some.inj run
        apply Ordered.send
        apply ordered.set
        exact orderly.goOn (standing_set inside rfl)
          (fun other foreign => by simp [Connector.addPendingCall, Connector.setCall, free.2, Ne.symm foreign])
          (fun other member foreign => (joined_other foreign).mp member) (fun _ => rfl) (by simp)
          (fun _ => by simp [Phase.inside]) (fun _ => by simp [Phase.waits])
  next => cases run

theorem Ordered.link (ordered : Ordered system) (invariant : Invariant system) {bAdded : Bool}
    (run : system.link network peer id bAdded = some next) : Ordered next := by
  have orderly := ordered peer
  simp only [System.link, Option.bind_eq_bind, Option.bind_eq_some_iff] at run
  obtain ⟨call, found, run⟩ := run
  have inside := (List.getElem?_eq_some_iff.mp found).1
  have before := (invariant peer).holds id call found
  split at run
  next linking =>
    simp only [View.Holds, System.view, linking] at before
    have away : id ∉ (system.connectors peer).pcallQueue := by simpa using before.1.queued
    have locked := orderly.alone found (by simp [linking, Phase.inside])
    simp only [Option.bind_eq_some_iff] at run
    obtain ⟨index, -, party, -, run⟩ := run
    split at run
    next =>
      obtain rfl := Option.some.inj run
      apply ordered.set
      exact orderly.releases inside locked away rfl (by simp) rfl rfl rfl
    next =>
      split at run
      next =>
        obtain rfl := Option.some.inj run
        apply ordered.set
        exact orderly.releases inside locked away rfl (by simp) rfl rfl rfl
      next =>
        obtain rfl := Option.some.inj run
        apply Ordered.send
        apply ordered.set
        exact orderly.goOn (standing_set inside rfl) (fun _ _ => Iff.rfl)
          (fun other member foreign => (joined_other foreign).mp member) (fun _ => locked) (by simp)
          (fun _ => by simp [Phase.inside]) (fun _ => by simp [Phase.waits])
  next => cases run

theorem Ordered.request (ordered : Ordered system) (run : system.request peer id = some next) : Ordered next := by
  have orderly := ordered peer
  simp only [System.request, Option.bind_eq_bind, Option.bind_eq_some_iff] at run
  obtain ⟨call, found, run⟩ := run
  have inside := (List.getElem?_eq_some_iff.mp found).1
  split at run
  next ready =>
    have unlocked := orderly.outside found (by simp [ready, Phase.inside]) (by simp [ready])
    simp only [Option.bind_eq_some_iff] at run
    obtain ⟨party, -, entry, -, socket, -, run⟩ := run
    obtain rfl := Option.some.inj run
    apply Ordered.send
    apply ordered.set
    exact orderly.goOn (standing_set inside rfl) (fun _ _ => Iff.rfl)
      (fun other member foreign => (joined_other foreign).mp member) (by simp [Phase.inside]) (by simp)
      (fun locked => absurd locked unlocked) (fun _ => by simp [Phase.waits])
  next => cases run

theorem Steady.read (steady : Steady system peer) {call : Call}
    (found : (system.connectors peer).calls[id]? = some call)
    (waits : call.phase.waits = true) (set : call.pendingCall.callError ≠ LpcError.requestTimeout.code) :
    id ∉ (system.connectors peer).pcallQueue := by
  intro member
  have holds := steady.holds id call found
  have delivered : ∃ delivered, (system.view peer id call).Delivered delivered := by
    cases phase : call.phase with
    | resolving | calling =>
      simp only [View.Holds, System.view, phase] at holds
      obtain ⟨delivered, slot, -⟩ := holds.slot
      exact ⟨delivered, slot⟩
    | connecting socket =>
      simp only [View.Holds, System.view, phase] at holds
      exact holds.2.1
    | _ => simp [phase, Phase.waits] at waits
  obtain ⟨delivered, slot⟩ := delivered
  rw [View.Delivered, System.view, decide_eq_true member] at slot
  exact set slot.waiting.2.2.1

theorem Steady.kind (steady : Steady system peer) {call : Call}
    (found : (system.connectors peer).calls[id]? = some call)
    (waits : call.phase.waits = true) :
    call.pendingCall.imcpMsgType = replyType ∨ call.pendingCall.imcpMsgType = ackType ∧ call.phase.inside = true := by
  have holds := steady.holds id call found
  cases phase : call.phase with
  | resolving | calling =>
    simp only [View.Holds, System.view, phase] at holds
    exact .inl holds.msgType
  | connecting socket =>
    simp only [View.Holds, System.view, phase] at holds
    exact .inr ⟨holds.1, rfl⟩
  | _ => simp [phase, Phase.waits] at waits

theorem Ordered.check (ordered : Ordered system) (invariant : Invariant system)
    (run : system.check network peer id = some next) : Ordered next := by
  have orderly := ordered peer
  simp only [System.check, Option.bind_eq_bind, Option.bind_eq_some_iff] at run
  obtain ⟨call, found, run⟩ := run
  have inside := (List.getElem?_eq_some_iff.mp found).1
  split at run
  next => cases run
  next waits =>
    have waits : call.phase.waits = true := by simpa using waits
    have early : call.phase ≠ .expired := fun late => by simp [late, Phase.waits] at waits
    split at run
    next =>
      obtain rfl := Option.some.inj run
      apply ordered.set
      refine orderly.goOn (standing_set inside rfl) (fun _ _ => Iff.rfl) (fun _ member _ => member)
        (by simp [Phase.inside]) (fun _ => ?_) (by simp) (by simp)
      obtain reply | ⟨ack, within⟩ := (invariant peer).kind found waits
      next => exact .inl reply
      next => exact .inr ⟨ack, orderly.alone found within⟩
    next set =>
      have away := (invariant peer).read found waits set
      -- Who returns from the last wait has no lock to release.
      have returning (result : Except Nat (List UInt8)) : Ordered (system.setConnector peer
          ((if call.phase = .calling then system.connectors peer else (system.connectors peer).release).setCall id
            { call with
              pendingCall := { call.pendingCall with callEvent := false }, phase := .returned result })) := by
        apply ordered.set
        by_cases calling : call.phase = .calling
        next =>
          have unlocked := orderly.outside found (by simp [calling, Phase.inside]) early
          simp only [calling, if_true]
          exact orderly.stays inside away (by simp) (by simp [Phase.inside, unlocked]) rfl rfl rfl
        next =>
          have within : call.phase.inside = true := by
            cases phase : call.phase <;> simp_all [Phase.waits, Phase.inside]
          have locked := orderly.alone found within
          simp only [calling, if_false]
          exact orderly.releases inside locked away rfl (by simp) rfl rfl rfl
      split at run
      next => exact Option.some.inj run ▸ returning _
      next =>
        split at run
        next => exact Option.some.inj run ▸ returning _
        next output there =>
          cases phase : call.phase with
          | calling =>
            have returned := returning (.ok output)
            simp only [phase] at run returned
            exact Option.some.inj run ▸ returned
          | connecting socket =>
            have locked := orderly.alone found (by simp [phase, Phase.inside])
            simp only [phase, Option.bind_eq_some_iff] at run
            obtain ⟨party, -, entry, -, run⟩ := run
            obtain rfl := Option.some.inj run
            apply ordered.set
            exact orderly.releases inside locked away rfl (by simp) rfl rfl rfl
          | resolving =>
            have locked := orderly.alone found (by simp [phase, Phase.inside])
            simp only [phase] at run
            obtain rfl := Option.some.inj run
            apply ordered.set
            exact orderly.stays inside away (by simp) (by simp [Phase.inside, locked]) rfl rfl rfl
          | _ => simp [phase, Phase.waits] at waits

theorem Ordered.write (ordered : Ordered system) {entry : Popped} (run : system.write peer entry = some next) :
    Ordered next := by
  simp only [System.write, Option.bind_eq_bind, Option.bind_eq_some_iff] at run
  obtain ⟨call, found, run⟩ := run
  split at run
  next =>
    split at run
    next => cases run
    next =>
      obtain rfl := Option.some.inj run
      apply ordered.set
      exact (ordered peer).frame (standing_write found rfl rfl (by simp)) rfl (List.Subset.refl _)
  next => cases run

theorem Ordered.popAll (ordered : Ordered system) : Ordered (system.popAll peer) := by
  apply ordered.set
  refine (ordered peer).frame (funext fun id => ?_) rfl (by simp)
  simp only [Connector.standing, List.getElem?_mapIdx, Option.map_map]
  congr 1
  funext call
  by_cases queued : id ∈ (system.connectors peer).pcallQueue <;> simp [queued]

theorem Ordered.popped (ordered : Ordered system) {later : Connector} {partyName : Option (List UInt8)}
    {msgType seqNumber callError : Nat} {outputBdo : List UInt8}
    (run : (system.connectors peer).popPendingCall partyName msgType seqNumber callError outputBdo = some later) :
    Ordered (system.setConnector peer later) := by
  apply ordered.set
  obtain ⟨-, rfl⟩ | ⟨entry, call, -, -, -, -, -, rfl⟩ := popped_pending run
  next => exact ordered peer
  next => exact (ordered peer).frame rfl rfl List.erase_subset

theorem Ordered.deliver (ordered : Ordered system) {packet : Packet} (run : system.deliver network packet = some next) :
    Ordered next := by
  simp only [System.deliver, Option.bind_eq_bind] at run
  split at run
  next =>
    split at run
    next =>
      obtain rfl := Option.some.inj run
      apply Ordered.send
      refine Ordered.set ordered ?_
      split
      next => exact ordered packet.target
      next => exact (ordered packet.target).frame rfl rfl (List.Subset.refl _)
    next =>
      simp only [Option.bind_eq_some_iff] at run
      obtain ⟨connector, popped, run⟩ := run
      exact Option.some.inj run ▸ ordered.popped popped
    next => exact Option.some.inj run ▸ ordered
    next =>
      simp only [Option.bind_eq_some_iff] at run
      obtain ⟨connector, popped, run⟩ := run
      exact Option.some.inj run ▸ ordered.popped popped
    next => exact Option.some.inj run ▸ ordered
  next => cases run

theorem own_pending {connector : Connector} {call : Call} (there : connector.calls[id]? = some call) {queue : List Nat}
    (search : connector.findPending (some call.pendingCall.partyName) call.pendingCall.imcpMsgType
      call.pendingCall.callSeqNumber queue = some none) : id ∉ queue := by
  induction queue with
  | nil => simp
  | cons first rest ih =>
    simp only [Connector.findPending, Option.bind_eq_bind, Option.bind_eq_some_iff] at search
    obtain ⟨found, thereToo, search⟩ := search
    split at search
    next => cases search
    next =>
      split at search
      next => simp at search
      next mismatch =>
        have other : id ≠ first := by
          rintro rfl
          obtain rfl := Option.some.inj (thereToo.symm.trans there)
          simp [sameName] at mismatch
        simpa [other] using ih search

theorem Orderly.finds (orderly : Orderly (system.connectors peer)) (steady : Steady system peer) {call : Call}
    (there : (system.connectors peer).calls[id]? = some call) (late : call.phase = .expired) {entry : Nat}
    (search : (system.connectors peer).findPending (some call.pendingCall.partyName) call.pendingCall.imcpMsgType
      call.pendingCall.callSeqNumber (system.connectors peer).pcallQueue = some (some entry)) : entry = id := by
  obtain ⟨member, found, thereFound, live, kind, number⟩ := found_pending search
  have standing := standing_of there
  rw [late] at standing
  obtain reply | ⟨ack, locked⟩ := orderly.expired id _ standing
  next =>
    have own : call.pendingCall.callSeqNumber = call.ulCallSeqNum := by
      have holds := steady.holds id call there
      simp only [View.Holds, System.view, late] at holds
      exact holds reply
    have ownFound : found.pendingCall.callSeqNumber = found.ulCallSeqNum :=
      (steady.holds entry found thereFound).own (by simpa [System.view] using member) (kind.trans reply) live
    exact steady.distinct entry id found call (steady.queued thereFound member) ⟨there, by simp [late]⟩
      (ownFound.symm.trans (number.trans own))
  next =>
    -- Both wait for an ACK, and only the holder of the lock does.
    have kind : found.pendingCall.imcpMsgType = ackType := kind.trans ack
    have lockedFound : (system.connectors peer).accessLock = some entry := by
      obtain ⟨phase, type, standing, waits⟩ := orderly.queued entry member
      obtain ⟨rfl, rfl⟩ : found.phase = phase ∧ found.pendingCall.imcpMsgType = type := by
        simpa [standing_of thereFound] using standing
      obtain waits | expired := waits
      next =>
        obtain reply | ⟨-, within⟩ := steady.kind thereFound waits
        next => simp [kind, replyType, ackType] at reply
        next => exact orderly.alone thereFound within
      next =>
        obtain reply | ⟨-, locked⟩ := orderly.expired entry _ (expired ▸ standing)
        next => simp [kind, replyType, ackType] at reply
        next => exact locked
    simpa [lockedFound] using locked

theorem Ordered.expire (ordered : Ordered system) (invariant : Invariant system)
    (run : system.expire peer id = some next) : Ordered next := by
  have orderly := ordered peer
  have steady := invariant peer
  simp only [System.expire, Option.bind_eq_bind, Option.bind_eq_some_iff] at run
  obtain ⟨call, there, run⟩ := run
  have inside := (List.getElem?_eq_some_iff.mp there).1
  split at run
  next late =>
    -- The end of the call, whatever was written to it.
    have ends (connector : Connector) {value : Call}
        (queue : connector.pcallQueue = (system.connectors peer).pcallQueue.erase id)
        (standing : connector.standing = (system.connectors peer).standing)
        (lock : connector.accessLock = (system.connectors peer).accessLock) (code : Nat)
        (length : id < connector.calls.length) :
        Orderly ((if connector.accessLock = some id then connector.release else connector).setCall id
          { value with phase := .returned (.error code) }) := by
      have away : id ∉ connector.pcallQueue := queue ▸ steady.nodup.not_mem_erase
      have erased : Orderly connector := orderly.frame standing lock (queue ▸ List.erase_subset)
      by_cases locked : connector.accessLock = some id
      next =>
        simp only [locked, if_true]
        exact erased.releases length locked away rfl (by simp) rfl rfl rfl
      next =>
        simp only [locked, if_false]
        exact erased.stays length away (by simp) (by simp [Phase.inside, locked]) rfl rfl rfl
    simp only [Option.bind_eq_some_iff] at run
    obtain ⟨search, searched, run⟩ := run
    cases search with
    | none =>
      simp only [Option.bind_some, there, Option.some.injEq] at run
      subst run
      apply ordered.set
      exact ends _ (List.erase_of_not_mem (own_pending there searched)).symm rfl rfl _ inside
    | some entry =>
      obtain rfl := orderly.finds steady there late searched
      simp only [Option.bind_some, there, Option.bind_eq_some_iff, Option.some.injEq] at run
      obtain ⟨written, thereWritten, rfl⟩ := run
      apply ordered.set
      refine ends { (system.connectors peer).setCall entry { call with pendingCall := { call.pendingCall with
        callOutputBdo := none, callEvent := true } } with
          pcallQueue := (system.connectors peer).pcallQueue.erase entry } rfl ?_ rfl _ ?_
      next => exact standing_write there rfl rfl rfl
      next => simpa [Connector.setCall] using inside
  next => cases run

end Threads

section Runs

variable {network : Network} {system next : System}

theorem Ordered.start : Ordered (System.start network) := by
  intro peer
  constructor <;> simp [System.start, System.enrolled, Connector.standing]

theorem Ordered.step (ordered : Ordered system) (invariant : Invariant system) {action : System.Action}
    (allowed : system.Allowed action) (run : system.step network action = some next) : Ordered next := by
  cases action with
  | enter peer partyName pInputBuffer => exact Option.some.inj run ▸ ordered.enter invariant partyName none pInputBuffer
  | enter2 peer party pInputBuffer =>
    simp only [System.step, System.enter2, Option.bind_eq_bind, Option.bind_eq_some_iff, Option.some.injEq] at run
    obtain ⟨entry, -, rfl⟩ := run
    exact ordered.enter invariant entry.partyName (some party) pInputBuffer
  | acquire peer id => exact ordered.acquire invariant run
  | link peer id bAdded => exact ordered.link invariant run
  | request peer id => exact ordered.request run
  | check peer id => exact ordered.check invariant run
  | expire peer id => exact ordered.expire invariant run
  | write peer entry => exact ordered.write run
  | overwrite peer entry memory => exact absurd allowed id
  | deliver packet => exact ordered.deliver run
  | dispatch entry dispatched =>
    simp only [System.step, System.dispatch] at run
    split at run
    next => exact Option.some.inj run ▸ ordered
    next => cases run
  | popAll peer => exact Option.some.inj run ▸ ordered.popAll
  | removeSocket peer party =>
    exact Option.some.inj run ▸ ordered.set ((ordered peer).frame rfl rfl (List.Subset.refl _))
  | connectToManager peer bAdded =>
    simp only [System.step, System.connectToManager] at run
    split at run
    next => exact Option.some.inj run ▸ ordered
    split at run
    next =>
      obtain rfl := Option.some.inj run
      apply Ordered.send
      exact ordered.set ((ordered peer).frame rfl rfl (List.Subset.refl _))
    next => exact Option.some.inj run ▸ ordered

theorem Ordered.run (reached : Reachable (System.step network) System.Allowed (System.start network) system) :
    Ordered system := by
  induction reached with
  | start => exact Ordered.start
  | next before allowed run ih => exact ih.step (Invariant.run before) allowed run

structure InOrder (connector : Connector) : Prop where
  exclusive : ∀ (id other : Nat) (call another : Call), connector.calls[id]? = some call →
    connector.calls[other]? = some another → call.phase.inside = true → another.phase.inside = true → id = other
  holder : ∀ id, connector.accessLock = some id →
    ∃ call, connector.calls[id]? = some call ∧ ∀ result, call.phase ≠ .returned result
  once : connector.pcallQueue.Nodup
  live : ∀ id ∈ connector.pcallQueue,
    ∃ call, connector.calls[id]? = some call ∧ ∀ result, call.phase ≠ .returned result
  found : ∀ partyName msgType seqNumber,
    connector.findPending partyName msgType seqNumber connector.pcallQueue ≠ none

theorem standing_iff {connector : Connector} {id kind : Nat} {phase : Phase} :
    connector.standing id = some (phase, kind) ↔
      ∃ call, connector.calls[id]? = some call ∧ call.phase = phase ∧ call.pendingCall.imcpMsgType = kind := by
  simp [Connector.standing, Option.map_eq_some_iff]

theorem findPending_live {connector : Connector} {partyName : Option (List UInt8)} {msgType seqNumber : Nat}
    {queue : List Nat} (live : ∀ id ∈ queue,
      ∃ call, connector.calls[id]? = some call ∧ ∀ result, call.phase ≠ .returned result) :
    connector.findPending partyName msgType seqNumber queue ≠ none := by
  induction queue with
  | nil => simp [Connector.findPending]
  | cons first rest ih =>
    obtain ⟨call, there, stays⟩ := live first List.mem_cons_self
    have later := ih fun id member => live id (List.mem_cons_of_mem first member)
    simp only [Connector.findPending, there, Option.bind_eq_bind, Option.bind_some]
    cases phase : call.phase with
    | returned result => exact absurd phase (stays result)
    | _ => split <;> simp [later]

def outOfTime : List System.Action :=
  [.enter 0 managerPartyName [5], .enter 0 managerPartyName [6], .acquire 0 0, .link 0 0 true, .check 0 0, .expire 0 0,
    .acquire 0 1, .link 0 1 true]

end Runs

end CcspCommon.AnscLpcConnector
