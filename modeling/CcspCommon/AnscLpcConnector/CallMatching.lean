import CcspCommon.AnscLpcConnector.CallThreads

set_option autoImplicit false

namespace CcspCommon.AnscLpcConnector

open CcspCommon.HttpSmpo (ascii)
open CcspCommon.Shared (Reachable runAll runAllowed_reachable)

section Receivers

variable {network : Network} {system next : System} {peer : Peer} {id : Nat}

theorem found_pending {connector : Connector} {partyName : Option (List UInt8)} {msgType seqNumber entry : Nat}
    {queue : List Nat} (search : connector.findPending partyName msgType seqNumber queue = some (some entry)) :
    entry ∈ queue ∧ ∃ call, connector.calls[entry]? = some call ∧ (∀ result, call.phase ≠ .returned result) ∧
      call.pendingCall.imcpMsgType = msgType ∧ call.pendingCall.callSeqNumber = seqNumber := by
  induction queue with
  | nil => cases search
  | cons first rest ih =>
    simp only [Connector.findPending, Option.bind_eq_bind, Option.bind_eq_some_iff] at search
    obtain ⟨call, there, search⟩ := search
    split at search
    next => cases search
    next live =>
      split at search
      next hit =>
        obtain rfl : first = entry := by simpa using search
        exact ⟨List.mem_cons_self, call, there, live, hit.1, hit.2.1⟩
      next =>
        obtain ⟨member, rest⟩ := ih search
        exact ⟨List.mem_cons_of_mem first member, rest⟩

theorem missed_pending {connector : Connector} {msgType seqNumber : Nat} {queue : List Nat}
    (search : connector.findPending none msgType seqNumber queue = some none) {entry : Nat} (member : entry ∈ queue)
    {call : Call} (there : connector.calls[entry]? = some call) (kind : call.pendingCall.imcpMsgType = msgType) :
    call.pendingCall.callSeqNumber ≠ seqNumber := by
  induction queue with
  | nil => cases member
  | cons first rest ih =>
    simp only [Connector.findPending, Option.bind_eq_bind, Option.bind_eq_some_iff] at search
    obtain ⟨found, thereToo, search⟩ := search
    split at search
    next => cases search
    next =>
      split at search
      next => simp at search
      next mismatch =>
        obtain rfl | later := List.mem_cons.mp member
        next =>
          obtain rfl := Option.some.inj (thereToo.symm.trans there)
          intro own
          simp [kind, own] at mismatch
        next => exact ih search later

theorem Steady.queued (steady : Steady system peer) {call : Call}
    (there : (system.connectors peer).calls[id]? = some call) (member : id ∈ (system.connectors peer).pcallQueue) :
    (system.connectors peer).Numbered id call := by
  refine ⟨there, fun entering => ?_⟩
  have before := steady.holds id call there
  simp only [View.Holds, System.view, entering] at before
  simpa [member] using before.queued

theorem Invariant.cancel (invariant : Invariant system) {connector : Connector} {call : Call} {pending : PendingCall}
    (there : (system.connectors peer).calls[id]? = some call) (member : id ∈ (system.connectors peer).pcallQueue)
    (calls : connector.calls = (system.connectors peer).calls.set id { call with pendingCall := pending })
    (seqNumber : connector.seqNumber = (system.connectors peer).seqNumber)
    (queue : connector.pcallQueue = (system.connectors peer).pcallQueue.erase id)
    (popped : connector.popped = (system.connectors peer).popped)
    (msgType : pending.imcpMsgType = call.pendingCall.imcpMsgType)
    (number : pending.callSeqNumber = call.pendingCall.callSeqNumber) (output : pending.callOutputBdo = none) :
    Invariant (system.setConnector peer connector) := by
  apply invariant.set
  have steady := invariant peer
  have numbered := steady.queued there member
  refine steady.goOn (connectors_setConnector ..) numbered calls numbered.2 rfl seqNumber ?_ ?_ ?_ ?_
    (fun _ _ => rfl) (fun _ => rfl) ?_
  next => simpa only [queue] using steady.nodup.erase id
  next => exact fun other ne => queue ▸ List.mem_erase_of_ne ne
  next => simpa only [popped] using fun entry member => .inr member
  next => simp [Connector.writes, popped]
  next =>
    have later := (steady.holds id call there).reset (by simpa [System.view] using member) msgType number output
    simpa [Connector.view, System.view, queue, Connector.writes, popped, steady.nodup.not_mem_erase] using later

theorem setConnector_twice (first second : Connector) :
    (system.setConnector peer first).setConnector peer second = system.setConnector peer second := by
  simp [System.setConnector]

theorem Invariant.fails (invariant : Invariant system) {connector : Connector}
    (same : system.connectors peer = connector)
    {call : Call} (there : connector.calls[id]? = some call) (entered : call.phase ≠ .entering) (code : Nat) :
    Invariant (system.setConnector peer
      ((if connector.accessLock = some id then connector.release else connector).setCall id
        { call with phase := .returned (.error code) })) := by
  subst same
  split
  next => exact invariant.alone ⟨there, entered⟩ rfl nofun rfl rfl rfl rfl trivial
  next => exact invariant.alone ⟨there, entered⟩ rfl nofun rfl rfl rfl rfl trivial

theorem Invariant.expire (invariant : Invariant system) (run : system.expire peer id = some next) : Invariant next := by
  simp only [System.expire, Option.bind_eq_bind, Option.bind_eq_some_iff] at run
  obtain ⟨call, there, run⟩ := run
  split at run
  next expired =>
    have entered : call.phase ≠ .entering := by simp [expired]
    simp only [Option.bind_eq_some_iff] at run
    obtain ⟨search, searched, run⟩ := run
    cases search with
    | none =>
      simp only [Option.bind_some, there, Option.some.injEq] at run
      exact run ▸ invariant.fails rfl there entered _
    | some entry =>
      obtain ⟨member, found, thereFound, -⟩ := found_pending searched
      simp only [Option.bind_some, thereFound, Option.bind_eq_some_iff, Option.some.injEq] at run
      obtain ⟨late, thereLate, rfl⟩ := run
      have stays : late.phase ≠ .entering := by
        simp only [Connector.setCall, List.getElem?_set] at thereLate
        split at thereLate
        next own =>
          subst own
          rw [there] at thereFound
          simp only [Option.ite_none_right_eq_some, Option.some.injEq] at thereLate thereFound
          rw [← thereLate.2, ← thereFound]
          exact entered
        next =>
          obtain rfl := Option.some.inj (there.symm.trans thereLate)
          exact entered
      have cancelled : Invariant (system.setConnector peer
          { (system.connectors peer).setCall entry { found with pendingCall := { found.pendingCall with
              callError := call.pendingCall.callError, callOutputBdo := none, callEvent := true } } with
            pcallQueue := (system.connectors peer).pcallQueue.erase entry }) :=
        invariant.cancel thereFound member rfl rfl rfl rfl rfl rfl rfl
      simpa only [setConnector_twice] using cancelled.fails (connectors_setConnector ..) thereLate stays _
  next => cases run

theorem left_call {entry later : Popped} (member : later ∈ entry.left) : later.call = entry.call := by
  unfold Popped.left at member
  split at member <;> simp_all

theorem owes_call {entry : Popped} (owes : entry.owes id = true) : entry.call = id ∧ entry.write ≠ .event := by
  simpa [Popped.owes] using owes

theorem Invariant.write (invariant : Invariant system) {entry : Popped} (run : system.write peer entry = some next) :
    Invariant next := by
  have steady := invariant peer
  simp only [System.write, Option.bind_eq_bind, Option.bind_eq_some_iff] at run
  obtain ⟨call, there, run⟩ := run
  split at run
  next member =>
    obtain ⟨known, numbered⟩ := steady.popped entry member
    obtain rfl := Option.some.inj (numbered.1.symm.trans there)
    split at run
    next => cases run
    next live =>
      obtain rfl := Option.some.inj run
      apply invariant.set
      refine steady.goOn (connectors_setConnector ..) numbered rfl numbered.2 rfl rfl steady.nodup
        (fun _ _ => Iff.rfl) ?_ ?_ (fun _ _ => rfl) (fun _ => rfl) ?_
      next =>
        intro later inside
        obtain old | left := List.mem_append.mp inside
        next => exact .inr (List.mem_of_mem_erase old)
        next => exact .inl (left_call left)
      next =>
        intro other foreign
        have absent : entry ∉ ((system.connectors peer).popped.filter (Popped.owes other)) := by
          intro owed
          exact foreign (owes_call (List.mem_filter.mp owed).2).1.symm
        have nothing : entry.left.filter (Popped.owes other) = [] := by
          simp only [List.filter_eq_nil_iff]
          intro later left owes
          exact foreign ((left_call left).symm.trans (owes_call owes).1).symm
        simp [Connector.writes, List.erase_of_not_mem absent, ← List.erase_filter, nothing]
      next =>
        have owed (pending : entry.write ≠ .event) : entry ∈ (system.connectors peer).writes entry.call :=
          List.mem_filter.mpr ⟨member, by simpa [Popped.owes] using pending⟩
        have active (other : Popped) (owes : other ∈ (system.connectors peer).writes entry.call) :
            other.write ≠ .event := (owes_call (List.mem_filter.mp owes).2).2
        have later := (steady.holds entry.call known there).written owed active live
        simp only [View.written, System.view, Connector.writes, List.erase_filter, ← List.filter_append] at later
        exact later
  next => cases run

theorem Invariant.parties (invariant : Invariant system) {connector : Connector}
    (connectors : next.connectors = Function.update system.connectors peer connector)
    (calls : connector.calls = (system.connectors peer).calls)
    (queue : connector.pcallQueue = (system.connectors peer).pcallQueue)
    (popped : connector.popped = (system.connectors peer).popped)
    (seqNumber : connector.seqNumber = (system.connectors peer).seqNumber)
    (traces : ∀ other seqNumber, next.traces other seqNumber = system.traces other seqNumber)
    (answers : next.answers = system.answers) : Invariant next := by
  have answered (other : Peer) (seqNumber : Nat) : next.answered other seqNumber = system.answered other seqNumber := by
    simp [System.answered, answers]
  intro other
  by_cases mine : other = peer
  next =>
    subst mine
    refine (invariant other).frame ?_ ?_ ?_ ?_ (traces other) (answered other) <;> simpa [connectors]
  next =>
    refine (invariant other).frame ?_ ?_ ?_ ?_ (traces other) (answered other) <;> simp [connectors, mine]

theorem traces_unrelated {packet : Packet} (member : packet ∈ system.wire)
    (unrelated : ∀ seqNumber, packet.trace peer seqNumber = none) (seqNumber : Nat) :
    ({ system with wire := system.wire.erase packet } : System).traces peer seqNumber =
      system.traces peer seqNumber := by
  simp [traces_received member, unrelated]

theorem Invariant.hello (invariant : Invariant system) {packet : Packet} (member : packet ∈ system.wire)
    {partyAddr partyPort : Nat} {partyName : List UInt8}
    (message : packet.message = .hello partyAddr partyPort partyName)
    (run : system.deliver network packet = some next) : Invariant next := by
  have unrelated (peer : Peer) (seqNumber : Nat) : packet.trace peer seqNumber = none := by simp [Packet.trace, message]
  simp only [System.deliver, member, if_true, message, Option.some.injEq] at run
  subst run
  refine invariant.parties rfl ?_ ?_ ?_ ?_ ?_ rfl
  next => split <;> rfl
  next => split <;> rfl
  next => split <;> rfl
  next => split <;> rfl
  next =>
    intro other seqNumber
    simp [traces_send, Packet.trace, traces_unrelated member (unrelated other)]

theorem popped_pending {connector later : Connector} {partyName : Option (List UInt8)}
    {msgType seqNumber callError : Nat} {outputBdo : List UInt8}
    (run : connector.popPendingCall partyName msgType seqNumber callError outputBdo = some later) :
    (connector.findPending partyName msgType seqNumber connector.pcallQueue = some none ∧ later = connector) ∨
      ∃ entry call, entry ∈ connector.pcallQueue ∧ connector.calls[entry]? = some call ∧
        (∀ result, call.phase ≠ .returned result) ∧ call.pendingCall.imcpMsgType = msgType ∧
        call.pendingCall.callSeqNumber = seqNumber ∧
        later = { connector with
          pcallQueue := connector.pcallQueue.erase entry
          popped := connector.popped ++ [⟨entry, callError, outputBdo, .error⟩] } := by
  simp only [Connector.popPendingCall, Option.bind_eq_bind, Option.bind_eq_some_iff] at run
  obtain ⟨search, searched, run⟩ := run
  cases search with
  | none => exact .inl ⟨searched, (Option.some.inj run).symm⟩
  | some entry =>
    obtain ⟨member, call, there, live, kind, number⟩ := found_pending searched
    exact .inr ⟨entry, call, member, there, live, kind, number, (Option.some.inj run).symm⟩

theorem View.Holds.own {view : View} (holds : view.Holds) (queued : view.queued = true)
    (kind : view.call.pendingCall.imcpMsgType = replyType) (live : ∀ result, view.call.phase ≠ .returned result) :
    view.call.pendingCall.callSeqNumber = view.call.ulCallSeqNum := by
  cases phase : view.call.phase with
  | resolving | calling =>
    simp only [View.Holds, phase] at holds
    exact holds.seqNumber
  | entering =>
    simp only [View.Holds, phase] at holds
    simp [holds.queued] at queued
  | linking | ready =>
    simp only [View.Holds, phase] at holds
    simp [holds.1.queued] at queued
  | connecting socket =>
    simp only [View.Holds, phase, kind] at holds
    simp [replyType, ackType] at holds
  | expired =>
    simp only [View.Holds, phase] at holds
    exact holds kind
  | returned result => exact absurd phase (live result)

theorem Steady.taken (steady : Steady system peer) {connector : Connector} {call : Call}
    {callError : Nat} {outputBdo : List UInt8}
    (connectors : next.connectors peer = connector) (member : id ∈ (system.connectors peer).pcallQueue)
    (there : (system.connectors peer).calls[id]? = some call) (same : connector = { system.connectors peer with
      pcallQueue := (system.connectors peer).pcallQueue.erase id
      popped := (system.connectors peer).popped ++ [⟨id, callError, outputBdo, .error⟩] })
    (traces : ∀ seqNumber, seqNumber ≠ call.ulCallSeqNum → next.traces peer seqNumber = system.traces peer seqNumber)
    (answered : ∀ seqNumber, next.answered peer seqNumber = system.answered peer seqNumber)
    (holds : (View.mk call false ((system.connectors peer).writes id ++ [⟨id, callError, outputBdo, .error⟩])
      (next.traces peer call.ulCallSeqNum) (next.answered peer call.ulCallSeqNum)).Holds) : Steady next peer := by
  subst same
  have numbered := steady.queued there member
  have inside := (List.getElem?_eq_some_iff.mp there).1
  have unset : (system.connectors peer).calls = (system.connectors peer).calls.set id call := by
    simp [List.getElem?_eq_some_iff.mp there |>.2.symm]
  refine steady.goOn connectors numbered unset numbered.2 rfl rfl (steady.nodup.erase _)
    (fun _ ne => List.mem_erase_of_ne ne) ?_ ?_ traces answered ?_
  next =>
    intro later inside
    obtain old | new := List.mem_append.mp inside
    next => exact .inr old
    next => exact .inl (congrArg Popped.call (List.mem_singleton.mp new))
  next =>
    intro other foreign
    simp [Connector.writes, List.filter_append, Popped.owes, Ne.symm foreign]
  next =>
    simpa [Connector.view, Connector.writes, List.filter_append, Popped.owes, steady.nodup.not_mem_erase] using holds

theorem Invariant.acknowledge (invariant : Invariant system) {packet : Packet} (member : packet ∈ system.wire)
    {partyName : List UInt8} (message : packet.message = .ack partyName)
    (run : system.deliver network packet = some next) : Invariant next := by
  have unrelated (peer : Peer) (seqNumber : Nat) : packet.trace peer seqNumber = none := by simp [Packet.trace, message]
  simp only [System.deliver, member, if_true, message, Option.bind_eq_bind, Option.bind_eq_some_iff] at run
  obtain ⟨connector, popped, run⟩ := run
  obtain rfl := Option.some.inj run
  have traces (other : Peer) (seqNumber : Nat) :
      (({ system with wire := system.wire.erase packet } : System).setConnector packet.target connector).traces other
        seqNumber = system.traces other seqNumber := by
    simp [traces_unrelated member (unrelated other)]
  obtain ⟨-, rfl⟩ | ⟨entry, call, queued, there, live, kind, -, rfl⟩ := popped_pending popped
  next => exact invariant.parties rfl rfl rfl rfl rfl traces rfl
  next =>
    refine invariant.local (fun _ foreign => connectors_other foreign _)
      (fun other seqNumber _ => traces other seqNumber)
      (fun _ _ _ => rfl) ?_
    refine (invariant packet.target).taken (connectors_setConnector ..) queued there rfl
      (fun seqNumber _ => traces _ seqNumber) (fun _ => rfl) ?_
    rw [traces]
    have inQueue : (system.view packet.target entry call).queued = true := by simpa [System.view] using queued
    exact ((invariant packet.target).holds entry call there).acknowledged inQueue kind rfl live

theorem Invariant.serve (invariant : Invariant system) {packet : Packet} (member : packet ∈ system.wire)
    {seqNumber reqType : Nat} {reqData : List UInt8} (message : packet.message = .request seqNumber reqType reqData)
    (run : system.deliver network packet = some next) : Invariant next := by
  simp only [System.deliver, member, if_true, message, Option.some.injEq] at run
  subst run
  refine fun peer => (invariant peer).frame rfl rfl rfl rfl (fun number => ?_) (fun _ => rfl)
  rw [traces_received member]
  by_cases own : packet.source = peer ∧ seqNumber = number <;>
    simp [System.traces, Packet.trace, Serving.trace, message, own]

theorem Invariant.bye (invariant : Invariant system) {packet : Packet} (member : packet ∈ system.wire)
    {partyName : List UInt8} (message : packet.message = .bye partyName)
    (run : system.deliver network packet = some next) : Invariant next := by
  simp only [System.deliver, member, if_true, message, Option.some.injEq] at run
  subst run
  refine fun peer => (invariant peer).frame rfl rfl rfl rfl (fun number => ?_) (fun _ => rfl)
  exact traces_unrelated member (fun _ => by simp [Packet.trace, message]) number

theorem Invariant.reply (invariant : Invariant system) {packet : Packet} (member : packet ∈ system.wire)
    {seqNumber repType repCode : Nat} {repData : List UInt8}
    (message : packet.message = .reply seqNumber repType repCode repData)
    (run : system.deliver network packet = some next) : Invariant next := by
  have steady := invariant packet.target
  simp only [System.deliver, member, if_true, message, Option.bind_eq_bind, Option.bind_eq_some_iff] at run
  obtain ⟨connector, popped, run⟩ := run
  obtain rfl := Option.some.inj run
  have unrelated (peer : Peer) (number : Nat) (other : peer ≠ packet.target ∨ number ≠ seqNumber) :
      ({ system with wire := system.wire.erase packet } : System).traces peer number = system.traces peer number := by
    have none : ¬(packet.target = peer ∧ seqNumber = number) := by rintro ⟨rfl, rfl⟩; simp at other
    simp [traces_received member, Packet.trace, message, none]
  have gone : system.traces packet.target seqNumber = .replied repType repCode repData ::ₘ
      ({ system with wire := system.wire.erase packet } : System).traces packet.target seqNumber := by
    simp [traces_received member, Packet.trace, message]
  refine invariant.local (fun _ foreign => connectors_other foreign _)
    (fun other number foreign => unrelated other number (.inl foreign)) (fun _ _ _ => rfl) ?_
  obtain ⟨missed, rfl⟩ | ⟨entry, call, queued, there, live, kind, number, rfl⟩ := popped_pending popped
  next =>
    refine steady.traffic seqNumber (connectors_setConnector ..) (fun number other => unrelated _ number (.inr other))
      (fun _ _ => rfl) (by simp [gone]) ?_
    rintro id call ⟨there, -⟩ own
    have unread (kind : call.pendingCall.imcpMsgType = replyType)
        (number : call.pendingCall.callSeqNumber = call.ulCallSeqNum) :
        (system.view packet.target id call).queued = false := by
      by_contra queued
      have member : id ∈ (system.connectors packet.target).pcallQueue := by simpa [System.view] using queued
      exact missed_pending missed member there kind (number.trans own)
    rw [← own] at gone
    have later := (steady.holds id call there).late unread gone
    simp only [System.view, connectors_setConnector] at later ⊢
    exact later
  next =>
    have view := steady.holds entry call there
    have inQueue : (system.view packet.target entry call).queued = true := by simpa [System.view] using queued
    have own : seqNumber = call.ulCallSeqNum := number.symm.trans (view.own inQueue kind live)
    subst own
    refine steady.taken (connectors_setConnector ..) queued there rfl
      (fun number other => unrelated _ number (.inr other)) (fun _ => rfl) ?_
    exact view.popped inQueue kind rfl gone live

theorem Invariant.deliver (invariant : Invariant system) {packet : Packet}
    (run : system.deliver network packet = some next) : Invariant next := by
  by_cases member : packet ∈ system.wire
  next =>
    cases message : packet.message with
    | hello partyAddr partyPort partyName => exact invariant.hello member message run
    | ack partyName => exact invariant.acknowledge member message run
    | request seqNumber reqType reqData => exact invariant.serve member message run
    | reply seqNumber repType repCode repData => exact invariant.reply member message run
    | bye partyName => exact invariant.bye member message run
  next => simp [System.deliver, member] at run

theorem traces_served {entry : Serving} (member : entry ∈ system.serving) (answers : List Answer) (peer : Peer)
    (seqNumber : Nat) :
    system.traces peer seqNumber = ((entry.trace peer seqNumber).elim 0 fun trace => {trace}) +
      ({ system with serving := system.serving.erase entry, answers := answers } : System).traces peer seqNumber := by
  rw [System.traces, ← Multiset.cons_erase member]
  cases trace : entry.trace peer seqNumber <;> simp [System.traces, trace]

theorem Invariant.answer (invariant : Invariant system) {entry : Serving} (member : entry ∈ system.serving)
    (repCode : Nat) (repData : List UInt8) : Invariant
      (({ system with
        serving := system.serving.erase entry
        answers := system.answers ++ [⟨entry, repCode, repData⟩] } : System).send
          ⟨entry.callee, entry.client, .reply entry.seqNumber entry.reqType repCode repData⟩) := by
  intro peer
  have steady := invariant peer
  have before := traces_served member (system.answers ++ [⟨entry, repCode, repData⟩]) peer
  by_cases own : entry.client = peer
  next =>
    refine steady.traffic entry.seqNumber rfl (fun number other => ?_) (fun number other => ?_) ?_ ?_
    next => simp [before, traces_send, Serving.trace, Packet.trace, Ne.symm other]
    next => simp [System.answered, Ne.symm other]
    next => simp [before, Serving.trace, own]
    next =>
      rintro id call ⟨there, -⟩ number
      have asked := before entry.seqNumber
      simp only [Serving.trace, own, true_and, if_true, Option.elim_some, Multiset.singleton_add] at asked
      have later := (steady.holds id call there).dispatched ⟨entry, repCode, repData⟩
        (by simpa only [System.view, number] using asked)
      by_cases kind : entry.reqType = lpcCall
      next =>
        simpa [System.view, number, traces_send, Packet.trace, own, System.answered, kind] using later
      next =>
        simpa [System.view, number, traces_send, Packet.trace, own, System.answered, kind] using later
  next =>
    refine steady.frame rfl rfl rfl rfl (fun number => ?_) (fun number => ?_)
    next => simp [before, traces_send, Serving.trace, Packet.trace, own]
    next => simp [System.answered, own]

theorem Invariant.dispatch (invariant : Invariant system) {entry : Serving} {dispatched : System.Dispatched}
    (run : system.dispatch network entry dispatched = some next) : Invariant next := by
  by_cases member : entry ∈ system.serving
  next =>
    simp only [System.dispatch, member, if_true, Option.some.injEq] at run
    exact run ▸ invariant.answer member _ _
  next => simp [System.dispatch, member] at run

theorem Invariant.popAll (invariant : Invariant system) : Invariant (system.popAll peer) := by
  apply invariant.set
  have steady := invariant peer
  -- A call keeps its number and its phase.
  have old {other : Nat} {call : Call} (there : ((system.popAll peer).connectors peer).calls[other]? = some call) :
      ∃ pending before, (system.connectors peer).calls[other]? = some before ∧
        call = { before with pendingCall := pending } ∧
        (if other ∈ (system.connectors peer).pcallQueue then
          pending.imcpMsgType = before.pendingCall.imcpMsgType ∧
            pending.callSeqNumber = before.pendingCall.callSeqNumber ∧ pending.callOutputBdo = none
        else pending = before.pendingCall) := by
    simp only [System.popAll, connectors_setConnector, List.getElem?_mapIdx, Option.map_eq_some_iff] at there
    obtain ⟨before, there, rfl⟩ := there
    by_cases queued : other ∈ (system.connectors peer).pcallQueue
    next => exact ⟨_, before, there, by simp only [queued, if_true]; rfl, by simp [queued]⟩
    next => exact ⟨before.pendingCall, before, there, by simp [queued], by simp [queued]⟩
  constructor
  case small => simpa using steady.small
  case numbers =>
    rintro other call ⟨there, entered⟩
    obtain ⟨pending, before, was, rfl, -⟩ := old there
    simpa using steady.numbers other before ⟨was, entered⟩
  case distinct =>
    rintro other another call value ⟨there, entered⟩ ⟨thereToo, enteredToo⟩ same
    obtain ⟨pending, before, was, rfl, -⟩ := old there
    obtain ⟨pendingToo, beforeToo, wasToo, rfl, -⟩ := old thereToo
    exact steady.distinct _ _ _ _ ⟨was, entered⟩ ⟨wasToo, enteredToo⟩ same
  case fresh => simpa using steady.fresh
  case nodup => simp
  case queueInside => simp
  case popped =>
    intro entry member
    obtain ⟨call, there, entered⟩ := steady.popped entry (by simpa using member)
    refine ⟨_, by simp only [connectors_setConnector, List.getElem?_mapIdx, there, Option.map_some]; rfl, ?_⟩
    split <;> exact entered
  case holds =>
    intro other call there
    obtain ⟨pending, before, was, rfl, change⟩ := old there
    have holds := steady.holds other before was
    by_cases queued : other ∈ (system.connectors peer).pcallQueue
    next =>
      simp only [queued, if_true] at change
      have later := holds.reset (by simpa [System.view] using queued) change.1 change.2.1 change.2.2
      simpa [System.view, System.popAll, Connector.writes] using later
    next =>
      simp only [queued, if_false] at change
      simpa [System.view, System.popAll, Connector.writes, change, queued] using holds

theorem Invariant.removeSocket (invariant : Invariant system) (party : Nat) :
    Invariant (system.removeSocket peer party) :=
  invariant.parties rfl rfl rfl rfl rfl (fun _ _ => rfl) rfl

theorem Invariant.connectToManager (invariant : Invariant system) {bAdded : Bool}
    (run : system.connectToManager network peer bAdded = some next) : Invariant next := by
  simp only [System.connectToManager] at run
  split at run
  next => exact Option.some.inj run ▸ invariant
  split at run
  next =>
    obtain rfl := Option.some.inj run
    refine invariant.parties rfl rfl rfl rfl rfl (fun other seqNumber => ?_) rfl
    simp [traces_send, Packet.trace]
  next => exact Option.some.inj run ▸ invariant

end Receivers

section Runs

variable {network : Network} {system next : System}

theorem Invariant.start : Invariant (System.start network) := by
  intro peer
  constructor <;> simp [System.start, System.enrolled, Connector.Numbered, System.traces, System.answered]

-- What is sent has room for the number of a call, and no thread writes to a call that is freed.
def System.Allowed (system : System) : System.Action → Prop
  | .acquire peer _ => (system.connectors peer).seqNumber + 1 < 2 ^ 32
  | .overwrite .. => False
  | _ => True

instance (system : System) (action : System.Action) : Decidable (system.Allowed action) := by
  cases action <;> unfold System.Allowed <;> infer_instance

theorem Invariant.step (invariant : Invariant system) {action : System.Action} (allowed : system.Allowed action)
    (run : system.step network action = some next) : Invariant next := by
  cases action with
  | enter peer partyName pInputBuffer => exact Option.some.inj run ▸ invariant.enter partyName none pInputBuffer
  | enter2 peer party pInputBuffer =>
    simp only [System.step, System.enter2, Option.bind_eq_bind, Option.bind_eq_some_iff, Option.some.injEq] at run
    obtain ⟨entry, -, rfl⟩ := run
    exact invariant.enter entry.partyName (some party) pInputBuffer
  | acquire peer id => exact invariant.acquire allowed run
  | link peer id bAdded => exact invariant.link run
  | request peer id => exact invariant.request run
  | check peer id => exact invariant.check run
  | expire peer id => exact invariant.expire run
  | write peer entry => exact invariant.write run
  | overwrite peer entry memory => exact absurd allowed id
  | deliver packet => exact invariant.deliver run
  | dispatch entry dispatched => exact invariant.dispatch run
  | popAll peer => exact Option.some.inj run ▸ invariant.popAll
  | removeSocket peer party => exact Option.some.inj run ▸ invariant.removeSocket party
  | connectToManager peer bAdded => exact invariant.connectToManager run

theorem Invariant.run (reached : Reachable (System.step network) System.Allowed (System.start network) system) :
    Invariant system :=
  reached.invariant Invariant.start fun _ _ _ invariant allowed run => invariant.step allowed run

theorem answers_step {action : System.Action} (run : system.step network action = some next)
    (other : ∀ entry dispatched, action ≠ .dispatch entry dispatched) : next.answers = system.answers := by
  cases action with
  | dispatch entry dispatched => exact absurd rfl (other entry dispatched)
  | enter peer partyName pInputBuffer => exact Option.some.inj run ▸ rfl
  | popAll peer => exact Option.some.inj run ▸ rfl
  | removeSocket peer party => exact Option.some.inj run ▸ rfl
  | enter2 peer party pInputBuffer =>
    simp only [System.step, System.enter2, Option.bind_eq_bind, Option.bind_eq_some_iff, Option.some.injEq] at run
    obtain ⟨entry, -, rfl⟩ := run
    rfl
  | acquire peer id =>
    simp only [System.step, System.acquire, Option.bind_eq_bind, Option.bind_eq_some_iff] at run
    obtain ⟨call, -, run⟩ := run
    repeat' split at run
    all_goals first | exact Option.some.inj run ▸ rfl | cases run
  | link peer id bAdded =>
    simp only [System.step, System.link, Option.bind_eq_bind, Option.bind_eq_some_iff] at run
    obtain ⟨call, -, run⟩ := run
    split at run
    next =>
      simp only [Option.bind_eq_some_iff] at run
      obtain ⟨party, -, entry, -, run⟩ := run
      repeat' split at run
      all_goals exact Option.some.inj run ▸ rfl
    next => cases run
  | request peer id =>
    simp only [System.step, System.request, Option.bind_eq_bind, Option.bind_eq_some_iff] at run
    obtain ⟨call, -, run⟩ := run
    split at run
    next =>
      simp only [Option.bind_eq_some_iff] at run
      obtain ⟨party, -, entry, -, socket, -, run⟩ := run
      exact Option.some.inj run ▸ rfl
    next => cases run
  | check peer id =>
    simp only [System.step, System.check, Option.bind_eq_bind, Option.bind_eq_some_iff] at run
    obtain ⟨call, -, run⟩ := run
    repeat' split at run
    all_goals first
      | exact Option.some.inj run ▸ rfl
      | cases run
      | (simp only [Option.bind_eq_some_iff] at run
         obtain ⟨party, -, entry, -, run⟩ := run
         exact Option.some.inj run ▸ rfl)
  | expire peer id =>
    simp only [System.step, System.expire, Option.bind_eq_bind, Option.bind_eq_some_iff] at run
    obtain ⟨call, -, run⟩ := run
    split at run
    next =>
      simp only [Option.bind_eq_some_iff] at run
      obtain ⟨found, -, run⟩ := run
      split at run
      next =>
        simp only [Option.bind_some, Option.bind_eq_some_iff] at run
        obtain ⟨call, -, run⟩ := run
        exact Option.some.inj run ▸ rfl
      next =>
        simp only [Option.bind_some, Option.bind_eq_some_iff] at run
        obtain ⟨found, -, call, -, run⟩ := run
        exact Option.some.inj run ▸ rfl
    next => cases run
  | overwrite peer entry memory =>
    simp only [System.step, System.overwrite, Option.bind_eq_bind, Option.bind_eq_some_iff] at run
    obtain ⟨call, -, run⟩ := run
    repeat' split at run
    all_goals first | exact Option.some.inj run ▸ rfl | cases run
  | write peer entry =>
    simp only [System.step, System.write, Option.bind_eq_bind, Option.bind_eq_some_iff] at run
    obtain ⟨call, -, run⟩ := run
    repeat' split at run
    all_goals first | exact Option.some.inj run ▸ rfl | cases run
  | deliver packet =>
    simp only [System.step, System.deliver, Option.bind_eq_bind] at run
    repeat' split at run
    all_goals first
      | exact Option.some.inj run ▸ rfl
      | cases run
      | (simp only [Option.bind_eq_some_iff] at run
         obtain ⟨connector, -, run⟩ := run
         exact Option.some.inj run ▸ rfl)
  | connectToManager peer bAdded =>
    simp only [System.step, System.connectToManager] at run
    repeat' split at run
    all_goals exact Option.some.inj run ▸ rfl

def pair : Network where
  machine := ⟨.four, true, true⟩
  identity peer :=
    if peer = 0 then ⟨ascii "one", 1, 10, 2, 20, .client⟩ else ⟨managerPartyName, 2, 20, 0, 0, .server⟩
  listener partyAddr partyPort := if partyAddr = 2 ∧ partyPort = 20 then some 1 else none

def oneCall (pInputBuffer output : List UInt8) : List System.Action :=
  let written (outputBdo : List UInt8) : List System.Action :=
    [.write 0 ⟨0, 0, outputBdo, .error⟩, .write 0 ⟨0, 0, outputBdo, .output⟩, .write 0 ⟨0, 0, outputBdo, .event⟩]
  [.enter 0 managerPartyName pInputBuffer, .acquire 0 0, .link 0 0 true, .deliver ⟨0, 1, .hello 1 10 (ascii "one")⟩,
    .deliver ⟨1, 0, .ack managerPartyName⟩] ++ written (ImcpMessage.msgData pair.machine (.ack managerPartyName)) ++
  [.check 0 0, .request 0 0, .deliver ⟨0, 1, .request 1 lpcCall pInputBuffer⟩,
    .dispatch ⟨1, 0, 1, lpcCall, pInputBuffer⟩ ⟨true, 0, output⟩, .deliver ⟨1, 0, .reply 1 lpcCall 0 output⟩] ++
  written output ++ [.check 0 0]

-- The time of a call is over while its answer is still being written.
example : (runAll (fun s action => if System.Allowed s action then System.step pair s action else none)
    (System.start pair) [.enter 0 managerPartyName [5], .acquire 0 0, .link 0 0 true,
      .deliver ⟨0, 1, .hello 1 10 (ascii "one")⟩, .check 0 0, .deliver ⟨1, 0, .ack managerPartyName⟩, .expire 0 0]).any
      (fun s => (System.step pair s (.overwrite 0
        ⟨0, 0, ImcpMessage.msgData pair.machine (.ack managerPartyName), .error⟩ (s.connectors 0))).isSome) = true := by
  decide +kernel

end Runs

end CcspCommon.AnscLpcConnector
