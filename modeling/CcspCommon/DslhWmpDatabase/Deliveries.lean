import CcspCommon.DslhWmpDatabase.Tracking
import Mathlib.Data.List.Induction

set_option autoImplicit false

namespace CcspCommon.DslhWmpDatabase

open CcspCommon.Shared CcspCommon.DslhVarRecord Database

variable {V O B : Type} [DecidableEq V] [DecidableEq O]

section LastValue

def lastValue (entries : List (V × SlapVariable)) (v : V) : Option SlapVariable :=
  entries.foldl (fun last entry => if entry.1 = v then some entry.2 else last) none

omit [DecidableEq O] in
@[simp] theorem lastValue_nil (v : V) : lastValue [] v = none := rfl

omit [DecidableEq O] in
@[simp] theorem lastValue_snoc (entries : List (V × SlapVariable)) (entry : V × SlapVariable) (v : V) :
    lastValue (entries ++ [entry]) v = if entry.1 = v then some entry.2 else lastValue entries v := by
  simp [lastValue]

omit [DecidableEq O] in
theorem mem_of_lastValue {entries : List (V × SlapVariable)} {v : V} {value : SlapVariable}
    (last : lastValue entries v = some value) : (v, value) ∈ entries := by
  induction entries using List.reverseRecOn with
  | nil => cases last
  | append_singleton entries entry ih =>
    rw [lastValue_snoc] at last
    split_ifs at last with same
    · obtain rfl := Option.some.inj last
      simp [← same]
    · exact List.mem_append_left _ (ih last)

omit [DecidableEq O] in
theorem lastValue_of_mem {entries : List (V × SlapVariable)} {v : V} {value : SlapVariable}
    (member : (v, value) ∈ entries) : lastValue entries v ≠ none := by
  induction entries using List.reverseRecOn with
  | nil => cases member
  | append_singleton entries entry ih =>
    rw [lastValue_snoc]
    split_ifs with same
    · exact nofun
    · apply ih
      rcases List.mem_append.mp member with earlier | last
      · exact earlier
      · obtain rfl := List.mem_singleton.mp last
        exact absurd rfl same

end LastValue

section Books

variable (model : DataModel V O B) (request : Request)

structure Booked (entries : List (V × SlapVariable)) (db : Database V O B) : Prop where
  temp : ∀ v, HoldsValue model v → (db.records v).tempParamValue = lastValue entries v
  idle : ∀ v, ¬ HoldsValue model v → (db.records v).tempParamValue = none
  trans : ∀ v translated, HoldsValue model v → (db.records v).tempParamValueTrans = some translated →
    ∃ value, (v, value) ∈ entries ∧
      (model.entity v).translate model.converters value = some (some translated)

def Settled (db : Database V O B) : Prop :=
  ∀ v, HoldsValue model v → (db.records v).tempParamValue = none →
    (db.records v).tempParamValueTrans = none

omit [DecidableEq O] in
theorem Booked.settled {entries : List (V × SlapVariable)} {db : Database V O B}
    (booked : Booked model entries db) : Settled model db := by
  intro v holds nothing
  cases trans : (db.records v).tempParamValueTrans with
  | none => rfl
  | some translated =>
    obtain ⟨value, member, -⟩ := booked.trans v translated holds trans
    rw [booked.temp v holds] at nothing
    exact absurd nothing (lastValue_of_mem member)

omit [DecidableEq O] in
theorem booked_nil {db : Database V O B} (nothing : NothingPending db) (settled : Settled model db) :
    Booked model [] db where
  temp v _ := nothing v
  idle v _ := nothing v
  trans v translated holds trans := by
    rw [settled v holds (nothing v)] at trans
    cases trans

omit [DecidableEq V] [DecidableEq O] in
theorem Settled.cleared {before after : Database V O B} (settled : Settled model before)
    (cleared : ∀ v, values (after.records v) = noValues ∨
      values (after.records v) = values (before.records v)) : Settled model after := by
  intro v holds nothing
  rcases cleared v with clear | same
  · exact (values_eq_noValues.mp clear).2.1
  · rw [trans_of_values same]
    exact settled v holds (temp_of_values same ▸ nothing)

omit [DecidableEq O] in
theorem Verified.booked {before after : Database V O B} (verified : Verified before after)
    {entries : List (V × SlapVariable)} (booked : Booked model entries before) :
    Booked model entries after := by
  constructor
  · intro v holds
    rw [temp_of_values (verified.values v), booked.temp v holds]
  · intro v transient
    rw [temp_of_values (verified.values v), booked.idle v transient]
  · intro v translated holds trans
    rw [trans_of_values (verified.values v)] at trans
    exact booked.trans v translated holds trans

omit [DecidableEq O] in
theorem Touched.idle {before after : Database V O B} {v : V} {value : SlapVariable}
    {old : Option SlapVariable} (touched : Touched model before after v value old)
    {entries : List (V × SlapVariable)} (booked : Booked model entries before) (other : V)
    (transient : ¬ HoldsValue model other) : (after.records other).tempParamValue = none := by
  by_contra pending
  rcases touched.pending model pending with earlier | ⟨rfl, holds⟩
  · exact earlier (booked.idle other transient)
  · exact transient holds

omit [DecidableEq O] in
theorem Touched.settled {before after : Database V O B} {v : V} {value : SlapVariable}
    {old : Option SlapVariable} (touched : Touched model before after v value old)
    (settled : Settled model before) : Settled model after := by
  intro other holds nothing
  by_cases same : other = v
  · subst same
    have stored : ((model.entity other).bPersistent || model.bGroupCommit (model.objRecord other)) = true := by
      simpa [HoldsValue] using holds
    rw [touched.temp, if_pos stored] at nothing
    cases nothing
  · have kept := touched.others other same
    rw [trans_of_values kept]
    exact settled other holds (temp_of_values kept ▸ nothing)

omit [DecidableEq O] in
theorem Touched.booked_transient {before after : Database V O B} {v : V} {value : SlapVariable}
    {old : Option SlapVariable} (touched : Touched model before after v value old)
    (transient : ¬ HoldsValue model v) {entries : List (V × SlapVariable)}
    (booked : Booked model entries before) : Booked model entries after := by
  have kept : ∀ other, HoldsValue model other →
      (after.records other).tempParamValue = (before.records other).tempParamValue ∧
        (after.records other).tempParamValueTrans = (before.records other).tempParamValueTrans := by
    intro other holds
    have different : other ≠ v := fun same => transient (same ▸ holds)
    have same := touched.others other different
    exact ⟨temp_of_values same, trans_of_values same⟩
  constructor
  · intro other holds
    rw [(kept other holds).1, booked.temp other holds]
  · exact touched.idle model booked
  · intro other translated holds trans
    rw [(kept other holds).2] at trans
    exact booked.trans other translated holds trans

omit [DecidableEq O] in
theorem Touched.booked {before after : Database V O B} {v : V} {value : SlapVariable}
    {old : Option SlapVariable} (touched : Touched model before after v value old)
    {entries : List (V × SlapVariable)} (booked : Booked model entries before) :
    Booked model (entries ++ [(v, value)]) after := by
  constructor
  · intro other holds
    rw [lastValue_snoc]
    split_ifs with same
    · subst same
      rw [touched.temp, if_pos (by simpa [HoldsValue] using holds)]
    · rw [temp_of_values (touched.others other (Ne.symm same)), booked.temp other holds]
  · exact touched.idle model booked
  · intro other translated holds trans
    by_cases same : other = v
    · subst same
      obtain ⟨fresh, known, result⟩ := touched.trans
      rw [result] at trans
      cases fresh with
      | some text =>
        obtain rfl := Option.some.inj trans
        exact ⟨value, by simp, known⟩
      | none =>
        obtain ⟨earlier, member, origin⟩ := booked.trans other translated holds trans
        exact ⟨earlier, List.mem_append_left _ member, origin⟩
    · rw [trans_of_values (touched.others other same)] at trans
      obtain ⟨earlier, member, origin⟩ := booked.trans other translated holds trans
      exact ⟨earlier, List.mem_append_left _ member, origin⟩

end Books

section Condition

variable (model : DataModel V O B)

def EntryBooked (request : Request) (round : Round V O B) (entry : ParamValue) : Prop :=
  EntryKeeps model request round entry ∧
    ∀ v value, stores model request round entry = some (v, value) →
      (setEntry model request round entry).1 = .leave → ¬ HoldsValue model v

structure Ledger (V O B : Type) where
  db : Database V O B
  opened : List (Request × V × SlapVariable)

def acceptedBy (db : Database V O B) : Call → List (Request × V × SlapVariable)
  | .setParameterValues request =>
    (setParameterValues model db request).accepted.map fun entry => (request, entry)
  | .setCommit _ _ => []

def Ledger.step (ledger : Ledger V O B) (call : Call) : Option (Ledger V O B) :=
  (DslhWmpDatabase.step model ledger.db call).map fun db =>
    ⟨db, if db.hVarRecordArray.isSome then ledger.opened ++ acceptedBy model ledger.db call else []⟩

def KeepsBooked (ledger : Ledger V O B) : Call → Prop
  | .setParameterValues request => EveryEntry model request (EntryBooked model request)
      request.paramValues (startRound ledger.db request)
  | .setCommit _ _ => True

def StemsFrom (basis : List (Request × V × SlapVariable)) (event : Event V O) : Prop :=
  ∀ v delivered, event = .deliver v delivered → ∃ request value, (request, v, value) ∈ basis ∧
    accessDenied model request v = false ∧
    (delivered = value ∨ (model.entity v).translate model.converters value = some (some delivered))

end Condition

section Calls

variable (model : DataModel V O B) (request : Request)

def BookedAfter (opened : List (V × SlapVariable)) : Outcome × Round V O B → Prop
  | (.next, round) | (.leave, round) => Booked model (opened ++ round.accepted) round.db
  | (.fault _, round) => Settled model round.db

theorem setEntry_bookedAfter (opened : List (V × SlapVariable)) (round : Round V O B) (entry : ParamValue)
    (good : BookedAfter model opened (.next, round)) (keeps : EntryBooked model request round entry) :
    BookedAfter model opened (setEntry model request round entry) := by
  have step := setEntry_cases model request round entry
  have leaves := keeps.2
  generalize setEntry model request round entry = result at step leaves ⊢
  cases step with
  | rejected => exact Booked.settled model good
  | denied _ _ _ _ _ touched => exact touched.settled model (Booked.settled model good)
  | refused _ _ _ _ _ touched => exact touched.settled model (Booked.settled model good)
  | left v value db status stored touched =>
    exact touched.booked_transient model (leaves v value stored rfl) good
  | tracked v value db status stored touched =>
    have booked := touched.booked model good
    change Booked model (opened ++ (round.accepted ++ [(v, value)])) _
    rw [← List.append_assoc]
    constructor
    · simpa only [track_records] using booked.temp
    · simpa only [track_records] using booked.idle
    · simpa only [track_records] using booked.trans

def FaultFails : Outcome × Round V O B → Prop
  | (.fault fault, _) => fault.status.isSuccess = false
  | _ => True

theorem setEntries_fault (entries : List ParamValue) (round : Round V O B) :
    FaultFails (setEntries model request entries round) := by
  refine setEntries_keeps model request FaultFails (fun before entry _ => ?_) entries trivial
  have step := setEntry_cases model request before entry
  generalize setEntry model request before entry = result at step ⊢
  cases step with
  | rejected fault _ failed => exact failed
  | denied | refused => rfl
  | left | tracked => trivial

theorem EveryEntry.mono {meets weaker : Round V O B → ParamValue → Prop}
    (weaken : ∀ round entry, meets round entry → weaker round entry) (entries : List ParamValue)
    {round : Round V O B} (all : EveryEntry model request meets entries round) :
    EveryEntry model request weaker entries round := by
  induction entries generalizing round with
  | nil => trivial
  | cons entry rest ih => exact ⟨weaken _ _ all.1, fun next => ih (all.2 next)⟩

theorem setEntries_access (entries : List ParamValue) (round : Round V O B)
    (initial : ∀ entry ∈ round.accepted, accessDenied model request entry.1 = false) :
    ∀ entry ∈ (setEntries model request entries round).2.accepted,
      accessDenied model request entry.1 = false := by
  refine setEntries_keeps model request (fun result => ∀ entry ∈ result.2.accepted,
    accessDenied model request entry.1 = false) (fun before entry held => ?_) entries initial
  have step := setEntry_cases model request before entry
  generalize setEntry model request before entry = result at step ⊢
  cases step with
  | rejected | denied | refused | left => exact held
  | tracked v value db status _ _ access =>
    intro accepted member
    rcases List.mem_append.mp member with earlier | last
    · exact held accepted earlier
    · obtain rfl := List.mem_singleton.mp last
      exact access

theorem accepted_access (db : Database V O B) :
    ∀ entry ∈ (setParameterValues model db request).accepted, accessDenied model request entry.1 = false := by
  have access := setEntries_access model request request.paramValues (startRound db request) nofun
  have ended := setParameterValues_cases model request db
  generalize setParameterValues model db request = result at ended ⊢
  cases ended with
  | nothing => exact nofun
  | faulted _ _ run | left _ run =>
    rw [run] at access
    exact access
  | unverified _ _ _ _ run =>
    rw [run] at access
    exact access
  | committed _ _ _ _ run | kept _ _ _ _ run =>
    rw [run] at access
    exact access

omit [DecidableEq O] in
theorem rollback_settled {db : Database V O B} (settled : Settled model db) (round : Round V O B) :
    Settled model (rollback model request round db) := by
  refine settled.cleared model fun v => ?_
  rw [rollback_values]
  split_ifs
  · exact .inl rfl
  · exact .inr rfl

omit [DecidableEq O] in
theorem setCommit_settled {db : Database V O B} (settled : Settled model db) (sessionId : Int)
    (bCommit : Bool) : Settled model (setCommit model db sessionId bCommit).2 := by
  by_cases opened : db.sessionID = sessionId ∧ db.HasArrays
  · refine settled.cleared model fun v => ?_
    rw [setCommit_values model opened.1 opened.2]
    split_ifs
    · exact .inl rfl
    · exact .inr rfl
  · have closed := setCommit_cases model db sessionId bCommit
    generalize setCommit model db sessionId bCommit = result at closed ⊢
    cases closed with
    | refused | empty => exact settled
    | committed session arrays | cancelled session arrays => exact absurd ⟨session, arrays⟩ opened

omit [DecidableEq O] in
theorem rollback_adds (round : Round V O B) (db : Database V O B) :
    Adds NotDelivery db (rollback model request round db) := by
  have cancelled : Adds NotDelivery db ((db.vars.take round.ulParameterCount).foldl cancelChange db) :=
    foldl_adds cancelChange _ (fun _ _ _ => ⟨[_], rfl, by simp [NotDelivery]⟩) db
  have undone := cancelled.trans (foldl_adds (cancelChanges model) (db.objs.take round.ulObjectCount)
    (fun _ _ _ => ⟨[_], rfl, by simp [NotDelivery]⟩) _)
  cases snmp : request.fromSnmp with
  | true =>
    simp only [rollback, snmp, if_true]
    exact cancelled
  | false =>
    simp only [rollback, snmp, Bool.false_eq_true, if_false]
    exact undone

omit [DecidableEq O] in
theorem setCommit_adds (db : Database V O B) (sessionId : Int) (bCommit : Bool) :
    Adds NotDelivery db (setCommit model db sessionId bCommit).2 := by
  have closed := setCommit_cases model db sessionId bCommit
  generalize setCommit model db sessionId bCommit = result at closed ⊢
  cases closed with
  | refused | empty => exact Adds.refl NotDelivery db
  | committed =>
    have objects : Adds NotDelivery db (db.objs.foldl (commitChanges model) db) :=
      foldl_adds _ _ (fun _ _ _ => ⟨[_], rfl, by simp [NotDelivery]⟩) db
    exact objects.trans (foldl_adds commitChange db.vars
      (fun _ _ _ => ⟨[_], rfl, by simp [NotDelivery]⟩) _)
  | cancelled =>
    have parameters : Adds NotDelivery db (db.vars.foldl cancelChange db) :=
      foldl_adds _ _ (fun _ _ _ => ⟨[_], rfl, by simp [NotDelivery]⟩) db
    exact parameters.trans (foldl_adds (cancelChanges model) db.objs
      (fun _ _ _ => ⟨[_], rfl, by simp [NotDelivery]⟩) _)

end Calls

section Ledgers

variable (model : DataModel V O B)

structure LedgerInvariant (ledger : Ledger V O B) : Prop where
  tracked : Tracked model ledger.db
  booked : Booked model (ledger.opened.map Prod.snd) ledger.db
  access : ∀ entry ∈ ledger.opened, accessDenied model entry.1 entry.2.1 = false

omit [DecidableEq O] in
theorem Booked.stems {basis : List (Request × V × SlapVariable)} {db : Database V O B}
    (booked : Booked model (basis.map Prod.snd) db)
    (access : ∀ entry ∈ basis, accessDenied model entry.1 entry.2.1 = false)
    {event : Event V O} (delivers : DeliversFrom db event) : StemsFrom model basis event := by
  intro v delivered isDelivery
  obtain ⟨pending, read⟩ := delivers v delivered isDelivery
  have holds : HoldsValue model v := by
    by_contra transient
    exact pending (booked.idle v transient)
  have origin : ∀ value, (v, value) ∈ basis.map Prod.snd → ∃ request, (request, v, value) ∈ basis := by
    intro value member
    obtain ⟨⟨request, entry⟩, listed, rfl⟩ := List.mem_map.mp member
    exact ⟨request, listed⟩
  cases trans : (db.records v).tempParamValueTrans with
  | some translated =>
    obtain ⟨value, member, known⟩ := booked.trans v translated holds trans
    obtain ⟨request, listed⟩ := origin value member
    rw [VarRecord.getParamValue, trans] at read
    obtain rfl := Option.some.inj read
    exact ⟨request, value, listed, access _ listed, .inr known⟩
  | none =>
    rw [VarRecord.getParamValue, trans] at read
    change (db.records v).tempParamValue = some delivered at read
    rw [booked.temp v holds] at read
    obtain ⟨request, listed⟩ := origin delivered (mem_of_lastValue read)
    exact ⟨request, delivered, listed, access _ listed, .inl rfl⟩

omit [DecidableEq V] [DecidableEq O] in
theorem stemsFrom_of_notDelivery {basis : List (Request × V × SlapVariable)} (event : Event V O)
    (other : NotDelivery event) : StemsFrom model basis event :=
  fun v delivered isDelivery => absurd isDelivery (other v delivered)

omit [DecidableEq O] in
theorem booked_of_settled {db : Database V O B} (tracked : Tracked model db) (settled : Settled model db)
    (missing : db.hVarRecordArray = none) : Booked model [] db :=
  booked_nil model (tracked.nothingPending model missing) settled

omit [DecidableEq O] in
theorem initial_booked {db : Database V O B} {opened : List (V × SlapVariable)}
    (booked : Booked model opened db) (request : Request) :
    BookedAfter model opened (.next, startRound db request) := by
  change Booked model (opened ++ []) _
  rw [List.append_nil]
  exact ⟨booked.temp, booked.idle, booked.trans⟩

theorem setParameterValues_booked {db : Database V O B} {opened : List (V × SlapVariable)}
    (booked : Booked model opened db) {request : Request}
    (keeps : EveryEntry model request (EntryBooked model request) request.paramValues (startRound db request)) :
    Settled model (setParameterValues model db request).db ∧
      (((setParameterValues model db request).status.isSuccess = true ∧
          Booked model (opened ++ (setParameterValues model db request).accepted)
            (setParameterValues model db request).db) ∨
        ((setParameterValues model db request).db.hVarRecordArray = none ∧
          ((setParameterValues model db request).status.isSuccess = false ∨ request.bCommit = true))) := by
  have run := setEntries_run model request (BookedAfter model opened)
    (setEntry_bookedAfter model request opened) request.paramValues (initial_booked model booked request) keeps
  have ended := setParameterValues_cases model request db
  generalize setParameterValues model db request = result at ended ⊢
  cases ended with
  | nothing =>
    rw [List.append_nil]
    exact ⟨booked.settled model, .inl ⟨rfl, booked⟩⟩
  | faulted fault round stopped =>
    have status := setEntries_fault model request request.paramValues (startRound db request)
    rw [stopped] at run status
    exact ⟨rollback_settled model request run round, .inr ⟨rfl, .inl status⟩⟩
  | left round stopped =>
    have status : (setEntries model request request.paramValues
        (startRound db request)).2.returnStatus.isSuccess := setEntries_status model request _ rfl
    rw [stopped] at run status
    exact ⟨Booked.settled model run, .inl ⟨status, run⟩⟩
  | unverified round verified name _ passed failed =>
    have same := verifyAll_verified model (round.db.objs.take round.ulObjectCount) round.db
    rw [passed] at run
    rw [failed] at same
    exact ⟨rollback_settled model request ((same.booked model run).settled model) round,
      .inr ⟨rfl, .inl rfl⟩⟩
  | committed round verified _ commit passed succeeded =>
    have same := verifyAll_verified model (round.db.objs.take round.ulObjectCount) round.db
    rw [passed] at run
    rw [succeeded] at same
    have settled := (same.booked model run).settled model
    exact ⟨setCommit_settled model settled request.sessionId true, .inr ⟨rfl, .inr commit⟩⟩
  | kept round verified _ _ passed succeeded =>
    have same := verifyAll_verified model (round.db.objs.take round.ulObjectCount) round.db
    rw [passed] at run
    rw [succeeded] at same
    exact ⟨(same.booked model run).settled model, .inl ⟨rfl, same.booked model run⟩⟩

omit [DecidableEq V] [DecidableEq O] in
theorem Adds.of_trace {meets : Event V O → Prop} {before same after : Database V O B}
    (trace : same.trace = before.trace) (adds : Adds meets same after) : Adds meets before after := by
  obtain ⟨added, isAdded, all⟩ := adds
  exact ⟨added, trace ▸ isAdded, all⟩

omit [DecidableEq V] [DecidableEq O] in
theorem map_snd_attribute (opened : List (Request × V × SlapVariable)) (request : Request)
    (accepted : List (V × SlapVariable)) :
    (opened ++ accepted.map fun entry => (request, entry)).map Prod.snd =
      opened.map Prod.snd ++ accepted := by
  simp [Function.comp_def]

omit [DecidableEq O] in
theorem verification_stems {opened : List (Request × V × SlapVariable)} {request : Request}
    {round : Round V O B} {verified : Database V O B}
    (booked : Booked model (opened.map Prod.snd ++ round.accepted) round.db)
    (access : ∀ entry ∈ opened ++ round.accepted.map fun entry => (request, entry),
      accessDenied model entry.1 entry.2.1 = false) (same : Verified round.db verified) :
    Adds (StemsFrom model (opened ++ round.accepted.map fun entry => (request, entry)))
      round.db verified := by
  refine same.delivers.mono fun event delivers => ?_
  refine Booked.stems model ?_ access delivers
  rw [map_snd_attribute]
  exact booked

theorem setParameterValues_stems {db : Database V O B} {opened : List (Request × V × SlapVariable)}
    (booked : Booked model (opened.map Prod.snd) db) {request : Request}
    (access : ∀ entry ∈ opened ++ acceptedBy model db (.setParameterValues request),
      accessDenied model entry.1 entry.2.1 = false)
    (keeps : EveryEntry model request (EntryBooked model request) request.paramValues (startRound db request)) :
    Adds (StemsFrom model (opened ++ acceptedBy model db (.setParameterValues request))) db
      (setParameterValues model db request).db := by
  have run := setEntries_run model request (BookedAfter model (opened.map Prod.snd))
    (setEntry_bookedAfter model request _) request.paramValues (initial_booked model booked request) keeps
  have frame := (setEntries_frame model request request.paramValues (startRound db request)).2
  have ended := setParameterValues_cases model request db
  simp only [acceptedBy] at access ⊢
  generalize setParameterValues model db request = result at ended access ⊢
  cases ended with
  | nothing => exact Adds.refl _ db
  | faulted fault round stopped =>
    rw [stopped] at frame
    exact Adds.of_trace frame ((rollback_adds model request round round.db).mono
      (stemsFrom_of_notDelivery model))
  | left round stopped =>
    rw [stopped] at frame
    exact Adds.of_trace frame (Adds.refl _ round.db)
  | unverified round verified name _ passed failed =>
    have same := verifyAll_verified model (round.db.objs.take round.ulObjectCount) round.db
    rw [passed] at run frame
    rw [failed] at same
    exact Adds.of_trace frame ((verification_stems model run access same).trans
      ((rollback_adds model request round verified).mono (stemsFrom_of_notDelivery model)))
  | committed round verified _ _ passed succeeded =>
    have same := verifyAll_verified model (round.db.objs.take round.ulObjectCount) round.db
    rw [passed] at run frame
    rw [succeeded] at same
    exact Adds.of_trace frame ((verification_stems model run access same).trans
      ((setCommit_adds model verified request.sessionId true).mono (stemsFrom_of_notDelivery model)))
  | kept round verified _ _ passed succeeded =>
    have same := verifyAll_verified model (round.db.objs.take round.ulObjectCount) round.db
    rw [passed] at run frame
    rw [succeeded] at same
    exact Adds.of_trace frame (verification_stems model run access same)

theorem acceptedBy_access {ledger : Ledger V O B} (invariant : LedgerInvariant model ledger) (call : Call) :
    ∀ entry ∈ ledger.opened ++ acceptedBy model ledger.db call,
      accessDenied model entry.1 entry.2.1 = false := by
  intro entry member
  rcases List.mem_append.mp member with earlier | fresh
  · exact invariant.access entry earlier
  · cases call with
    | setCommit => cases fresh
    | setParameterValues request =>
      obtain ⟨accepted, listed, rfl⟩ := List.mem_map.mp fresh
      exact accepted_access model request ledger.db accepted listed

omit [DecidableEq O] in
theorem Ledger.reopen_invariant {db : Database V O B} {basis : List (Request × V × SlapVariable)}
    (tracked : Tracked model db) (settled : Settled model db)
    (booked : db.hVarRecordArray.isSome → Booked model (basis.map Prod.snd) db)
    (access : ∀ entry ∈ basis, accessDenied model entry.1 entry.2.1 = false) :
    LedgerInvariant model ⟨db, if db.hVarRecordArray.isSome then basis else []⟩ := by
  cases arrays : db.hVarRecordArray.isSome with
  | true => exact ⟨tracked, booked arrays, access⟩
  | false =>
    have missing : db.hVarRecordArray = none := by simpa using arrays
    exact ⟨tracked, booked_of_settled model tracked settled missing, nofun⟩

theorem Ledger.step_invariant (ledger after : Ledger V O B) (call : Call)
    (invariant : LedgerInvariant model ledger) (keeps : KeepsBooked model ledger call)
    (run : ledger.step model call = some after) : LedgerInvariant model after := by
  have access := acceptedBy_access model invariant call
  cases call with
  | setParameterValues request =>
    obtain rfl := Option.some.inj run
    have tracked := setParameterValues_tracked model request invariant.tracked
      (EveryEntry.mono model request (fun _ _ met => met.1) _ keeps)
    obtain ⟨settled, booked⟩ := setParameterValues_booked model invariant.booked keeps
    refine Ledger.reopen_invariant model tracked settled (fun arrays => ?_) access
    rw [acceptedBy, map_snd_attribute]
    rcases booked with ⟨-, kept⟩ | ⟨missing, -⟩
    · exact kept
    · rw [missing] at arrays
      cases arrays
  | setCommit sessionId bCommit =>
    obtain rfl := Option.some.inj run
    have tracked := setCommit_tracked model invariant.tracked sessionId bCommit
    have settled := setCommit_settled model (invariant.booked.settled model) sessionId bCommit
    refine Ledger.reopen_invariant model tracked settled (fun arrays => ?_) access
    simp only [acceptedBy, List.append_nil]
    have closed := setCommit_cases model ledger.db sessionId bCommit
    generalize setCommit model ledger.db sessionId bCommit = result at closed arrays ⊢
    cases closed with
    | refused => exact invariant.booked
    | empty | committed | cancelled => cases arrays

theorem deliveries_stem_from_accepted {psmUserChanged : Text → Bool} {backend : B} {ledger : Ledger V O B}
    (reached : Reachable (Ledger.step model) (KeepsBooked model) ⟨create psmUserChanged backend, []⟩ ledger)
    (call : Call) (keeps : KeepsBooked model ledger call) {after : Ledger V O B}
    (run : ledger.step model call = some after) :
    Adds (StemsFrom model (ledger.opened ++ acceptedBy model ledger.db call)) ledger.db after.db := by
  have invariant : LedgerInvariant model ledger := by
    refine reached.invariant ⟨fun _ pending => absurd rfl pending, ⟨fun _ _ => rfl, fun _ _ => rfl, nofun⟩,
      nofun⟩ ?_
    exact fun before later call held allowed run => Ledger.step_invariant model before later call held allowed run
  have access := acceptedBy_access model invariant call
  cases call with
  | setParameterValues request =>
    obtain rfl := Option.some.inj run
    exact setParameterValues_stems model invariant.booked access keeps
  | setCommit sessionId bCommit =>
    obtain rfl := Option.some.inj run
    exact (setCommit_adds model ledger.db sessionId bCommit).mono (stemsFrom_of_notDelivery model)

end Ledgers

theorem deliveries_stem_from_accepted_open_write : ∃ after,
    Ledger.step sampleModel ⟨sampleDatabase, []⟩
      (.setParameterValues (writeRequest "Device.Name" "x" 1 7 true)) = some after ∧
    Event.deliver true (.varString (some "x".toList)) ∈ after.db.trace ∧
    Adds (StemsFrom sampleModel ([] ++ acceptedBy sampleModel sampleDatabase
      (.setParameterValues (writeRequest "Device.Name" "x" 1 7 true)))) sampleDatabase after.db := by
  have room : FindsRoom sampleModel (startRound sampleDatabase
      (writeRequest "Device.Name" "x" 1 7 true)).db.ensureObjVarArray true :=
    ⟨.inr (by decide), .inr (by decide)⟩
  have allowed : KeepsBooked sampleModel ⟨sampleDatabase, []⟩
      (.setParameterValues (writeRequest "Device.Name" "x" 1 7 true)) :=
    ⟨⟨fun _ => room, fun _ _ _ left => nomatch left⟩, fun _ => trivial⟩
  exact ⟨_, rfl, .tail _ (.head _), deliveries_stem_from_accepted sampleModel .start _ allowed rfl⟩

/-- The value of a denied write of `Device.Key` is delivered with the next write of `Device.Name`. -/
theorem denied_value_delivered :
    ¬ ∀ ledger, Reachable (Ledger.step sampleModel) (fun _ _ => True) ⟨sampleDatabase, []⟩ ledger →
      ∀ call after, ledger.step sampleModel call = some after →
        Adds (StemsFrom sampleModel (ledger.opened ++ acceptedBy sampleModel ledger.db call))
          ledger.db after.db := by
  intro always
  let calls : List Call := [.setParameterValues (writeRequest "Device.Key" "x" 1 7 true)]
  have reached := runAll_reachable calls (fun _ _ _ => trivial) .start
    (rfl : runAll (Ledger.step sampleModel) ⟨sampleDatabase, []⟩ calls = some _)
  obtain ⟨added, isAdded, all⟩ :=
    always _ reached (.setParameterValues (writeRequest "Device.Name" "y" 1 7 true)) _ rfl
  have events : [.verify (), .deliver false (.varString (some "x".toList)),
      .deliver true (.varString (some "y".toList)), .commitChanges (),
      .commitChange true (some (.varString (some "y".toList)))] = added := isAdded
  have delivered : Event.deliver false (.varString (some "x".toList)) ∈ added :=
    events ▸ .tail _ (.head _)
  obtain ⟨request, value, member, -⟩ := all _ delivered false _ rfl
  cases member with
  | tail _ later => cases later

end CcspCommon.DslhWmpDatabase
