import CcspCommon.DslhWmpDatabase.Sessions

set_option autoImplicit false

namespace CcspCommon.DslhWmpDatabase

open CcspCommon.Shared CcspCommon.DslhVarRecord Database

variable {V O B : Type} [DecidableEq V] [DecidableEq O]

section Condition

variable (model : DataModel V O B)

def namedParam (entry : ParamValue) : Option (V × SlapVariable) :=
  (entry.name.bind model.getVarRecord).bind fun v => entry.value.map fun value => (v, value)

def namedParams (entries : List ParamValue) : List (V × SlapVariable) := entries.filterMap (namedParam model)

def namedVars (entries : List ParamValue) : List V := (namedParams model entries).map Prod.fst

def newObjects (objs news : List O) : List O := (news.filter (· ∉ objs)).eraseDups

def Rendered (request : Request) (backend : B) (entry : ParamValue) : Prop :=
  ∀ name v value, entry.name = some name → model.getVarRecord name = some v → entry.value = some value →
    notifySignal model request v name value (savedValue model backend v value) ≠ .valueMissing

/-- What a set needs to settle everything it names: beside the values that it keeps open from before, the
parameters are among the first 256 entries and their objects among the first 32 objects. -/
structure Settleable (db : Database V O B) (request : Request) : Prop where
  rendered : ∀ entry ∈ request.paramValues, Rendered model request db.backend entry
  holds : ∀ v ∈ namedVars model request.paramValues, HoldsValue model v
  parameters : ∀ v ∈ namedVars model request.paramValues,
    v ∈ db.ensureObjVarArray.vars ++
      (namedVars model request.paramValues).take (maxVarInArray - db.ensureObjVarArray.vars.length)
  objects : ∀ v ∈ namedVars model request.paramValues,
    model.objRecord v ∈ db.ensureObjVarArray.objs ++
      (newObjects db.ensureObjVarArray.objs ((namedVars model request.paramValues).map model.objRecord)).take
        (maxObjInArray - db.ensureObjVarArray.objs.length)

def SettlesAll (entries : List ParamValue) (before after : Database V O B) : Prop :=
  ∃ added, after.trace = before.trace ++ added ∧ ∀ v ∈ namedVars model entries,
    .verify (model.objRecord v) ∈ added ∧ .commitChanges (model.objRecord v) ∈ added ∧
      .commitChange v (lastValue (namedParams model entries) v) ∈ added ∧ (after.records v).tempParamValue = none

end Condition

section Arrays

omit [DecidableEq V] [DecidableEq O] in
theorem foldl_addVarRecordIntoArray (vars news : List V) :
    news.foldl addVarRecordIntoArray vars = vars ++ news.take (maxVarInArray - vars.length) := by
  induction news generalizing vars with
  | nil => simp
  | cons v rest ih =>
    rw [List.foldl_cons, ih, addVarRecordIntoArray]
    split_ifs with room
    · obtain ⟨left, more⟩ : ∃ left, maxVarInArray - vars.length = left + 1 := ⟨_, (Nat.sub_add_cancel (by omega)).symm⟩
      have less : maxVarInArray - (vars ++ [v]).length = left := by
        rw [List.length_append, List.length_singleton]
        omega
      rw [more, less, List.take_succ_cons, List.append_assoc, List.singleton_append]
    · rw [Nat.sub_eq_zero_of_le (Nat.not_lt.mp room), List.take_zero, List.take_zero]

omit [DecidableEq V] in
theorem newObjects_cons (objs : List O) (o : O) (rest : List O) :
    newObjects objs (o :: rest) = if o ∈ objs then newObjects objs rest else o :: newObjects (objs ++ [o]) rest := by
  unfold newObjects
  split_ifs with known
  · rw [List.filter_cons_of_neg (by simpa using known)]
  · rw [List.filter_cons_of_pos (by simpa using known), List.eraseDups_cons, List.filter_filter]
    congr 3
    funext other
    by_cases same : other = o <;> simp [same]

omit [DecidableEq V] in
theorem foldl_addObjRecordIntoArray (objs news : List O) :
    news.foldl addObjRecordIntoArray objs = objs ++ (newObjects objs news).take (maxObjInArray - objs.length) := by
  induction news generalizing objs with
  | nil => simp [newObjects]
  | cons o rest ih =>
    rw [List.foldl_cons, ih, newObjects_cons, addObjRecordIntoArray]
    split_ifs with full known known
    · rfl
    · rw [Nat.sub_eq_zero_of_le full, List.take_zero, List.take_zero]
    · rfl
    · obtain ⟨left, more⟩ : ∃ left, maxObjInArray - objs.length = left + 1 := ⟨_, (Nat.sub_add_cancel (by omega)).symm⟩
      have less : maxObjInArray - (objs ++ [o]).length = left := by
        rw [List.length_append, List.length_singleton]
        omega
      rw [more, less, List.take_succ_cons, List.append_assoc, List.singleton_append]

end Arrays

section Entries

variable (model : DataModel V O B) (request : Request)

omit [DecidableEq V] [DecidableEq O] in
theorem screen_named {backend : B} {entry : ParamValue} {v : V} {name : Text} {value : SlapVariable}
    (passed : screen model request backend entry = .ok (v, name, value)) :
    entry.name = some name ∧ model.getVarRecord name = some v ∧ entry.value = some value := by
  obtain ⟨named, given⟩ := entry
  cases named with
  | none => cases passed
  | some text =>
    cases given with
    | none => cases passed
    | some content =>
      unfold screen at passed
      cases found : model.getVarRecord text with
      | none =>
        simp only [found] at passed
        cases passed
      | some record =>
        simp only [found] at passed
        split_ifs at passed
        cases passed
        exact ⟨rfl, found, rfl⟩

omit [DecidableEq V] [DecidableEq O] in
theorem stores_named {round : Round V O B} {entry : ParamValue} {v : V} {value : SlapVariable}
    (stored : stores model request round entry = some (v, value)) : namedParam model entry = some (v, value) := by
  unfold stores at stored
  cases screened : screen model request round.db.backend entry with
  | error fault =>
    rw [screened] at stored
    cases stored
  | ok passed =>
    obtain ⟨record, name, content⟩ := passed
    rw [screened] at stored
    dsimp only at stored
    split_ifs at stored
    cases stored
    obtain ⟨named, found, given⟩ := screen_named model request screened
    simp [namedParam, named, found, given]

theorem admitEntry_signal (round : Round V O B) (v : V) (name : Text) (value : SlapVariable) :
    ((admitEntry model request round v name value).1 = .next →
      notifySignal model request v name value (getValue model round.db v) ≠ .valueMissing) ∧
    ((admitEntry model request round v name value).1 = .leave →
      notifySignal model request v name value (getValue model round.db v) = .valueMissing) := by
  obtain ⟨checked, -, denied | ⟨-, admitted⟩⟩ := admitEntry_checked model request round v name value
  · rw [denied]
    exact ⟨nofun, nofun⟩
  rw [admitted]
  cases signal : notifySignal model request v name value (getValue model round.db v) with
  | proceed => exact ⟨fun _ => nofun, nofun⟩
  | valueMissing => exact ⟨nofun, fun _ => rfl⟩
  | tooLong => exact ⟨nofun, nofun⟩

theorem setEntry_rendered (round : Round V O B) (entry : ParamValue) :
    ((setEntry model request round entry).1 = .next → Rendered model request round.db.backend entry) ∧
    ((setEntry model request round entry).1 = .leave → ¬ Rendered model request round.db.backend entry) := by
  unfold setEntry
  cases screened : screen model request round.db.backend entry with
  | error fault => exact ⟨nofun, nofun⟩
  | ok checked =>
    obtain ⟨v, name, value⟩ := checked
    dsimp only
    cases passed : tstValue model (round.db.records v) v value with
    | none => exact ⟨nofun, nofun⟩
    | some stored =>
      have old := getValue_stored model (tstValue_stored model passed)
      have signal := admitEntry_signal model request { round with db := round.db.setRecord v stored } v name value
      dsimp only at signal ⊢
      rw [old] at signal
      obtain ⟨isNamed, isFound, isGiven⟩ := screen_named model request screened
      constructor
      next =>
        intro next name' v' value' named found given
        cases isNamed.symm.trans named
        cases isFound.symm.trans found
        cases isGiven.symm.trans given
        exact signal.1 next
      next =>
        intro left rendered
        exact rendered name v value isNamed isFound isGiven (signal.2 left)

def pendingAfter (entries : List (V × SlapVariable)) (v : V) (before : Option SlapVariable) : Option SlapVariable :=
  entries.foldl (fun last entry => if entry.1 = v then some entry.2 else last) before

omit [DecidableEq O] in
theorem pendingAfter_of_mem {entries : List (V × SlapVariable)} {v : V} (member : v ∈ entries.map Prod.fst)
    (before : Option SlapVariable) : pendingAfter entries v before = lastValue entries v := by
  induction entries generalizing before with
  | nil => cases member
  | cons entry rest ih =>
    by_cases own : entry.1 = v
    · simp [pendingAfter, lastValue, own]
    · have later : v ∈ rest.map Prod.fst := by
        rcases List.mem_cons.mp member with rfl | later
        · exact absurd rfl own
        · exact later
      have same := ih later before
      rw [pendingAfter] at same
      simp only [pendingAfter, lastValue, List.foldl_cons, own, if_false]
      exact same

structure StoredAll (entries : List ParamValue) (before after : Round V O B) : Prop where
  backend : after.db.backend = before.db.backend
  rendered : ∀ entry ∈ entries, Rendered model request before.db.backend entry
  vars : after.db.ensureObjVarArray.vars =
    (namedVars model entries).foldl addVarRecordIntoArray before.db.ensureObjVarArray.vars
  objs : after.db.ensureObjVarArray.objs =
    ((namedVars model entries).map model.objRecord).foldl addObjRecordIntoArray before.db.ensureObjVarArray.objs
  pending : ∀ v, HoldsValue model v → (after.db.records v).tempParamValue =
    pendingAfter (namedParams model entries) v (before.db.records v).tempParamValue
  idle : ∀ v, ¬ HoldsValue model v → (after.db.records v).tempParamValue = (before.db.records v).tempParamValue

omit [DecidableEq O] in
theorem Touched.temp_holding {before after : Database V O B} {v other : V} {value : SlapVariable}
    {old : Option SlapVariable} (touched : Touched model before after v value old) (holds : HoldsValue model other) :
    (after.records other).tempParamValue = if v = other then some value else (before.records other).tempParamValue := by
  split_ifs with own
  · have held : ((model.entity other).bPersistent || model.bGroupCommit (model.objRecord other)) = true := by
      simpa [HoldsValue] using holds
    rw [← own] at held ⊢
    rw [touched.temp, if_pos held]
  · exact temp_of_values (touched.others other (Ne.symm own))

omit [DecidableEq O] in
theorem Touched.temp_idle {before after : Database V O B} {v other : V} {value : SlapVariable}
    {old : Option SlapVariable} (touched : Touched model before after v value old) (idle : ¬ HoldsValue model other) :
    (after.records other).tempParamValue = (before.records other).tempParamValue := by
  by_cases own : other = v
  · have free : ((model.entity other).bPersistent || model.bGroupCommit (model.objRecord other)) = false := by
      simpa [HoldsValue] using idle
    rw [own] at free ⊢
    rw [touched.temp, if_neg (by simp [free])]
  · exact temp_of_values (touched.others other own)

theorem setEntry_storedAll {round after : Round V O B} {entry : ParamValue}
    (run : setEntry model request round entry = (.next, after)) : StoredAll model request [entry] round after := by
  have rendered := (setEntry_rendered model request round entry).1 (by rw [run])
  have step := setEntry_cases model request round entry
  rw [run] at step
  cases step with
  | tracked v value db status stored touched =>
    have named : namedParams model [entry] = [(v, value)] := by
      rw [namedParams, List.filterMap_cons_some (stores_named model request stored), List.filterMap_nil]
    have arrays := ensureObjVarArray_self (track_arrays model round db status v value)
    constructor
    next =>
      rw [track_backend]
      exact touched.backend
    next => simpa using rendered
    next => rw [arrays, track_vars, ensured_vars touched.vars touched.objs, namedVars, named, List.map_singleton,
      List.foldl_cons, List.foldl_nil]
    next => rw [arrays, track_objs, ensured_objs touched.vars touched.objs, namedVars, named, List.map_singleton,
      List.map_singleton, List.foldl_cons, List.foldl_nil]
    next =>
      intro other holds
      rw [track_records, touched.temp_holding model holds, named]
      rfl
    next =>
      intro other idle
      rw [track_records, touched.temp_idle model idle]

theorem StoredAll.trans {first rest : List ParamValue} {before between after : Round V O B}
    (left : StoredAll model request first before between) (right : StoredAll model request rest between after) :
    StoredAll model request (first ++ rest) before after := by
  have params : namedParams model (first ++ rest) = namedParams model first ++ namedParams model rest :=
    List.filterMap_append
  have vars : namedVars model (first ++ rest) = namedVars model first ++ namedVars model rest := by
    rw [namedVars, params, List.map_append]
    rfl
  constructor
  next => exact right.backend.trans left.backend
  next =>
    intro entry member
    rcases List.mem_append.mp member with early | late
    · exact left.rendered entry early
    · exact left.backend ▸ right.rendered entry late
  next => rw [right.vars, left.vars, vars, List.foldl_append]
  next => rw [right.objs, left.objs, vars, List.map_append, List.foldl_append]
  next =>
    intro v holds
    rw [right.pending v holds, left.pending v holds, params, pendingAfter, pendingAfter, pendingAfter,
      List.foldl_append]
  next =>
    intro v idle
    rw [right.idle v idle, left.idle v idle]

theorem setEntries_storedAll (entries : List ParamValue) {round after : Round V O B}
    (run : setEntries model request entries round = (.next, after)) :
    StoredAll model request entries round after := by
  induction entries generalizing round with
  | nil =>
    cases run
    exact ⟨rfl, nofun, rfl, rfl, fun _ _ => rfl, fun _ _ => rfl⟩
  | cons entry rest ih =>
    rw [setEntries] at run
    split at run
    next between once => exact (setEntry_storedAll model request once).trans model request (ih run)
    next stopped other => exact absurd run (other _)

theorem setEntries_left (entries : List ParamValue) {round after : Round V O B}
    (run : setEntries model request entries round = (.leave, after)) :
    ∃ entry ∈ entries, ¬ Rendered model request round.db.backend entry := by
  induction entries generalizing round with
  | nil => cases run
  | cons entry rest ih =>
    rw [setEntries] at run
    split at run
    next between once =>
      obtain ⟨other, member, missing⟩ := ih run
      rw [(setEntry_storedAll model request once).backend] at missing
      exact ⟨other, List.mem_cons_of_mem entry member, missing⟩
    next stopped other =>
      exact ⟨entry, List.mem_cons_self, (setEntry_rendered model request round entry).2 (by rw [run])⟩

omit [DecidableEq V] [DecidableEq O] in
theorem named_of_not_rendered {backend : B} {entries : List ParamValue} {entry : ParamValue}
    (member : entry ∈ entries) (missing : ¬ Rendered model request backend entry) :
    ∃ v, v ∈ namedVars model entries := by
  by_contra nothing
  apply missing
  intro name v value named found given
  have known : namedParam model entry = some (v, value) := by
    simp [namedParam, named, found, given]
  exact absurd ⟨v, List.mem_map.mpr ⟨(v, value), List.mem_filterMap.mpr ⟨entry, member, known⟩, rfl⟩⟩ nothing

end Entries

section Events

variable (model : DataModel V O B)

inductive VerificationEvent : Event V O → Prop
  | deliver (v : V) (value : SlapVariable) : VerificationEvent (.deliver v value)
  | verify (o : O) : VerificationEvent (.verify o)

omit [DecidableEq V] [DecidableEq O] in
theorem deliver_events (db : Database V O B) (v : V) (value : SlapVariable) :
    Adds VerificationEvent db (deliver db v value) :=
  log_adds db (.deliver v value)

omit [DecidableEq O] in
theorem setEntrySingle_events (db : Database V O B) (v : V) :
    Adds VerificationEvent db (setEntrySingle model db v).1 := by
  unfold setEntrySingle
  split
  next value known =>
    have told := deliver_events { db with backend := (model.setEntryParam db.backend v value).1 } v value
    split_ifs
    · dsimp only
      split_ifs
      · exact told
      · exact told
    · exact Adds.refl _ db
  next => exact Adds.refl _ db

omit [DecidableEq O] in
theorem setEntrySingles_events (list : List V) (db : Database V O B) :
    Adds VerificationEvent db (setEntrySingles model list db).1 := by
  induction list generalizing db with
  | nil => exact Adds.refl _ db
  | cons v rest ih =>
    have one := setEntrySingle_events model db v
    unfold setEntrySingles
    split_ifs
    · split
      next told step =>
        rw [step] at one
        exact one.trans (ih told)
      next told step =>
        rw [step] at one
        exact one
    · exact ih db

omit [DecidableEq V] [DecidableEq O] in
theorem runValidateMethod_events (db : Database V O B) (o : O) :
    Adds VerificationEvent db (runValidateMethod model db o).1 := by
  unfold runValidateMethod
  split <;> exact Adds.refl _ db

omit [DecidableEq O] in
theorem verifyChanges_events (db : Database V O B) (o : O) :
    Adds VerificationEvent (db.log (.verify o)) (verifyChanges model db o).1 := by
  simp only [verifyChanges]
  split
  · exact Adds.refl _ _
  · have told := foldl_adds (fun db (value : V × SlapVariable) => deliver db value.1 value.2)
      (collectBulk model (db.log (.verify o)) (model.vareoTable o)) (fun db item _ => deliver_events db item.1 item.2)
      (db.log (.verify o))
    split
    · exact Adds.refl _ _
    · split
      next backend index run => exact told
      next backend run => exact Adds.trans told (runValidateMethod_events model _ o)
  · have singles := setEntrySingles_events model (model.vareoTable o) (db.log (.verify o))
    split
    next told name run =>
      rw [run] at singles
      exact singles
    next told run =>
      rw [run] at singles
      exact singles.trans (runValidateMethod_events model told o)

omit [DecidableEq O] in
theorem verifyAll_events (list : List O) (db : Database V O B) :
    ∃ added, (verifyAll model list db).1.trace = db.trace ++ added ∧ (∀ event ∈ added, VerificationEvent event) ∧
      ((verifyAll model list db).2 = .passed → ∀ o ∈ list, .verify o ∈ added) := by
  induction list generalizing db with
  | nil => exact ⟨[], by simp [verifyAll], nofun, nofun⟩
  | cons o rest ih =>
    obtain ⟨told, isTold, allTold⟩ := verifyChanges_events model db o
    have whole : (verifyChanges model db o).1.trace = db.trace ++ .verify o :: told := by
      rw [isTold, Database.log, List.append_assoc]
      rfl
    have first : ∀ event ∈ Event.verify o :: told, VerificationEvent event := by
      intro event member
      rcases List.mem_cons.mp member with rfl | inTold
      · exact .verify o
      · exact allTold event inTold
    unfold verifyAll
    split
    next verified run =>
      rw [run] at whole
      obtain ⟨added, isAdded, allAdded, verifies⟩ := ih verified
      refine ⟨.verify o :: told ++ added, ?_, ?_, ?_⟩
      · rw [isAdded, whole, List.append_assoc]
      · intro event member
        rcases List.mem_append.mp member with early | late
        · exact first event early
        · exact allAdded event late
      · intro passed other member
        rcases List.mem_cons.mp member with rfl | inRest
        · exact List.mem_append_left _ List.mem_cons_self
        · exact List.mem_append_right _ (verifies passed other inRest)
    next failed other =>
      refine ⟨_, whole, first, ?_⟩
      intro passed
      exact (other _ (Prod.ext rfl passed)).elim

omit [DecidableEq O] in
theorem setCommit_added {db : Database V O B} {sessionId : Int} (session : db.sessionID = sessionId)
    (arrays : db.HasArrays) :
    ∃ added, (setCommit model db sessionId true).2.trace = db.trace ++ added ∧
      (∀ o, .commitChanges o ∈ added ↔ o ∈ db.objs) ∧
      ∀ v value, .commitChange v (some value) ∈ added ↔ v ∈ db.vars ∧ (db.records v).tempParamValue = some value := by
  have closed := setCommit_cases model db sessionId true
  generalize setCommit model db sessionId true = result at closed ⊢
  cases closed with
  | refused other => exact absurd session other
  | empty _ missing => exact absurd arrays missing
  | cancelled _ _ cancels => cases cancels
  | committed =>
    have objects (list : List O) (db : Database V O B) :
        (list.foldl (commitChanges model) db).trace = db.trace ++ list.map .commitChanges := by
      induction list generalizing db with
      | nil => simp
      | cons o rest ih =>
        rw [List.foldl_cons, ih]
        simp [commitChanges, Database.log]
    have records := foldl_field Database.records (commitChanges model) (fun _ _ => rfl) db.objs db
    obtain ⟨added, isAdded, closes⟩ := closeAll_events true db.vars (db.objs.foldl (commitChanges model) db)
    obtain ⟨parameters, isParameters, all⟩ : Adds (fun event => ∃ v pending, event = .commitChange v pending)
        (db.objs.foldl (commitChanges model) db)
        (db.vars.foldl commitChange (db.objs.foldl (commitChanges model) db)) :=
      foldl_adds _ _ (fun db v _ => ⟨[_], rfl, by simp⟩) _
    obtain rfl : parameters = added := List.append_cancel_left (isParameters.symm.trans isAdded)
    rw [records] at closes
    refine ⟨db.objs.map .commitChanges ++ parameters, ?_, ?_, ?_⟩
    · rw [← List.append_assoc, ← objects db.objs db, ← isParameters]
      rfl
    · intro o
      rw [List.mem_append, List.mem_map]
      constructor
      · rintro (⟨other, member, same⟩ | member)
        · cases same
          exact member
        · obtain ⟨v, pending, other⟩ := all _ member
          cases other
      · intro member
        exact .inl ⟨o, member, rfl⟩
    · intro v value
      have parameter := closes v value
      rw [closing, if_pos rfl] at parameter
      rw [List.mem_append, parameter, or_iff_right]
      intro member
      obtain ⟨o, -, other⟩ := List.mem_map.mp member
      cases other

end Events

section Reached

variable (model : DataModel V O B)

def HeldOnly (db : Database V O B) : Prop := ∀ v, ¬ HoldsValue model v → (db.records v).tempParamValue = none

omit [DecidableEq V] [DecidableEq O] in
theorem HeldOnly.same {before after : Database V O B} (held : HeldOnly model before)
    (same : ∀ v, values (after.records v) = noValues ∨ values (after.records v) = values (before.records v)) :
    HeldOnly model after := by
  intro v idle
  rcases same v with cleared | kept
  · exact congrArg Prod.fst cleared
  · rw [temp_of_values kept]
    exact held v idle

theorem setEntries_heldOnly (request : Request) (entries : List ParamValue) {round : Round V O B}
    (held : HeldOnly model round.db) : HeldOnly model (setEntries model request entries round).2.db := by
  refine setEntries_keeps model request (fun result => HeldOnly model result.2.db) (fun before entry held => ?_)
    entries held
  have step := setEntry_cases model request before entry
  generalize setEntry model request before entry = result at step ⊢
  cases step with
  | rejected => exact held
  | denied _ _ _ _ _ touched | refused _ _ _ _ _ touched | left _ _ _ _ _ touched =>
    intro v idle
    exact (touched.temp_idle model idle).trans (held v idle)
  | tracked v value db status _ touched =>
    intro v idle
    rw [track_records]
    exact (touched.temp_idle model idle).trans (held v idle)

omit [DecidableEq O] in
theorem rollback_same (request : Request) (round : Round V O B) (db : Database V O B) (v : V) :
    values ((rollback model request round db).records v) = noValues ∨
      values ((rollback model request round db).records v) = values (db.records v) := by
  rw [rollback_values]
  split_ifs
  · exact .inl rfl
  · exact .inr rfl

omit [DecidableEq O] in
theorem setCommit_same (db : Database V O B) (sessionId : Int) (bCommit : Bool) (v : V) :
    values ((setCommit model db sessionId bCommit).2.records v) = noValues ∨
      values ((setCommit model db sessionId bCommit).2.records v) = values (db.records v) := by
  by_cases ready : db.sessionID = sessionId ∧ db.HasArrays
  · rw [setCommit_values model ready.1 ready.2]
    split_ifs
    · exact .inl rfl
    · exact .inr rfl
  · have closed := setCommit_cases model db sessionId bCommit
    generalize setCommit model db sessionId bCommit = result at closed ⊢
    cases closed with
    | refused | empty => exact .inr rfl
    | committed session arrays => exact absurd ⟨session, arrays⟩ ready
    | cancelled session arrays => exact absurd ⟨session, arrays⟩ ready

theorem setParameterValues_heldOnly (request : Request) {db : Database V O B} (held : HeldOnly model db) :
    HeldOnly model (setParameterValues model db request).db := by
  have initial : HeldOnly model (startRound db request).db := held
  have entries := setEntries_heldOnly model request request.paramValues initial
  have ended := setParameterValues_cases model request db
  generalize setParameterValues model db request = result at ended ⊢
  cases ended with
  | nothing => exact held
  | faulted fault round stopped =>
    rw [stopped] at entries
    exact entries.same model (rollback_same model request round round.db)
  | left round stopped =>
    rw [stopped] at entries
    exact entries
  | unverified round verified name _ passed failed =>
    have same := verifyAll_verified model (round.db.objs.take round.ulObjectCount) round.db
    rw [failed] at same
    rw [passed] at entries
    have checked : HeldOnly model verified := entries.same model fun v => .inr (same.values v)
    exact checked.same model (rollback_same model request round verified)
  | committed round verified _ _ passed succeeded =>
    have same := verifyAll_verified model (round.db.objs.take round.ulObjectCount) round.db
    rw [succeeded] at same
    rw [passed] at entries
    have checked : HeldOnly model verified := entries.same model fun v => .inr (same.values v)
    exact checked.same model (setCommit_same model verified request.sessionId true)
  | kept round verified _ _ passed succeeded =>
    have same := verifyAll_verified model (round.db.objs.take round.ulObjectCount) round.db
    rw [succeeded] at same
    rw [passed] at entries
    exact entries.same model fun v => .inr (same.values v)

theorem reachable_heldOnly {psmUserChanged : Text → Bool} {backend : B} {db : Database V O B}
    (reached : Reachable (step model) (fun _ _ => True) (create psmUserChanged backend) db) : HeldOnly model db := by
  refine reached.invariant (fun _ _ => rfl) ?_
  intro before after call held _ run
  cases call with
  | setParameterValues request =>
    cases run
    exact setParameterValues_heldOnly model request held
  | setCommit sessionId bCommit =>
    cases run
    exact held.same model (setCommit_same model before sessionId bCommit)

end Reached

section Completeness

variable (model : DataModel V O B) (request : Request)

theorem setEntries_objectsCounted {entries : List ParamValue} (nonempty : entries ≠ []) {round after : Round V O B}
    (run : setEntries model request entries round = (.next, after)) : after.ulObjectCount = after.db.objs.length := by
  induction entries generalizing round with
  | nil => exact absurd rfl nonempty
  | cons entry rest ih =>
    rw [setEntries] at run
    split at run
    next between once =>
      cases rest with
      | nil =>
        cases run
        have step := setEntry_cases model request round entry
        rw [once] at step
        cases step with
        | tracked => rfl
      | cons other others => exact ih (List.cons_ne_nil other others) run
    next stopped other => exact absurd run (other _)

theorem StoredAll.arrays {db : Database V O B} {round : Round V O B}
    (stored : StoredAll model request request.paramValues (startRound db request) round)
    (present : round.db.HasArrays) :
    round.db.vars = db.ensureObjVarArray.vars ++
      (namedVars model request.paramValues).take (maxVarInArray - db.ensureObjVarArray.vars.length) ∧
    round.db.objs = db.ensureObjVarArray.objs ++
      (newObjects db.ensureObjVarArray.objs ((namedVars model request.paramValues).map model.objRecord)).take
        (maxObjInArray - db.ensureObjVarArray.objs.length) := by
  have vars := stored.vars
  have objs := stored.objs
  have sameVars : (startRound db request).db.ensureObjVarArray.vars = db.ensureObjVarArray.vars := ensured_vars rfl rfl
  have sameObjs : (startRound db request).db.ensureObjVarArray.objs = db.ensureObjVarArray.objs := ensured_objs rfl rfl
  rw [ensureObjVarArray_self present, foldl_addVarRecordIntoArray, sameVars] at vars
  rw [ensureObjVarArray_self present, foldl_addObjRecordIntoArray, sameObjs] at objs
  exact ⟨vars, objs⟩

omit [DecidableEq O] in
theorem isLast_of_named {entries : List ParamValue} {v : V} (named : v ∈ namedVars model entries) :
    ∃ value, lastValue (namedParams model entries) v = some value := by
  obtain ⟨⟨_, value⟩, member, rfl⟩ := List.mem_map.mp named
  exact Option.ne_none_iff_exists'.mp (lastValue_of_mem member)

theorem HeldOnly.committed_iff {db : Database V O B} (held : HeldOnly model db) {round : Round V O B}
    {verified : Database V O B} (nonempty : request.paramValues ≠ [])
    (passed : setEntries model request request.paramValues (startRound db request) = (.next, round))
    (succeeded : verifyAll model (round.db.objs.take round.ulObjectCount) round.db = (verified, .passed)) :
    SettlesAll model request.paramValues db (setCommit model verified request.sessionId true).2.resetObjVarArray ↔
      Settleable model db request := by
  have frame := setEntries_frame model request request.paramValues (startRound db request)
  have stored := setEntries_storedAll model request request.paramValues passed
  have counted := setEntries_countedAfter model request nonempty (startRound db request)
  have objects := setEntries_objectsCounted model request nonempty passed
  have same := verifyAll_verified model (round.db.objs.take round.ulObjectCount) round.db
  obtain ⟨checks, isChecks, allChecks, verifies⟩ :=
    verifyAll_events model (round.db.objs.take round.ulObjectCount) round.db
  rw [succeeded] at same isChecks verifies
  rw [passed] at frame counted
  rw [objects, List.take_length] at verifies
  obtain ⟨varsAre, objsAre⟩ := stored.arrays model request counted.2
  have vars : verified.vars = round.db.vars := congrArg (Option.getD · []) same.vars
  have objs : verified.objs = round.db.objs := congrArg (Option.getD · []) same.objs
  have arrays : verified.HasArrays := by
    rw [HasArrays, same.vars, same.objs]
    exact counted.2
  have session : verified.sessionID = request.sessionId := same.sessionID.trans frame.1
  obtain ⟨commits, isCommits, commitsObjects, commitsVars⟩ := setCommit_added model session arrays
  have closes := setCommit_values model session arrays true
  have trace : (setCommit model verified request.sessionId true).2.resetObjVarArray.trace =
      db.trace ++ (checks ++ commits) := by
    rw [← List.append_assoc]
    change (setCommit model verified request.sessionId true).2.trace = _
    rw [isCommits, isChecks, frame.2]
    rfl
  have inCommits {event : Event V O} (member : event ∈ checks ++ commits) (other : ¬ VerificationEvent event) :
      event ∈ commits :=
    (List.mem_append.mp member).resolve_left fun inChecks => other (allChecks event inChecks)
  rw [vars, varsAre] at commitsVars closes
  rw [objs, objsAre] at commitsObjects
  rw [objsAre] at verifies
  constructor
  next =>
    rintro ⟨added, isAdded, all⟩
    obtain rfl : added = checks ++ commits := List.append_cancel_left (isAdded.symm.trans trace)
    have committed (v : V) (named : v ∈ namedVars model request.paramValues) : ∃ value,
        lastValue (namedParams model request.paramValues) v = some value ∧ .commitChange v (some value) ∈ commits := by
      obtain ⟨value, isValue⟩ := isLast_of_named model named
      have event := (all v named).2.2.1
      rw [isValue] at event
      exact ⟨value, isValue, inCommits event (by rintro ⟨⟩)⟩
    refine ⟨stored.rendered, ?_, ?_, ?_⟩
    · intro v named
      by_contra idle
      obtain ⟨value, -, event⟩ := committed v named
      have left := ((commitsVars v value).mp event).2
      rw [temp_of_values (same.values v), stored.idle v idle] at left
      have both := (held v idle).symm.trans left
      cases both
    · intro v named
      obtain ⟨value, -, event⟩ := committed v named
      exact ((commitsVars v value).mp event).1
    · intro v named
      exact (commitsObjects _).mp (inCommits (all v named).2.1 (by rintro ⟨⟩))
  next =>
    intro settleable
    refine ⟨checks ++ commits, trace, ?_⟩
    intro v named
    obtain ⟨value, isValue⟩ := isLast_of_named model named
    have place := settleable.objects v named
    have slot := settleable.parameters v named
    have pending : (verified.records v).tempParamValue = some value := by
      rw [temp_of_values (same.values v), stored.pending v (settleable.holds v named), pendingAfter_of_mem named,
        isValue]
    have cleared := closes v
    rw [if_pos slot] at cleared
    refine ⟨List.mem_append_left _ (verifies rfl _ place), List.mem_append_right _ ((commitsObjects _).mpr place), ?_,
      congrArg Prod.fst cleared⟩
    rw [isValue]
    exact List.mem_append_right _ ((commitsVars v value).mpr ⟨slot, pending⟩)

theorem HeldOnly.settlesAll_iff {db : Database V O B} (held : HeldOnly model db) (commits : request.bCommit = true)
    (success : (setParameterValues model db request).status.isSuccess = true) :
    SettlesAll model request.paramValues db (setParameterValues model db request).db ↔ Settleable model db request := by
  have faults := setEntries_fault model request request.paramValues (startRound db request)
  have frame := setEntries_frame model request request.paramValues (startRound db request)
  have ended := setParameterValues_cases model request db
  generalize setParameterValues model db request = result at ended success ⊢
  cases ended with
  | nothing empty =>
    rw [empty]
    refine iff_of_true ⟨[], by simp, nofun⟩ ?_
    constructor <;> rw [empty] <;> exact nofun
  | faulted fault round stopped =>
    rw [stopped] at faults
    exact absurd success (by simpa [FaultFails] using faults)
  | left round stopped =>
    obtain ⟨entry, member, missing⟩ := setEntries_left model request request.paramValues stopped
    refine iff_of_false ?_ fun settleable => missing (settleable.rendered entry member)
    rintro ⟨added, isAdded, all⟩
    obtain ⟨v, named⟩ := named_of_not_rendered model request member missing
    rw [stopped] at frame
    have nothing : added = [] := List.self_eq_append_right.mp (frame.2.symm.trans isAdded)
    have verified := (all v named).1
    rw [nothing] at verified
    cases verified
  | unverified => cases success
  | kept _ _ _ keeps =>
    rw [commits] at keeps
    cases keeps
  | committed round verified nonempty _ passed succeeded =>
      exact held.committed_iff model request nonempty passed succeeded

theorem successful_set_settles_iff {psmUserChanged : Text → Bool} {backend : B} {db : Database V O B}
    (reached : Reachable (step model) (fun _ _ => True) (create psmUserChanged backend) db)
    (commits : request.bCommit = true)
    (success : (setParameterValues model db request).status.isSuccess = true) :
    SettlesAll model request.paramValues db (setParameterValues model db request).db ↔ Settleable model db request :=
  (reachable_heldOnly model reached).settlesAll_iff model request commits success

end Completeness

theorem successful_set_settles_one :
    SettlesAll sampleModel (writeRequest "Device.Name" "x" 1 7 true).paramValues sampleDatabase
      (setParameterValues sampleModel sampleDatabase (writeRequest "Device.Name" "x" 1 7 true)).db := by
  have initial : Reachable (step sampleModel) (fun _ _ => True) sampleDatabase sampleDatabase := .start
  refine (successful_set_settles_iff sampleModel (writeRequest "Device.Name" "x" 1 7 true) initial rfl rfl).mpr ?_
  have named : namedVars sampleModel (writeRequest "Device.Name" "x" 1 7 true).paramValues = [true] := rfl
  constructor
  next =>
    intro entry _ name v value _ _ _ missing
    cases missing
  next =>
    intro v _
    exact .inr rfl
  next =>
    rw [named]
    decide
  next =>
    rw [named]
    decide

section Sample

def wideModel : DataModel Nat Nat Unit where
  converters := sampleModel.converters
  useNotifyComponent := false
  getVarRecord name := some name.length
  entity _ := sampleEntity "Name".toList
  objRecord v := v
  vareoTable o := [o]
  vareoDepth _ := by simp
  child _ _ member := List.mem_singleton.mp member
  fullName _ := "Device.".toList
  hasController _ := true
  bGroupCommit _ := true
  accessList _ := none
  notification _ := false
  signalText _ := none
  monitorEnabled := false
  userOpComponents := 0
  checkParamWritability _ _ := .notChange
  getParamValueByName _ _ := none
  setInterface _ := .single
  setEntryBulk _ _ _ := ((), none)
  setEntryParam _ _ _ := ((), true)
  validateMethod _ _ := ((), none)
  commitMethod _ _ := ((), true)
  rollbackMethod _ _ := ()

def wideRequest : Request where
  pAccessEntity := "WebUI".toList
  paramValues := (List.range 33).map fun n => ⟨some (List.replicate n 'x'), some (.varString (some "v".toList))⟩
  sessionId := 7
  writeID := 1
  bCommit := true

theorem wideModel_next (entries : List ParamValue)
    (all : ∀ entry ∈ entries, ∃ name, entry = ⟨some name, some (.varString (some "v".toList))⟩)
    (round : Round Nat Nat Unit) : (setEntries wideModel wideRequest entries round).1 = .next := by
  induction entries generalizing round with
  | nil => rfl
  | cons entry rest ih =>
    obtain ⟨name, rfl⟩ := all entry List.mem_cons_self
    exact ih (fun other member => all other (List.mem_cons_of_mem _ member)) _

theorem wideModel_passes (list : List Nat) (db : Database Nat Nat Unit) :
    (verifyAll wideModel list db).2 = .passed := by
  induction list generalizing db with
  | nil => rfl
  | cons o rest ih =>
    have done (db : Database Nat Nat Unit) : (setEntrySingle wideModel db o).2 = true := by
      unfold setEntrySingle
      split <;> rfl
    have set (db : Database Nat Nat Unit) : (setEntrySingles wideModel [o] db).2 = none := by
      unfold setEntrySingles
      split_ifs
      · split
        next => rfl
        next told failed =>
          have told' := done db
          rw [failed] at told'
          cases told'
      · rfl
    have passed : (verifyChanges wideModel db o).2 = .passed := by
      have single := set (db.log (.verify o))
      have interface : wideModel.setInterface o = .single := rfl
      have parameters : wideModel.vareoTable o = [o] := rfl
      simp only [verifyChanges, interface, parameters]
      split
      next told name failed =>
        rw [failed] at single
        cases single
      next => rfl
    rw [verifyAll]
    split
    next verified run => exact ih verified
    next failed other => exact (other _ (Prod.ext rfl passed)).elim

theorem wideModel_succeeds (db : Database Nat Nat Unit) :
    (setParameterValues wideModel db wideRequest).status = .success := by
  have entries := wideModel_next wideRequest.paramValues (by simp [wideRequest]) (startRound db wideRequest)
  have ended := setParameterValues_cases wideModel wideRequest db
  generalize setParameterValues wideModel db wideRequest = result at ended ⊢
  cases ended with
  | nothing | committed | kept => rfl
  | faulted fault round stopped =>
    rw [stopped] at entries
    cases entries
  | left round stopped =>
    rw [stopped] at entries
    cases entries
  | unverified round verified name _ _ failed =>
    have passes := wideModel_passes (round.db.objs.take round.ulObjectCount) round.db
    rw [failed] at passes
    cases passes

end Sample

theorem successful_set_skips_object :
    ¬ ∀ (model : DataModel Nat Nat Unit) (db : Database Nat Nat Unit) (request : Request),
      Reachable (step model) (fun _ _ => True) (create (fun _ => false) ()) db → request.bCommit = true →
      (setParameterValues model db request).status.isSuccess = true →
      SettlesAll model request.paramValues db (setParameterValues model db request).db := by
  intro always
  have succeeds : (setParameterValues wideModel (create (fun _ => false) ()) wideRequest).status.isSuccess = true := by
    rw [wideModel_succeeds]
    rfl
  have settled := always wideModel (create (fun _ => false) ()) wideRequest .start rfl succeeds
  have held : HeldOnly wideModel (create (fun _ => false) ()) := fun _ _ => rfl
  have settleable := (held.settlesAll_iff wideModel wideRequest rfl succeeds).mp settled
  have place := settleable.objects 32 (by decide)
  exact absurd place (by decide)

end CcspCommon.DslhWmpDatabase
