import CcspCommon.DslhWmpDatabase.Effects

set_option autoImplicit false

namespace CcspCommon.DslhWmpDatabase

open CcspCommon.Shared CcspCommon.DslhVarRecord Database

variable {V O B : Type} [DecidableEq V] [DecidableEq O]

section Condition

variable (model : DataModel V O B) (request : Request)

def StoresNothing (v : V) (value : SlapVariable) : Prop :=
  (model.entity v).bPersistent = false ∧ model.bGroupCommit (model.objRecord v) = false ∧
    (model.entity v).translate model.converters value = some none

def FindsPlace (round : Round V O B) (v : V) (value : SlapVariable) : Prop :=
  v ∈ round.db.ensureObjVarArray.vars ∨ round.db.ensureObjVarArray.vars.length < maxVarInArray ∨
    (StoresNothing model v value ∧ model.getParamValueByName round.db.backend v = none)

/-- The rollback will reach the record that the entry changes. An entry that is denied or refused
after its value was stored must be among the parameters counted before. -/
def EntryReaches (round : Round V O B) (entry : ParamValue) : Prop :=
  match stores model request round entry, (setEntry model request round entry).1 with
  | none, _ => True
  | some (v, value), .next => FindsPlace model round v value
  | some (v, value), .fault fault =>
    v ∈ round.db.vars.take round.ulParameterCount ∨
      (fault.status = .notWritable ∧ StoresNothing model v value)
  | some _, .leave => True

def RollbackReaches (db : Database V O B) : Prop :=
  EveryEntry model request (EntryReaches model request) request.paramValues (startRound db request)

end Condition

def Idle (db : Database V O B) : Prop := ∀ v, values (db.records v) = noValues

def Unchanged (before after : Database V O B) : Prop :=
  ∀ v, values (after.records v) = values (before.records v)

def Reached (round : Round V O B) : Prop :=
  ∀ v, values (round.db.records v) ≠ noValues → v ∈ round.db.vars.take round.ulParameterCount

section Entries

variable (model : DataModel V O B) (request : Request)

omit [DecidableEq V] [DecidableEq O] in
theorem values_eq_noValues {record : VarRecord} : values record = noValues ↔
    record.tempParamValue = none ∧ record.tempParamValueTrans = none ∧ record.oldParamValue = none := by
  simp [values, noValues]

omit [DecidableEq V] [DecidableEq O] in
theorem Touched.values_of_clean {before after : Database V O B} {v : V} {value : SlapVariable}
    {old : Option SlapVariable} (touched : Touched model before after v value old)
    (clean : values (before.records v) = noValues) :
    values (after.records v) = noValues ↔ StoresNothing model v value ∧ old = none := by
  obtain ⟨temp, trans, -⟩ := values_eq_noValues.mp clean
  obtain ⟨translated, known, result⟩ := touched.trans
  rw [values_eq_noValues, touched.temp, result, touched.old, temp, trans]
  unfold StoresNothing
  rw [known]
  cases (model.entity v).bPersistent <;> cases model.bGroupCommit (model.objRecord v) <;>
    cases translated <;> simp

structure RoundReached (round : Round V O B) : Prop where
  reached : Reached round
  arrays : 0 < round.ulParameterCount → round.db.HasArrays

omit [DecidableEq V] [DecidableEq O] in
theorem reached_touched {round : Round V O B} (good : Reached round) {v : V} {value : SlapVariable}
    {db : Database V O B} {old : Option SlapVariable}
    (touched : Touched model round.db db v value old) :
    Reached { round with db := db } ↔
      (v ∈ round.db.vars.take round.ulParameterCount ∨ values (db.records v) = noValues) := by
  have vars : db.vars = round.db.vars := congrArg (Option.getD · []) touched.vars
  constructor
  · intro reached
    by_cases clean : values (db.records v) = noValues
    · exact .inr clean
    · exact .inl (vars ▸ reached v clean)
  · intro own other dirty
    change other ∈ db.vars.take round.ulParameterCount
    rw [vars]
    by_cases same : other = v
    · subst same
      rcases own with listed | clean
      · exact listed
      · exact absurd clean dirty
    · apply good other
      rw [← touched.others other same]
      exact dirty

omit [DecidableEq V] [DecidableEq O] in
theorem RoundReached.ensured {round : Round V O B} (good : RoundReached round) {v : V}
    (dirty : values (round.db.records v) ≠ noValues) : v ∈ round.db.ensureObjVarArray.vars := by
  have listed := good.reached v dirty
  have counted : 0 < round.ulParameterCount := by
    by_contra none
    simp [Nat.eq_zero_of_not_pos none] at listed
  rw [ensureObjVarArray_self (good.arrays counted)]
  exact List.mem_of_mem_take listed

omit [DecidableEq V] in
theorem track_reached {round : Round V O B} (good : RoundReached round) {v : V} {value : SlapVariable}
    {db : Database V O B} {old : Option SlapVariable} {status : Status}
    (touched : Touched model round.db db v value old)
    (own : v ∈ (track model round db status v value).db.vars ∨ values (db.records v) = noValues) :
    RoundReached (track model round db status v value) := by
  refine ⟨fun other dirty => ?_, fun _ => track_arrays model round db status v value⟩
  rw [track_count, List.take_length]
  rw [track_records] at dirty
  by_cases same : other = v
  · subst same
    exact own.resolve_right dirty
  · rw [track_vars, mem_addVarRecordIntoArray, ensured_vars touched.vars touched.objs]
    exact .inl (good.ensured (touched.others other same ▸ dirty))

structure Stuck (round : Round V O B) (v : V) : Prop where
  full : maxVarInArray ≤ round.db.vars.length
  absent : v ∉ round.db.vars
  arrays : round.db.HasArrays
  holds : (round.db.records v).tempParamValue ≠ none ∨ (round.db.records v).tempParamValueTrans ≠ none ∨
    ((model.entity v).bPersistent = false ∧ (round.db.records v).oldParamValue ≠ none ∧
      model.getParamValueByName round.db.backend v ≠ none)

omit [DecidableEq V] [DecidableEq O] in
theorem Stuck.dirty {round : Round V O B} {v : V} (stuck : Stuck model round v) :
    values (round.db.records v) ≠ noValues := by
  intro clean
  obtain ⟨temp, trans, old⟩ := values_eq_noValues.mp clean
  rcases stuck.holds with pending | translated | ⟨-, saved, -⟩
  · exact pending temp
  · exact translated trans
  · exact saved old

omit [DecidableEq V] [DecidableEq O] in
theorem Stuck.touched {round : Round V O B} {v touchedVar : V} {value : SlapVariable}
    {db : Database V O B} {old : Option SlapVariable} (stuck : Stuck model round v)
    (touched : Touched model round.db db touchedVar value old)
    (saved : old = (round.db.records touchedVar).oldParamValue ∨
      old = savedValue model round.db.backend touchedVar value) : Stuck model { round with db := db } v := by
  have vars : db.vars = round.db.vars := congrArg (Option.getD · []) touched.vars
  refine ⟨vars ▸ stuck.full, vars ▸ stuck.absent, ?_, ?_⟩
  · simpa only [HasArrays, touched.vars, touched.objs] using stuck.arrays
  by_cases same : v = touchedVar
  · subst same
    obtain ⟨translated, -, trans⟩ := touched.trans
    change (db.records v).tempParamValue ≠ none ∨ (db.records v).tempParamValueTrans ≠ none ∨
      ((model.entity v).bPersistent = false ∧ (db.records v).oldParamValue ≠ none ∧
        model.getParamValueByName db.backend v ≠ none)
    rw [touched.temp, trans, touched.old, touched.backend]
    rcases stuck.holds with pending | held | ⟨transient, kept, readable⟩
    · left
      split_ifs <;> simp [pending]
    · right
      left
      cases translated <;> simp [held]
    · right
      right
      refine ⟨transient, ?_, readable⟩
      rcases saved with rfl | rfl
      · exact kept
      · simpa [savedValue, transient] using readable
  · have others := touched.others v same
    simp only [values, Prod.mk.injEq] at others
    obtain ⟨temp, trans, kept⟩ := others
    simp only [temp, trans, kept, touched.backend]
    exact stuck.holds

theorem setEntry_stuck {round : Round V O B} {v : V} (stuck : Stuck model round v) (entry : ParamValue) :
    Stuck model (setEntry model request round entry).2 v := by
  have step := setEntry_cases model request round entry
  generalize setEntry model request round entry = result at step ⊢
  cases step with
  | rejected => exact stuck
  | denied _ _ _ _ _ touched => exact stuck.touched model touched (.inl rfl)
  | refused _ _ _ _ _ touched => exact stuck.touched model touched (.inr rfl)
  | left _ _ _ _ _ touched =>
    obtain ⟨full, absent, arrays, holds⟩ := stuck.touched model touched (.inr rfl)
    exact ⟨full, absent, arrays, holds⟩
  | tracked other value db status _ touched =>
    obtain ⟨full, absent, arrays, holds⟩ := stuck.touched model touched (.inr rfl)
    have vars : (track model round db status other value).db.vars = db.vars := by
      rw [track_vars, ensureObjVarArray_self arrays, addVarRecordIntoArray,
        if_neg (Nat.not_lt.mpr full)]
    refine ⟨vars ▸ full, vars ▸ absent, track_arrays model round db status other value, ?_⟩
    simpa using holds

theorem setEntries_stuck (entries : List ParamValue) {round : Round V O B} {v : V}
    (stuck : Stuck model round v) : Stuck model (setEntries model request entries round).2 v :=
  setEntries_keeps model request (fun result => Stuck model result.2 v)
    (fun _ entry held => setEntry_stuck model request held entry) entries stuck

omit [DecidableEq V] [DecidableEq O] in
theorem Touched.holds_of_dirty {before after : Database V O B} {v : V} {value : SlapVariable}
    (touched : Touched model before after v value (savedValue model before.backend v value))
    (dirty : values (after.records v) ≠ noValues) :
    (after.records v).tempParamValue ≠ none ∨ (after.records v).tempParamValueTrans ≠ none ∨
      ((model.entity v).bPersistent = false ∧ (after.records v).oldParamValue ≠ none ∧
        model.getParamValueByName after.backend v ≠ none) := by
  by_cases temp : (after.records v).tempParamValue = none
  · right
    by_cases trans : (after.records v).tempParamValueTrans = none
    · right
      have old : (after.records v).oldParamValue ≠ none :=
        fun none => dirty (values_eq_noValues.mpr ⟨temp, trans, none⟩)
      have transient : (model.entity v).bPersistent = false := by
        cases persistent : (model.entity v).bPersistent with
        | false => rfl
        | true => simp [touched.temp, persistent] at temp
      have readable := old
      rw [touched.old] at readable
      simp only [savedValue, transient, Bool.false_eq_true, if_false, ← touched.backend] at readable
      exact ⟨transient, old, readable⟩
    · exact .inl trans
  · exact .inl temp

theorem track_cases {round : Round V O B} (good : RoundReached round) {v : V} {value : SlapVariable}
    {db : Database V O B}
    (touched : Touched model round.db db v value (savedValue model round.db.backend v value))
    (status : Status) :
    (FindsPlace model round v value ∧ RoundReached (track model round db status v value)) ∨
    (¬ FindsPlace model round v value ∧ Stuck model (track model round db status v value) v) := by
  have listed : v ∈ (track model round db status v value).db.vars ↔
      v ∈ round.db.ensureObjVarArray.vars ∨
        round.db.ensureObjVarArray.vars.length < maxVarInArray := by
    rw [track_vars, mem_addVarRecordIntoArray, ensured_vars touched.vars touched.objs]
    simp
  rw [FindsPlace, ← or_assoc, ← listed]
  by_cases reachable : v ∈ (track model round db status v value).db.vars
  · exact .inl ⟨.inl reachable, track_reached model good touched (.inl reachable)⟩
  have full := mt listed.mpr reachable
  rw [not_or] at full
  have clean : values (round.db.records v) = noValues := by
    by_contra dirty
    exact full.1 (good.ensured dirty)
  have saved : values (db.records v) = noValues ↔
      StoresNothing model v value ∧ model.getParamValueByName round.db.backend v = none := by
    rw [touched.values_of_clean model clean]
    refine and_congr_right fun nothing => ?_
    simp [savedValue, nothing.1]
  rw [← saved]
  by_cases untouched : values (db.records v) = noValues
  · exact .inl ⟨.inr untouched, track_reached model good touched (.inr untouched)⟩
  · refine .inr ⟨not_or.mpr ⟨reachable, untouched⟩, ?_, reachable,
      track_arrays model round db status v value, ?_⟩
    · rw [track_vars, ensured_vars touched.vars touched.objs, addVarRecordIntoArray, if_neg full.2]
      exact Nat.not_lt.mp full.2
    · simpa using touched.holds_of_dirty model untouched

theorem setEntries_status (entries : List ParamValue) {round : Round V O B}
    (success : round.returnStatus.isSuccess) :
    (setEntries model request entries round).2.returnStatus.isSuccess := by
  refine setEntries_keeps model request (fun result => result.2.returnStatus.isSuccess)
    (fun round entry held => ?_) entries success
  have step := setEntry_cases model request round entry
  generalize setEntry model request round entry = result at step ⊢
  cases step with
  | rejected | denied | refused => exact held
  | left _ _ _ _ _ _ status => exact status held
  | tracked _ _ _ _ _ _ _ status => exact status held

/-- The entries that were accepted decide by `EntryReaches` alone; so does a rejected one. -/
theorem setEntries_reached (entries : List ParamValue) {round : Round V O B} (good : RoundReached round)
    (stays : (setEntries model request entries round).1 ≠ .leave) :
    Reached (setEntries model request entries round).2 ↔
      EveryEntry model request (EntryReaches model request) entries round := by
  induction entries generalizing round with
  | nil => exact iff_of_true good.reached trivial
  | cons entry rest ih =>
    have step := setEntry_cases model request round entry
    simp only [setEntries, EveryEntry, EntryReaches] at stays ⊢
    generalize setEntry model request round entry = result at step stays ⊢
    cases step with
    | rejected fault nothing _ =>
      simp only [nothing, reduceCtorEq, false_implies, and_self, iff_true]
      exact good.reached
    | denied v name value db stored touched =>
      simp only [stored, reduceCtorEq, false_implies, and_true, true_and]
      rw [reached_touched model good.reached touched]
      by_cases listed : v ∈ round.db.vars.take round.ulParameterCount
      · simp only [listed, true_or]
      · have clean : values (round.db.records v) = noValues := by
          by_contra dirty
          exact listed (good.reached v dirty)
        have old : (round.db.records v).oldParamValue = none := (values_eq_noValues.mp clean).2.2
        simp only [listed, false_or, touched.values_of_clean model clean, old, and_true]
    | refused v name value db stored touched readable =>
      simp only [stored, reduceCtorEq, false_implies, and_true, false_and, or_false]
      rw [reached_touched model good.reached touched]
      have dirty : values (db.records v) ≠ noValues := by
        intro clean
        exact readable (touched.old ▸ (values_eq_noValues.mp clean).2.2)
      simp only [dirty, or_false]
    | left => simp at stays
    | tracked v value db status stored touched =>
      simp only [stored, forall_const]
      simp only at stays
      rcases track_cases model good touched status with ⟨fits, later⟩ | ⟨misses, stuck⟩
      · simp only [fits, true_and]
        exact ih later stays
      · simp only [misses, false_and, iff_false]
        have last := setEntries_stuck model request rest stuck
        intro reached
        exact last.absent (List.mem_of_mem_take (reached v (last.dirty model)))

end Entries

section Atomicity

variable (model : DataModel V O B) (request : Request)

omit [DecidableEq V] [DecidableEq O] in
theorem startRound_reached {db : Database V O B} (idle : Idle db) : RoundReached (startRound db request) where
  reached v dirty := absurd (idle v) dirty
  arrays counted := absurd counted (Nat.lt_irrefl 0)

omit [DecidableEq O] in
theorem rollback_unchanged {db : Database V O B} (idle : Idle db) (round : Round V O B)
    {verified : Database V O B} (kept : Verified round.db verified) :
    Unchanged db (rollback model request round verified) ↔ Reached round := by
  have vars : verified.vars = round.db.vars := congrArg (Option.getD · []) kept.vars
  refine forall_congr' fun v => ?_
  rw [rollback_values, idle v, vars, kept.values v]
  by_cases listed : v ∈ round.db.vars.take round.ulParameterCount <;> simp [listed]

theorem rejected_set_unchanged_iff (db : Database V O B) (idle : Idle db)
    (rejected : (setParameterValues model db request).status.isSuccess = false) :
    Unchanged db (setParameterValues model db request).db ↔
      RollbackReaches model request db := by
  have reaches := setEntries_reached model request request.paramValues (startRound_reached request idle)
  have status : (setEntries model request request.paramValues
      (startRound db request)).2.returnStatus.isSuccess := setEntries_status model request _ rfl
  have ended := setParameterValues_cases model request db
  generalize setParameterValues model db request = result at ended rejected ⊢
  cases ended with
  | nothing | committed | kept => simp [Status.isSuccess] at rejected
  | faulted fault round stopped =>
    rw [stopped] at reaches
    rw [RollbackReaches, ← reaches (by simp)]
    exact rollback_unchanged model request idle round (Verified.refl round.db)
  | left round stopped =>
    rw [stopped] at status
    rw [status] at rejected
    cases rejected
  | unverified round verified name _ passed failed =>
    have same := verifyAll_verified model (round.db.objs.take round.ulObjectCount) round.db
    rw [failed] at same
    rw [passed] at reaches
    rw [RollbackReaches, ← reaches (by simp)]
    exact rollback_unchanged model request idle round same

end Atomicity

section Sample

def sampleEntity (name : Text) : VarEntity where
  name := name
  dataType := .string
  slapSyntax := .string
  contentType := .unspecified
  formatValue1 := 0
  formatValue2 := 0
  tokenTable := none
  preventCharecters := none
  bInvisible := false
  bPersistent := false
  bWritable := true
  bMonitor := false
  bNeedReboot := false
  notifyStatus := 0

def sampleModel : DataModel Bool Unit Unit where
  converters := ⟨fun _ => true, fun _ _ => true, fun _ _ => true, fun _ => 0⟩
  useNotifyComponent := false
  getVarRecord name :=
    if name = "Device.Key".toList then some false
    else if name = "Device.Name".toList then some true else none
  entity v := sampleEntity (if v then "Name".toList else "Key".toList)
  objRecord _ := ()
  vareoTable _ := [false, true]
  vareoDepth _ := by decide
  child _ _ _ := rfl
  fullName _ := "Device.".toList
  hasController _ := true
  bGroupCommit _ := true
  accessList v := if v then none else some "ACS".toList
  notification _ := false
  signalText _ := none
  monitorEnabled := false
  userOpComponents := 0
  checkParamWritability _ _ := .notChange
  getParamValueByName _ _ := none
  setInterface _ := .bulk
  setEntryBulk _ _ _ := ((), none)
  setEntryParam _ _ _ := ((), true)
  validateMethod _ _ := ((), none)
  commitMethod _ _ := ((), true)
  rollbackMethod _ _ := ()

def sampleDatabase : Database Bool Unit Unit := .create (fun _ => false) ()

def writeRequest (name text : String) (writeID : Nat) (sessionId : Int) (bCommit : Bool) : Request where
  pAccessEntity := "WebUI".toList
  paramValues := [⟨some name.toList, some (.varString (some text.toList))⟩]
  sessionId := sessionId
  writeID := writeID
  bCommit := bCommit

def partlyUnknownRequest : Request where
  pAccessEntity := "WebUI".toList
  paramValues := [⟨some "Device.Name".toList, some (.varString (some "x".toList))⟩,
    ⟨some "Device.No".toList, some (.varString (some "y".toList))⟩]
  sessionId := 7
  writeID := 1
  bCommit := true

end Sample

theorem rejected_set_unchanged_unknown_name :
    Unchanged sampleDatabase (setParameterValues sampleModel sampleDatabase partlyUnknownRequest).db :=
  (rejected_set_unchanged_iff sampleModel partlyUnknownRequest sampleDatabase (fun _ => rfl) rfl).mpr
    ⟨.inr (.inl (by decide)), fun _ => ⟨trivial, fun next => nomatch next⟩⟩

/-- A write of `Device.Key` from the web interface is denied, but its value stays pending. -/
theorem denied_set_stays_pending :
    ¬ ∀ (model : DataModel Bool Unit Unit) (db : Database Bool Unit Unit) (request : Request), Idle db →
      (setParameterValues model db request).status.isSuccess = false →
      Unchanged db (setParameterValues model db request).db := by
  intro always
  have same := always sampleModel sampleDatabase (writeRequest "Device.Key" "x" 1 7 true)
    (fun _ => rfl) rfl false
  cases same

end CcspCommon.DslhWmpDatabase
