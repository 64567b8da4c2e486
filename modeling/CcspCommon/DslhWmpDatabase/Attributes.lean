import CcspCommon.DslhWmpDatabase.Database
import CcspCommon.DslhWmpDatabase.RecordTree
import CcspCommon.Shared.Run

set_option autoImplicit false

namespace CcspCommon.DslhWmpDatabase.Attributes

open CcspCommon.Shared CcspCommon.DslhVarRecord CcspCommon.DslhObjRecord

variable {H : Type} [DecidableEq H]

def notifyStatusConfigurable : Nat := 1

def notifyStatusAlwaysOn : Nat := 2

def notifyStatusAlwaysOff : Nat := 3

def notifyStatusConfigActive : Nat := 4

def notificationOff : Int := 0

def notificationPassive : Int := 1

def notificationActive : Int := 2

inductive AttribStatus
  | success | unapplicable | invalidArguments | invalidParameterName | setAttributeRejected
  deriving DecidableEq, Repr

structure VarAttribs where
  notification : Int
  accessList : Option Text
  requesterID : Int
  deriving DecidableEq, Repr

structure AttribState (H : Type) where
  attribs : H → VarAttribs
  mpoQueue : List (H × Bool)

structure SetParamAttrib where
  name : Option Text
  bNotificationChange : Bool
  notification : Int
  bAccessListChange : Bool
  accessList : Option Text
  requesterID : Int
  deriving DecidableEq, Repr

structure AttribRequest where
  pAccessEntity : Text
  setParamAttribArray : List SetParamAttrib
  deriving DecidableEq, Repr

def AttribRequest.fromAcs (request : AttribRequest) : Bool := request.pAccessEntity = "ACS".toList

namespace AttribState

variable (state : AttribState H)

def setNotificationFlag (child : ChildVarRecord H) (iNotification : Int) : AttribState H :=
  { state with
    attribs := Function.update state.attribs child.handle
      { state.attribs child.handle with notification := iNotification } }

-- `DslhWmpdoMprDelNotifyParam`: the first monitored entry of the record goes.
def delNotifyParam (child : ChildVarRecord H) : AttribState H :=
  { state with mpoQueue := state.mpoQueue.eraseP fun entry => entry.1 = child.handle }

def regNotifyParam (child : ChildVarRecord H) (bActiveNotification : Bool) : AttribState H :=
  { state with mpoQueue := state.mpoQueue ++ [(child.handle, bActiveNotification)] }

def setNotification (record : ObjRecord H) (child : ChildVarRecord H) (iNotification : Int) :
    AttribStatus × AttribState H :=
  if child.entity.notifyStatus ≠ notifyStatusConfigurable ∧
      child.entity.notifyStatus ≠ notifyStatusConfigActive then (.unapplicable, state)
  else if (strstr "NumberOfEntries".toList (getFullName record child)).isSome then
    (.unapplicable, state)
  else if iNotification = notificationActive ∧
      child.entity.notifyStatus ≠ notifyStatusConfigActive then (.unapplicable, state)
  else
    let current := (state.attribs child.handle).notification
    if current = iNotification then (.success, state)
    else
      let monitored := current = notificationPassive ∨ current = notificationActive
      let requested := iNotification = notificationPassive ∨ iNotification = notificationActive
      -- a record that is monitored already stays in the queue as it is
      if monitored ∧ requested then (.success, state.setNotificationFlag child iNotification)
      else
        let state := if monitored then state.delNotifyParam child else state
        let state := state.setNotificationFlag child iNotification
        let tooBig := child.entity.dataType = .string ∧ 8192 ≤ child.entity.formatValue1
        if requested ∧ ¬ tooBig ∧ (state.attribs child.handle).requesterID = accessControlAcs then
          (.success, state.regNotifyParam child (iNotification = notificationActive))
        else (.success, state)

def setAccessList (child : ChildVarRecord H) (pAccessList : Option Text) : AttribState H :=
  { state with
    attribs := Function.update state.attribs child.handle
      { state.attribs child.handle with accessList := some (pAccessList.getD []) } }

def setRequesterID (child : ChildVarRecord H) (requesterID : Int) : AttribState H :=
  { state with
    attribs := Function.update state.attribs child.handle
      { state.attribs child.handle with requesterID := requesterID } }

def setVarAttribs (setParamAttrib : SetParamAttrib) (record : ObjRecord H) (child : ChildVarRecord H) :
    AttribState H :=
  let state := state.setRequesterID child setParamAttrib.requesterID
  let state := if setParamAttrib.bNotificationChange then
      (state.setNotification record child setParamAttrib.notification).2
    else state
  if setParamAttrib.bAccessListChange then state.setAccessList child setParamAttrib.accessList else state

end AttribState

def setAllParamAttribs (setParamAttrib : SetParamAttrib) :
    ObjroQueue H → AttribState H → AttribState H
  | .nil, state => state
  | .cons record below next, state =>
    let state :=
      -- whoever asks
      if record.bInvisible then state
      else
        let visible := record.varroTable.filter fun child => !child.entity.bInvisible
        setAllParamAttribs setParamAttrib below
          (visible.foldl (fun state child => state.setVarAttribs setParamAttrib record child) state)
    setAllParamAttribs setParamAttrib next state

section Request

variable (tree : RecordTree H) (bFromAcs : Bool)

omit [DecidableEq H] in
-- An always-off parameter is not to be switched on; of an object only the own parameters count.
def rejects (notification : Int) : Target H → Bool
  | .object node => node.record.varroTable.any fun child =>
      child.entity.notifyStatus = notifyStatusAlwaysOff &&
        (notification = notificationActive || notification = notificationPassive)
  | .parameter _ child => child.entity.notifyStatus = notifyStatusAlwaysOff &&
      (notification = notificationActive || notification = notificationPassive)

omit [DecidableEq H] in
def validateAttrib (setParamAttrib : SetParamAttrib) : Except AttribStatus (Target H) :=
  if setParamAttrib.notification ≠ notificationOff ∧
      setParamAttrib.notification ≠ notificationPassive ∧
      setParamAttrib.notification ≠ notificationActive then .error .invalidArguments
  else
    match tree.findTarget bFromAcs setParamAttrib.name with
    | none => .error .invalidParameterName
    | some target =>
      if rejects setParamAttrib.notification target then .error .setAttributeRejected else .ok target

omit [DecidableEq H] in
def validateAttribs : List SetParamAttrib → Except AttribStatus (List (SetParamAttrib × Target H))
  | [] => .ok []
  | setParamAttrib :: rest =>
    match validateAttrib tree bFromAcs setParamAttrib with
    | .error status => .error status
    | .ok target =>
      match validateAttribs rest with
      | .error status => .error status
      | .ok targets => .ok ((setParamAttrib, target) :: targets)

def applyAttrib (state : AttribState H) : SetParamAttrib × Target H → AttribState H
  | (setParamAttrib, .object node) =>
    setAllParamAttribs setParamAttrib (.cons node.record node.objroQueue .nil) state
  | (setParamAttrib, .parameter record child) => state.setVarAttribs setParamAttrib record child

def setParameterAttributes (request : AttribRequest) (state : AttribState H) :
    AttribStatus × AttribState H :=
  match validateAttribs tree request.fromAcs request.setParamAttribArray with
  | .error status => (status, state)
  | .ok targets => (.success, targets.foldl applyAttrib state)

def step (state : AttribState H) (request : AttribRequest) : Option (AttribState H) :=
  some (setParameterAttributes tree request state).2

omit [DecidableEq H] in
def loadedNotification (entity : VarEntity) : Int :=
  let notification :=
    if entity.notifyStatus = notifyStatusAlwaysOn then notificationActive else notificationOff
  if entity.notifyStatus = notifyStatusAlwaysOn then notificationActive
  else if entity.notifyStatus = notifyStatusAlwaysOff then notificationOff
  else notification

def populated : AttribState H where
  attribs handle :=
    match (parameters tree.all).find? fun param => param.2.handle = handle with
    | some (_, child) => ⟨loadedNotification child.entity, none, 0⟩
    | none => ⟨notificationOff, none, 0⟩
  mpoQueue := []

end Request

structure Declared (entity : VarEntity) (attribs : VarAttribs) : Prop where
  alwaysOn : entity.notifyStatus = notifyStatusAlwaysOn → attribs.notification = notificationActive
  alwaysOff : entity.notifyStatus = notifyStatusAlwaysOff → attribs.notification = notificationOff

def Fixed (entity : VarEntity) : Prop :=
  entity.notifyStatus = notifyStatusAlwaysOn ∨ entity.notifyStatus = notifyStatusAlwaysOff

theorem loadedNotification_declared (entity : VarEntity) (accessList : Option Text) (requesterID : Int) :
    Declared entity ⟨loadedNotification entity, accessList, requesterID⟩ := by
  constructor
  · intro on
    simp [loadedNotification, on]
  · intro off
    simp [loadedNotification, off, notifyStatusAlwaysOn, notifyStatusAlwaysOff]

section Fixed

variable {tree : RecordTree H}

def KeepsFixed (tree : RecordTree H) (before after : AttribState H) : Prop :=
  ∀ param ∈ parameters tree.all, Fixed param.2.entity →
    (after.attribs param.2.handle).notification = (before.attribs param.2.handle).notification

omit [DecidableEq H] in
theorem KeepsFixed.refl (state : AttribState H) : KeepsFixed tree state state :=
  fun _ _ _ => Eq.refl _

omit [DecidableEq H] in
theorem KeepsFixed.trans {first second third : AttribState H} (one : KeepsFixed tree first second)
    (two : KeepsFixed tree second third) : KeepsFixed tree first third :=
  fun param member fixed => (two param member fixed).trans (one param member fixed)

theorem setNotification_fixed (state : AttribState H) (record : ObjRecord H) {child : ChildVarRecord H}
    (fixed : Fixed child.entity) (iNotification : Int) :
    state.setNotification record child iNotification = (.unapplicable, state) := by
  rcases fixed with on | off
  · simp [AttribState.setNotification, on, notifyStatusAlwaysOn, notifyStatusConfigurable,
      notifyStatusConfigActive]
  · simp [AttribState.setNotification, off, notifyStatusAlwaysOff, notifyStatusConfigurable,
      notifyStatusConfigActive]

theorem setNotification_other (state : AttribState H) (record : ObjRecord H) {child : ChildVarRecord H}
    {handle : H} (other : handle ≠ child.handle) (iNotification : Int) :
    (state.setNotification record child iNotification).2.attribs handle = state.attribs handle := by
  unfold AttribState.setNotification
  dsimp only
  split_ifs <;>
    simp [AttribState.setNotificationFlag, AttribState.regNotifyParam, AttribState.delNotifyParam, other]

theorem setNotification_keepsFixed (state : AttribState H) {record : ObjRecord H}
    {child : ChildVarRecord H} (linked : (record, child) ∈ parameters tree.all) (iNotification : Int) :
    KeepsFixed tree state (state.setNotification record child iNotification).2 := by
  intro param member fixed
  by_cases same : param.2.handle = child.handle
  · obtain rfl := RecordTree.same_parameter member linked same
    rw [setNotification_fixed state record fixed iNotification]
  · rw [setNotification_other state record same iNotification]

theorem setVarAttribs_keepsFixed (state : AttribState H) (setParamAttrib : SetParamAttrib)
    {record : ObjRecord H} {child : ChildVarRecord H} (linked : (record, child) ∈ parameters tree.all) :
    KeepsFixed tree state (state.setVarAttribs setParamAttrib record child) := by
  have requester : ∀ state : AttribState H,
      KeepsFixed tree state (state.setRequesterID child setParamAttrib.requesterID) := by
    intro state param _ _
    by_cases same : param.2.handle = child.handle <;> simp [AttribState.setRequesterID, same]
  have access : ∀ state : AttribState H,
      KeepsFixed tree state (state.setAccessList child setParamAttrib.accessList) := by
    intro state param _ _
    by_cases same : param.2.handle = child.handle <;> simp [AttribState.setAccessList, same]
  have notification := setNotification_keepsFixed
    (state.setRequesterID child setParamAttrib.requesterID) linked setParamAttrib.notification
  unfold AttribState.setVarAttribs
  refine (requester state).trans ?_
  dsimp only
  split_ifs
  · exact notification.trans (access _)
  · exact access _
  · exact notification
  · exact .refl _

theorem setVarAttribs_foldl_keepsFixed (setParamAttrib : SetParamAttrib) {record : ObjRecord H}
    {children : List (ChildVarRecord H)}
    (linked : ∀ child ∈ children, (record, child) ∈ parameters tree.all) (state : AttribState H) :
    KeepsFixed tree state
      (children.foldl (fun state child => state.setVarAttribs setParamAttrib record child) state) := by
  induction children generalizing state with
  | nil => exact .refl state
  | cons child rest ih =>
    exact (setVarAttribs_keepsFixed state setParamAttrib (linked child List.mem_cons_self)).trans
      (ih (fun other member => linked other (List.mem_cons_of_mem child member)) _)

theorem setAllParamAttribs_keepsFixed (setParamAttrib : SetParamAttrib) {objroQueue : ObjroQueue H}
    (linked : objroQueue.labels ⊆ tree.all.labels) (state : AttribState H) :
    KeepsFixed tree state (setAllParamAttribs setParamAttrib objroQueue state) := by
  induction objroQueue generalizing state with
  | nil => exact .refl state
  | cons record below next belowIH nextIH =>
    simp only [Forest.labels_cons, List.cons_subset, List.append_subset] at linked
    obtain ⟨here, under, later⟩ := linked
    simp only [setAllParamAttribs]
    split_ifs
    · exact nextIH later state
    · refine .trans ?_ (nextIH later _)
      refine .trans ?_ (belowIH under _)
      refine setVarAttribs_foldl_keepsFixed setParamAttrib ?_ state
      intro child member
      exact mem_parameters.mpr ⟨here, List.mem_of_mem_filter member⟩

omit [DecidableEq H] in
theorem validateAttribs_linked {bFromAcs : Bool} {setParamAttribs : List SetParamAttrib}
    {targets : List (SetParamAttrib × Target H)}
    (valid : validateAttribs tree bFromAcs setParamAttribs = .ok targets) :
    ∀ entry ∈ targets, entry.2.LinkedIn tree.all := by
  induction setParamAttribs generalizing targets with
  | nil =>
    cases valid
    exact fun _ member => nomatch member
  | cons setParamAttrib rest ih =>
    simp only [validateAttribs] at valid
    split at valid
    next => cases valid
    next target first =>
      split at valid
      next => cases valid
      next others later =>
        cases valid
        have linked : target.LinkedIn tree.all := by
          unfold validateAttrib at first
          split at first
          next => cases first
          next =>
            split at first
            next => cases first
            next found =>
              split_ifs at first
              cases first
              exact RecordTree.findTarget_linked found
        exact List.forall_mem_cons.mpr ⟨linked, ih later⟩

theorem applyAttrib_keepsFixed (state : AttribState H) {entry : SetParamAttrib × Target H}
    (linked : entry.2.LinkedIn tree.all) : KeepsFixed tree state (applyAttrib state entry) := by
  obtain ⟨setParamAttrib, target⟩ := entry
  cases target with
  | object node =>
    obtain ⟨ancestors, within, _⟩ := linked
    refine setAllParamAttribs_keepsFixed setParamAttrib ?_ state
    simpa using ⟨within.mem_labels, within.labels_subset⟩
  | parameter record child =>
    obtain ⟨⟨_, _, within⟩, owned⟩ := linked
    exact setVarAttribs_keepsFixed state setParamAttrib (mem_parameters.mpr ⟨within.mem_labels, owned⟩)

theorem applyAttrib_foldl_keepsFixed {targets : List (SetParamAttrib × Target H)}
    (linked : ∀ entry ∈ targets, entry.2.LinkedIn tree.all) (state : AttribState H) :
    KeepsFixed tree state (targets.foldl applyAttrib state) := by
  induction targets generalizing state with
  | nil => exact .refl state
  | cons entry rest ih =>
    exact (applyAttrib_keepsFixed state (linked entry List.mem_cons_self)).trans
      (ih (fun other member => linked other (List.mem_cons_of_mem entry member)) _)

theorem setParameterAttributes_keepsFixed (request : AttribRequest) (state : AttribState H) :
    KeepsFixed tree state (setParameterAttributes tree request state).2 := by
  unfold setParameterAttributes
  split
  next => exact .refl state
  next targets valid => exact applyAttrib_foldl_keepsFixed (validateAttribs_linked valid) state

theorem setParameterAttributes_failed {request : AttribRequest} {state : AttribState H}
    (failed : (setParameterAttributes tree request state).1 ≠ .success) :
    (setParameterAttributes tree request state).2 = state := by
  unfold setParameterAttributes at failed ⊢
  split at failed
  next => rfl
  next => exact absurd rfl failed

theorem populated_declared {param : ObjRecord H × ChildVarRecord H}
    (member : param ∈ parameters tree.all) :
    Declared param.2.entity ((populated tree).attribs param.2.handle) := by
  have found : ∃ first, (parameters tree.all).find? (fun other => other.2.handle = param.2.handle) =
      some first := Option.isSome_iff_exists.mp (List.find?_isSome.mpr ⟨param, member, by simp⟩)
  obtain ⟨first, here⟩ := found
  have same : first = param :=
    RecordTree.same_parameter (List.mem_of_find?_eq_some here) member (by simpa using List.find?_some here)
  subst same
  simp only [populated, here]
  exact loadedNotification_declared _ _ _

theorem attribute_requests_respect_declared {state : AttribState H}
    (reached : Reachable (step tree) (fun _ _ => True) (populated tree) state) :
    (∀ param ∈ parameters tree.all, Declared param.2.entity (state.attribs param.2.handle)) ∧
      ∀ request : AttribRequest, (setParameterAttributes tree request state).1 ≠ .success →
        (setParameterAttributes tree request state).2 = state := by
  refine ⟨?_, fun request failed => setParameterAttributes_failed failed⟩
  have kept : KeepsFixed tree (populated tree) state := by
    induction reached with
    | start => exact .refl _
    | next _ _ run ih =>
      obtain rfl := Option.some.inj run
      exact ih.trans (setParameterAttributes_keepsFixed _ _)
  intro param member
  have declared := populated_declared member
  constructor
  · intro on
    rw [kept param member (.inl on)]
    exact declared.alwaysOn on
  · intro off
    rw [kept param member (.inr off)]
    exact declared.alwaysOff off

end Fixed

section Sample

def alwaysOffEntity : VarEntity where
  name := ['P']
  dataType := .int
  slapSyntax := .int
  contentType := .unspecified
  formatValue1 := 0
  formatValue2 := 0
  tokenTable := none
  preventCharecters := none
  bInvisible := false
  bPersistent := false
  bWritable := true
  bMonitor := false
  bNeedReboot := false
  notifyStatus := notifyStatusAlwaysOff

def sampleTree : RecordTree Nat where
  root := ⟨0, [], none, 10, none, none, []⟩
  objroQueue := .cons ⟨1, ['D'], some ['D', '.'], 11, some ⟨.object, true, false⟩, none,
    [⟨20, alwaysOffEntity⟩]⟩ .nil .nil
  rootBare := ⟨rfl, rfl⟩
  described := by simp
  distinct := by decide

end Sample

theorem declared_setting_survives_request_on_root : ∃ state : AttribState Nat,
    runAll (step sampleTree) (populated sampleTree) [⟨[], [⟨none, true, 2, false, none, 0⟩]⟩] = some state ∧
      Declared alwaysOffEntity (state.attribs 20) ∧
      (setParameterAttributes sampleTree ⟨[], [⟨none, true, 3, true, none, 0⟩]⟩ state).2 = state := by
  obtain ⟨state, run⟩ : ∃ state, runAll (step sampleTree) (populated sampleTree)
      [⟨[], [⟨none, true, 2, false, none, 0⟩]⟩] = some state := ⟨_, rfl⟩
  have reached : Reachable (step sampleTree) (fun _ _ => True) (populated sampleTree) state :=
    runAll_reachable _ (fun _ _ _ => trivial) .start run
  have respected := attribute_requests_respect_declared reached
  exact ⟨state, run, respected.1 (_, ⟨20, alwaysOffEntity⟩) (List.mem_singleton.mpr rfl),
    respected.2 _ (show AttribStatus.invalidArguments ≠ .success by decide)⟩

end CcspCommon.DslhWmpDatabase.Attributes
