import CcspCommon.DslhObjRecord.Retrieval
import CcspCommon.DslhWmpDatabase.RecordTree

set_option autoImplicit false

namespace CcspCommon.DslhWmpDatabase.Retrieval

open CcspCommon.Shared CcspCommon.DslhVarRecord CcspCommon.DslhObjRecord

inductive RetrievalStatus
  | success | invalidArguments | invalidParameterName | badParameter | resourceExceeded
  deriving DecidableEq, Repr

structure Answer (E : Type) where
  status : RetrievalStatus
  allocated : Nat
  entries : List E

def reject {E : Type} (status : RetrievalStatus) : Answer E := ⟨status, 0, []⟩

structure Request where
  pAccessEntity : Text
  pParamNameArray : Option (List (Option Text))
  uMaxEntry : Nat
  deriving DecidableEq, Repr

def Request.fromAcs (request : Request) : Bool := request.pAccessEntity = "ACS".toList

def ulong (w n : Nat) : Nat := n % 2 ^ w

variable {H : Type} [DecidableEq H]

section Targets

variable (tree : RecordTree H) (bFromAcs : Bool)

omit [DecidableEq H] in
-- An empty name is the root, as is none.
def findRetrieved (name : Option Text) : Option (Target H) :=
  tree.findTarget bFromAcs (if name = some [] then none else name)

omit [DecidableEq H] in
def findTargets : List (Option Text) → Option (List (Option Text × Target H))
  | [] => some []
  | name :: rest =>
    match findRetrieved tree bFromAcs name with
    | none => none
    | some target => (findTargets rest).map fun targets => (name, target) :: targets

omit [DecidableEq H] in
def targetCount (bFromAcs : Bool) : Target H → Nat
  | .object node => getTotalParamNumber bFromAcs false node.record node.objroQueue
  | .parameter _ _ => 1

omit [DecidableEq H] in
def totalCount (bFromAcs : Bool) (targets : List (Option Text × Target H)) : Nat :=
  (targets.map fun target => targetCount bFromAcs target.2).sum

omit [DecidableEq H] in
theorem findTargets_spec {tree : RecordTree H} {bFromAcs : Bool} {names : List (Option Text)}
    {targets : List (Option Text × Target H)} (found : findTargets tree bFromAcs names = some targets) :
    ∀ target ∈ targets, target.2.LinkedIn tree.all ∧ target.2.Offered bFromAcs := by
  induction names generalizing targets with
  | nil =>
    cases found
    exact fun _ member => nomatch member
  | cons name rest ih =>
    simp only [findTargets] at found
    split at found
    next => cases found
    next target here =>
      obtain ⟨others, later, rfl⟩ := Option.map_eq_some_iff.mp found
      exact List.forall_mem_cons.mpr
        ⟨⟨RecordTree.findTarget_linked here, RecordTree.findTarget_offered here⟩, ih later⟩

end Targets

section Values

variable (components : Components H)

omit [DecidableEq H] in
def namedParameters (targets : List (Option Text × Target H)) : List (ObjRecord H × ChildVarRecord H) :=
  targets.filterMap fun target =>
    match target.2 with
    | .object _ => none
    | .parameter record child => some (record, child)

def objRecordArray : List (ObjRecord H × ChildVarRecord H) → List (ObjRecord H) → List (ObjRecord H)
  | [], records => records
  | (record, _) :: rest, records =>
    let bExists := records.any fun other => other.handle = record.handle
    objRecordArray rest (if bExists then records else records ++ [record])

def namedValues (params : List (ObjRecord H × ChildVarRecord H)) : List (ReturnedValue H) :=
  (objRecordArray params []).flatMap fun record =>
    let sameObj := params.filter fun param => param.1.handle = record.handle
    (bulkValues components record (sameObj.map Prod.snd)).2

omit [DecidableEq H] in
def objectTargetValues (bFromAcs : Bool) : Target H → List (ReturnedValue H)
  -- the status is dropped, and what was read so far stays
  | .object node => (getAllParamValues components bFromAcs node.record node.objroQueue).2
  | .parameter _ _ => []

def getParameterValues (w : Nat) (tree : RecordTree H) (request : Request) : Answer (ReturnedValue H) :=
  match request.pParamNameArray with
  | none => reject .invalidArguments
  | some [] => reject .invalidParameterName
  | some names =>
    match findTargets tree request.fromAcs names with
    | none => reject .invalidParameterName
    | some targets =>
      let ulParameterCount := ulong w (totalCount request.fromAcs targets)
      if request.uMaxEntry < ulParameterCount then reject .badParameter
      else if ulParameterCount = 0 then reject .success
      else
        let values := targets.flatMap fun target =>
          objectTargetValues components request.fromAcs target.2
        ⟨.success, ulParameterCount, values ++ namedValues components (namedParameters targets)⟩

end Values

section Names

omit [DecidableEq H] in
def getParameterNames (components : Components H) (w : Nat) (tree : RecordTree H)
    (pAccessEntity : Text) (pParamPath : Option Text) (bNextLevel : Bool) : Answer ParamInfo :=
  let bFromAcs : Bool := pAccessEntity = "ACS".toList
  match findRetrieved tree bFromAcs pParamPath with
  | none => reject .invalidParameterName
  | some (.object node) =>
    let ulParameterCount := ulong w <|
      if bNextLevel then
        ObjRecord.getObjRecordCount node.objroQueue + node.record.getVarRecordCount bFromAcs
      else getTotalParamNumber bFromAcs true node.record node.objroQueue
    if ulParameterCount = 0 then reject .success
    else ⟨.success, ulParameterCount,
      getAllParamInfos components bFromAcs node.parent node.record node.objroQueue bNextLevel⟩
  | some (.parameter record child) =>
    ⟨.success, 1, [⟨some (getFullName record child), components.isRecordWritable child.handle⟩]⟩

end Names

section Attributes

variable (components : Components H)

omit [DecidableEq H] in
def targetAttribs (bFromAcs : Bool) : Option Text × Target H → List ParamAttrib
  | (_, .object node) =>
    getAllParamAttribs components bFromAcs (.cons node.record node.objroQueue .nil)
  | (name, .parameter _ child) => [paramAttrib components (name.getD []) child]

omit [DecidableEq H] in
def getParameterAttributes (w : Nat) (tree : RecordTree H) (request : Request) : Answer ParamAttrib :=
  match request.pParamNameArray with
  | none => reject .invalidArguments
  | some [] => reject .invalidArguments
  | some names =>
    match findTargets tree request.fromAcs names with
    | none => reject .invalidParameterName
    | some targets =>
      -- hidden parameters are counted whoever asks
      let ulParameterCount := ulong w (totalCount false targets)
      if ulParameterCount = 0 then reject .success
      else if request.uMaxEntry < ulParameterCount then reject .resourceExceeded
      else ⟨.success, ulParameterCount, targets.flatMap (targetAttribs components request.fromAcs)⟩

end Attributes

end CcspCommon.DslhWmpDatabase.Retrieval
