import CcspCommon.AnscPlatform.DList
import CcspCommon.DslhObjRecord.Records

set_option autoImplicit false

namespace CcspCommon.DslhObjRecord

open CcspCommon.Shared CcspCommon.DslhVarRecord
open CcspCommon.AnscPlatform (ushort)

variable {H : Type}

structure Components (H : Type) where
  -- the status of `GetBulkParamValue`, and the value for each place of the list of names
  getBulkParamValue : ObjController H → List Text → Bool × (Nat → SlapVariable)
  -- `IsWritable` of a table's controller, where there is such a method
  isWritable : H → Option Bool
  isRecordWritable : H → Bool
  -- the limit that the entry entity of a table's entity sets
  maxInstanceNumber : H → Option Nat
  notification : H → Int
  accessList : H → Option Text

def Components.idle : Components H where
  getBulkParamValue _ _ := (true, fun _ => .varOther)
  isWritable _ := none
  isRecordWritable _ := true
  maxInstanceNumber _ := none
  notification _ := 0
  accessList _ := none

structure ReturnedValue (H : Type) where
  record : ObjRecord H
  child : ChildVarRecord H
  value : SlapVariable

def ReturnedValue.name (entry : ReturnedValue H) : Text := getFullName entry.record entry.child

structure ParamInfo where
  name : Option Text
  bWritable : Bool
  deriving DecidableEq, Repr

structure ParamAttrib where
  name : Text
  notification : Int
  accessList : Text
  deriving DecidableEq, Repr

namespace ObjRecord

variable (record : ObjRecord H)

-- `DslhObjroGetObjRecordCount`: the depth of a queue is a `USHORT`.
def getObjRecordCount (objroQueue : ObjroQueue H) : Nat := ushort objroQueue.roots.length

def visibleVars (bFromAcs : Bool) : List (ChildVarRecord H) :=
  record.varroTable.filter fun child => !(child.entity.bInvisible && bFromAcs)

-- `DslhObjroGetVarRecordCount`: counted one by one only if hidden ones are left out.
def getVarRecordCount (bExcludeHidden : Bool) : Nat :=
  if bExcludeHidden then (record.visibleVars true).length else ushort record.varroTable.length

def selfCount (bFromAcs bSelfIncluded : Bool) : Nat :=
  if bSelfIncluded && (!bFromAcs || record.objDescr.any fun descr => !descr.bInvisible) then 1 else 0

end ObjRecord

section Count

variable (bFromAcs bSelfIncluded : Bool)

def childrenParamNumber : ObjroQueue H → Nat
  | .nil => 0
  | .cons record below next =>
    (childrenParamNumber below + record.getVarRecordCount bFromAcs +
      record.selfCount bFromAcs bSelfIncluded) + childrenParamNumber next

def getTotalParamNumber (record : ObjRecord H) (objroQueue : ObjroQueue H) : Nat :=
  childrenParamNumber bFromAcs bSelfIncluded objroQueue + record.getVarRecordCount bFromAcs +
    record.selfCount bFromAcs bSelfIncluded

end Count

section Fill

variable (components : Components H) (bFromAcs : Bool)

def bulkValues (record : ObjRecord H) (children : List (ChildVarRecord H)) : Bool × List (ReturnedValue H) :=
  let (returnStatus, values) := match record.hDslhObjController with
    | some pObjController =>
      components.getBulkParamValue pObjController (children.map fun child : ChildVarRecord H => child.entity.name)
    | none => (true, fun _ => .varOther)
  (returnStatus, children.mapIdx fun i child => ⟨record, child, values i⟩)

-- The own parameters of an object; their number is a `USHORT` again.
def ownValues (record : ObjRecord H) : Bool × List (ReturnedValue H) :=
  if 0 < ushort record.varroTable.length then
    bulkValues components record (record.visibleVars bFromAcs)
  else (true, [])

def objectValues (record : ObjRecord H) (children : Bool × List (ReturnedValue H)) :
    Bool × List (ReturnedValue H) :=
  if record.bInvisible && bFromAcs then (true, [])
  else if (ownValues components bFromAcs record).1 then
    (children.1, (ownValues components bFromAcs record).2 ++ children.2)
  else ownValues components bFromAcs record

def childrenValues : ObjroQueue H → Bool → Bool × List (ReturnedValue H)
  | .nil, returnStatus => (returnStatus, [])
  | .cons record below next, _ =>
    let (returnStatus, entries) :=
      objectValues components bFromAcs record (childrenValues below true)
    -- only the ACS gets the error, any other caller what the next child returns
    if !returnStatus && bFromAcs then (false, entries)
    else
      let (returnStatus, others) := childrenValues next returnStatus
      (returnStatus, entries ++ others)

def getAllParamValues (record : ObjRecord H) (objroQueue : ObjroQueue H) : Bool × List (ReturnedValue H) :=
  objectValues components bFromAcs record (childrenValues components bFromAcs objroQueue true)

/-- What a record returns is what a queue of only this record does. -/
theorem getAllParamValues_eq (record : ObjRecord H) (objroQueue : ObjroQueue H) :
    (getAllParamValues components bFromAcs record objroQueue).2 =
      (childrenValues components bFromAcs (.cons record objroQueue .nil) true).2 := by
  simp only [getAllParamValues, childrenValues]
  split <;> simp

-- The controller of a table may refuse what the descriptor allows.
def refused (record : ObjRecord H) : Bool :=
  record.hDslhObjController.isSome && components.isWritable record.handle = some false

def full (record : ObjRecord H) (objroQueue : ObjroQueue H) : Bool :=
  (components.maxInstanceNumber record.hDslhObjEntity).any fun limit =>
    limit ≤ ObjRecord.getObjRecordCount objroQueue

def bWritable (record : ObjRecord H) : Bool := record.objDescr.any ObjDescr.bWritable

def varInfos (record : ObjRecord H) : List ParamInfo :=
  (record.visibleVars bFromAcs).map fun child =>
    ⟨some (getFullName record child), components.isRecordWritable child.handle⟩

def nextLevelInfos (record : ObjRecord H) : ObjroQueue H → List ParamInfo
  | .nil => []
  | .cons child below next =>
    let others := nextLevelInfos record next
    if child.objDescr = none || child.bInvisible && bFromAcs then others
    else
      let writable := bWritable child &&
        if child.isTable then !full components child below && !refused components child
        else !(record.isTable && !(bWritable record && !refused components record))
      ⟨child.fullName, writable⟩ :: others

-- The entry of an object itself; an object without a name has none.
def selfInfo (parent : Option (ObjRecord H)) (record : ObjRecord H) (objroQueue : ObjroQueue H) :
    List ParamInfo :=
  if record.fullName = none || record.fullName = some [] then []
  else
    let writable :=
      if record.isTable then
        bWritable record && !full components record objroQueue && !refused components record
      else parent.any fun parent => parent.isTable && bWritable parent && !refused components parent
    [⟨record.fullName, writable⟩]

def childrenInfos (parent : ObjRecord H) : ObjroQueue H → List ParamInfo
  | .nil => []
  | .cons record below next =>
    let others := childrenInfos parent next
    if record.bInvisible && bFromAcs then others
    else selfInfo components (some parent) record below ++ varInfos components bFromAcs record ++
      childrenInfos record below ++ others

def getAllParamInfos (parent : Option (ObjRecord H)) (record : ObjRecord H) (objroQueue : ObjroQueue H)
    (bNextLevelOnly : Bool) : List ParamInfo :=
  if bNextLevelOnly then
    nextLevelInfos components bFromAcs record objroQueue ++ varInfos components bFromAcs record
  else
    selfInfo components parent record objroQueue ++ varInfos components bFromAcs record ++
      childrenInfos components bFromAcs record objroQueue

def paramAttrib (name : Text) (child : ChildVarRecord H) : ParamAttrib :=
  ⟨name, components.notification child.handle,
    (components.accessList child.handle).getD "Subscriber".toList⟩

def getAllParamAttribs : ObjroQueue H → List ParamAttrib
  | .nil => []
  | .cons record below next =>
    let entries :=
      if record.bInvisible && bFromAcs then []
      else ((record.visibleVars bFromAcs).map fun child =>
        paramAttrib components (getFullName record child) child) ++ getAllParamAttribs below
    entries ++ getAllParamAttribs next

end Fill

end CcspCommon.DslhObjRecord
