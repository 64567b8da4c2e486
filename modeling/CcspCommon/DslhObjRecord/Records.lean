import CcspCommon.Shared.Forest
import CcspCommon.DslhVarRecord.TstValue

set_option autoImplicit false

namespace CcspCommon.DslhObjRecord

open CcspCommon.Shared CcspCommon.DslhVarRecord

inductive ObjectType
  | object | table
  deriving DecidableEq, Repr

structure ObjDescr where
  type : ObjectType
  bWritable : Bool
  bInvisible : Bool
  deriving DecidableEq, Repr

section Records

-- `H` are the handles: addresses of records, entities, contexts and methods.
variable (H : Type)

structure Tr69Interface where
  bUseFullName : Bool
  delEntryWithFullName : Option H
  delEntryWithLastName : Option H
  deriving DecidableEq, Repr

structure ObjController where
  hInsContext : H
  hDslhTr69If : Option (Tr69Interface H)
  deriving DecidableEq, Repr

structure ChildVarRecord where
  handle : H
  entity : VarEntity

structure ObjRecord where
  handle : H
  lastName : Text
  fullName : Option Text
  hDslhObjEntity : H
  objDescr : Option ObjDescr
  hDslhObjController : Option (ObjController H)
  varroTable : List (ChildVarRecord H)

end Records

abbrev ObjroQueue (H : Type) := Forest (ObjRecord H)

variable {H : Type}

namespace ObjRecord

def isTable (record : ObjRecord H) : Bool :=
  record.objDescr.any fun descr => descr.type == .table

def bInvisible (record : ObjRecord H) : Bool := record.objDescr.any ObjDescr.bInvisible

def getVarRecord (record : ObjRecord H) (name : Text) : Option (ChildVarRecord H) :=
  record.varroTable.find? fun child => child.entity.name = name

end ObjRecord

def getFullName (record : ObjRecord H) (child : ChildVarRecord H) : Text :=
  record.fullName.getD "(null)".toList ++ child.entity.name

def getObjRecord (objroQueue : ObjroQueue H) (name : Text) : Option (ObjRecord H × ObjroQueue H) :=
  objroQueue.find fun child => child.lastName = name

end CcspCommon.DslhObjRecord
