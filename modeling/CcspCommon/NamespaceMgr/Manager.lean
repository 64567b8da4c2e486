import CcspCommon.AnscPlatform.AtomTable

set_option autoImplicit false

namespace CcspCommon.NamespaceMgr

open CcspCommon.Shared CcspCommon.AnscPlatform

inductive Status
  | success | invalidParam | namespaceOverlap | namespaceMismatch | unknownComponent
  deriving DecidableEq, Repr

structure NameSpaceType where
  nameSpace : Option Text
  dataType : DataType
  deriving DecidableEq, Repr

structure CcspNamespace where
  pName : Option Text
  uType : DataType
  bWritable : Bool
  deriving DecidableEq, Repr

structure NamespaceComp where
  handle : Handle
  pCompName : Text
  pDbusPath : Text
  pPrefix : Text
  paramspaceQueue : List CcspNamespace
  deriving DecidableEq, Repr

namespace NamespaceComp

def depth (comp : NamespaceComp) : Nat := comp.paramspaceQueue.length % 2 ^ 16

def create (handle : Handle) (pCompName pDbusPath pPrefix : Option Text) : NamespaceComp where
  handle := handle
  pCompName := strcpyNoClobber 256 [] pCompName
  pDbusPath := strcpyNoClobber 256 [] pDbusPath
  pPrefix := strcpyNoClobber 64 [] pPrefix
  paramspaceQueue := []

def entryOf (item : NameSpaceType) : CcspNamespace := ⟨item.nameSpace, item.dataType, false⟩

def buildFromNamespaceStructArray (comp : NamespaceComp) (items : List (Option NameSpaceType)) :
    NamespaceComp :=
  { comp with paramspaceQueue := comp.paramspaceQueue ++ (items.filterMap id).map entryOf }

/-- The scan of `CcspNsCompUnregisterNamespace`: the queue after popping the entry at which the scan
stopped. A scan that finds nothing stops at the last entry, and that one is popped. -/
def popScanned (pNamespace : Option Text) : List CcspNamespace → Option (List CcspNamespace)
  | [] => some []
  | entry :: rest =>
    match entry.pName, pNamespace with
    | some pName, some name =>
      if pName = name then some rest
      else match rest with
        | [] => some []
        | _ :: _ => (popScanned pNamespace rest).map (entry :: ·)
    -- strcmp on a NULL name
    | _, _ => none

def unregisterNamespace (comp : NamespaceComp) (pNamespace : Option Text) : Option NamespaceComp :=
  (popScanned pNamespace comp.paramspaceQueue).map fun queue =>
    { comp with paramspaceQueue := queue }

end NamespaceComp

-- `ULONG` has `w` bits. `nextHandle` is the address the allocator gives to the next component.
structure Manager (w : Nat) where
  uTotalNamespace : BitVec w
  componentQueue : List NamespaceComp
  hAtomNamespace : Option (AtomTable w)
  nextHandle : Handle

namespace Manager

variable {w : Nat}

def create : Manager w where
  uTotalNamespace := 0
  componentQueue := []
  hAtomNamespace := some ChainTable.empty
  nextHandle := 1

def lookforComponent (mgr : Manager w) (pCompName : Option Text) : Option NamespaceComp :=
  match pCompName with
  | none => none
  | some name => mgr.componentQueue.find? fun comp => comp.pCompName = name

def componentAt (mgr : Manager w) (handle : Handle) : Option NamespaceComp :=
  mgr.componentQueue.find? fun comp => comp.handle = handle

def putComponent (mgr : Manager w) (changed : NamespaceComp) : Manager w :=
  { mgr with componentQueue :=
      mgr.componentQueue.map fun comp => if comp.handle = changed.handle then changed else comp }

inductive Validation
  | pass
  | reject (status : Status)
  | fault
  deriving DecidableEq, Repr

def wellFormedName (pString : Text) : Bool :=
  4 ≤ pString.length && pString.head? ≠ some '.' && (strstr ['.', '.'] pString).isNone &&
    pString.getLast? ≠ some '.'

def validateNamespaces (mgr : Manager w) (pCompName : Option Text) :
    List (Option NameSpaceType) → Validation
  | [] => .pass
  | none :: _ => .reject .invalidParam
  | some ⟨none, _⟩ :: _ => .reject .invalidParam
  | some ⟨some pString, _⟩ :: rest =>
    if wellFormedName pString then
      match mgr.hAtomNamespace with
      | none => .fault
      | some table =>
        match table.getAtomByName (some pString) with
        | none => validateNamespaces mgr pCompName rest
        | some atom =>
          match mgr.componentAt atom.hContext, pCompName with
          | some owner, some name =>
            -- the remaining elements are not looked at any more
            if owner.pCompName = name then .reject .success else .reject .namespaceOverlap
          | _, _ => .fault
    else .reject .invalidParam

def enlistComponent (mgr : Manager w) (pCompName pDbusPath pPrefix : Option Text) :
    Manager w × NamespaceComp :=
  match mgr.lookforComponent pCompName with
  | some comp => (mgr, comp)
  | none =>
    let comp := NamespaceComp.create mgr.nextHandle pCompName pDbusPath pPrefix
    ({ mgr with componentQueue := mgr.componentQueue ++ [comp], nextHandle := mgr.nextHandle + 1 }, comp)

def addAtoms (handle : Handle) : Option (AtomTable w) → List (Option NameSpaceType) →
    Option (Option (AtomTable w))
  | table, [] => some table
  | table, none :: rest => addAtoms handle table rest
  | none, some _ :: _ => none
  | some table, some item :: rest =>
    addAtoms handle (some (table.addAtomByName item.nameSpace item.dataType handle)) rest

def addNamespaces (mgr : Manager w) (pCompName pDbusPath pPrefix : Option Text)
    (items : List (Option NameSpaceType)) : Option (Status × Manager w) :=
  let (listed, comp) := mgr.enlistComponent pCompName pDbusPath pPrefix
  let built := listed.putComponent (comp.buildFromNamespaceStructArray items)
  (addAtoms comp.handle mgr.hAtomNamespace items).map fun table =>
    (.success, { built with
      hAtomNamespace := table
      uTotalNamespace := mgr.uTotalNamespace + BitVec.ofNat w items.length })

def registerNamespaces (mgr : Manager w) (pCompName pDbusPath pPrefix : Option Text)
    (items : List (Option NameSpaceType)) : Option (Status × Manager w) :=
  match mgr.validateNamespaces pCompName items with
  | .fault => none
  | .reject status => some (status, mgr)
  | .pass => mgr.addNamespaces pCompName pDbusPath pPrefix items

def unregistered (table : AtomTable w) : List (Option NameSpaceType) →
    Option (List (Option NameSpaceType))
  | [] => some []
  | none :: _ => none
  | some item :: rest =>
    (unregistered table rest).map fun copy =>
      if (table.getAtomByName item.nameSpace).isSome then copy else some item :: copy

def buildNamespaces (mgr : Manager w) (pCompName pDbusPath pPrefix : Option Text)
    (items : List (Option NameSpaceType)) : Option (Status × Manager w) :=
  let table := mgr.hAtomNamespace.getD ChainTable.empty
  (unregistered table items).bind fun copy =>
    addNamespaces { mgr with hAtomNamespace := some table } pCompName pDbusPath pPrefix copy

def unregisterNamespace (mgr : Manager w) (pCompName pNamespace : Option Text) :
    Option (Status × Manager w) :=
  match mgr.lookforComponent pCompName with
  -- the result of the lookup is dereferenced without a check
  | none => none
  | some comp =>
    if comp.depth = 0 ∧ pNamespace ≠ none then some (.namespaceMismatch, mgr)
    else if comp.depth ≠ 0 ∧ pNamespace = none then some (.invalidParam, mgr)
    else match mgr.hAtomNamespace with
      | none => none
      | some table =>
        match table.getAtomByName pNamespace with
        | none => some (.namespaceMismatch, mgr)
        -- whoever owns the atom, it is removed before the component's queue is looked at
        | some _ =>
          (comp.unregisterNamespace pNamespace).map fun changed =>
            (.success, { mgr.putComponent changed with
              hAtomNamespace := some (table.delAtomByName pNamespace)
              uTotalNamespace := mgr.uTotalNamespace - 1 })

def delAtoms : Option (AtomTable w) → List CcspNamespace → Option (Option (AtomTable w))
  | table, [] => some table
  | none, _ :: _ => none
  | some table, entry :: rest => delAtoms (some (table.delAtomByName entry.pName)) rest

def unregisterComponent (mgr : Manager w) (pCompName : Option Text) :
    Option (Status × Manager w) :=
  match mgr.lookforComponent pCompName with
  | none => some (.unknownComponent, mgr)
  | some comp =>
    (delAtoms mgr.hAtomNamespace comp.paramspaceQueue).map fun table =>
      (.success, { mgr with
        hAtomNamespace := table
        uTotalNamespace := mgr.uTotalNamespace - BitVec.ofNat w comp.depth
        componentQueue := mgr.componentQueue.eraseP fun other => other.handle = comp.handle })

-- The count of registered namespaces is not reset.
def cleanAll (mgr : Manager w) : Manager w :=
  { mgr with componentQueue := [], hAtomNamespace := none }

inductive Call
  | registerNamespaces (pCompName pDbusPath pPrefix : Option Text) (items : List (Option NameSpaceType))
  | buildNamespaces (pCompName pDbusPath pPrefix : Option Text) (items : List (Option NameSpaceType))
  | unregisterNamespace (pCompName pNamespace : Option Text)
  | unregisterComponent (pCompName : Option Text)
  | cleanAll
  deriving DecidableEq, Repr

-- One call; no result when the call dereferences a null or freed pointer.
def step (mgr : Manager w) : Call → Option (Manager w)
  | .registerNamespaces pCompName pDbusPath pPrefix items =>
    (mgr.registerNamespaces pCompName pDbusPath pPrefix items).map Prod.snd
  | .buildNamespaces pCompName pDbusPath pPrefix items =>
    (mgr.buildNamespaces pCompName pDbusPath pPrefix items).map Prod.snd
  | .unregisterNamespace pCompName pNamespace =>
    (mgr.unregisterNamespace pCompName pNamespace).map Prod.snd
  | .unregisterComponent pCompName => (mgr.unregisterComponent pCompName).map Prod.snd
  | .cleanAll => some mgr.cleanAll

end Manager

end CcspCommon.NamespaceMgr
