import CcspCommon.AnscPlatform.AnscString
import CcspCommon.AnscPlatform.DList
import CcspCommon.DslhObjRecord.Records

set_option autoImplicit false

namespace CcspCommon.DslhWmpDatabase

open CcspCommon.Shared CcspCommon.DslhVarRecord CcspCommon.DslhObjRecord
open CcspCommon.AnscPlatform (tcAllocate ushort)

variable {H : Type}

-- Takes out the last token by its index, which is one less than a depth counted by a `USHORT`.
def popLastToken (chain : List Text) : Option (Text × List Text) :=
  match ushort chain.length with
  | 0 => none
  | index + 1 => chain[index]?.map fun token => (token, chain.eraseIdx index)

def invalidName (name : Text) : Bool :=
  name.head? = some '.' || (strstr "..".toList name).isSome

def isPartialName (name : Text) : Bool := name.getLast? = some '.'

structure Node (H : Type) where
  parent : Option (ObjRecord H)
  record : ObjRecord H
  objroQueue : ObjroQueue H

inductive Target (H : Type)
  | object (node : Node H)
  | parameter (record : ObjRecord H) (child : ChildVarRecord H)

def getObjRecord2 : ObjRecord H → ObjroQueue H → List Text → Option (Node H)
  | _, _, [] => none
  | parent, objroQueue, name :: rest =>
    match getObjRecord objroQueue name with
    | none => none
    | some (child, below) =>
      -- the tokens left over are counted by a `USHORT` too
      if ushort rest.length = 0 then some ⟨some parent, child, below⟩
      else getObjRecord2 child below rest

def parameters (objroQueue : ObjroQueue H) : List (ObjRecord H × ChildVarRecord H) :=
  objroQueue.labels.flatMap fun record => record.varroTable.map fun child => (record, child)

/-- The root object record of a database with the records below it. Only the root comes without a descriptor and a
name, and every record, of an object or of a parameter, is linked once. -/
structure RecordTree (H : Type) where
  root : ObjRecord H
  objroQueue : ObjroQueue H
  rootBare : root.objDescr = none ∧ root.fullName = none
  described : ∀ record ∈ objroQueue.labels, record.objDescr ≠ none ∧
    ∃ name ≠ [], record.fullName = some name
  distinct : ((root :: objroQueue.labels).map ObjRecord.handle ++
    (parameters (.cons root objroQueue .nil)).map fun param => param.2.handle).Nodup

namespace RecordTree

variable (tree : RecordTree H)

def all : ObjroQueue H := .cons tree.root tree.objroQueue .nil

def rootNode : Node H := ⟨none, tree.root, tree.objroQueue⟩

def getObjRecord (pObjName : Text) : Option (Node H) :=
  if invalidName pObjName then none
  else (tcAllocate '.' pObjName).bind fun chain => getObjRecord2 tree.root tree.objroQueue chain

def getVarRecord (pParamName : Text) : Option (ObjRecord H × ChildVarRecord H) :=
  if invalidName pParamName then none
  else do
    let chain ← tcAllocate '.' pParamName
    let (name, path) ← popLastToken chain
    let node ← getObjRecord2 tree.root tree.objroQueue path
    let child ← node.record.getVarRecord name
    some (node.record, child)

-- The record that a name stands for; what is hidden is not given to the ACS.
def findTarget (bFromAcs : Bool) (name : Option Text) : Option (Target H) :=
  match name with
  | none => some (.object tree.rootNode)
  | some name =>
    if isPartialName name then
      match tree.getObjRecord name with
      | none => none
      | some node => if node.record.bInvisible && bFromAcs then none else some (.object node)
    else
      match tree.getVarRecord name with
      | none => none
      | some (record, child) =>
        if child.entity.bInvisible && bFromAcs then none else some (.parameter record child)

end RecordTree

theorem mem_parameters {objroQueue : ObjroQueue H} {record : ObjRecord H} {child : ChildVarRecord H} :
    (record, child) ∈ parameters objroQueue ↔ record ∈ objroQueue.labels ∧ child ∈ record.varroTable := by
  simp [parameters]

def Node.LinkedIn (objroQueue : ObjroQueue H) (node : Node H) : Prop :=
  ∃ ancestors, Forest.Within objroQueue ancestors node.record node.objroQueue ∧
    node.parent = ancestors.getLast?

def Target.LinkedIn (objroQueue : ObjroQueue H) : Target H → Prop
  | .object node => node.LinkedIn objroQueue
  | .parameter record child =>
    (∃ ancestors below, Forest.Within objroQueue ancestors record below) ∧ child ∈ record.varroTable

def Target.Offered (bFromAcs : Bool) : Target H → Prop
  | .object node => (node.record.bInvisible && bFromAcs) = false
  | .parameter _ child => (child.entity.bInvisible && bFromAcs) = false

theorem getObjRecord2_linked {parent : ObjRecord H} {objroQueue : ObjroQueue H} {path : List Text}
    {node : Node H} (found : getObjRecord2 parent objroQueue path = some node) :
    ∃ ancestors, Forest.Within objroQueue ancestors node.record node.objroQueue ∧
      node.parent = (parent :: ancestors).getLast? := by
  induction path generalizing parent objroQueue with
  | nil => cases found
  | cons name rest ih =>
    simp only [getObjRecord2] at found
    split at found
    next => cases found
    next child below here =>
      have linked := (Forest.find_within here).2
      split_ifs at found
      · cases found
        exact ⟨[], linked, rfl⟩
      · obtain ⟨ancestors, deeper, above⟩ := ih found
        exact ⟨_, linked.trans deeper, by simpa using above⟩

namespace RecordTree

variable {tree : RecordTree H}

theorem rootNode_linked : tree.rootNode.LinkedIn tree.all := ⟨[], .here _ _ _, rfl⟩

theorem getObjRecord_linked {pObjName : Text} {node : Node H}
    (found : tree.getObjRecord pObjName = some node) : node.LinkedIn tree.all := by
  unfold RecordTree.getObjRecord at found
  split_ifs at found
  obtain ⟨chain, _, reached⟩ := Option.bind_eq_some_iff.mp found
  obtain ⟨ancestors, within, above⟩ := getObjRecord2_linked reached
  exact ⟨_, within.down, above⟩

theorem getVarRecord_within {pParamName : Text} {record : ObjRecord H} {child : ChildVarRecord H}
    (found : tree.getVarRecord pParamName = some (record, child)) :
    (∃ ancestors below, Forest.Within tree.all ancestors record below) ∧ child ∈ record.varroTable := by
  unfold RecordTree.getVarRecord at found
  split_ifs at found
  simp only [Option.bind_eq_bind, Option.bind_eq_some_iff, Option.some.injEq, Prod.mk.injEq] at found
  obtain ⟨_, _, ⟨_, path⟩, _, node, reached, _, named, rfl, rfl⟩ := found
  obtain ⟨ancestors, within, _⟩ := getObjRecord2_linked reached
  exact ⟨⟨_, _, within.down⟩, List.mem_of_find?_eq_some named⟩

theorem findTarget_linked {bFromAcs : Bool} {name : Option Text} {target : Target H}
    (found : tree.findTarget bFromAcs name = some target) : target.LinkedIn tree.all := by
  unfold findTarget at found
  split at found
  next =>
    cases found
    exact rootNode_linked
  next name =>
    split at found
    next =>
      split at found
      next => cases found
      next node here =>
        split_ifs at found
        cases found
        exact getObjRecord_linked here
    next =>
      split at found
      next => cases found
      next record child here =>
        split_ifs at found
        cases found
        exact getVarRecord_within here

theorem findTarget_offered {bFromAcs : Bool} {name : Option Text} {target : Target H}
    (found : tree.findTarget bFromAcs name = some target) : target.Offered bFromAcs := by
  unfold findTarget at found
  split at found
  next =>
    cases found
    simp [Target.Offered, rootNode, ObjRecord.bInvisible, tree.rootBare.1]
  next =>
    split at found
    next =>
      split at found
      next => cases found
      next =>
        split_ifs at found with hidden
        cases found
        exact Bool.eq_false_of_not_eq_true hidden
    next =>
      split at found
      next => cases found
      next =>
        split_ifs at found with hidden
        cases found
        exact Bool.eq_false_of_not_eq_true hidden

theorem distinctRecords (tree : RecordTree H) : (tree.all.labels.map ObjRecord.handle).Nodup := by
  simpa [all] using (List.nodup_append.mp tree.distinct).1

theorem same_record {one other : ObjRecord H} (member : one ∈ tree.all.labels)
    (another : other ∈ tree.all.labels) (same : one.handle = other.handle) : one = other :=
  List.inj_on_of_nodup_map tree.distinctRecords member another same

theorem same_parameter {one other : ObjRecord H × ChildVarRecord H} (member : one ∈ parameters tree.all)
    (another : other ∈ parameters tree.all) (same : one.2.handle = other.2.handle) : one = other :=
  List.inj_on_of_nodup_map (List.nodup_append.mp tree.distinct).2.1 member another same

end RecordTree

end CcspCommon.DslhWmpDatabase
