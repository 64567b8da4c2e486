import CcspCommon.DslhObjRecord.InstanceNumbers
import CcspCommon.DslhObjRecord.Records

set_option autoImplicit false

namespace CcspCommon.DslhObjRecord

open CcspCommon.Shared

variable {H B : Type} [DecidableEq H]

inductive DelStatus
  | success | failure | badName | unapplicable
  | backend (code : Nat)
  deriving DecidableEq, Repr

inductive DelEntryCall (H : Type)
  | withFullName (method hInsContext : H) (objName : Option Text) (hInstance : H)
  | withLastName (method hInsContext hInstance : H)
  deriving DecidableEq, Repr

abbrev DelEntry (H B : Type) := DelEntryCall H → B → DelStatus × B

structure Store (H B : Type) where
  objInsQueue : H → List H
  backend : B
  destroyed : List H

structure ObjTable (H B : Type) where
  record : ObjRecord H
  objroQueue : ObjroQueue H
  store : Store H B

section Destroy

variable (delEntry : DelEntry H B)

omit [DecidableEq H] in
def delEntryObject (fullName : Option Text) (pMyObject : ObjController H)
    (hEntryObj : Option (ObjController H)) (store : Store H B) : DelStatus × Store H B :=
  match hEntryObj, pMyObject.hDslhTr69If with
  | none, _ => (.unapplicable, store)
  | some _, none => (.unapplicable, store)
  | some pEntryObj, some pDslhTr69If =>
    let call : Option (DelEntryCall H) :=
      if pDslhTr69If.bUseFullName then
        pDslhTr69If.delEntryWithFullName.map fun method =>
          .withFullName method pMyObject.hInsContext fullName pEntryObj.hInsContext
      else
        pDslhTr69If.delEntryWithLastName.map fun method =>
          .withLastName method pMyObject.hInsContext pEntryObj.hInsContext
    match call with
    -- a component without the method has nothing to refuse
    | none => (.success, store)
    | some call =>
      let (returnStatus, backend) := delEntry call store.backend
      (returnStatus, { store with backend := backend })

def delObjRecord (hDslhObjEntity hObjRecord : H) (store : Store H B) : Store H B :=
  { store with
    objInsQueue := Function.update store.objInsQueue hDslhObjEntity
      ((store.objInsQueue hDslhObjEntity).erase hObjRecord) }

def leaveEntity (record : ObjRecord H) (store : Store H B) : Store H B :=
  let store := delObjRecord record.hDslhObjEntity record.handle store
  { store with destroyed := record.handle :: store.destroyed }

def destroyChildren : ObjroQueue H → ObjRecord H → Store H B → Store H B
  | .nil, _, store => store
  | .cons child below next, pMyObject, store =>
    let store := leaveEntity child (destroyChildren below child store)
    let store := match pMyObject.isTable, pMyObject.hDslhObjController with
      -- what the component answers is not looked at
      | true, some pObjcoTable =>
        (delEntryObject delEntry pMyObject.fullName pObjcoTable child.hDslhObjController store).2
      | _, _ => store
    destroyChildren next pMyObject store

def destroy (record : ObjRecord H) (below : ObjroQueue H) (store : Store H B) : Store H B :=
  leaveEntity record (destroyChildren delEntry below record store)

-- `DslhObjroDelChildObject`; there is no result where the controller of the table is missing, since
-- it is used without a check.
def ObjTable.delChildObject (table : ObjTable H B) (pObjName : Text) : Option (DelStatus × ObjTable H B) :=
  if table.record.isTable then
    match getObjRecord table.objroQueue pObjName with
    | none => some (.badName, table)
    | some (child, below) =>
      let store := destroy delEntry child below table.store
      match table.record.hDslhObjController with
      | none => none
      | some pObjcoTable =>
        match delEntryObject delEntry table.record.fullName pObjcoTable child.hDslhObjController store with
        | (.success, store) =>
          let objroQueue := table.objroQueue.erase fun child => child.lastName = pObjName
          some (.success, { table with objroQueue := objroQueue, store := store })
        -- the row stays linked, destroyed as it is
        | (returnStatus, store) => some (returnStatus, { table with store := store })
  else some (.failure, table)

end Destroy

namespace ObjTable

def lastNames (table : ObjTable H B) : List Text := table.objroQueue.roots.map ObjRecord.lastName

def linked (table : ObjTable H B) : List H := table.objroQueue.labels.map ObjRecord.handle

def Sound (table : ObjTable H B) : Prop := ∀ record ∈ table.linked, record ∉ table.store.destroyed

structure LeftAsItWas (before after : ObjTable H B) : Prop where
  records : after.objroQueue = before.objroQueue
  registered : after.store.objInsQueue = before.store.objInsQueue
  sound : after.Sound

end ObjTable

omit [DecidableEq H] in
theorem delEntryObject_keeps (delEntry : DelEntry H B) (fullName : Option Text)
    (pMyObject : ObjController H) (hEntryObj : Option (ObjController H)) (store : Store H B) :
    (delEntryObject delEntry fullName pMyObject hEntryObj store).2.objInsQueue = store.objInsQueue ∧
      (delEntryObject delEntry fullName pMyObject hEntryObj store).2.destroyed = store.destroyed := by
  unfold delEntryObject
  split
  · exact ⟨rfl, rfl⟩
  · exact ⟨rfl, rfl⟩
  · dsimp only
    split <;> exact ⟨rfl, rfl⟩

theorem mem_destroyed_destroyChildren (delEntry : DelEntry H B) (objroQueue : ObjroQueue H)
    (pMyObject : ObjRecord H) (store : Store H B) (handle : H) :
    handle ∈ (destroyChildren delEntry objroQueue pMyObject store).destroyed ↔
      handle ∈ objroQueue.labels.map ObjRecord.handle ∨ handle ∈ store.destroyed := by
  induction objroQueue generalizing pMyObject store with
  | nil => simp [destroyChildren]
  | cons child below next belowIH nextIH =>
    have asked : ∀ left : Store H B,
        (match pMyObject.isTable, pMyObject.hDslhObjController with
          | true, some pObjcoTable =>
            (delEntryObject delEntry pMyObject.fullName pObjcoTable child.hDslhObjController left).2
          | _, _ => left).destroyed = left.destroyed := by
      intro left
      split
      · exact (delEntryObject_keeps ..).2
      · rfl
    simp only [destroyChildren, nextIH, asked, leaveEntity, delObjRecord, List.mem_cons, belowIH,
      Forest.labels_cons, List.map_cons, List.map_append, List.mem_append]
    grind

theorem mem_destroyed_destroy (delEntry : DelEntry H B) (record : ObjRecord H) (below : ObjroQueue H)
    (store : Store H B) (handle : H) :
    handle ∈ (destroy delEntry record below store).destroyed ↔
      handle = record.handle ∨ handle ∈ below.labels.map ObjRecord.handle ∨ handle ∈ store.destroyed := by
  simp only [destroy, leaveEntity, delObjRecord, List.mem_cons, mem_destroyed_destroyChildren]

theorem delChildObject_cases {delEntry : DelEntry H B} {table after : ObjTable H B} {pObjName : Text}
    {status : DelStatus} (run : table.delChildObject delEntry pObjName = some (status, after)) :
    ((table.record.isTable = false ∨ getObjRecord table.objroQueue pObjName = none) ∧
        status ≠ .success ∧ after = table) ∨
      ∃ child below pObjcoTable store,
        table.record.isTable = true ∧ getObjRecord table.objroQueue pObjName = some (child, below) ∧
        delEntryObject delEntry table.record.fullName pObjcoTable child.hDslhObjController
          (destroy delEntry child below table.store) = (status, store) ∧
        after.store = store ∧
        after.objroQueue = (if status = .success
          then table.objroQueue.erase fun child => child.lastName = pObjName else table.objroQueue) := by
  unfold ObjTable.delChildObject at run
  split at run
  next isTable =>
    split at run
    next absent =>
      cases run
      exact .inl ⟨.inr absent, by decide, rfl⟩
    next child below found =>
      dsimp only at run
      split at run
      next => cases run
      next pObjcoTable controller =>
        refine .inr ⟨child, below, pObjcoTable, after.store, isTable, found, ?_⟩
        split at run
        next store answered =>
          cases run
          exact ⟨answered, rfl, rfl⟩
        next returnStatus store refused answered =>
          cases run
          exact ⟨answered, rfl, (if_neg refused).symm⟩
  next noTable =>
    cases run
    exact .inl ⟨.inl (by simpa using noTable), by decide, rfl⟩

theorem delChildObject_lastNames {w : Nat} {delEntry : DelEntry H B} {table after : ObjTable H B}
    {pObjName : Text} {status : DelStatus} (isTable : table.record.isTable = true)
    (run : table.delChildObject delEntry pObjName = some (status, after)) (next : BitVec w) :
    (delChildObject ⟨next, table.lastNames⟩ pObjName (status = .success)).2 = ⟨next, after.lastNames⟩ := by
  have absent : getObjRecord table.objroQueue pObjName = none ↔ pObjName ∉ table.lastNames := by
    rw [getObjRecord, Forest.find_eq_none]
    simp [ObjTable.lastNames]
  rcases delChildObject_cases run with ⟨stopped, failed, rfl⟩ |
    ⟨child, below, _, _, _, found, _, _, queue⟩
  · have missing : pObjName ∉ after.lastNames := absent.mp (stopped.resolve_left (by simp [isTable]))
    simp [delChildObject, missing]
  · have present : pObjName ∈ table.lastNames := by
      by_contra missing
      rw [absent.mpr missing] at found
      cases found
    by_cases success : status = .success
    · have erased : after.lastNames = table.lastNames.erase pObjName := by
        simp only [ObjTable.lastNames, queue, if_pos success, Forest.roots_erase, List.erase_eq_eraseP,
          List.eraseP_map]
        congr 2
        funext child
        rw [Function.comp_apply, Bool.eq_iff_iff, beq_iff_eq, decide_eq_true_iff]
        exact eq_comm
      simp [delChildObject, present, success, erased]
    · have kept : after.lastNames = table.lastNames := by
        simp only [ObjTable.lastNames, queue, if_neg success]
      simp [delChildObject, present, success, kept]

theorem delChildObject_sound {delEntry : DelEntry H B} {table after : ObjTable H B} {pObjName : Text}
    (distinct : table.linked.Nodup) (sound : table.Sound)
    (run : table.delChildObject delEntry pObjName = some (.success, after)) :
    after.linked.Nodup ∧ after.Sound := by
  rcases delChildObject_cases run with ⟨_, failed, _⟩ |
    ⟨child, below, pObjcoTable, store, _, found, answered, rfl, queue⟩
  · exact absurd rfl failed
  · rw [if_pos rfl] at queue
    have split : table.linked.Perm
        (child.handle :: (below.labels.map ObjRecord.handle ++ after.linked)) := by
      simpa [ObjTable.linked, queue] using (Forest.labels_erase found).map ObjRecord.handle
    have parts := split.nodup_iff.mp distinct
    simp only [List.nodup_cons, List.mem_append, not_or, List.nodup_append] at parts
    obtain ⟨⟨_, other⟩, _, kept, apart⟩ := parts
    refine ⟨kept, fun handle member destroyed => ?_⟩
    have before : handle ∉ table.store.destroyed :=
      sound handle (split.mem_iff.mpr (List.mem_cons_of_mem _ (List.mem_append_right _ member)))
    have same := (delEntryObject_keeps delEntry table.record.fullName pObjcoTable
      child.hDslhObjController (destroy delEntry child below table.store)).2
    rw [answered] at same
    rw [same, mem_destroyed_destroy] at destroyed
    rcases destroyed with rfl | inside | earlier
    · exact other member
    · exact apart handle inside handle member rfl
    · exact before earlier

/-- Where a deletion fails, the table is as it was only if nothing was asked to delete: the row is destroyed
before the component may refuse. -/
theorem failed_deletion_leaves_table_iff {delEntry : DelEntry H B} {table after : ObjTable H B}
    {pObjName : Text} {status : DelStatus}
    (run : table.delChildObject delEntry pObjName = some (status, after)) (failed : status ≠ .success) :
    table.LeftAsItWas after ↔
      (table.record.isTable = false ∨ getObjRecord table.objroQueue pObjName = none) ∧ table.Sound := by
  rcases delChildObject_cases run with ⟨stopped, _, rfl⟩ |
    ⟨child, below, pObjcoTable, store, isTable, found, answered, rfl, queue⟩
  · exact ⟨fun left => ⟨stopped, left.sound⟩, fun clean => ⟨rfl, rfl, clean.2⟩⟩
  · rw [if_neg failed] at queue
    constructor
    · intro left
      have linked : child.handle ∈ after.linked := by
        rw [ObjTable.linked, queue]
        exact List.mem_map_of_mem (Forest.find_within found).2.mem_labels
      have destroyed : child.handle ∈ after.store.destroyed := by
        have same := (delEntryObject_keeps delEntry table.record.fullName pObjcoTable
          child.hDslhObjController (destroy delEntry child below table.store)).2
        rw [answered] at same
        rw [same, mem_destroyed_destroy]
        exact .inl rfl
      exact absurd destroyed (left.sound child.handle linked)
    · intro clean
      rcases clean.1 with noTable | absent
      · rw [isTable] at noTable
        cases noTable
      · rw [absent] at found
        cases found

section Sample

def refuse : DelEntry Nat Unit := fun _ backend => (.backend 1, backend)

def sampleController (hInsContext : Nat) : ObjController Nat where
  hInsContext := hInsContext
  hDslhTr69If := some ⟨false, none, some 30⟩

def sampleRow : ObjRecord Nat where
  handle := 2
  lastName := ['1']
  fullName := some "T.1.".toList
  hDslhObjEntity := 12
  objDescr := some ⟨.object, true, false⟩
  hDslhObjController := some (sampleController 22)
  varroTable := []

def sampleTable : ObjTable Nat Unit where
  record :=
    { handle := 1
      lastName := ['T']
      fullName := some "T.".toList
      hDslhObjEntity := 11
      objDescr := some ⟨.table, true, false⟩
      hDslhObjController := some (sampleController 21)
      varroTable := [] }
  objroQueue := .cons sampleRow .nil .nil
  store := ⟨fun entity => if entity = 12 then [2] else [], (), []⟩

end Sample

theorem failed_deletion_leaves_table_of_no_such_row :
    sampleTable.LeftAsItWas sampleTable ↔
      (sampleTable.record.isTable = false ∨ getObjRecord sampleTable.objroQueue ['2'] = none) ∧
        sampleTable.Sound := by
  have run : sampleTable.delChildObject refuse ['2'] = some (.badName, sampleTable) := rfl
  exact failed_deletion_leaves_table_iff run (by decide)

theorem refused_deletion_destroys_row : ¬ ∀ (status : DelStatus) (after : ObjTable Nat Unit),
    sampleTable.Sound → sampleTable.delChildObject refuse ['1'] = some (status, after) →
      status ≠ .success → sampleTable.LeftAsItWas after := by
  intro always
  have left := always (.backend 1)
    { sampleTable with store := destroy refuse sampleRow .nil sampleTable.store }
    (fun _ _ => List.not_mem_nil) rfl (by decide)
  exact left.sound 2 (by decide) (by decide)

end CcspCommon.DslhObjRecord
