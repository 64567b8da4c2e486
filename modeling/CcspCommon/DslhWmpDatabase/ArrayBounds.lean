import CcspCommon.DslhWmpDatabase.ParameterRetrieval
import Mathlib.Algebra.BigOperators.Group.List.Basic
import Mathlib.Data.BitVec
import Mathlib.Data.List.Perm.Subperm

set_option autoImplicit false

namespace CcspCommon.DslhWmpDatabase.Retrieval

open CcspCommon.Shared CcspCommon.DslhVarRecord CcspCommon.DslhObjRecord
open CcspCommon.AnscPlatform (ushort)

variable {H : Type}

def Answer.Fits {E : Type} (answer : Answer E) : Prop := answer.entries.length ≤ answer.allocated

inductive Call
  | values (request : Request)
  | names (pAccessEntity : Text) (pParamPath : Option Text) (bNextLevel : Bool)
  | attributes (request : Request)
  deriving DecidableEq, Repr

section Call

variable (tree : RecordTree H)

def targetsCount (bFromAcs bCountedFromAcs : Bool) (pParamNameArray : Option (List (Option Text))) : Nat :=
  ((pParamNameArray.bind (findTargets tree bFromAcs)).map (totalCount bCountedFromAcs)).getD 0

def Call.count : Call → Nat
  | .values request => targetsCount tree request.fromAcs request.fromAcs request.pParamNameArray
  | .attributes request => targetsCount tree request.fromAcs false request.pParamNameArray
  | .names pAccessEntity pParamPath bNextLevel =>
    let bFromAcs : Bool := pAccessEntity = "ACS".toList
    match findRetrieved tree bFromAcs pParamPath with
    | none => 0
    | some (.object node) =>
      if bNextLevel then
        ObjRecord.getObjRecordCount node.objroQueue + node.record.getVarRecordCount bFromAcs
      else getTotalParamNumber bFromAcs true node.record node.objroQueue
    | some (.parameter _ _) => 1

def Call.Fits [DecidableEq H] (components : Components H) (w : Nat) : Call → Prop
  | .values request => (getParameterValues components w tree request).Fits
  | .names pAccessEntity pParamPath bNextLevel =>
    (getParameterNames components w tree pAccessEntity pParamPath bNextLevel).Fits
  | .attributes request => (getParameterAttributes components w tree request).Fits

def AnswersFit [DecidableEq H] (w : Nat) : Prop :=
  ∀ (call : Call) (components : Components H), call.count tree < 2 ^ w → call.Fits tree components w

/-- A `USHORT` counts the parameters of each object, and the child records of each object that may be asked for
the next level, unless the count comes out as nothing at all. -/
structure Narrow : Prop where
  varroTable : ∀ record ∈ tree.all.labels, record.varroTable.length < 65536
  objroQueue : ∀ name node, findRetrieved tree false name = some (.object node) →
    node.objroQueue.roots.length < 65536 ∨
      ushort node.objroQueue.roots.length = 0 ∧ node.record.varroTable = []

end Call

section Fill

variable (components : Components H)

theorem visibleVars_length_le_all (record : ObjRecord H) (narrow : record.varroTable.length < 65536)
    (bFromAcs : Bool) : (record.visibleVars bFromAcs).length ≤ record.getVarRecordCount false := by
  simp only [ObjRecord.getVarRecordCount, Bool.false_eq_true, if_false, ushort,
    Nat.mod_eq_of_lt narrow]
  exact List.length_filter_le _ _

theorem visibleVars_length_le (record : ObjRecord H) (narrow : record.varroTable.length < 65536)
    (bFromAcs : Bool) : (record.visibleVars bFromAcs).length ≤ record.getVarRecordCount bFromAcs := by
  cases bFromAcs with
  | true => exact Nat.le_refl _
  | false => exact visibleVars_length_le_all record narrow false

theorem bulkValues_length (record : ObjRecord H) (children : List (ChildVarRecord H)) :
    (bulkValues components record children).2.length = children.length := by
  simp [bulkValues]

theorem ownValues_length_le (record : ObjRecord H) (bFromAcs : Bool) :
    (ownValues components bFromAcs record).2.length ≤ (record.visibleVars bFromAcs).length := by
  unfold ownValues
  split
  · exact Nat.le_of_eq (bulkValues_length components _ _)
  · exact Nat.zero_le _

theorem childrenValues_length_le (bFromAcs : Bool) {objroQueue : ObjroQueue H}
    (narrow : ∀ record ∈ objroQueue.labels, record.varroTable.length < 65536) (returnStatus : Bool) :
    (childrenValues components bFromAcs objroQueue returnStatus).2.length ≤
      childrenParamNumber bFromAcs false objroQueue := by
  induction objroQueue generalizing returnStatus with
  | nil => exact Nat.le_refl _
  | cons record below next belowIH nextIH =>
    simp only [Forest.labels_cons, List.forall_mem_cons, List.forall_mem_append] at narrow
    obtain ⟨here, under, later⟩ := narrow
    have own := (ownValues_length_le components record bFromAcs).trans
      (visibleVars_length_le record here bFromAcs)
    have children := belowIH under true
    have first : (objectValues components bFromAcs record
        (childrenValues components bFromAcs below true)).2.length ≤
        childrenParamNumber bFromAcs false below + record.getVarRecordCount bFromAcs := by
      unfold objectValues
      split_ifs
      · exact Nat.zero_le _
      · rw [List.length_append]
        omega
      · omega
    simp only [childrenValues, childrenParamNumber]
    split
    · exact first.trans (by omega)
    · rw [List.length_append]
      have others := nextIH later (objectValues components bFromAcs record
        (childrenValues components bFromAcs below true)).1
      omega

theorem getAllParamAttribs_length_le (bFromAcs : Bool) {objroQueue : ObjroQueue H}
    (narrow : ∀ record ∈ objroQueue.labels, record.varroTable.length < 65536) :
    (getAllParamAttribs components bFromAcs objroQueue).length ≤
      childrenParamNumber false false objroQueue := by
  induction objroQueue with
  | nil => exact Nat.le_refl _
  | cons record below next belowIH nextIH =>
    simp only [Forest.labels_cons, List.forall_mem_cons, List.forall_mem_append] at narrow
    obtain ⟨here, under, later⟩ := narrow
    have own := visibleVars_length_le_all record here bFromAcs
    have children := belowIH under
    have others := nextIH later
    simp only [getAllParamAttribs, childrenParamNumber, List.length_append]
    split_ifs
    · rw [List.length_nil]
      omega
    · rw [List.length_append, List.length_map]
      omega

theorem selfInfo_length_le (parent : Option (ObjRecord H)) (record : ObjRecord H)
    (objroQueue : ObjroQueue H) (bFromAcs : Bool) (described : record.fullName = none ∨ record.objDescr ≠ none)
    (visible : (record.bInvisible && bFromAcs) = false) :
    (selfInfo components parent record objroQueue).length ≤ record.selfCount bFromAcs true := by
  unfold selfInfo
  split
  next => exact Nat.zero_le _
  next named =>
    have counted : record.selfCount bFromAcs true = 1 := by
      cases described with
      | inl unnamed => simp [unnamed] at named
      | inr described =>
        obtain ⟨descr, present⟩ := Option.ne_none_iff_exists'.mp described
        cases bFromAcs with
        | false => simp [ObjRecord.selfCount]
        | true =>
          simp only [ObjRecord.bInvisible, present, Option.any_some, Bool.and_true] at visible
          simp [ObjRecord.selfCount, present, visible]
    rw [counted]
    exact Nat.le_refl _

theorem childrenInfos_length_le (bFromAcs : Bool) {objroQueue : ObjroQueue H} (parent : ObjRecord H)
    (narrow : ∀ record ∈ objroQueue.labels, record.varroTable.length < 65536)
    (described : ∀ record ∈ objroQueue.labels, record.objDescr ≠ none) :
    (childrenInfos components bFromAcs parent objroQueue).length ≤
      childrenParamNumber bFromAcs true objroQueue := by
  induction objroQueue generalizing parent with
  | nil => exact Nat.le_refl _
  | cons record below next belowIH nextIH =>
    simp only [Forest.labels_cons, List.forall_mem_cons, List.forall_mem_append] at narrow described
    have children := belowIH record narrow.2.1 described.2.1
    have others := nextIH parent narrow.2.2 described.2.2
    have own := visibleVars_length_le record narrow.1 bFromAcs
    simp only [childrenInfos, childrenParamNumber]
    split
    · omega
    next visible =>
      have self := selfInfo_length_le components (some parent) record below bFromAcs
        (.inr described.1) (by simpa using visible)
      simp only [List.length_append, varInfos, List.length_map]
      omega

theorem nextLevelInfos_length_le (record : ObjRecord H) (objroQueue : ObjroQueue H) (bFromAcs : Bool) :
    (nextLevelInfos components bFromAcs record objroQueue).length ≤ objroQueue.roots.length := by
  induction objroQueue with
  | nil => exact Nat.le_refl _
  | cons child below next _ ih =>
    simp only [nextLevelInfos, Forest.roots_cons, List.length_cons]
    split
    · omega
    · rw [List.length_cons]
      omega

end Fill

section Named

variable [DecidableEq H]

theorem objRecordArray_nodup (params : List (ObjRecord H × ChildVarRecord H)) (records : List (ObjRecord H))
    (distinct : (records.map ObjRecord.handle).Nodup) :
    ((objRecordArray params records).map ObjRecord.handle).Nodup := by
  induction params generalizing records with
  | nil => exact distinct
  | cons param rest ih =>
    simp only [objRecordArray]
    split
    next => exact ih records distinct
    next new =>
      refine ih _ ?_
      rw [List.map_append, List.nodup_append]
      refine ⟨distinct, by simp, ?_⟩
      intro handle old other added same
      obtain ⟨record, member, rfl⟩ := List.mem_map.mp old
      obtain rfl := List.mem_singleton.mp added
      exact new (List.any_eq_true.mpr ⟨record, member, by simpa using same⟩)

theorem sum_filter_le {A K : Type} [DecidableEq K] (key : A → K) {keys : List K} (distinct : keys.Nodup)
    (elements : List A) :
    (keys.map fun k => (elements.filter fun element => key element = k).length).sum ≤ elements.length := by
  induction keys generalizing elements with
  | nil => exact Nat.zero_le _
  | cons first rest ih =>
    obtain ⟨fresh, distinct⟩ := List.nodup_cons.mp distinct
    let others := elements.filter fun element => !decide (key element = first)
    have apart : ∀ k ∈ rest, (elements.filter fun element => key element = k) =
        others.filter fun element => key element = k := by
      intro k member
      have different : k ≠ first := fun same => fresh (same ▸ member)
      simp only [others, List.filter_filter]
      refine List.filter_congr fun element _ => ?_
      by_cases this : key element = k <;> simp [this, different]
    have later := ih distinct others
    have whole : elements.length =
        (elements.filter fun element => key element = first).length + others.length :=
      List.length_eq_length_filter_add _
    rw [List.map_cons, List.sum_cons, List.map_congr_left fun k member => by rw [apart k member]]
    omega

theorem namedValues_length_le (components : Components H)
    (params : List (ObjRecord H × ChildVarRecord H)) :
    (namedValues components params).length ≤ params.length := by
  have distinct := objRecordArray_nodup params [] List.nodup_nil
  have once := sum_filter_le (fun param : ObjRecord H × ChildVarRecord H => param.1.handle) distinct params
  simp only [namedValues, List.length_flatMap, bulkValues_length components, List.length_map]
  simpa only [List.map_map, Function.comp_def] using once

end Named

section Requests

variable [DecidableEq H] (components : Components H) {tree : RecordTree H}

omit [DecidableEq H] in
theorem node_narrow (narrow : Narrow tree) {node : Node H} (linked : node.LinkedIn tree.all) :
    ∀ record ∈ (Forest.cons node.record node.objroQueue .nil).labels, record.varroTable.length < 65536 := by
  obtain ⟨_, within, _⟩ := linked
  intro record member
  refine narrow.varroTable record ?_
  simp only [Forest.labels_cons, Forest.labels_nil, List.append_nil] at member
  rcases List.mem_cons.mp member with rfl | under
  · exact within.mem_labels
  · exact within.labels_subset under

omit [DecidableEq H] in
theorem totalCount_cons (bFromAcs : Bool) (target : Option Text × Target H)
    (rest : List (Option Text × Target H)) :
    totalCount bFromAcs (target :: rest) = targetCount bFromAcs target.2 + totalCount bFromAcs rest := by
  rw [totalCount, List.map_cons, List.sum_cons, totalCount]

omit [DecidableEq H] in
theorem targetValues_length_le (bFromAcs : Bool) (narrow : Narrow tree) {target : Option Text × Target H}
    (linked : target.2.LinkedIn tree.all) :
    (objectTargetValues components bFromAcs target.2).length + (namedParameters [target]).length ≤
      targetCount bFromAcs target.2 := by
  obtain ⟨name, target⟩ := target
  cases target with
  | object node =>
    have own := childrenValues_length_le components bFromAcs
      (node_narrow narrow linked) true
    rw [← getAllParamValues_eq] at own
    exact own
  | parameter record child => exact Nat.le_refl _

omit [DecidableEq H] in
theorem values_length_le (bFromAcs : Bool) (narrow : Narrow tree)
    {targets : List (Option Text × Target H)} (linked : ∀ target ∈ targets, target.2.LinkedIn tree.all) :
    (targets.flatMap fun target => objectTargetValues components bFromAcs target.2).length +
      (namedParameters targets).length ≤ totalCount bFromAcs targets := by
  induction targets with
  | nil => exact Nat.le_refl _
  | cons target rest ih =>
    obtain ⟨here, later⟩ := List.forall_mem_cons.mp linked
    have own := targetValues_length_le components bFromAcs narrow here
    have others := ih later
    have named : namedParameters (target :: rest) = namedParameters [target] ++ namedParameters rest :=
      List.filterMap_append (l := [target])
    rw [totalCount_cons, List.flatMap_cons, List.length_append, named, List.length_append]
    omega

omit [DecidableEq H] in
theorem targetAttribs_length_le (bFromAcs : Bool) (narrow : Narrow tree) {target : Option Text × Target H}
    (linked : target.2.LinkedIn tree.all) :
    (targetAttribs components bFromAcs target).length ≤ targetCount false target.2 := by
  obtain ⟨name, target⟩ := target
  cases target with
  | object node => exact getAllParamAttribs_length_le components bFromAcs (node_narrow narrow linked)
  | parameter record child => exact Nat.le_refl _

omit [DecidableEq H] in
theorem attribs_length_le (bFromAcs : Bool) (narrow : Narrow tree)
    {targets : List (Option Text × Target H)} (linked : ∀ target ∈ targets, target.2.LinkedIn tree.all) :
    (targets.flatMap (targetAttribs components bFromAcs)).length ≤ totalCount false targets := by
  induction targets with
  | nil => exact Nat.le_refl _
  | cons target rest ih =>
    obtain ⟨here, later⟩ := List.forall_mem_cons.mp linked
    have own := targetAttribs_length_le components bFromAcs narrow here
    have others := ih later
    rw [totalCount_cons, List.flatMap_cons, List.length_append]
    omega

omit [DecidableEq H] in
theorem linked_described {record : ObjRecord H} (linked : record ∈ tree.all.labels) :
    record.fullName = none ∨ record.objDescr ≠ none := by
  simp only [RecordTree.all, Forest.labels_cons, Forest.labels_nil, List.append_nil] at linked
  rcases List.mem_cons.mp linked with rfl | below
  · exact .inl tree.rootBare.2
  · exact .inr (tree.described record below).1

omit [DecidableEq H] in
theorem below_described {node : Node H} (linked : node.LinkedIn tree.all) :
    ∀ record ∈ node.objroQueue.labels, record.objDescr ≠ none := by
  obtain ⟨ancestors, within, _⟩ := linked
  intro record member
  exact (tree.described record (within.labels_subset_below member)).1

omit [DecidableEq H] in
theorem allInfos_length_le (narrow : Narrow tree) {bFromAcs : Bool} {node : Node H}
    (linked : node.LinkedIn tree.all) (offered : (node.record.bInvisible && bFromAcs) = false) :
    (getAllParamInfos components bFromAcs node.parent node.record node.objroQueue false).length ≤
      getTotalParamNumber bFromAcs true node.record node.objroQueue := by
  have here : node.record ∈ tree.all.labels := by
    obtain ⟨_, within, _⟩ := linked
    exact within.mem_labels
  have each := node_narrow narrow linked
  simp only [Forest.labels_cons, Forest.labels_nil, List.append_nil, List.forall_mem_cons] at each
  have own := visibleVars_length_le node.record each.1 bFromAcs
  have self := selfInfo_length_le components node.parent node.record node.objroQueue
    bFromAcs (linked_described here) offered
  have children := childrenInfos_length_le components bFromAcs
    node.record each.2 (below_described linked)
  simp only [getAllParamInfos, getTotalParamNumber, Bool.false_eq_true, if_false, List.length_append,
    varInfos, List.length_map]
  omega

omit [DecidableEq H] in
theorem nextLevel_length_le {bFromAcs : Bool} {node : Node H}
    (narrow : node.record.varroTable.length < 65536) (few : node.objroQueue.roots.length < 65536) :
    (getAllParamInfos components bFromAcs node.parent node.record node.objroQueue true).length ≤
      ObjRecord.getObjRecordCount node.objroQueue + node.record.getVarRecordCount bFromAcs := by
  have own := visibleVars_length_le node.record narrow bFromAcs
  have children := nextLevelInfos_length_le components node.record node.objroQueue bFromAcs
  simp only [getAllParamInfos, if_true, List.length_append, varInfos, List.length_map,
    ObjRecord.getObjRecordCount, ushort, Nat.mod_eq_of_lt few]
  omega

omit [DecidableEq H] in
theorem findRetrieved_of_acs {bFromAcs : Bool} {name : Option Text} {target : Target H}
    (found : findRetrieved tree bFromAcs name = some target) :
    findRetrieved tree false name = some target := by
  unfold findRetrieved RecordTree.findTarget at found ⊢
  split at found
  next same => exact found
  next same =>
    split_ifs at found ⊢
    · split at found
      next => cases found
      next node here =>
        split_ifs at found
        simpa using found
    · split at found
      next => cases found
      next record child here =>
        split_ifs at found
        simpa using found

theorem call_fits (narrow : Narrow tree) (call : Call) (w : Nat) (exact : call.count tree < 2 ^ w) :
    call.Fits tree components w := by
  have whole : ∀ n, n < 2 ^ w → ulong w n = n := fun n small => Nat.mod_eq_of_lt small
  cases call with
  | values request =>
    simp only [Call.Fits, Call.count, targetsCount] at exact ⊢
    unfold getParameterValues
    split
    next => exact Nat.le_refl _
    next => exact Nat.le_refl _
    next names _ present =>
      split
      next => exact Nat.le_refl _
      next targets found =>
        simp only [present, Option.bind_some, found, Option.map_some, Option.getD_some] at exact
        have linked := fun target member => (findTargets_spec found target member).1
        have written := values_length_le components request.fromAcs narrow linked
        have named := namedValues_length_le components (namedParameters targets)
        simp only [whole _ exact]
        split_ifs
        · exact Nat.le_refl _
        · exact Nat.le_refl _
        · simp only [Answer.Fits, List.length_append]
          omega
  | attributes request =>
    simp only [Call.Fits, Call.count, targetsCount] at exact ⊢
    unfold getParameterAttributes
    split
    next => exact Nat.le_refl _
    next => exact Nat.le_refl _
    next names _ present =>
      split
      next => exact Nat.le_refl _
      next targets found =>
        simp only [present, Option.bind_some, found, Option.map_some, Option.getD_some] at exact
        have linked := fun target member => (findTargets_spec found target member).1
        have written := attribs_length_le components request.fromAcs narrow linked
        simp only [whole _ exact]
        split_ifs
        · exact Nat.le_refl _
        · exact Nat.le_refl _
        · exact written
  | names pAccessEntity pParamPath bNextLevel =>
    simp only [Call.Fits, Call.count, getParameterNames] at exact ⊢
    cases found : findRetrieved tree (pAccessEntity = "ACS".toList) pParamPath with
    | none => exact Nat.le_refl _
    | some target =>
      rw [found] at exact
      cases target with
      | parameter record child => exact Nat.le_refl _
      | object node =>
        have linked := RecordTree.findTarget_linked found
        have offered := RecordTree.findTarget_offered found
        have here : node.record.varroTable.length < 65536 :=
          node_narrow narrow linked node.record (by simp)
        have fits : ∀ (count : Nat) (infos : List ParamInfo), count < 2 ^ w →
            (count ≠ 0 → infos.length ≤ count) →
            (if ulong w count = 0 then reject .success
              else ⟨.success, ulong w count, infos⟩ : Answer ParamInfo).Fits := by
          intro count infos small written
          rw [whole count small]
          split
          next => exact Nat.le_refl _
          next counted => exact written counted
        refine fits _ _ exact ?_
        cases bNextLevel with
        | false => exact fun _ => allInfos_length_le components narrow linked offered
        | true =>
          intro counted
          rcases narrow.objroQueue _ _ (findRetrieved_of_acs found) with few | ⟨no, bare⟩
          · exact nextLevel_length_le components here few
          · refine absurd ?_ counted
            rw [if_pos rfl, ObjRecord.getObjRecordCount, no]
            simp [ObjRecord.getVarRecordCount, ObjRecord.visibleVars, bare, ushort]

end Requests

section Wide

variable (components : Components H)

theorem childrenInfos_length {objroQueue : ObjroQueue H} (parent : ObjRecord H)
    (named : ∀ record ∈ objroQueue.labels, ∃ name ≠ [], record.fullName = some name) :
    (childrenInfos components false parent objroQueue).length =
      (objroQueue.labels.map fun record => record.varroTable.length + 1).sum := by
  induction objroQueue generalizing parent with
  | nil => rfl
  | cons record below next belowIH nextIH =>
    simp only [Forest.labels_cons, List.forall_mem_cons, List.forall_mem_append] at named
    obtain ⟨⟨name, nonempty, here⟩, under, later⟩ := named
    simp only [childrenInfos, Bool.and_false, Bool.false_eq_true, if_false, List.length_append,
      varInfos, List.length_map, ObjRecord.visibleVars, Bool.not_false, List.filter_true, selfInfo,
      here, Forest.labels_cons, List.map_cons, List.map_append, List.sum_cons, List.sum_append,
      belowIH record under, nextIH parent later]
    simp [nonempty]
    omega

theorem childrenParamNumber_eq (objroQueue : ObjroQueue H) :
    childrenParamNumber false true objroQueue =
      (objroQueue.labels.map fun record => ushort record.varroTable.length + 1).sum := by
  induction objroQueue with
  | nil => rfl
  | cons record below next belowIH nextIH =>
    simp only [childrenParamNumber, belowIH, nextIH, ObjRecord.getVarRecordCount, ObjRecord.selfCount,
      Forest.labels_cons, List.map_cons, List.map_append, List.sum_cons, List.sum_append]
    simp
    omega

theorem nextLevelInfos_length (record : ObjRecord H) {objroQueue : ObjroQueue H}
    (described : ∀ child ∈ objroQueue.roots, child.objDescr ≠ none) :
    (nextLevelInfos components false record objroQueue).length = objroQueue.roots.length := by
  induction objroQueue with
  | nil => rfl
  | cons child below next _ ih =>
    simp only [Forest.roots_cons, List.forall_mem_cons] at described
    simp [nextLevelInfos, described.1, ih described.2]

theorem sum_ushort_le {records : List (ObjRecord H)} {record : ObjRecord H} (member : record ∈ records)
    (wide : 65536 ≤ record.varroTable.length) :
    (records.map fun record => ushort record.varroTable.length + 1).sum + 65536 ≤
      (records.map fun record => record.varroTable.length + 1).sum := by
  have each : ∀ records : List (ObjRecord H),
      (records.map fun record => ushort record.varroTable.length + 1).sum ≤
        (records.map fun record => record.varroTable.length + 1).sum := by
    intro records
    induction records with
    | nil => exact Nat.le_refl _
    | cons first rest ih =>
      have := Nat.mod_le first.varroTable.length 65536
      simp only [List.map_cons, List.sum_cons, ushort] at ih ⊢
      omega
  induction records with
  | nil => cases member
  | cons first rest ih =>
    simp only [List.map_cons, List.sum_cons]
    rcases List.mem_cons.mp member with rfl | later
    · have others := each rest
      simp only [ushort] at others ⊢
      omega
    · have others := ih later
      have := Nat.mod_le first.varroTable.length 65536
      simp only [ushort] at others ⊢
      omega

theorem parameters_length (objroQueue : ObjroQueue H) :
    (objroQueue.labels.map fun record => record.varroTable.length + 1).sum =
      objroQueue.labels.length + (parameters objroQueue).length := by
  simp only [parameters, List.length_flatMap, List.length_map]
  induction objroQueue.labels with
  | nil => rfl
  | cons record rest ih =>
    simp only [List.map_cons, List.sum_cons, List.length_cons, ih]
    omega

theorem addresses_length_le {w : Nat} {addresses : List (BitVec w)} (distinct : addresses.Nodup) :
    addresses.length ≤ 2 ^ w := by
  have numbers : (addresses.map BitVec.toNat).Nodup := distinct.map BitVec.toNat_injective
  have small : addresses.map BitVec.toNat ⊆ List.range (2 ^ w) := by
    intro number member
    obtain ⟨address, _, rfl⟩ := List.mem_map.mp member
    exact List.mem_range.mpr address.isLt
  simpa using (List.subperm_of_subset numbers small).length_le

theorem records_le {w : Nat} (tree : RecordTree (BitVec w)) :
    (tree.all.labels.map fun record => record.varroTable.length + 1).sum ≤ 2 ^ w := by
  have addresses := addresses_length_le tree.distinct
  simp only [List.length_append, List.length_map, List.length_cons] at addresses
  rw [parameters_length]
  simp only [RecordTree.all, Forest.labels_cons, Forest.labels_nil, List.append_nil, List.length_cons]
  omega

theorem varroTable_overflow {w : Nat} {tree : RecordTree (BitVec w)} {record : ObjRecord (BitVec w)}
    (member : record ∈ tree.all.labels) (many : 65536 ≤ record.varroTable.length) :
    (Call.names [] none false).count tree < 2 ^ w ∧
      ¬ (Call.names [] none false).Fits tree .idle w := by
  have lost := sum_ushort_le member many
  have few := records_le tree
  let count := getTotalParamNumber false true tree.root tree.objroQueue
  have counted : count =
      (tree.all.labels.map fun record => ushort record.varroTable.length + 1).sum := by
    have whole := childrenParamNumber_eq tree.all
    simp only [RecordTree.all, childrenParamNumber] at whole
    exact whole
  have written : (getAllParamInfos .idle false none tree.root tree.objroQueue false).length + 1 =
      (tree.all.labels.map fun record => record.varroTable.length + 1).sum := by
    have below := childrenInfos_length .idle tree.root
      fun record member => (tree.described record member).2
    simp [getAllParamInfos, selfInfo, tree.rootBare.2, varInfos, ObjRecord.visibleVars, below,
      RecordTree.all]
    omega
  have small : count < 2 ^ w := by omega
  have exact : ulong w count = count := Nat.mod_eq_of_lt small
  have positive : count ≠ 0 := by
    have : 0 < count := by simp [count, getTotalParamNumber, ObjRecord.selfCount]
    omega
  have answer : getParameterNames .idle w tree [] none false =
      ⟨.success, count, getAllParamInfos .idle false none tree.root tree.objroQueue false⟩ := by
    show (if ulong w count = 0 then reject .success else ⟨.success, ulong w count, _⟩) = _
    rw [exact, if_neg positive]
    rfl
  refine ⟨small, fun fit => ?_⟩
  simp only [Call.Fits, answer, Answer.Fits] at fit
  omega

theorem objroQueue_overflow {w : Nat} (wide : 32 ≤ w) {tree : RecordTree (BitVec w)}
    {name : Option Text} {node : Node (BitVec w)}
    (found : findRetrieved tree false name = some (.object node))
    (few : node.record.varroTable.length < 65536) (many : 65536 ≤ node.objroQueue.roots.length)
    (some : ushort node.objroQueue.roots.length ≠ 0 ∨ node.record.varroTable ≠ []) :
    (Call.names [] name true).count tree < 2 ^ w ∧ ¬ (Call.names [] name true).Fits tree .idle w := by
  have room : 2 ^ 32 ≤ 2 ^ w := Nat.pow_le_pow_right (by decide) wide
  have described : ∀ child ∈ node.objroQueue.roots, child.objDescr ≠ none := fun child member =>
    below_described (RecordTree.findTarget_linked found) child (Forest.roots_subset_labels member)
  let count := ushort node.objroQueue.roots.length + node.record.varroTable.length
  have counted : ObjRecord.getObjRecordCount node.objroQueue +
      node.record.getVarRecordCount false = count := by
    simp [count, ObjRecord.getObjRecordCount, ObjRecord.getVarRecordCount, ushort, Nat.mod_eq_of_lt few]
  have written : (getAllParamInfos .idle false node.parent node.record node.objroQueue true).length =
      node.objroQueue.roots.length + node.record.varroTable.length := by
    simp [getAllParamInfos, nextLevelInfos_length .idle node.record described, varInfos,
      ObjRecord.visibleVars]
  have turn : ushort node.objroQueue.roots.length < 65536 := Nat.mod_lt _ (by decide)
  have small : count < 2 ^ w := by omega
  have exact : ulong w count = count := Nat.mod_eq_of_lt small
  have positive : count ≠ 0 := by
    rcases some with turned | own
    · omega
    · have := List.length_pos_of_ne_nil own
      omega
  have stranger : decide (([] : Text) = "ACS".toList) = false := by decide
  have answer : getParameterNames .idle w tree [] name true = ⟨.success, count,
      getAllParamInfos .idle false node.parent node.record node.objroQueue true⟩ := by
    simp only [getParameterNames, stranger, found, if_true, counted, exact, if_neg positive]
  constructor
  · simpa only [Call.count, stranger, found, if_true, counted] using small
  · intro fit
    simp only [Call.Fits, answer, Answer.Fits] at fit
    omega

theorem requests_fit_iff {w : Nat} (wide : 32 ≤ w) (tree : RecordTree (BitVec w)) :
    AnswersFit tree w ↔ Narrow tree := by
  constructor
  · intro fits
    have varroTable : ∀ record ∈ tree.all.labels, record.varroTable.length < 65536 := by
      intro record member
      by_contra many
      obtain ⟨small, overflow⟩ := varroTable_overflow member (Nat.le_of_not_lt many)
      exact overflow (fits _ .idle small)
    refine ⟨varroTable, fun name node found => ?_⟩
    obtain ⟨_, within, _⟩ := RecordTree.findTarget_linked found
    by_contra wrong
    obtain ⟨many, none⟩ := not_or.mp wrong
    have some : ushort node.objroQueue.roots.length ≠ 0 ∨ node.record.varroTable ≠ [] := by
      by_contra nothing
      simp only [not_or, not_not] at nothing
      exact none nothing
    obtain ⟨small, overflow⟩ := objroQueue_overflow wide found
      (varroTable node.record within.mem_labels) (Nat.le_of_not_lt many) some
    exact overflow (fits _ .idle small)
  · intro narrow call components exact
    exact call_fits components narrow call w exact

end Wide

section Sample

def rowRecord (i : Nat) : ObjRecord (BitVec 32) where
  handle := BitVec.ofNat 32 (i + 2)
  lastName := Nat.toDigits 10 (i + 1)
  fullName := some ("D.".toList ++ Nat.toDigits 10 (i + 1) ++ ['.'])
  hDslhObjEntity := 2
  objDescr := some ⟨.object, true, false⟩
  hDslhObjController := none
  varroTable := []

def rowQueue : List Nat → ObjroQueue (BitVec 32)
  | [] => .nil
  | i :: rest => .cons (rowRecord i) .nil (rowQueue rest)

theorem rowQueue_labels (rows : List Nat) : (rowQueue rows).labels = rows.map rowRecord := by
  induction rows with
  | nil => rfl
  | cons i rest ih => simp [rowQueue, ih]

theorem rowQueue_roots (rows : List Nat) : (rowQueue rows).roots = rows.map rowRecord := by
  induction rows with
  | nil => rfl
  | cons i rest ih => simp [rowQueue, ih]

def rowTable : ObjRecord (BitVec 32) :=
  ⟨1, ['D'], some ['D', '.'], 1, some ⟨.table, true, false⟩, none, []⟩

def tableTree (rows : Nat) (small : rows + 2 < 2 ^ 32) : RecordTree (BitVec 32) where
  root := ⟨0, [], none, 0, none, none, []⟩
  objroQueue := .cons rowTable (rowQueue (List.range rows)) .nil
  rootBare := ⟨rfl, rfl⟩
  described := by
    simp only [Forest.labels_cons, rowQueue_labels, Forest.labels_nil, List.append_nil,
      List.forall_mem_cons, List.forall_mem_map]
    exact ⟨⟨by simp [rowTable], _, by simp, rfl⟩, fun i _ => ⟨by simp [rowRecord], _, by simp, rfl⟩⟩
  distinct := by
    have handle : ∀ i ∈ List.range rows, (rowRecord i).handle.toNat = i + 2 := by
      intro i member
      have := List.mem_range.mp member
      exact Nat.mod_eq_of_lt (by omega)
    have parameterless : parameters (.cons ⟨0, [], none, 0, none, none, []⟩
        (.cons rowTable (rowQueue (List.range rows)) .nil) .nil) = [] := by
      simp [parameters, rowQueue_labels, rowTable, rowRecord]
    simp only [parameterless, List.map_nil, List.append_nil, Forest.labels_cons, rowQueue_labels,
      Forest.labels_nil, List.map_cons, List.map_map, List.nodup_cons, List.mem_cons, List.mem_map,
      not_or, not_exists, not_and]
    refine ⟨⟨by decide, fun i member same => ?_⟩, fun i member same => ?_, ?_⟩
    · have := handle i member
      simp only [Function.comp_apply] at same
      rw [same] at this
      simp at this
    · have := handle i member
      simp only [Function.comp_apply] at same
      rw [same] at this
      simp [rowTable] at this
    · refine List.Nodup.map_on ?_ List.nodup_range
      intro i first j second same
      have one := handle i first
      have two := handle j second
      simp only [Function.comp_apply] at same
      rw [same] at one
      omega

end Sample

theorem requests_fit_iff_of_one_row :
    AnswersFit (tableTree 1 (by decide)) 32 ↔ Narrow (tableTree 1 (by decide)) :=
  requests_fit_iff (Nat.le_refl 32) (tableTree 1 (by decide))

theorem table_of_65537_rows_overflows : ¬ AnswersFit (tableTree 65537 (by decide)) 32 := by
  intro fits
  have found : ∀ rows small, findRetrieved (tableTree rows small) false (some ['D', '.']) =
      some (.object ⟨some ⟨0, [], none, 0, none, none, []⟩, rowTable, rowQueue (List.range rows)⟩) :=
    fun _ _ => rfl
  have rows : (rowQueue (List.range 65537)).roots.length = 65537 := by
    rw [rowQueue_roots, List.length_map, List.length_range]
  obtain ⟨small, overflow⟩ := objroQueue_overflow (Nat.le_refl 32) (found 65537 (by decide))
    (by decide) (by rw [rows]; decide) (.inl (by rw [rows]; decide))
  exact overflow (fits _ .idle small)

end CcspCommon.DslhWmpDatabase.Retrieval
