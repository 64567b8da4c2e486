import CcspCommon.DslhWmpDatabase.ParameterRetrieval
import Mathlib

set_option autoImplicit false

namespace CcspCommon.DslhWmpDatabase.Retrieval

open CcspCommon.Shared CcspCommon.DslhVarRecord CcspCommon.DslhObjRecord
open CcspCommon.AnscPlatform (ushort)

variable {H : Type}

def Hidden (tree : RecordTree H) (record : ObjRecord H) (child : ChildVarRecord H) : Prop :=
  child.entity.bInvisible = true ∨
    ∃ ancestors below, Forest.Within tree.all ancestors record below ∧
      ∃ object ∈ ancestors ++ [record], object.bInvisible = true

def shows : ObjroQueue H → Bool
  | .nil => false
  | .cons record below next =>
    let own := decide (0 < ushort record.varroTable.length) && !(record.visibleVars true).isEmpty
    !record.bInvisible && (own || shows below) || shows next

section Fill

variable (components : Components H)

theorem mem_bulkValues {components : Components H} {record : ObjRecord H}
    {children : List (ChildVarRecord H)} {entry : ReturnedValue H}
    (member : entry ∈ (bulkValues components record children).2) :
    entry.record = record ∧ entry.child ∈ children := by
  simp only [bulkValues, List.mem_mapIdx] at member
  obtain ⟨i, within, rfl⟩ := member
  exact ⟨rfl, List.getElem_mem within⟩

theorem mem_bulkValues_of_mem (record : ObjRecord H) {children : List (ChildVarRecord H)}
    {child : ChildVarRecord H} (member : child ∈ children) :
    ∃ entry ∈ (bulkValues components record children).2, entry.record = record ∧ entry.child = child := by
  obtain ⟨i, within, rfl⟩ := List.getElem_of_mem member
  simp only [bulkValues, List.mem_mapIdx]
  exact ⟨_, ⟨i, within, rfl⟩, rfl, rfl⟩

theorem mem_ownValues {components : Components H} {record : ObjRecord H} {entry : ReturnedValue H}
    (member : entry ∈ (ownValues components true record).2) :
    entry.record = record ∧ entry.child ∈ record.visibleVars true ∧
      0 < ushort record.varroTable.length := by
  unfold ownValues at member
  split at member
  next counted =>
    obtain ⟨same, shown⟩ := mem_bulkValues member
    exact ⟨same, shown, counted⟩
  next => cases member

theorem mem_objectValues {components : Components H} {record : ObjRecord H}
    {children : Bool × List (ReturnedValue H)} {entry : ReturnedValue H}
    (member : entry ∈ (objectValues components true record children).2) :
    record.bInvisible = false ∧
      (entry.record = record ∧ entry.child ∈ record.visibleVars true ∧
          0 < ushort record.varroTable.length ∨ entry ∈ children.2) := by
  unfold objectValues at member
  split at member
  next => cases member
  next visible =>
    refine ⟨by simpa using visible, ?_⟩
    split at member
    next =>
      rcases List.mem_append.mp member with here | below
      · exact .inl (mem_ownValues here)
      · exact .inr below
    next => exact .inl (mem_ownValues member)

theorem mem_childrenValues {components : Components H} {objroQueue : ObjroQueue H} {returnStatus : Bool}
    {entry : ReturnedValue H}
    (member : entry ∈ (childrenValues components true objroQueue returnStatus).2) :
    shows objroQueue = true ∧ ∃ ancestors below,
      Forest.Within objroQueue ancestors entry.record below ∧
        entry.child ∈ entry.record.visibleVars true ∧
        ∀ object ∈ ancestors ++ [entry.record], object.bInvisible = false := by
  induction objroQueue generalizing returnStatus with
  | nil => cases member
  | cons record below next belowIH nextIH =>
    have first : entry ∈
        (objectValues components true record (childrenValues components true below true)).2 →
        shows (.cons record below next) = true ∧ ∃ ancestors under,
          Forest.Within (.cons record below next) ancestors entry.record under ∧
            entry.child ∈ entry.record.visibleVars true ∧
            ∀ object ∈ ancestors ++ [entry.record], object.bInvisible = false := by
      intro member
      obtain ⟨visible, ⟨rfl, shown, counted⟩ | under⟩ := mem_objectValues member
      · have some : (entry.record.visibleVars true).isEmpty = false := by
          cases empty : entry.record.visibleVars true with
          | nil =>
            rw [empty] at shown
            cases shown
          | cons => rfl
        refine ⟨by simp [shows, visible, counted, some], [], below, .here _ _ _, shown, ?_⟩
        simpa using visible
      · obtain ⟨here, ancestors, deeper, within, shown, clear⟩ := belowIH under
        refine ⟨by simp [shows, visible, here], record :: ancestors, deeper, within.down, shown, ?_⟩
        exact List.forall_mem_cons.mpr ⟨visible, clear⟩
    simp only [childrenValues] at member
    split at member
    next => exact first member
    next =>
      rcases List.mem_append.mp member with here | later
      · exact first here
      · obtain ⟨there, ancestors, deeper, within, shown, clear⟩ := nextIH later
        exact ⟨by simp [shows, there], ancestors, deeper, within.after, shown, clear⟩

theorem childrenValues_ne_nil
    (working : ∀ controller names, (components.getBulkParamValue controller names).1 = true)
    (objroQueue : ObjroQueue H) :
    (childrenValues components true objroQueue true).1 = true ∧
      (shows objroQueue = true → (childrenValues components true objroQueue true).2 ≠ []) := by
  induction objroQueue with
  | nil => exact ⟨rfl, fun shown => nomatch shown⟩
  | cons record below next belowIH nextIH =>
    have bulk : ∀ children, (bulkValues components record children).1 = true := by
      intro children
      unfold bulkValues
      cases record.hDslhObjController with
      | none => rfl
      | some controller => exact working controller _
    have own : (ownValues components true record).1 = true := by
      unfold ownValues
      split
      · exact bulk _
      · rfl
    have first : (objectValues components true record
        (childrenValues components true below true)).1 = true := by
      simp only [objectValues, if_pos own]
      split
      · rfl
      · exact belowIH.1
    simp only [childrenValues, first, Bool.not_true, Bool.false_and, Bool.false_eq_true, if_false]
    refine ⟨nextIH.1, fun shown empty => ?_⟩
    obtain ⟨noFirst, noNext⟩ := List.append_eq_nil_iff.mp empty
    simp only [shows, Bool.or_eq_true, Bool.and_eq_true, Bool.not_eq_true'] at shown
    rcases shown with ⟨visible, here⟩ | there
    · simp only [objectValues, visible, Bool.false_and, Bool.false_eq_true, if_false, if_pos own,
        List.append_eq_nil_iff] at noFirst
      rcases here with ⟨counted, some⟩ | under
      · rw [ownValues, if_pos (by simpa using counted)] at noFirst
        cases empty : record.visibleVars true with
        | nil => simp [empty] at some
        | cons child rest =>
          have first : child ∈ record.visibleVars true := by
            rw [empty]
            exact List.mem_cons_self
          obtain ⟨entry, member, _⟩ := mem_bulkValues_of_mem components record first
          rw [noFirst.1] at member
          cases member
      · exact belowIH.2 under noFirst.2
    · exact nextIH.2 there noNext

end Fill

section Requests

variable [DecidableEq H] {tree : RecordTree H}

omit [DecidableEq H] in
theorem hidden_iff {record : ObjRecord H} {child : ChildVarRecord H} {ancestors : List (ObjRecord H)}
    {below : ObjroQueue H} (within : Forest.Within tree.all ancestors record below) :
    Hidden tree record child ↔
      child.entity.bInvisible = true ∨ ∃ object ∈ ancestors ++ [record], object.bInvisible = true := by
  refine or_congr_right ⟨fun ⟨others, deeper, other, object⟩ => ?_, fun object => ⟨_, _, within, object⟩⟩
  obtain ⟨rfl, _, _⟩ := Forest.Within.unique tree.distinctRecords other within rfl
  exact object

def Open (tree : RecordTree H) : Target H → Prop
  | .object node => shows (.cons node.record node.objroQueue .nil) = true →
      ∀ ancestors, Forest.Within tree.all ancestors node.record node.objroQueue →
        ∀ object ∈ ancestors, object.bInvisible = false
  | .parameter record _ => ∀ ancestors below, Forest.Within tree.all ancestors record below →
      ∀ object ∈ ancestors ++ [record], object.bInvisible = false

omit [DecidableEq H] in
def Answered (w : Nat) (tree : RecordTree H) (request : Request)
    (targets : List (Option Text × Target H)) : Prop :=
  ∃ names ≠ [], request.pParamNameArray = some names ∧
    findTargets tree request.fromAcs names = some targets ∧
      0 < ulong w (totalCount request.fromAcs targets) ∧
        ulong w (totalCount request.fromAcs targets) ≤ request.uMaxEntry

omit [DecidableEq H] in
theorem Answered.eq_targets {w : Nat} {request : Request} {names : List (Option Text)}
    {targets others : List (Option Text × Target H)} (answered : Answered w tree request others)
    (present : request.pParamNameArray = some names)
    (found : findTargets tree request.fromAcs names = some targets) : others = targets := by
  obtain ⟨_, _, same, also, _⟩ := answered
  rw [present] at same
  obtain rfl := Option.some.inj same
  exact Option.some.inj (also.symm.trans found)

omit [DecidableEq H] in
theorem Answered.unique {w : Nat} {request : Request} {targets others : List (Option Text × Target H)}
    (answered : Answered w tree request targets) (also : Answered w tree request others) : others = targets := by
  obtain ⟨_, _, present, found, _⟩ := answered
  exact also.eq_targets present found

omit [DecidableEq H] in
theorem Answered.targets_spec {w : Nat} {request : Request} {targets : List (Option Text × Target H)}
    (bFromAcs : request.fromAcs = true) (answered : Answered w tree request targets) :
    ∀ target ∈ targets, target.2.LinkedIn tree.all ∧ target.2.Offered true := by
  obtain ⟨_, _, _, found, _⟩ := answered
  rw [bFromAcs] at found
  exact findTargets_spec found

def NothingHidden (w : Nat) (tree : RecordTree H) (request : Request) : Prop :=
  ∀ components, ∀ entry ∈ (getParameterValues components w tree request).entries,
    ¬ Hidden tree entry.record entry.child

omit [DecidableEq H] in
def LeadsOpen (w : Nat) (tree : RecordTree H) (request : Request) : Prop :=
  ∀ targets, Answered w tree request targets → ∀ target ∈ targets, Open tree target.2

theorem getParameterValues_entries (components : Components H) (w : Nat) (tree : RecordTree H)
    (request : Request) :
    (∃ targets, Answered w tree request targets ∧
        (getParameterValues components w tree request).entries =
          (targets.flatMap fun target => objectTargetValues components request.fromAcs target.2) ++
            namedValues components (namedParameters targets)) ∨
      (∀ targets, ¬ Answered w tree request targets) ∧
        (getParameterValues components w tree request).entries = [] := by
  unfold getParameterValues
  split
  next absent =>
    refine .inr ⟨fun targets answered => ?_, rfl⟩
    obtain ⟨_, _, present, _⟩ := answered
    rw [absent] at present
    cases present
  next empty =>
    refine .inr ⟨fun targets answered => ?_, rfl⟩
    obtain ⟨names, nonempty, present, _⟩ := answered
    rw [empty] at present
    exact nonempty (Option.some.inj present).symm
  next names nonempty present =>
    split
    next unknown =>
      refine .inr ⟨fun targets answered => ?_, rfl⟩
      obtain ⟨_, _, same, found, _⟩ := answered
      rw [present] at same
      obtain rfl := Option.some.inj same
      rw [unknown] at found
      cases found
    next targets found =>
      dsimp only
      split_ifs with exceeded zero
      · refine .inr ⟨fun others answered => ?_, rfl⟩
        obtain rfl := answered.eq_targets present found
        obtain ⟨_, _, _, _, _, bounded⟩ := answered
        omega
      · refine .inr ⟨fun others answered => ?_, rfl⟩
        obtain rfl := answered.eq_targets present found
        obtain ⟨_, _, _, _, positive, _⟩ := answered
        omega
      · exact .inl ⟨targets, ⟨names, nonempty, present, found, by omega, by omega⟩, rfl⟩

theorem mem_objRecordArray {params : List (ObjRecord H × ChildVarRecord H)}
    {records : List (ObjRecord H)} {record : ObjRecord H}
    (member : record ∈ objRecordArray params records) :
    record ∈ records ∨ ∃ param ∈ params, param.1 = record := by
  induction params generalizing records with
  | nil => exact .inl member
  | cons param rest ih =>
    rcases ih member with found | ⟨other, later, same⟩
    · split at found
      next => exact .inl found
      next =>
        rcases List.mem_append.mp found with old | new
        · exact .inl old
        · exact .inr ⟨param, List.mem_cons_self, (List.mem_singleton.mp new).symm⟩
    · exact .inr ⟨other, List.mem_cons_of_mem param later, same⟩

theorem objRecordArray_subset (params : List (ObjRecord H × ChildVarRecord H))
    (records : List (ObjRecord H)) : records ⊆ objRecordArray params records := by
  induction params generalizing records with
  | nil => exact List.Subset.refl _
  | cons param rest ih =>
    refine List.Subset.trans ?_ (ih _)
    split
    · exact List.Subset.refl _
    · exact List.subset_append_left _ _

theorem objRecordArray_covers {params : List (ObjRecord H × ChildVarRecord H)}
    (records : List (ObjRecord H)) {param : ObjRecord H × ChildVarRecord H} (member : param ∈ params) :
    ∃ record ∈ objRecordArray params records, record.handle = param.1.handle := by
  induction params generalizing records with
  | nil => cases member
  | cons first rest ih =>
    rcases List.mem_cons.mp member with rfl | later
    · simp only [objRecordArray]
      split
      next bExists =>
        obtain ⟨record, old, same⟩ := List.any_eq_true.mp bExists
        exact ⟨record, objRecordArray_subset rest records old, by simpa using same⟩
      next =>
        exact ⟨param.1, objRecordArray_subset rest _ (List.mem_append_right records List.mem_cons_self), rfl⟩
    · exact ih _ later

theorem mem_namedValues (components : Components H) {params : List (ObjRecord H × ChildVarRecord H)}
    (linked : ∀ param ∈ params, param.1 ∈ tree.all.labels) {record : ObjRecord H}
    {child : ChildVarRecord H} :
    (∃ entry ∈ namedValues components params, entry.record = record ∧ entry.child = child) ↔
      (record, child) ∈ params := by
  constructor
  · intro ⟨entry, member, here, also⟩
    obtain ⟨owner, found, inside⟩ := List.mem_flatMap.mp member
    obtain ⟨same, chosen⟩ := mem_bulkValues inside
    obtain ⟨param, filtered, child'⟩ := List.mem_map.mp chosen
    obtain ⟨asked, owned⟩ := List.mem_filter.mp filtered
    rcases mem_objRecordArray found with old | ⟨other, mentioned, rfl⟩
    · cases old
    · have one : param.1 = other.1 :=
        RecordTree.same_record (linked param asked) (linked other mentioned) (by simpa using owned)
      rw [← here, ← also, same, ← one, ← child']
      exact asked
  · intro asked
    obtain ⟨owner, found, same⟩ := objRecordArray_covers [] asked
    have owned : (record, child) ∈ params.filter fun param => param.1.handle = owner.handle :=
      List.mem_filter.mpr ⟨asked, by simp [same]⟩
    obtain ⟨entry, member, here, also⟩ := mem_bulkValues_of_mem components owner
      (List.mem_map_of_mem (f := Prod.snd) owned)
    refine ⟨entry, List.mem_flatMap.mpr ⟨owner, found, member⟩, ?_, also⟩
    rcases mem_objRecordArray found with old | ⟨other, mentioned, rfl⟩
    · cases old
    · rw [here]
      exact RecordTree.same_record (linked other mentioned) (linked _ asked) same

omit [DecidableEq H] in
theorem mem_namedParameters {targets : List (Option Text × Target H)} {record : ObjRecord H}
    {child : ChildVarRecord H} :
    (record, child) ∈ namedParameters targets ↔ ∃ target ∈ targets, target.2 = .parameter record child := by
  simp only [namedParameters, List.mem_filterMap]
  constructor
  · intro ⟨target, member, this⟩
    refine ⟨target, member, ?_⟩
    split at this
    next => cases this
    next same =>
      cases this
      exact same
  · intro ⟨target, member, this⟩
    exact ⟨target, member, by rw [this]⟩

omit [DecidableEq H] in
theorem Open.object_clear {components : Components H} {node : Node H} (opened : Open tree (.object node))
    (here : (Target.object node).LinkedIn tree.all) {entry : ReturnedValue H}
    (read : entry ∈ objectTargetValues components true (.object node)) :
    ¬ Hidden tree entry.record entry.child := by
  simp only [objectTargetValues, getAllParamValues_eq] at read
  obtain ⟨shown, others, deeper, place, visible, clear⟩ := mem_childrenValues read
  obtain ⟨ancestors, within, _⟩ := here
  have above := opened shown ancestors within
  rw [hidden_iff (within.inside place)]
  rintro (hidden | ⟨object, on, invisible⟩)
  · simp [ObjRecord.visibleVars, hidden] at visible
  rw [List.append_assoc] at on
  rcases List.mem_append.mp on with high | low
  · rw [above object high] at invisible
    cases invisible
  · rw [clear object low] at invisible
    cases invisible

omit [DecidableEq H] in
theorem open_object {node : Node H}
    (clear : ∀ entry ∈ objectTargetValues .idle true (.object node), ¬ Hidden tree entry.record entry.child) :
    Open tree (.object node) := by
  intro shown ancestors within object above
  have some := (childrenValues_ne_nil .idle (fun _ _ => rfl) _).2 shown
  obtain ⟨entry, read⟩ := List.exists_mem_of_ne_nil _ some
  have hidden := clear entry (by simpa only [objectTargetValues, getAllParamValues_eq] using read)
  obtain ⟨_, others, deeper, place, _, _⟩ := mem_childrenValues read
  rw [hidden_iff (within.inside place)] at hidden
  by_contra invisible
  refine hidden (.inr ⟨object, ?_, by simpa using invisible⟩)
  exact List.mem_append_left _ (List.mem_append_left _ above)

omit [DecidableEq H] in
theorem open_parameter_iff {record : ObjRecord H} {child : ChildVarRecord H}
    (here : (Target.parameter record child).LinkedIn tree.all)
    (offered : (Target.parameter record child).Offered true) :
    Open tree (.parameter record child) ↔ ¬ Hidden tree record child := by
  obtain ⟨⟨ancestors, below, within⟩, _⟩ := here
  rw [hidden_iff within]
  constructor
  · rintro opened (hidden | ⟨object, on, invisible⟩)
    · simp [Target.Offered, hidden] at offered
    · rw [opened ancestors below within object on] at invisible
      cases invisible
  · intro clear others deeper other object on
    obtain ⟨rfl, _, _⟩ := Forest.Within.unique tree.distinctRecords other within rfl
    by_contra invisible
    exact clear (.inr ⟨object, on, by simpa using invisible⟩)

theorem no_hidden_values_iff (w : Nat) (tree : RecordTree H) (request : Request)
    (bFromAcs : request.fromAcs = true) :
    NothingHidden w tree request ↔ LeadsOpen w tree request := by
  have linked : ∀ targets, Answered w tree request targets →
      ∀ param ∈ namedParameters targets, param.1 ∈ tree.all.labels := by
    intro targets answered param member
    obtain ⟨target, asked, this⟩ := mem_namedParameters.mp member
    have here := (answered.targets_spec bFromAcs target asked).1
    rw [this] at here
    obtain ⟨⟨_, _, within⟩, _⟩ := here
    exact within.mem_labels
  constructor
  · intro clear targets answered ⟨name, target⟩ member
    obtain ⟨here, offered⟩ := answered.targets_spec bFromAcs _ member
    -- Components that refuse nothing return everything that the targets show.
    have all := clear .idle
    rcases getParameterValues_entries .idle w tree request with
      ⟨others, also, entries⟩ | ⟨unanswered, _⟩
    swap
    · exact absurd answered (unanswered targets)
    obtain rfl := answered.unique also
    rw [entries, bFromAcs] at all
    cases target with
    | object node =>
      refine open_object fun entry read => all entry (List.mem_append_left _ ?_)
      exact List.mem_flatMap.mpr ⟨_, member, read⟩
    | parameter record child =>
      obtain ⟨entry, read, rfl, rfl⟩ :=
        (mem_namedValues .idle (linked _ also)).mpr (mem_namedParameters.mpr ⟨_, member, rfl⟩)
      exact (open_parameter_iff here offered).mpr (all entry (List.mem_append_right _ read))
  · intro opened components entry member
    rcases getParameterValues_entries components w tree request with
      ⟨targets, answered, entries⟩ | ⟨_, entries⟩
    swap
    · rw [entries] at member
      cases member
    rw [entries, bFromAcs] at member
    rcases List.mem_append.mp member with object | named
    · obtain ⟨⟨name, target⟩, asked, read⟩ := List.mem_flatMap.mp object
      have spec := answered.targets_spec bFromAcs _ asked
      cases target with
      | parameter record child => cases read
      | object node => exact Open.object_clear (opened targets answered _ asked) spec.1 read
    · have asked := (mem_namedValues components (linked targets answered)).mp ⟨entry, named, rfl, rfl⟩
      obtain ⟨⟨name, target⟩, member, rfl⟩ := mem_namedParameters.mp asked
      have spec := answered.targets_spec bFromAcs _ member
      exact (open_parameter_iff spec.1 spec.2).mp (opened targets answered _ member)

end Requests

section Sample

def visibleEntity : VarEntity where
  name := ['P']
  dataType := .int
  slapSyntax := .int
  contentType := .unspecified
  formatValue1 := 0
  formatValue2 := 0
  tokenTable := none
  preventCharecters := none
  bInvisible := false
  bPersistent := false
  bWritable := true
  bMonitor := false
  bNeedReboot := false
  notifyStatus := 1

def innerRecord : ObjRecord Nat :=
  ⟨2, ['E'], some "D.E.".toList, 12, some ⟨.object, true, false⟩, none, [⟨20, visibleEntity⟩]⟩

theorem bare_root : (⟨0, [], none, 10, none, none, []⟩ : ObjRecord Nat).objDescr = none ∧
    (⟨0, [], none, 10, none, none, []⟩ : ObjRecord Nat).fullName = none := ⟨rfl, rfl⟩

def coveredTree : RecordTree Nat where
  root := ⟨0, [], none, 10, none, none, []⟩
  objroQueue := .cons ⟨1, ['D'], some "D.".toList, 11, some ⟨.object, true, true⟩, none, []⟩
    (.cons innerRecord .nil .nil) .nil
  rootBare := bare_root
  described := by simp [innerRecord]
  distinct := by decide

end Sample

theorem no_hidden_values_iff_of_root :
    NothingHidden 32 coveredTree ⟨"ACS".toList, some [none], 10⟩ ↔
      LeadsOpen 32 coveredTree ⟨"ACS".toList, some [none], 10⟩ :=
  no_hidden_values_iff 32 coveredTree ⟨"ACS".toList, some [none], 10⟩ (by decide)

theorem covered_parameter_is_returned :
    ¬ NothingHidden 32 coveredTree ⟨"ACS".toList, some [some "D.E.P".toList], 10⟩ ∧
      ¬ NothingHidden 32 coveredTree ⟨"ACS".toList, some [some "D.E.".toList], 10⟩ := by
  have hidden : Hidden coveredTree innerRecord ⟨20, visibleEntity⟩ :=
    .inr ⟨_, _, .down (.down (.here innerRecord .nil .nil)), _,
      List.mem_append_left _ (List.mem_cons_of_mem _ List.mem_cons_self), rfl⟩
  constructor
  · intro clear
    exact clear .idle ⟨innerRecord, ⟨20, visibleEntity⟩, .varOther⟩ List.mem_cons_self hidden
  · intro clear
    exact clear .idle ⟨innerRecord, ⟨20, visibleEntity⟩, .varOther⟩ List.mem_cons_self hidden

end CcspCommon.DslhWmpDatabase.Retrieval
