import CcspCommon.NamespaceMgr.Manager
import Mathlib.Data.List.Perm.Basic
import Mathlib.Algebra.Order.Group.Multiset
import Mathlib.Algebra.BigOperators.Group.Multiset.Basic

set_option autoImplicit false

namespace CcspCommon.NamespaceMgr

open CcspCommon.Shared CcspCommon.AnscPlatform

structure Registration where
  name : Option Text
  type : DataType
  owner : Handle
  deriving DecidableEq, Repr

def CcspNamespace.registration (owner : Handle) (entry : CcspNamespace) : Registration :=
  ⟨entry.pName, entry.uType, owner⟩

def NameSpaceType.registration (owner : Handle) (item : NameSpaceType) : Registration :=
  ⟨item.nameSpace, item.dataType, owner⟩

def NameSpaceType.carriesName (item : NameSpaceType) : Bool :=
  match item.nameSpace with
  | none => false
  | some [] => false
  | some (_ :: _) => true

theorem NameSpaceType.carriesName_of_nonempty {item : NameSpaceType} {name : Text}
    (carried : item.nameSpace = some name) (nonempty : name ≠ []) : item.carriesName = true := by
  cases name with
  | nil => exact absurd rfl nonempty
  | cons c rest => simp [carriesName, carried]

def atomRegistration (atom : AtomDescriptor) : Registration :=
  ⟨some atom.atomName, atom.atomId, atom.hContext⟩

def NamespaceComp.registrations (comp : NamespaceComp) : Multiset Registration :=
  (comp.paramspaceQueue.map (CcspNamespace.registration comp.handle) : List Registration)

theorem NamespaceComp.owner_of_mem_registrations {comp : NamespaceComp} {entry : Registration}
    (member : entry ∈ comp.registrations) : entry.owner = comp.handle := by
  obtain ⟨queued, -, rfl⟩ := List.mem_map.mp (Multiset.mem_coe.mp member)
  rfl

@[simp] theorem NamespaceComp.create_registrations (handle : Handle)
    (pCompName pDbusPath pPrefix : Option Text) :
    (NamespaceComp.create handle pCompName pDbusPath pPrefix).registrations = 0 := rfl

theorem NamespaceComp.buildFromNamespaceStructArray_registrations (comp : NamespaceComp)
    (settled : List NameSpaceType) :
    (comp.buildFromNamespaceStructArray (settled.map some)).registrations =
      comp.registrations + (settled.map (NameSpaceType.registration comp.handle) : List Registration) := by
  have each : CcspNamespace.registration comp.handle ∘ entryOf =
      NameSpaceType.registration comp.handle := rfl
  simp [registrations, buildFromNamespaceStructArray, List.filterMap_map, each]

theorem NamespaceComp.popScanned_later {name other : Text} {first : CcspNamespace}
    {rest : List CcspNamespace} (known : first.pName = some other) (different : other ≠ name)
    (more : rest ≠ []) :
    popScanned (some name) (first :: rest) = (popScanned (some name) rest).map (first :: ·) := by
  cases rest with
  | nil => exact absurd rfl more
  | cons second later =>
    conv_lhs => unfold popScanned
    simp only [known, different, if_false]

theorem NamespaceComp.popScanned_found {name : Text} {queue popped : List CcspNamespace}
    {entry : CcspNamespace} (found : queue.find? (fun other => other.pName = some name) = some entry)
    (run : popScanned (some name) queue = some popped) : queue.Perm (entry :: popped) := by
  induction queue generalizing popped with
  | nil => simp at found
  | cons first rest ih =>
    by_cases same : first.pName = some name
    · simp only [List.find?_cons, same, decide_true, Option.some.injEq] at found
      simp only [popScanned, same, if_true, Option.some.injEq] at run
      rw [found, run]
    · simp only [List.find?_cons, same, decide_false] at found
      cases rest with
      | nil => simp at found
      | cons second later =>
        cases pName : first.pName with
        | none => simp [popScanned, pName] at run
        | some other =>
          have different : other ≠ name := fun equal => same (by rw [pName, equal])
          rw [popScanned_later pName different (List.cons_ne_nil second later),
            Option.map_eq_some_iff] at run
          obtain ⟨shorter, run, rfl⟩ := run
          exact ((ih found run).cons first).trans (List.Perm.swap entry first shorter)

namespace Manager

variable {w : Nat}

def registered (mgr : Manager w) : Multiset Registration :=
  (mgr.componentQueue.map NamespaceComp.registrations).sum

theorem mem_registered (mgr : Manager w) {entry : Registration} :
    entry ∈ mgr.registered ↔ ∃ comp ∈ mgr.componentQueue, entry ∈ comp.registrations := by
  unfold registered
  induction mgr.componentQueue with
  | nil => simp
  | cons comp rest ih => simp [ih]

def tableListed : Option (AtomTable w) → Multiset Registration
  | none => 0
  | some table => table.entries.map atomRegistration

def listed (mgr : Manager w) : Multiset Registration := tableListed mgr.hAtomNamespace

theorem tableListed_getD_empty (table : Option (AtomTable w)) :
    tableListed (some (table.getD ChainTable.empty)) = tableListed table := by
  cases table <;> simp [tableListed]

def totalQueued (mgr : Manager w) : Nat :=
  (mgr.componentQueue.map fun comp => comp.paramspaceQueue.length).sum

theorem card_registered (mgr : Manager w) : mgr.registered.card = mgr.totalQueued := by
  unfold registered totalQueued
  induction mgr.componentQueue with
  | nil => rfl
  | cons comp rest ih => simp [NamespaceComp.registrations, ih]

structure Addressed (mgr : Manager w) : Prop where
  distinct : (mgr.componentQueue.map NamespaceComp.handle).Nodup
  fresh : ∀ comp ∈ mgr.componentQueue, comp.handle < mgr.nextHandle

theorem lookforComponent_mem (mgr : Manager w) {pCompName : Option Text} {comp : NamespaceComp}
    (found : mgr.lookforComponent pCompName = some comp) : comp ∈ mgr.componentQueue := by
  cases pCompName with
  | none => simp [lookforComponent] at found
  | some name => exact List.mem_of_find?_eq_some found

theorem map_put_of_absent (changed : NamespaceComp) (queue : List NamespaceComp)
    (absent : changed.handle ∉ queue.map NamespaceComp.handle) :
    queue.map (fun comp => if comp.handle = changed.handle then changed else comp) = queue := by
  conv_rhs => rw [← List.map_id queue]
  refine List.map_congr_left fun comp member => if_neg fun same => absent ?_
  exact same ▸ List.mem_map_of_mem member

theorem putComponent_perm (mgr : Manager w) (addressed : mgr.Addressed) {comp : NamespaceComp}
    (changed : NamespaceComp) (member : comp ∈ mgr.componentQueue) (same : changed.handle = comp.handle) :
    ∃ others, mgr.componentQueue.Perm (comp :: others) ∧
      (mgr.putComponent changed).componentQueue.Perm (changed :: others) := by
  obtain ⟨before, after, split⟩ := List.append_of_mem member
  have distinct := addressed.distinct
  rw [split, List.map_append, List.map_cons] at distinct
  have apart := List.nodup_middle.mp distinct
  rw [List.nodup_cons, List.mem_append, not_or, ← same] at apart
  refine ⟨before ++ after, split ▸ List.perm_middle, ?_⟩
  have replaced : (mgr.putComponent changed).componentQueue = before ++ changed :: after := by
    simp only [putComponent, split, List.map_append, List.map_cons, same.symm, if_true]
    rw [map_put_of_absent changed before apart.1.1, map_put_of_absent changed after apart.1.2]
  rw [replaced]
  exact List.perm_middle

theorem registered_of_perm (mgr : Manager w) {queue : List NamespaceComp}
    (perm : mgr.componentQueue.Perm queue) :
    mgr.registered = (queue.map NamespaceComp.registrations).sum :=
  (perm.map _).sum_eq

theorem putComponent_addressed (mgr : Manager w) (addressed : mgr.Addressed) (changed : NamespaceComp)
    (within : changed.handle < mgr.nextHandle) : (mgr.putComponent changed).Addressed where
  distinct := by
    have same : (mgr.putComponent changed).componentQueue.map NamespaceComp.handle =
        mgr.componentQueue.map NamespaceComp.handle := by
      simp only [putComponent, List.map_map]
      refine List.map_congr_left fun comp _ => ?_
      by_cases equal : comp.handle = changed.handle <;> simp [equal]
    exact same ▸ addressed.distinct
  fresh := by
    intro comp member
    obtain ⟨other, present, rfl⟩ := List.mem_map.mp member
    change (if other.handle = changed.handle then changed else other).handle < mgr.nextHandle
    split_ifs
    · exact within
    · exact addressed.fresh other present

theorem enlistComponent_spec (mgr : Manager w) (addressed : mgr.Addressed)
    (pCompName pDbusPath pPrefix : Option Text) {enlisted : Manager w} {comp : NamespaceComp}
    (run : mgr.enlistComponent pCompName pDbusPath pPrefix = (enlisted, comp)) :
    enlisted.Addressed ∧ comp ∈ enlisted.componentQueue ∧ enlisted.registered = mgr.registered := by
  unfold enlistComponent at run
  cases known : mgr.lookforComponent pCompName with
  | some found =>
    simp only [known, Prod.mk.injEq] at run
    obtain ⟨rfl, rfl⟩ := run
    exact ⟨addressed, mgr.lookforComponent_mem known, rfl⟩
  | none =>
    simp only [known, Prod.mk.injEq] at run
    obtain ⟨rfl, rfl⟩ := run
    refine ⟨⟨?_, ?_⟩, by simp, by simp [registered]⟩
    · rw [List.map_append, List.map_singleton, ← List.concat_eq_append]
      refine List.Nodup.concat ?_ addressed.distinct
      intro member
      obtain ⟨other, present, same⟩ := List.mem_map.mp member
      have before := addressed.fresh other present
      rw [same] at before
      exact lt_irrefl mgr.nextHandle before
    · intro other member
      rcases List.mem_append.mp member with present | created
      · exact Nat.lt_succ_of_lt (addressed.fresh other present)
      · rw [List.mem_singleton.mp created]
        exact Nat.lt_succ_self mgr.nextHandle

theorem addNamespaces_spec (mgr : Manager w) (addressed : mgr.Addressed)
    (pCompName pDbusPath pPrefix : Option Text) (settled : List NameSpaceType)
    {status : Status} {after : Manager w}
    (run : mgr.addNamespaces pCompName pDbusPath pPrefix (settled.map some) = some (status, after)) :
    after.Addressed ∧ ∃ owner,
      after.registered = mgr.registered + (settled.map (NameSpaceType.registration owner) : List Registration) ∧
      addAtoms owner mgr.hAtomNamespace (settled.map some) = some after.hAtomNamespace ∧
      after.uTotalNamespace = mgr.uTotalNamespace + BitVec.ofNat w settled.length := by
  rcases enlist : mgr.enlistComponent pCompName pDbusPath pPrefix with ⟨enlisted, comp⟩
  obtain ⟨placed, member, kept⟩ := mgr.enlistComponent_spec addressed _ _ _ enlist
  simp only [addNamespaces, enlist, Option.map_eq_some_iff, Prod.mk.injEq] at run
  obtain ⟨table, atoms, -, rfl⟩ := run
  obtain ⟨others, before, exchanged⟩ := enlisted.putComponent_perm placed
    (comp.buildFromNamespaceStructArray (settled.map some)) member rfl
  have moved := enlisted.putComponent_addressed placed
    (comp.buildFromNamespaceStructArray (settled.map some)) (placed.fresh comp member)
  refine ⟨⟨moved.distinct, moved.fresh⟩, comp.handle, ?_, atoms, by simp⟩
  change (enlisted.putComponent _).registered = _
  rw [registered_of_perm _ exchanged, ← kept, registered_of_perm enlisted before]
  simp only [List.map_cons, List.sum_cons, NamespaceComp.buildFromNamespaceStructArray_registrations]
  rw [add_right_comm]

theorem validateNamespaces_pass (mgr : Manager w) (pCompName : Option Text)
    (items : List (Option NameSpaceType)) (pass : mgr.validateNamespaces pCompName items = .pass) :
    ∃ settled : List NameSpaceType, items = settled.map some ∧ ∀ item ∈ settled, ∃ name table,
      item.nameSpace = some name ∧ name ≠ [] ∧ mgr.hAtomNamespace = some table ∧
        table.getAtomByName (some name) = none := by
  induction items with
  | nil => exact ⟨[], rfl, by simp⟩
  | cons first rest ih =>
    match first with
    | none => simp [validateNamespaces] at pass
    | some ⟨none, dataType⟩ => simp [validateNamespaces] at pass
    | some ⟨some pString, dataType⟩ =>
      rw [validateNamespaces] at pass
      split_ifs at pass with formed
      split at pass
      · cases pass
      · next table present =>
        split at pass
        · next unknown =>
          obtain ⟨settled, rfl, each⟩ := ih pass
          refine ⟨⟨some pString, dataType⟩ :: settled, rfl, ?_⟩
          intro item member
          rcases List.mem_cons.mp member with rfl | member
          · refine ⟨pString, table, rfl, ?_, present, unknown⟩
            rintro rfl
            simp [wellFormedName] at formed
          · exact each item member
        · split at pass
          · split_ifs at pass
          · cases pass

theorem unregistered_spec (table : AtomTable w) (items copy : List (Option NameSpaceType))
    (run : unregistered table items = some copy) :
    ∃ settled : List NameSpaceType, copy = settled.map some ∧
      settled.Sublist (items.filterMap id) ∧
      ∀ item ∈ settled, table.getAtomByName item.nameSpace = none := by
  induction items generalizing copy with
  | nil =>
    simp only [unregistered, Option.some.injEq] at run
    exact ⟨[], run.symm, by simp, by simp⟩
  | cons first rest ih =>
    cases first with
    | none => simp [unregistered] at run
    | some item =>
      simp only [unregistered, Option.map_eq_some_iff] at run
      obtain ⟨shorter, run, rfl⟩ := run
      obtain ⟨settled, rfl, within, unknown⟩ := ih shorter run
      split_ifs with known
      · exact ⟨settled, rfl, within.cons item, unknown⟩
      · refine ⟨item :: settled, rfl, within.cons_cons item, ?_⟩
        intro other member
        rcases List.mem_cons.mp member with rfl | member
        · simpa using known
        · exact unknown other member

theorem addAtomByName_listed (table : AtomTable w) (owner : Handle) (item : NameSpaceType) :
    tableListed (some (table.addAtomByName item.nameSpace item.dataType owner)) =
      tableListed (some table) +
        ((if item.carriesName then [item.registration owner] else []) : List Registration) := by
  obtain ⟨nameSpace, dataType⟩ := item
  rcases nameSpace with _ | _ | ⟨c, rest⟩
  · simp [AtomTable.addAtomByName, NameSpaceType.carriesName]
  · simp [AtomTable.addAtomByName, NameSpaceType.carriesName]
  · simp only [tableListed, NameSpaceType.carriesName, if_true]
    rw [table.addAtomByName_entries (List.cons_ne_nil c rest), Multiset.map_cons, add_comm]
    rfl

theorem addAtoms_listed (owner : Handle) (settled : List NameSpaceType)
    {table after : Option (AtomTable w)}
    (run : addAtoms owner table (settled.map some) = some after) :
    tableListed after = tableListed table +
      ((settled.filter NameSpaceType.carriesName).map (NameSpaceType.registration owner) :
        List Registration) := by
  induction settled generalizing table with
  | nil =>
    simp only [List.map_nil, addAtoms, Option.some.injEq] at run
    simp [run]
  | cons item rest ih =>
    cases table with
    | none => simp [addAtoms] at run
    | some table =>
      simp only [List.map_cons, addAtoms] at run
      rw [ih run, addAtomByName_listed, add_assoc]
      by_cases named : item.carriesName <;> simp [named]

theorem not_listed_of_unknown {table : AtomTable w} {name : Text} (nonempty : name ≠ [])
    (unknown : table.getAtomByName (some name) = none) :
    ∀ entry ∈ tableListed (some table), entry.name ≠ some name := by
  intro entry member same
  obtain ⟨atom, present, rfl⟩ := Multiset.mem_map.mp member
  exact (table.getAtomByName_none nonempty).mp unknown atom present (Option.some.inj same)

structure DeletesAtom (mgr : Manager w) (pCompName pNamespace : Option Text) (comp : NamespaceComp)
    (table : AtomTable w) (atom : AtomDescriptor) : Prop where
  known : mgr.lookforComponent pCompName = some comp
  queued : comp.depth ≠ 0
  present : mgr.hAtomNamespace = some table
  found : table.getAtomByName pNamespace = some atom

theorem unregisterNamespace_cases (mgr : Manager w) (pCompName pNamespace : Option Text)
    {status : Status} {after : Manager w}
    (run : mgr.unregisterNamespace pCompName pNamespace = some (status, after)) :
    after = mgr ∨ ∃ comp table atom queue, mgr.DeletesAtom pCompName pNamespace comp table atom ∧
      NamespaceComp.popScanned pNamespace comp.paramspaceQueue = some queue ∧
      after = { mgr.putComponent { comp with paramspaceQueue := queue } with
        hAtomNamespace := some (table.delAtomByName pNamespace)
        uTotalNamespace := mgr.uTotalNamespace - 1 } := by
  unfold unregisterNamespace at run
  split at run
  · cases run
  next comp known =>
  split_ifs at run with early late
  · simp_all
  · simp_all
  split at run
  · cases run
  next table present =>
  split at run
  · simp_all
  next atom found =>
    simp only [NamespaceComp.unregisterNamespace, Option.map_map, Option.map_eq_some_iff,
      Function.comp_apply, Prod.mk.injEq] at run
    obtain ⟨queue, popped, -, rfl⟩ := run
    have given : pNamespace ≠ none := by
      rw [(table.getAtomByName_some found).1]
      exact Option.some_ne_none _
    have queued : comp.depth ≠ 0 := fun zero => early ⟨zero, given⟩
    exact .inr ⟨comp, table, atom, queue, ⟨known, queued, present, found⟩, popped, rfl⟩

theorem unregisterNamespace_owned (mgr : Manager w) (addressed : mgr.Addressed) {comp : NamespaceComp}
    {name : Text} {entry : CcspNamespace} {queue : List CcspNamespace}
    (member : comp ∈ mgr.componentQueue)
    (owned : comp.paramspaceQueue.find? (fun other => other.pName = some name) = some entry)
    (popped : NamespaceComp.popScanned (some name) comp.paramspaceQueue = some queue) :
    (mgr.putComponent { comp with paramspaceQueue := queue }).Addressed ∧
      mgr.registered = entry.registration comp.handle ::ₘ
        (mgr.putComponent { comp with paramspaceQueue := queue }).registered := by
  refine ⟨mgr.putComponent_addressed addressed _ (addressed.fresh comp member), ?_⟩
  obtain ⟨others, before, exchanged⟩ := mgr.putComponent_perm addressed
    { comp with paramspaceQueue := queue } member rfl
  have split := (NamespaceComp.popScanned_found owned popped).map
    (CcspNamespace.registration comp.handle)
  rw [registered_of_perm _ exchanged, registered_of_perm mgr before]
  simp only [List.map_cons, List.sum_cons]
  rw [← Multiset.cons_add]
  congr 1
  exact Multiset.coe_eq_coe.mpr split

theorem unregisterComponent_cases (mgr : Manager w) (addressed : mgr.Addressed)
    (pCompName : Option Text) {status : Status} {after : Manager w}
    (run : mgr.unregisterComponent pCompName = some (status, after)) :
    after = mgr ∨ ∃ comp, mgr.lookforComponent pCompName = some comp ∧ after.Addressed ∧
      mgr.registered = comp.registrations + after.registered ∧
      (∀ entry ∈ after.registered, entry.owner ≠ comp.handle) ∧
      delAtoms mgr.hAtomNamespace comp.paramspaceQueue = some after.hAtomNamespace ∧
      after.uTotalNamespace = mgr.uTotalNamespace - BitVec.ofNat w comp.depth := by
  unfold unregisterComponent at run
  split at run
  · simp_all
  next comp known =>
    simp only [Option.map_eq_some_iff, Prod.mk.injEq] at run
    obtain ⟨table, deleted, -, rfl⟩ := run
    have member := mgr.lookforComponent_mem known
    obtain ⟨before, after, split⟩ := List.append_of_mem member
    have distinct := addressed.distinct
    rw [split, List.map_append, List.map_cons] at distinct
    have apart := List.nodup_middle.mp distinct
    rw [List.nodup_cons, List.mem_append, not_or] at apart
    -- no earlier component has the address, so the erased element is the one found by name
    have erased : mgr.componentQueue.eraseP (fun other => other.handle = comp.handle) =
        before ++ after := by
      rw [split, List.eraseP_append_right, List.eraseP_cons_of_pos (by simp)]
      intro other present same
      exact apart.1.1 (of_decide_eq_true same ▸ List.mem_map_of_mem present)
    refine .inr ⟨comp, known, ⟨?_, ?_⟩, ?_, ?_, deleted, rfl⟩
    · rw [erased, List.map_append]
      exact apart.2
    · intro other present
      exact addressed.fresh other (List.mem_of_mem_eraseP present)
    · have perm : mgr.componentQueue.Perm (comp :: (before ++ after)) := split ▸ List.perm_middle
      rw [registered_of_perm mgr perm]
      simp only [registered, erased, List.map_cons, List.sum_cons]
    · intro entry present same
      obtain ⟨other, queued, own⟩ := (mem_registered _).mp present
      rw [erased] at queued
      rw [NamespaceComp.owner_of_mem_registrations own] at same
      exact (not_or.mpr apart.1) (List.mem_append.mp
        (List.map_append ▸ same ▸ List.mem_map_of_mem queued))

end Manager

end CcspCommon.NamespaceMgr
