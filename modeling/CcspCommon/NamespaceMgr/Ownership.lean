import CcspCommon.Shared.Run
import CcspCommon.NamespaceMgr.Registrations
import Mathlib.Data.Multiset.Filter
import Mathlib.Data.Multiset.UnionInter
import Mathlib.Data.List.Nodup

set_option autoImplicit false

namespace CcspCommon.NamespaceMgr

open CcspCommon.Shared CcspCommon.AnscPlatform

def NamespaceComp.names (comp : NamespaceComp) : List Text :=
  comp.paramspaceQueue.filterMap CcspNamespace.pName

def itemNames (items : List (Option NameSpaceType)) : List Text :=
  items.filterMap fun item => item.bind NameSpaceType.nameSpace

namespace Manager

variable {w : Nat}

def queuedNames (mgr : Manager w) : List Text := mgr.componentQueue.flatMap NamespaceComp.names

theorem queuedNames_registered (mgr : Manager w) :
    (mgr.queuedNames : Multiset Text) = mgr.registered.filterMap Registration.name := by
  unfold queuedNames registered
  induction mgr.componentQueue with
  | nil => rfl
  | cons comp rest ih =>
    have own : (comp.names : Multiset Text) = comp.registrations.filterMap Registration.name := by
      simp [NamespaceComp.names, NamespaceComp.registrations, List.filterMap_map, Function.comp_def,
        CcspNamespace.registration]
    rw [List.flatMap_cons, ← Multiset.coe_add, ih, own, List.map_cons, List.sum_cons]
    simp [Multiset.filterMap_add]

structure UniquelyOwned (mgr : Manager w) : Prop where
  once : mgr.queuedNames.Nodup
  owner : ∀ comp ∈ mgr.componentQueue, ∀ other ∈ mgr.componentQueue, ∀ name,
    name ∈ comp.names → name ∈ other.names → comp = other

theorem uniquelyOwned_of_nodup (mgr : Manager w)
    (distinct : (mgr.registered.filterMap Registration.name).Nodup) : mgr.UniquelyOwned := by
  rw [← queuedNames_registered, Multiset.coe_nodup] at distinct
  refine ⟨distinct, ?_⟩
  intro comp member other present name own foreign
  by_contra different
  have apart := (List.nodup_flatMap.mp distinct).2
  have symmetric : Std.Symm (Function.onFun List.Disjoint NamespaceComp.names) :=
    ⟨fun _ _ disjoint => List.Disjoint.symm disjoint⟩
  exact apart.forall member present different own foreign

structure OwnershipInvariant (mgr : Manager w) : Prop where
  addressed : mgr.Addressed
  distinct : (mgr.registered.filterMap Registration.name).Nodup
  known : ∀ entry ∈ mgr.registered, ∀ name, entry.name = some name →
    name ≠ [] ∧ ∃ other ∈ mgr.listed, other.name = some name

theorem create_ownershipInvariant : (create : Manager w).OwnershipInvariant where
  addressed := ⟨by simp [create], by simp [create]⟩
  distinct := by simp [create, registered]
  known := by simp [create, registered]

def KeepsOwnership (mgr : Manager w) : Call → Prop
  -- the conflict check looks at the table only, not at the other elements
  | .registerNamespaces pCompName _ _ items =>
    mgr.validateNamespaces pCompName items = .pass → (itemNames items).Nodup
  | .buildNamespaces _ _ _ items =>
    [] ∉ itemNames items ∧ ((itemNames items).filter fun name =>
      ((mgr.hAtomNamespace.getD ChainTable.empty).getAtomByName (some name)).isNone).Nodup
  -- otherwise the name stays queued at its owner and is free to be registered again
  | .unregisterNamespace pCompName pNamespace =>
    ∀ comp table atom, mgr.DeletesAtom pCompName pNamespace comp table atom →
      pNamespace ∈ comp.paramspaceQueue.map CcspNamespace.pName
  | .unregisterComponent _ => True
  | .cleanAll => True

theorem addNamespaces_ownershipInvariant (mgr : Manager w) (invariant : mgr.OwnershipInvariant)
    (pCompName pDbusPath pPrefix : Option Text) (settled : List NameSpaceType)
    (distinct : (settled.filterMap NameSpaceType.nameSpace).Nodup)
    (new : ∀ item ∈ settled, ∀ name, item.nameSpace = some name →
      name ≠ [] ∧ ∀ entry ∈ mgr.listed, entry.name ≠ some name)
    {status : Status} {after : Manager w}
    (run : mgr.addNamespaces pCompName pDbusPath pPrefix (settled.map some) = some (status, after)) :
    after.OwnershipInvariant := by
  obtain ⟨addressed, owner, registered, atoms, -⟩ :=
    mgr.addNamespaces_spec invariant.addressed _ _ _ settled run
  have listed : after.listed = _ := addAtoms_listed owner settled atoms
  have newNames : ((settled.map (NameSpaceType.registration owner) : List Registration) :
      Multiset Registration).filterMap Registration.name =
        (settled.filterMap NameSpaceType.nameSpace : List Text) := by
    simp [List.filterMap_map, Function.comp_def, NameSpaceType.registration]
  refine ⟨addressed, ?_, ?_⟩
  · rw [registered, Multiset.filterMap_add, newNames, Multiset.nodup_add]
    refine ⟨invariant.distinct, Multiset.coe_nodup.mpr distinct, ?_⟩
    rw [Multiset.disjoint_left]
    intro name old fresh
    obtain ⟨entry, queued, named⟩ := (Multiset.mem_filterMap _ _).mp old
    obtain ⟨item, present, carried⟩ := List.mem_filterMap.mp (Multiset.mem_coe.mp fresh)
    obtain ⟨other, inTable, sameName⟩ := (invariant.known entry queued name named).2
    exact (new item present name carried).2 other inTable sameName
  · intro entry member name named
    rw [registered, Multiset.mem_add] at member
    rw [listed]
    rcases member with old | fresh
    · obtain ⟨nonempty, other, inTable, sameName⟩ := invariant.known entry old name named
      exact ⟨nonempty, other, Multiset.mem_add.mpr (.inl inTable), sameName⟩
    · obtain ⟨item, present, rfl⟩ := List.mem_map.mp (Multiset.mem_coe.mp fresh)
      have nonempty := (new item present name named).1
      have carries := NameSpaceType.carriesName_of_nonempty named nonempty
      have added : item.registration owner ∈ (((settled.filter NameSpaceType.carriesName).map
          (NameSpaceType.registration owner) : List Registration) : Multiset Registration) :=
        List.mem_map_of_mem (List.mem_filter.mpr ⟨present, carries⟩)
      exact ⟨nonempty, _, Multiset.mem_add.mpr (.inr added), named⟩

theorem registerNamespaces_ownershipInvariant (mgr : Manager w) (invariant : mgr.OwnershipInvariant)
    (pCompName pDbusPath pPrefix : Option Text) (items : List (Option NameSpaceType))
    (safe : mgr.KeepsOwnership (.registerNamespaces pCompName pDbusPath pPrefix items))
    {status : Status} {after : Manager w}
    (run : mgr.registerNamespaces pCompName pDbusPath pPrefix items = some (status, after)) :
    after.OwnershipInvariant := by
  unfold registerNamespaces at run
  split at run
  · cases run
  · simp only [Option.some.injEq, Prod.mk.injEq] at run
    exact run.2 ▸ invariant
  next pass =>
    have distinct := safe pass
    obtain ⟨settled, rfl, each⟩ := mgr.validateNamespaces_pass pCompName items pass
    refine mgr.addNamespaces_ownershipInvariant invariant _ _ _ settled ?_ ?_ run
    · simpa [itemNames, List.filterMap_map, Function.comp_def] using distinct
    · intro item member name carried
      obtain ⟨other, table, named, nonempty, present, unknown⟩ := each item member
      obtain rfl : other = name := Option.some.inj (named.symm.trans carried)
      refine ⟨nonempty, ?_⟩
      rw [listed, present]
      exact not_listed_of_unknown nonempty unknown

theorem buildNamespaces_ownershipInvariant (mgr : Manager w) (invariant : mgr.OwnershipInvariant)
    (pCompName pDbusPath pPrefix : Option Text) (items : List (Option NameSpaceType))
    (safe : mgr.KeepsOwnership (.buildNamespaces pCompName pDbusPath pPrefix items))
    {status : Status} {after : Manager w}
    (run : mgr.buildNamespaces pCompName pDbusPath pPrefix items = some (status, after)) :
    after.OwnershipInvariant := by
  obtain ⟨nonempty, distinct⟩ := safe
  simp only [buildNamespaces, Option.bind_eq_some_iff] at run
  obtain ⟨copy, filtered, run⟩ := run
  obtain ⟨settled, rfl, within, unknown⟩ := unregistered_spec _ items copy filtered
  have sameListed : tableListed (some (mgr.hAtomNamespace.getD ChainTable.empty)) = mgr.listed :=
    tableListed_getD_empty mgr.hAtomNamespace
  have prepared : OwnershipInvariant { mgr with
      hAtomNamespace := some (mgr.hAtomNamespace.getD ChainTable.empty) } :=
    { addressed := ⟨invariant.addressed.distinct, invariant.addressed.fresh⟩
      distinct := invariant.distinct
      known := fun entry member name named => by
        obtain ⟨nonempty, other, inTable, sameName⟩ := invariant.known entry member name named
        have kept : other ∈ tableListed (some (mgr.hAtomNamespace.getD ChainTable.empty)) := by
          rw [sameListed]
          exact inTable
        exact ⟨nonempty, other, kept, sameName⟩ }
  have names : (items.filterMap id).filterMap NameSpaceType.nameSpace = itemNames items := by
    rw [List.filterMap_filterMap]
    rfl
  refine addNamespaces_ownershipInvariant _ prepared _ _ _ settled ?_ ?_ run
  · -- the names of the copy are the names of the array that the table does not know
    have shorter := (within.filterMap NameSpaceType.nameSpace).filter fun name =>
      ((mgr.hAtomNamespace.getD ChainTable.empty).getAtomByName (some name)).isNone
    rw [names] at shorter
    have all : (settled.filterMap NameSpaceType.nameSpace).filter (fun name =>
        ((mgr.hAtomNamespace.getD ChainTable.empty).getAtomByName (some name)).isNone) =
          settled.filterMap NameSpaceType.nameSpace := by
      refine List.filter_eq_self.mpr fun name member => ?_
      obtain ⟨item, present, carried⟩ := List.mem_filterMap.mp member
      rw [← carried, unknown item present]
      rfl
    rw [all] at shorter
    exact distinct.sublist shorter
  · intro item member name carried
    have inside : name ∈ itemNames items := by
      rw [← names]
      exact List.mem_filterMap.mpr ⟨item, within.subset member, carried⟩
    have named : name ≠ [] := fun empty => nonempty (empty ▸ inside)
    exact ⟨named, not_listed_of_unknown named (carried ▸ unknown item member)⟩

theorem unregisterNamespace_ownershipInvariant (mgr : Manager w) (invariant : mgr.OwnershipInvariant)
    (pCompName pNamespace : Option Text)
    (safe : mgr.KeepsOwnership (.unregisterNamespace pCompName pNamespace))
    {status : Status} {after : Manager w}
    (run : mgr.unregisterNamespace pCompName pNamespace = some (status, after)) :
    after.OwnershipInvariant := by
  rcases mgr.unregisterNamespace_cases pCompName pNamespace run with
    rfl | ⟨comp, table, atom, queue, deletes, popped, rfl⟩
  · exact invariant
  have queued := safe comp table atom deletes
  obtain ⟨rfl, -, -⟩ := table.getAtomByName_some deletes.found
  have member := mgr.lookforComponent_mem deletes.known
  obtain ⟨entry, owned⟩ : ∃ entry, comp.paramspaceQueue.find?
      (fun other => other.pName = some atom.atomName) = some entry := by
    rw [← Option.isSome_iff_exists, List.find?_isSome]
    simpa using queued
  have entryName : entry.pName = some atom.atomName := by simpa using List.find?_some owned
  obtain ⟨addressed, taken⟩ :=
    mgr.unregisterNamespace_owned invariant.addressed member owned popped
  have named : (entry.registration comp.handle).name = some atom.atomName := entryName
  have distinct := invariant.distinct
  rw [taken, Multiset.filterMap_cons_some _ _ _ named, Multiset.nodup_cons] at distinct
  refine ⟨⟨addressed.distinct, addressed.fresh⟩, distinct.2, ?_⟩
  intro other present name otherName
  have before : other ∈ mgr.registered := by
    rw [taken]
    exact Multiset.mem_cons_of_mem present
  obtain ⟨nonempty, atomEntry, inTable, sameName⟩ := invariant.known other before name otherName
  have different : name ≠ atom.atomName := by
    rintro rfl
    exact distinct.1 ((Multiset.mem_filterMap _ _).mpr ⟨other, present, otherName⟩)
  refine ⟨nonempty, atomEntry, ?_, sameName⟩
  rw [listed, deletes.present] at inTable
  obtain ⟨kept, keptIn, rfl⟩ := Multiset.mem_map.mp inTable
  refine Multiset.mem_map_of_mem _ ((table.delAtomByName_of_ne ?_).mpr keptIn)
  exact fun equal => different (Option.some.inj (sameName.symm.trans equal))

theorem delAtoms_keeps (queue : List CcspNamespace) {table after : Option (AtomTable w)}
    (run : delAtoms table queue = some after) {entry : Registration} (member : entry ∈ tableListed table)
    (other : entry.name ∉ queue.map CcspNamespace.pName) : entry ∈ tableListed after := by
  induction queue generalizing table with
  | nil =>
    simp only [delAtoms, Option.some.injEq] at run
    exact run ▸ member
  | cons first rest ih =>
    simp only [List.map_cons, List.mem_cons, not_or] at other
    cases table with
    | none => simp [delAtoms] at run
    | some table =>
      refine ih run ?_ other.2
      obtain ⟨kept, keptIn, rfl⟩ := Multiset.mem_map.mp member
      exact Multiset.mem_map_of_mem _ ((table.delAtomByName_of_ne other.1).mpr keptIn)

theorem unregisterComponent_ownershipInvariant (mgr : Manager w) (invariant : mgr.OwnershipInvariant)
    (pCompName : Option Text) {status : Status} {after : Manager w}
    (run : mgr.unregisterComponent pCompName = some (status, after)) : after.OwnershipInvariant := by
  rcases mgr.unregisterComponent_cases invariant.addressed pCompName run with
    rfl | ⟨comp, known, addressed, taken, foreign, deleted, total⟩
  · exact invariant
  have distinct := invariant.distinct
  rw [taken, Multiset.filterMap_add, Multiset.nodup_add] at distinct
  refine ⟨addressed, distinct.2.1, ?_⟩
  intro entry member name named
  have before : entry ∈ mgr.registered := by
    rw [taken]
    exact Multiset.mem_add.mpr (.inr member)
  obtain ⟨nonempty, other, inTable, sameName⟩ := invariant.known entry before name named
  refine ⟨nonempty, other, delAtoms_keeps _ deleted inTable ?_, sameName⟩
  intro queued
  obtain ⟨own, ownQueued, ownName⟩ := List.mem_map.mp queued
  have ownEntry : own.registration comp.handle ∈ comp.registrations :=
    Multiset.mem_coe.mpr (List.mem_map_of_mem ownQueued)
  exact Multiset.disjoint_left.mp distinct.2.2
    ((Multiset.mem_filterMap _ _).mpr ⟨_, ownEntry, ownName.trans sameName⟩)
    ((Multiset.mem_filterMap _ _).mpr ⟨entry, member, named⟩)

theorem cleanAll_ownershipInvariant (mgr : Manager w) : mgr.cleanAll.OwnershipInvariant where
  addressed := ⟨by simp [cleanAll], by simp [cleanAll]⟩
  distinct := by simp [cleanAll, registered]
  known := by simp [cleanAll, registered]

theorem step_ownershipInvariant (mgr after : Manager w) (call : Call)
    (invariant : mgr.OwnershipInvariant) (safe : mgr.KeepsOwnership call)
    (run : mgr.step call = some after) : after.OwnershipInvariant := by
  cases call with
  | registerNamespaces pCompName pDbusPath pPrefix items =>
    obtain ⟨⟨status, result⟩, made, rfl⟩ := Option.map_eq_some_iff.mp run
    exact mgr.registerNamespaces_ownershipInvariant invariant _ _ _ items safe made
  | buildNamespaces pCompName pDbusPath pPrefix items =>
    obtain ⟨⟨status, result⟩, made, rfl⟩ := Option.map_eq_some_iff.mp run
    exact mgr.buildNamespaces_ownershipInvariant invariant _ _ _ items safe made
  | unregisterNamespace pCompName pNamespace =>
    obtain ⟨⟨status, result⟩, made, rfl⟩ := Option.map_eq_some_iff.mp run
    exact mgr.unregisterNamespace_ownershipInvariant invariant _ _ safe made
  | unregisterComponent pCompName =>
    obtain ⟨⟨status, result⟩, made, rfl⟩ := Option.map_eq_some_iff.mp run
    exact mgr.unregisterComponent_ownershipInvariant invariant _ made
  | cleanAll =>
    obtain rfl := Option.some.inj run
    exact mgr.cleanAll_ownershipInvariant

theorem parameters_uniquely_owned {mgr : Manager w}
    (reached : Reachable step KeepsOwnership create mgr) : mgr.UniquelyOwned :=
  mgr.uniquelyOwned_of_nodup (reached.invariant create_ownershipInvariant fun before after call =>
    step_ownershipInvariant before after call).distinct

theorem parameters_uniquely_owned_registered : ∃ mgr : Manager 64,
    create.step (.registerNamespaces (some "A".toList) none none
      [some ⟨some "Device.x".toList, .string⟩, some ⟨some "Device.y".toList, .int⟩]) = some mgr ∧
    mgr.UniquelyOwned := by
  have allowed : (create : Manager 64).KeepsOwnership (.registerNamespaces (some "A".toList) none none
      [some ⟨some "Device.x".toList, .string⟩, some ⟨some "Device.y".toList, .int⟩]) :=
    fun _ => by decide
  exact ⟨_, rfl, parameters_uniquely_owned (.next .start allowed rfl)⟩

theorem parameter_queued_twice_by_repeated_name :
    ¬ ∀ mgr : Manager 64, Reachable step (fun _ _ => True) create mgr → mgr.UniquelyOwned := by
  intro always
  let calls : List Call := [.registerNamespaces (some "A".toList) none none
    [some ⟨some "Device.x".toList, .string⟩, some ⟨some "Device.x".toList, .string⟩]]
  obtain ⟨mgr, run⟩ : ∃ mgr : Manager 64, runAll step create calls = some mgr := ⟨_, rfl⟩
  have once := (always mgr (runAll_reachable calls (fun _ _ _ => trivial) .start run)).once
  obtain rfl := Option.some.inj run
  have names : ¬ ["Device.x".toList, "Device.x".toList].Nodup := by decide
  exact names once

end Manager

end CcspCommon.NamespaceMgr
