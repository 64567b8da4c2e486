import CcspCommon.Shared.Run
import CcspCommon.NamespaceMgr.Registrations

set_option autoImplicit false

namespace CcspCommon.NamespaceMgr.Manager

open CcspCommon.Shared CcspCommon.AnscPlatform

variable {w : Nat}

structure Consistent (mgr : Manager w) : Prop where
  same : mgr.listed = mgr.registered
  counted : mgr.uTotalNamespace = BitVec.ofNat w mgr.totalQueued

structure StoreInvariant (mgr : Manager w) : Prop where
  addressed : mgr.Addressed
  consistent : mgr.Consistent
  named : ∀ entry ∈ mgr.registered, ∃ name, entry.name = some name ∧ name ≠ []
  owned : ∀ entry ∈ mgr.registered, ∀ other ∈ mgr.registered,
    entry.name = other.name → entry.owner = other.owner

theorem create_storeInvariant : (create : Manager w).StoreInvariant where
  addressed := ⟨by simp [create], by simp [create]⟩
  consistent := ⟨by simp [create, listed, tableListed, registered], by simp [create, totalQueued]⟩
  named := by simp [create, registered]
  owned := by simp [create, registered]

def KeepsConsistent (mgr : Manager w) : Call → Prop
  | .registerNamespaces _ _ _ _ => True
  -- an element without a name gets a queue entry but no atom
  | .buildNamespaces _ _ _ items =>
    ∀ item, some item ∈ items → ∃ name, item.nameSpace = some name ∧ name ≠ []
  -- otherwise another component's atom goes, and the last entry of this queue with it
  | .unregisterNamespace pCompName pNamespace =>
    ∀ comp table atom, mgr.DeletesAtom pCompName pNamespace comp table atom →
      ∃ entry, comp.paramspaceQueue.find? (fun other => other.pName = pNamespace) = some entry ∧
        entry.uType = atom.atomId
  -- the queue depth that is subtracted has 16 bits
  | .unregisterComponent pCompName =>
    ∀ comp, mgr.lookforComponent pCompName = some comp → comp.paramspaceQueue.length < 2 ^ 16
  -- the counter is not reset
  | .cleanAll => mgr.uTotalNamespace = 0

theorem addNamespaces_storeInvariant (mgr : Manager w) (invariant : mgr.StoreInvariant)
    (pCompName pDbusPath pPrefix : Option Text) (settled : List NameSpaceType)
    (new : ∀ item ∈ settled, ∃ name, item.nameSpace = some name ∧ name ≠ [] ∧
      ∀ entry ∈ mgr.listed, entry.name ≠ some name)
    {status : Status} {after : Manager w}
    (run : mgr.addNamespaces pCompName pDbusPath pPrefix (settled.map some) = some (status, after)) :
    after.StoreInvariant := by
  obtain ⟨addressed, owner, registered, atoms, total⟩ :=
    mgr.addNamespaces_spec invariant.addressed _ _ _ settled run
  have named : ∀ item ∈ settled, ∃ name, item.nameSpace = some name ∧ name ≠ [] := by
    intro item member
    obtain ⟨name, carried, nonempty, -⟩ := new item member
    exact ⟨name, carried, nonempty⟩
  have allNamed : settled.filter NameSpaceType.carriesName = settled := by
    refine List.filter_eq_self.mpr fun item member => ?_
    obtain ⟨name, carried, nonempty⟩ := named item member
    exact NameSpaceType.carriesName_of_nonempty carried nonempty
  have listed : after.listed = _ := addAtoms_listed owner settled atoms
  have apart : ∀ item ∈ settled, ∀ entry ∈ mgr.registered, entry.name ≠ item.nameSpace := by
    intro item member entry present
    obtain ⟨name, carried, -, unknown⟩ := new item member
    rw [carried]
    exact unknown entry (invariant.consistent.same ▸ present)
  refine ⟨addressed, ⟨?_, ?_⟩, ?_, ?_⟩
  · rw [listed, allNamed, registered]
    exact congrArg (· + _) invariant.consistent.same
  · rw [total, invariant.consistent.counted, ← card_registered, ← card_registered, registered,
      ← BitVec.ofNat_add]
    simp
  · intro entry member
    rw [registered, Multiset.mem_add] at member
    rcases member with old | fresh
    · exact invariant.named entry old
    · obtain ⟨item, present, rfl⟩ := List.mem_map.mp (Multiset.mem_coe.mp fresh)
      exact named item present
  · intro entry member other present same
    rw [registered, Multiset.mem_add] at member present
    rcases member with old | fresh <;> rcases present with oldOther | freshOther
    · exact invariant.owned entry old other oldOther same
    · obtain ⟨item, inside, rfl⟩ := List.mem_map.mp (Multiset.mem_coe.mp freshOther)
      exact absurd same (apart item inside entry old)
    · obtain ⟨item, inside, rfl⟩ := List.mem_map.mp (Multiset.mem_coe.mp fresh)
      exact absurd same.symm (apart item inside other oldOther)
    · obtain ⟨item, -, rfl⟩ := List.mem_map.mp (Multiset.mem_coe.mp fresh)
      obtain ⟨item', -, rfl⟩ := List.mem_map.mp (Multiset.mem_coe.mp freshOther)
      rfl

theorem registerNamespaces_storeInvariant (mgr : Manager w) (invariant : mgr.StoreInvariant)
    (pCompName pDbusPath pPrefix : Option Text) (items : List (Option NameSpaceType))
    {status : Status} {after : Manager w}
    (run : mgr.registerNamespaces pCompName pDbusPath pPrefix items = some (status, after)) :
    after.StoreInvariant := by
  unfold registerNamespaces at run
  split at run
  · cases run
  · simp only [Option.some.injEq, Prod.mk.injEq] at run
    exact run.2 ▸ invariant
  next pass =>
    obtain ⟨settled, rfl, each⟩ := mgr.validateNamespaces_pass pCompName items pass
    refine mgr.addNamespaces_storeInvariant invariant _ _ _ settled ?_ run
    intro item member
    obtain ⟨name, table, carried, nonempty, present, unknown⟩ := each item member
    refine ⟨name, carried, nonempty, ?_⟩
    rw [listed, present]
    exact not_listed_of_unknown nonempty unknown

theorem buildNamespaces_storeInvariant (mgr : Manager w) (invariant : mgr.StoreInvariant)
    (pCompName pDbusPath pPrefix : Option Text) (items : List (Option NameSpaceType))
    (named : ∀ item, some item ∈ items → ∃ name, item.nameSpace = some name ∧ name ≠ [])
    {status : Status} {after : Manager w}
    (run : mgr.buildNamespaces pCompName pDbusPath pPrefix items = some (status, after)) :
    after.StoreInvariant := by
  simp only [buildNamespaces, Option.bind_eq_some_iff] at run
  obtain ⟨copy, filtered, run⟩ := run
  obtain ⟨settled, rfl, within, unknown⟩ := unregistered_spec _ items copy filtered
  have sameListed : tableListed (some (mgr.hAtomNamespace.getD ChainTable.empty)) = mgr.listed :=
    tableListed_getD_empty mgr.hAtomNamespace
  have prepared : StoreInvariant { mgr with
      hAtomNamespace := some (mgr.hAtomNamespace.getD ChainTable.empty) } :=
    { addressed := ⟨invariant.addressed.distinct, invariant.addressed.fresh⟩
      consistent := ⟨sameListed.trans invariant.consistent.same, invariant.consistent.counted⟩
      named := invariant.named
      owned := invariant.owned }
  refine addNamespaces_storeInvariant _ prepared _ _ _ settled ?_ run
  intro item member
  have inside : some item ∈ items := by simpa using within.subset member
  obtain ⟨name, carried, nonempty⟩ := named item inside
  refine ⟨name, carried, nonempty, ?_⟩
  exact not_listed_of_unknown nonempty (carried ▸ unknown item member)

theorem unregisterNamespace_storeInvariant (mgr : Manager w) (invariant : mgr.StoreInvariant)
    (pCompName pNamespace : Option Text)
    (safe : mgr.KeepsConsistent (.unregisterNamespace pCompName pNamespace))
    {status : Status} {after : Manager w}
    (run : mgr.unregisterNamespace pCompName pNamespace = some (status, after)) :
    after.StoreInvariant := by
  rcases mgr.unregisterNamespace_cases pCompName pNamespace run with
    rfl | ⟨comp, table, atom, queue, deletes, popped, rfl⟩
  · exact invariant
  obtain ⟨entry, owned, sameType⟩ := safe comp table atom deletes
  obtain ⟨rfl, -, inTable⟩ := table.getAtomByName_some deletes.found
  have member := mgr.lookforComponent_mem deletes.known
  have entryName : entry.pName = some atom.atomName := by simpa using List.find?_some owned
  obtain ⟨addressed, taken⟩ :=
    mgr.unregisterNamespace_owned invariant.addressed member owned popped
  have before : mgr.listed = atomRegistration atom ::ₘ
      tableListed (some (table.delAtomByName (some atom.atomName))) := by
    simp only [listed, deletes.present, tableListed]
    rw [← table.delAtomByName_entries deletes.found, Multiset.map_cons]
  -- all entries of one name have one owner, so the atom is the one of this component
  have sameOwner : comp.handle = atom.hContext := by
    refine invariant.owned (entry.registration comp.handle) ?_ (atomRegistration atom) ?_ entryName
    · exact taken ▸ Multiset.mem_cons_self _ _
    · rw [← invariant.consistent.same, before]
      exact Multiset.mem_cons_self _ _
  have sameEntry : entry.registration comp.handle = atomRegistration atom := by
    rw [CcspNamespace.registration, atomRegistration, entryName, sameType, sameOwner]
  have kept : ∀ other ∈ (mgr.putComponent { comp with paramspaceQueue := queue }).registered,
      other ∈ mgr.registered := by
    intro other present
    rw [taken]
    exact Multiset.mem_cons_of_mem present
  refine ⟨⟨addressed.distinct, addressed.fresh⟩, ⟨?_, ?_⟩, ?_, ?_⟩
  · have equal := invariant.consistent.same
    rw [before, taken, sameEntry] at equal
    exact (Multiset.cons_inj_right _).mp equal
  · change mgr.uTotalNamespace - 1 = BitVec.ofNat w (mgr.putComponent _).totalQueued
    rw [invariant.consistent.counted, ← card_registered, taken, Multiset.card_cons, card_registered,
      BitVec.ofNat_add]
    simp
  · exact fun other present => invariant.named other (kept other present)
  · exact fun other present third within =>
      invariant.owned other (kept other present) third (kept third within)

theorem delAtoms_listed (queue : List CcspNamespace) {table after : Option (AtomTable w)}
    {mine others : Multiset Registration} (split : tableListed table = mine + others)
    (names : mine.map Registration.name = (queue.map CcspNamespace.pName : List (Option Text)))
    (named : ∀ entry ∈ mine, ∃ name, entry.name = some name ∧ name ≠ [])
    (apart : ∀ entry ∈ mine, ∀ other ∈ others, entry.name ≠ other.name)
    (run : delAtoms table queue = some after) : tableListed after = others := by
  induction queue generalizing table mine with
  | nil =>
    simp only [delAtoms, Option.some.injEq] at run
    have empty : mine = 0 := by simpa using names
    rw [← run, split, empty, zero_add]
  | cons first rest ih =>
    cases table with
    | none => simp [delAtoms] at run
    | some table =>
      simp only [delAtoms] at run
      have present : first.pName ∈ mine.map Registration.name := by simp [names]
      obtain ⟨entry, entryMine, entryName⟩ := Multiset.mem_map.mp present
      obtain ⟨name, known, nonempty⟩ := named entry entryMine
      have firstName : first.pName = some name := by rw [← entryName, known]
      cases found : table.getAtomByName (some name) with
      | none =>
        have listed : entry ∈ tableListed (some table) := by
          rw [split]
          exact Multiset.mem_add.mpr (.inl entryMine)
        exact absurd known (not_listed_of_unknown nonempty found entry listed)
      | some atom =>
        have removed := table.delAtomByName_entries found
        have atomName : (atomRegistration atom).name = some name := ((table.getAtomByName_some found).1).symm
        have atomListed : atomRegistration atom ∈ mine + others := by
          rw [← split]
          exact Multiset.mem_map_of_mem _ (table.getAtomByName_some found).2.2
        have atomMine : atomRegistration atom ∈ mine := by
          rcases Multiset.mem_add.mp atomListed with own | foreign
          · exact own
          · exact absurd (known.trans atomName.symm) (apart entry entryMine _ foreign)
        obtain ⟨later, rfl⟩ := Multiset.exists_cons_of_mem atomMine
        rw [firstName] at run
        refine @ih _ later ?_ ?_ ?_ ?_ run
        · simp only [tableListed] at split ⊢
          rw [← removed, Multiset.map_cons, Multiset.cons_add] at split
          exact (Multiset.cons_inj_right _).mp split
        · rw [Multiset.map_cons, List.map_cons, ← Multiset.cons_coe, firstName, atomName] at names
          exact (Multiset.cons_inj_right _).mp names
        · exact fun other member => named other (Multiset.mem_cons_of_mem member)
        · exact fun other member => apart other (Multiset.mem_cons_of_mem member)

theorem unregisterComponent_storeInvariant (mgr : Manager w) (invariant : mgr.StoreInvariant)
    (pCompName : Option Text) (safe : mgr.KeepsConsistent (.unregisterComponent pCompName))
    {status : Status} {after : Manager w}
    (run : mgr.unregisterComponent pCompName = some (status, after)) : after.StoreInvariant := by
  rcases mgr.unregisterComponent_cases invariant.addressed pCompName run with
    rfl | ⟨comp, known, addressed, taken, foreign, deleted, total⟩
  · exact invariant
  have shallow : comp.depth = comp.paramspaceQueue.length := Nat.mod_eq_of_lt (safe comp known)
  have mine : ∀ entry ∈ comp.registrations, entry ∈ mgr.registered := by
    intro entry member
    rw [taken]
    exact Multiset.mem_add.mpr (.inl member)
  have rest : ∀ entry ∈ after.registered, entry ∈ mgr.registered := by
    intro entry member
    rw [taken]
    exact Multiset.mem_add.mpr (.inr member)
  refine ⟨addressed, ⟨?_, ?_⟩, ?_, ?_⟩
  · have split : tableListed mgr.hAtomNamespace = comp.registrations + after.registered := by
      rw [← taken]
      exact invariant.consistent.same
    refine delAtoms_listed comp.paramspaceQueue split ?_ ?_ ?_ deleted
    · simp [NamespaceComp.registrations, Function.comp_def, CcspNamespace.registration]
    · exact fun entry member => invariant.named entry (mine entry member)
    · intro entry member other present same
      have sameOwner := invariant.owned entry (mine entry member) other (rest other present) same
      rw [NamespaceComp.owner_of_mem_registrations member] at sameOwner
      exact foreign other present sameOwner.symm
  · rw [total, shallow, invariant.consistent.counted, ← card_registered, ← card_registered, taken]
    simp [NamespaceComp.registrations, BitVec.ofNat_add]
  · exact fun entry member => invariant.named entry (rest entry member)
  · exact fun entry member other present =>
      invariant.owned entry (rest entry member) other (rest other present)

theorem cleanAll_storeInvariant (mgr : Manager w) (cleared : mgr.uTotalNamespace = 0) :
    mgr.cleanAll.StoreInvariant where
  addressed := ⟨by simp [cleanAll], by simp [cleanAll]⟩
  consistent := ⟨by simp [cleanAll, listed, tableListed, registered],
    by simp [cleanAll, totalQueued, cleared]⟩
  named := by simp [cleanAll, registered]
  owned := by simp [cleanAll, registered]

theorem step_storeInvariant (mgr after : Manager w) (call : Call) (invariant : mgr.StoreInvariant)
    (safe : mgr.KeepsConsistent call) (run : mgr.step call = some after) : after.StoreInvariant := by
  cases call with
  | registerNamespaces pCompName pDbusPath pPrefix items =>
    obtain ⟨⟨status, result⟩, made, rfl⟩ := Option.map_eq_some_iff.mp run
    exact mgr.registerNamespaces_storeInvariant invariant _ _ _ items made
  | buildNamespaces pCompName pDbusPath pPrefix items =>
    obtain ⟨⟨status, result⟩, made, rfl⟩ := Option.map_eq_some_iff.mp run
    exact mgr.buildNamespaces_storeInvariant invariant _ _ _ items safe made
  | unregisterNamespace pCompName pNamespace =>
    obtain ⟨⟨status, result⟩, made, rfl⟩ := Option.map_eq_some_iff.mp run
    exact mgr.unregisterNamespace_storeInvariant invariant _ _ safe made
  | unregisterComponent pCompName =>
    obtain ⟨⟨status, result⟩, made, rfl⟩ := Option.map_eq_some_iff.mp run
    exact mgr.unregisterComponent_storeInvariant invariant _ safe made
  | cleanAll =>
    obtain rfl := Option.some.inj run
    exact mgr.cleanAll_storeInvariant safe

theorem store_consistent {mgr : Manager w}
    (reached : Reachable step KeepsConsistent create mgr) : mgr.Consistent :=
  (reached.invariant create_storeInvariant fun before after call =>
    step_storeInvariant before after call).consistent

theorem store_consistent_registered : ∃ registered released mgr : Manager 64,
    runAll step create
      [.registerNamespaces (some "A".toList) none none
        [some ⟨some "Device.x".toList, .string⟩, some ⟨some "Device.y".toList, .string⟩],
      .registerNamespaces (some "B".toList) none none [some ⟨some "Device.z".toList, .string⟩]] = some registered ∧
    registered.step (.unregisterNamespace (some "A".toList) (some "Device.x".toList)) = some released ∧
    released.step (.unregisterComponent (some "B".toList)) = some mgr ∧ mgr.Consistent := by
  refine ⟨_, _, _, rfl, rfl, rfl, ?_⟩
  refine store_consistent (((runAll_reachable
    [.registerNamespaces (some "A".toList) none none
      [some ⟨some "Device.x".toList, .string⟩, some ⟨some "Device.y".toList, .string⟩],
    .registerNamespaces (some "B".toList) none none [some ⟨some "Device.z".toList, .string⟩]] ?_ .start rfl).via
      (.unregisterNamespace (some "A".toList) (some "Device.x".toList)) ?_ rfl).via
      (.unregisterComponent (some "B".toList)) ?_ rfl)
  next =>
    intro mgr call member
    rcases List.mem_pair.mp member with rfl | rfl <;> trivial
  next =>
    rintro comp table atom ⟨known, -, present, found⟩
    obtain rfl := Option.some.inj known
    obtain rfl := Option.some.inj present
    obtain rfl := Option.some.inj found
    exact ⟨_, rfl, rfl⟩
  next =>
    intro comp known
    obtain rfl := Option.some.inj known
    decide

theorem Consistent.known {mgr : Manager w} (consistent : mgr.Consistent) (comp : NamespaceComp)
    (entry : CcspNamespace) (name : Text) (member : comp ∈ mgr.componentQueue)
    (queued : entry ∈ comp.paramspaceQueue) (carried : entry.pName = some name) (nonempty : name ≠ [])
    {table : AtomTable w}
    (present : mgr.hAtomNamespace = some table) : table.getAtomByName (some name) ≠ none := by
  intro unknown
  have listed : entry.registration comp.handle ∈ mgr.listed := by
    rw [consistent.same, mem_registered]
    exact ⟨comp, member, Multiset.mem_coe.mpr (List.mem_map_of_mem queued)⟩
  rw [Manager.listed, present] at listed
  exact not_listed_of_unknown nonempty unknown _ listed carried

theorem store_inconsistent_after_foreign_unregister :
    ¬ ∀ mgr : Manager 64, Reachable step (fun _ _ => True) create mgr → mgr.Consistent := by
  intro always
  let calls : List Call :=
    [.registerNamespaces (some "A".toList) none none [some ⟨some "Device.x".toList, .string⟩],
     .registerNamespaces (some "B".toList) none none [some ⟨some "Device.y".toList, .string⟩],
     .unregisterNamespace (some "B".toList) (some "Device.x".toList)]
  obtain ⟨mgr, run⟩ : ∃ mgr : Manager 64, runAll step create calls = some mgr := ⟨_, rfl⟩
  have consistent := always mgr (runAll_reachable calls (fun _ _ _ => trivial) .start run)
  obtain rfl := Option.some.inj run
  refine consistent.known ⟨1, "A".toList, [], [], [⟨some "Device.x".toList, .string, false⟩]⟩
    ⟨some "Device.x".toList, .string, false⟩ "Device.x".toList ?_ ?_ rfl ?_ rfl ?_
  · exact List.mem_cons_self
  · exact List.mem_cons_self
  · decide
  · rfl

end CcspCommon.NamespaceMgr.Manager
